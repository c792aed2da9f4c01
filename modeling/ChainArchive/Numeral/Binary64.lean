namespace ChainArchive.Numeral

/-- Whether `significand · 2 ^ exponent` is a canonical form: 53 bits, full unless the exponent
is the least one. -/
def Canonical (significand : Nat) (exponent : Int) : Prop :=
  significand < Nat.pow 2 53 ∧ -1074 ≤ exponent ∧ exponent ≤ 971 ∧
    (Nat.pow 2 52 ≤ significand ∨ exponent = -1074)

instance (m : Nat) (e : Int) : Decidable (Canonical m e) :=
  inferInstanceAs (Decidable (_ ∧ _))

/-- A finite number of double width, in its one canonical form: equality of values, with the two
zeros apart, is equality of structures. -/
structure Binary64 where
  negative : Bool
  significand : Nat
  exponent : Int
  canonical : Canonical significand exponent
  deriving DecidableEq, Repr

namespace Binary64

def zero (negative : Bool) : Binary64 :=
  ⟨negative, 0, -1074, by decide⟩

def fraction (x : Binary64) : Nat × Nat :=
  (x.significand * Nat.pow 2 x.exponent.toNat, Nat.pow 2 (-x.exponent).toNat)

def whole (x : Binary64) : Nat :=
  x.fraction.1 / x.fraction.2

def isInteger (x : Binary64) : Bool :=
  x.fraction.1 % x.fraction.2 == 0

def truncate (x : Binary64) : Int :=
  if x.negative then -(x.whole : Int) else x.whole

def numerator (x : Binary64) : Int :=
  if x.negative then -(x.fraction.1 : Int) else x.fraction.1

def floor (x : Binary64) : Int :=
  x.numerator.fdiv x.fraction.2

def roundHalfUp (num : Int) (den : Nat) : Int :=
  (2 * num + den).fdiv (2 * den)

def roundHalfEven (num den : Nat) : Nat :=
  let q := num / den
  let r := num % den
  if 2 * r < den then q else if den < 2 * r then q + 1 else q + q % 2

def exponentFor (num den : Nat) : Int :=
  let e : Int := (num.log2 : Int) - den.log2 - 53
  let q := (num * Nat.pow 2 (-e).toNat) / (den * Nat.pow 2 e.toNat)
  max (-1074) (if Nat.pow 2 53 ≤ q then e + 1 else e)

/-- The number nearest to `num / den`, a tie going to the even significand; none beyond the
greatest finite number. -/
def nearest? (negative : Bool) (num den : Nat) : Option Binary64 :=
  if num = 0 then some (zero negative)
  else
    let e := exponentFor num den
    let m := roundHalfEven (num * Nat.pow 2 (-e).toNat) (den * Nat.pow 2 e.toNat)
    let (m, e) := if m = Nat.pow 2 53 then (Nat.pow 2 52, e + 1) else (m, e)
    if h : Canonical m e then some ⟨negative, m, e, h⟩ else none

/-- How far the number is above its floor, rounded to double width. -/
def aboveFloor? (x : Binary64) : Option Binary64 :=
  nearest? false (x.numerator.fmod x.fraction.2).toNat x.fraction.2

def times? (x : Binary64) (n : Nat) : Option Binary64 :=
  nearest? x.negative (x.fraction.1 * n) x.fraction.2

def nearestInteger (x : Binary64) : Int :=
  roundHalfUp x.numerator x.fraction.2

/-- The number nearest to `coefficient · 10 ^ scale`. Exponents that leave the range whatever the
coefficient are settled without computing the power. -/
def ofDecimal? (negative : Bool) (coefficient : Nat) (scale : Int) : Option Binary64 :=
  let size : Int := (Nat.toDigits 10 coefficient).length + scale
  if coefficient = 0 ∨ size < -400 then some (zero negative)
  else if 400 < size then none
  else nearest? negative (coefficient * Nat.pow 10 scale.toNat) (Nat.pow 10 (-scale).toNat)

end Binary64

end ChainArchive.Numeral
