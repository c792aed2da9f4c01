import ChainArchive.Numeral.Binary64

namespace ChainArchive.Numeral

structure Digits where
  digits : List Char
  point : Int
  deriving DecidableEq, Repr

namespace Binary64

/-- A positive number with the ends of the interval that rounds to it, over one denominator. -/
structure Interval where
  low : Nat
  value : Nat
  high : Nat
  den : Nat
  closed : Bool

/-- The interval of `x`. The ends lie half-way to the neighbours, and belong to it when the
significand is even; below a power of two the neighbour is twice as near. -/
def interval (x : Binary64) : Interval :=
  let scale := Nat.pow 2 (x.exponent - 2).toNat
  let down := if x.significand = Nat.pow 2 52 ∧ x.exponent ≠ -1074 then 1 else 2
  { low := (4 * x.significand - down) * scale
    value := 4 * x.significand * scale
    high := (4 * x.significand + 2) * scale
    den := Nat.pow 2 (2 - x.exponent).toNat
    closed := x.significand % 2 == 0 }

def Interval.holds (i : Interval) (c num den : Nat) : Bool :=
  let point := c * num * i.den
  if i.closed then i.low * den ≤ point && point ≤ i.high * den
  else i.low * den < point && point < i.high * den

def Interval.magnitude (i : Interval) : Int :=
  if i.den ≤ i.value then (Nat.toDigits 10 (i.value / i.den)).length
  else 1 - (Nat.toDigits 10 ((i.den - 1) / i.value)).length

/-- The multiple of `10 ^ (p - n)` that reads back and lies nearest, if one of the two around the
value reads back; a tie goes to the even one. -/
def Interval.onGrid? (i : Interval) (p : Int) (n : Nat) : Option Nat :=
  let num := Nat.pow 10 (p - n).toNat
  let den := Nat.pow 10 ((n : Int) - p).toNat
  let below := i.value * den / (i.den * num)
  let above := below + 1
  match i.holds below num den, i.holds above num den with
  | true, false => some below
  | false, true => some above
  | false, false => none
  | true, true =>
    let toBelow := i.value * den - below * num * i.den
    let toAbove := above * num * i.den - i.value * den
    if toBelow < toAbove then some below
    else if toAbove < toBelow then some above
    else some (below + below % 2)

def Interval.shortestFrom (i : Interval) (p : Int) : (fuel n : Nat) → Digits
  | 0, n =>
    ⟨Nat.toDigits 10 (i.value * Nat.pow 10 ((n : Int) - p).toNat /
      (i.den * Nat.pow 10 (p - n).toNat)), p⟩
  | fuel + 1, n =>
    match i.onGrid? p n with
    | some c =>
      let ds := Nat.toDigits 10 c
      ⟨ds, p + (ds.length : Int) - n⟩
    | none => i.shortestFrom p fuel (n + 1)

def shortest (x : Binary64) : Digits :=
  let i := x.interval
  i.shortestFrom i.magnitude 17 1

end Binary64

structure Layout where
  leastPlain : Int
  firstScaled : Int
  exponentWidth : Nat

def numberLayout : Layout := ⟨-4, 16, 2⟩

def padLeft (width : Nat) (cs : List Char) : List Char :=
  List.replicate (width - cs.length) '0' ++ cs

def dropTrailingZeros (ds : List Char) : List Char :=
  (ds.reverse.dropWhile (· == '0')).reverse

def Layout.write (l : Layout) (d : Digits) : List Char :=
  let ds := dropTrailingZeros d.digits
  let e := d.point - 1
  if l.leastPlain ≤ e ∧ e < l.firstScaled then
    if d.point ≤ 0 then '0' :: '.' :: List.replicate (-d.point).toNat '0' ++ ds
    else
      let k := d.point.toNat
      let before := ds.take k ++ List.replicate (k - ds.length) '0'
      let after := ds.drop k
      before ++ '.' :: (if after.isEmpty then ['0'] else after)
  else
    let body := match ds with
      | [] => []
      | [c] => [c]
      | c :: rest => c :: '.' :: rest
    body ++ 'e' :: (if e < 0 then '-' else '+') ::
      padLeft l.exponentWidth (Nat.toDigits 10 e.natAbs)

/-- The shortest text that reads back as the number, and of those of equal length the nearest to
it. -/
def Binary64.text (x : Binary64) : String :=
  let body := if x.significand = 0 then ['0', '.', '0'] else numberLayout.write x.shortest
  String.ofList (if x.negative then '-' :: body else body)

end ChainArchive.Numeral
