import ChainArchive.Numeral.Digits
import ChainArchive.Time.Moment

namespace ChainArchive.Time

open ChainArchive.Numeral

inductive MomentError where
  | malformed
  /-- The form is right but the year is 0. -/
  | outOfRange
  | withoutOffset
  deriving DecidableEq, Repr

def fixedDigits? (width : Nat) (cs : List Char) : Option (Nat × List Char) :=
  let ds := cs.take width
  if ds.length = width ∧ ds.all Char.isDigit then
    some (natOfDigits ds, cs.drop width)
  else none

def afterOne? (marks : List Char) : List Char → Option (List Char)
  | c :: rest => if marks.contains c then some rest else none
  | [] => none

/-- Reads `YYYY-MM-DD`; the day has to exist, the year 0 is left to the caller. -/
def readDate? (cs : List Char) : Option ((Nat × Nat × Nat) × List Char) := do
  let (y, cs) ← fixedDigits? 4 cs
  let cs ← afterOne? ['-'] cs
  let (m, cs) ← fixedDigits? 2 cs
  let cs ← afterOne? ['-'] cs
  let (d, cs) ← fixedDigits? 2 cs
  if 1 ≤ d ∧ d ≤ daysInMonth y m then pure ((y, m, d), cs) else none

def microsOf (ds : List Char) : Nat :=
  natOfDigits ((ds ++ List.replicate 6 '0').take 6)

def readFraction? : List Char → Option (Nat × List Char)
  | c :: rest =>
    if c == '.' || c == ',' then
      let (ds, rest) := spanDigits rest
      if ds.isEmpty then none else some (microsOf ds, rest)
    else some (0, c :: rest)
  | [] => some (0, [])

def readSeconds? : List Char → Option ((Nat × Nat) × List Char)
  | ':' :: rest => do
    let (s, rest) ← fixedDigits? 2 rest
    if s < 60 then
      let (us, rest) ← readFraction? rest
      pure ((s, us), rest)
    else none
  | cs => some ((0, 0), cs)

def readTime? (cs : List Char) : Option ((Nat × Nat × Nat × Nat) × List Char) := do
  let (h, cs) ← fixedDigits? 2 cs
  let cs ← afterOne? [':'] cs
  let (mi, cs) ← fixedDigits? 2 cs
  let ((s, us), cs) ← readSeconds? cs
  if h < 24 ∧ mi < 60 then pure ((h, mi, s, us), cs) else none

def readOffsetSize? (cs : List Char) : Option Int := do
  let (h, cs) ← fixedDigits? 2 cs
  let (m, cs) ← fixedDigits? 2 ((afterOne? [':'] cs).getD cs)
  if cs.isEmpty ∧ h < 24 ∧ m < 60 then pure (h * 3600 + m * 60 : Nat) else none

def readOffset? : List Char → Option (Option Int)
  | [] => some none
  | c :: rest =>
    if c == 'Z' || c == 'z' then if rest.isEmpty then some (some 0) else none
    else if c == '+' then (readOffsetSize? rest).map some
    else if c == '-' || c == Char.ofNat 0x2212 then (readOffsetSize? rest).map (some <| -·)
    else none

def readCalendar? (cs : List Char) :
    Option ((Nat × Nat × Nat) × (Nat × Nat × Nat × Nat) × Option Int) := do
  let (date, cs) ← readDate? cs
  if cs.isEmpty then pure (date, (0, 0, 0, 0), none)
  else
    let cs ← afterOne? ['T', 't', ' ', '_'] cs
    let (time, cs) ← readTime? cs
    let offset ← readOffset? cs
    pure (date, time, offset)

def secondsLimit : Nat := 20000000000

def countOfInteger (n : Int) : Int :=
  if n.natAbs ≤ secondsLimit then n * 1000000 else n * 1000

/-- The microseconds that a number with a fraction counts, the nearest if they have a fraction
themselves. For milliseconds that is exact. For seconds the way above the last full second is
taken in double width, and counted in microseconds in double width again. -/
def countOfBinary64? (x : Binary64) : Option Int :=
  if secondsLimit * x.fraction.2 < x.fraction.1 then
    some (Binary64.roundHalfUp (x.numerator * 1000) x.fraction.2)
  else do
    let part ← x.aboveFloor?
    let micros ← part.times? 1000000
    pure (x.floor * 1000000 + micros.nearestInteger)

def ofInteger? (n : Int) : Option Moment :=
  Moment.ofUnixMicros? (countOfInteger n)

def ofBinary64? (x : Binary64) : Option Moment :=
  (countOfBinary64? x).bind Moment.ofUnixMicros?

def wholeLimit : Nat := Nat.pow 2 63

def readCount? (cs : List Char) : Option Int :=
  let (negative, body) := readSign cs
  match spanDigits body with
  | (whole, []) =>
    if whole.isEmpty then none
    else some (countOfInteger (signed negative (natOfDigits whole)))
  | (whole, point :: rest) =>
    let (part, rest) := spanDigits rest
    if point != '.' || (whole.isEmpty && part.isEmpty) || wholeLimit ≤ natOfDigits whole then none
    else
      match readExponent? rest with
      | some (exponent, []) =>
        (Binary64.ofDecimal? negative (natOfDigits (whole ++ part))
          (exponent.getD 0 - part.length)).bind countOfBinary64?
      | _ => none

def microsPerDay : Int := 86400000000

/-- Whether a count of microseconds since 1970 falls into the years 0 to 9999. The year 0 has 366
days. -/
def inFourDigitYears (t : Int) : Bool :=
  let day := t.fdiv microsPerDay + epochDay
  decide (0 ≤ day + 366 ∧ day < daysBeforeYear 10000)

def orOutOfRange : Option Moment → Except MomentError Moment
  | some t => .ok t
  | none => .error .outOfRange

/-- The moment with an offset that a text gives: a date alone, a date with a time of day, or a
number of seconds or milliseconds since 1970. -/
def readMoment (s : String) : Except MomentError Moment :=
  let cs := s.toList
  match readCalendar? cs with
  | some (_, _, none) => .error .withoutOffset
  | some ((y, m, d), (h, mi, sec, us), some o) =>
    orOutOfRange (Moment.ofFields? y m d h mi sec us (some o))
  | none =>
    match readCount? cs with
    | some t =>
      if inFourDigitYears t then orOutOfRange (Moment.ofUnixMicros? t) else .error .malformed
    | none => .error .malformed

end ChainArchive.Time
