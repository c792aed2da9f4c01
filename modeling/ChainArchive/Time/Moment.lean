import ChainArchive.Numeral.Shortest
import ChainArchive.Time.Calendar

namespace ChainArchive.Time

open ChainArchive.Numeral

def Exists (year month day hour minute second micro : Nat) (offset : Option Int) : Prop :=
  1 ≤ year ∧ year ≤ 9999 ∧ 1 ≤ month ∧ month ≤ 12 ∧ 1 ≤ day ∧ day ≤ daysInMonth year month ∧
    hour < 24 ∧ minute < 60 ∧ second < 60 ∧ micro < 1000000 ∧
    (offset.getD 0).natAbs < 86400

instance (y mo d h mi s us : Nat) (o : Option Int) : Decidable (Exists y mo d h mi s us o) :=
  inferInstanceAs (Decidable (_ ∧ _))

/-- A date and time of day. The offset counts seconds east of universal time; it is kept as it came
and not converted. -/
structure Moment where
  year : Nat
  month : Nat
  day : Nat
  hour : Nat
  minute : Nat
  second : Nat
  micro : Nat
  offset : Option Int
  exist : Exists year month day hour minute second micro offset
  deriving DecidableEq, Repr

namespace Moment

def ofFields? (y mo d h mi s us : Nat) (offset : Option Int) : Option Moment :=
  if e : Exists y mo d h mi s us offset then some ⟨y, mo, d, h, mi, s, us, offset, e⟩ else none

def ofUnixMicros? (t : Int) : Option Moment :=
  let seconds := t.fdiv 1000000
  let day := seconds.fdiv 86400 + epochDay
  let ofDay := (seconds.fmod 86400).toNat
  if day < 0 then none
  else
    let (y, m, d) := dateOf day.toNat
    ofFields? y m d (ofDay / 3600) (ofDay / 60 % 60) (ofDay % 60) (t.fmod 1000000).toNat (some 0)

def padded (width n : Nat) : List Char :=
  padLeft width (Nat.toDigits 10 n)

def dateText (t : Moment) : List Char :=
  padded 4 t.year ++ '-' :: padded 2 t.month ++ '-' :: padded 2 t.day

def timeText (t : Moment) : List Char :=
  padded 2 t.hour ++ ':' :: padded 2 t.minute ++ ':' :: padded 2 t.second ++
    if t.micro = 0 then [] else '.' :: padded 6 t.micro

def offsetText (o : Int) : List Char :=
  let n := o.natAbs
  (if o < 0 then '-' else '+') :: padded 2 (n / 3600) ++ ':' :: padded 2 (n / 60 % 60) ++
    if n % 60 = 0 then [] else ':' :: padded 2 (n % 60)

def textWith (mark : Char) (t : Moment) : List Char :=
  t.dateText ++ mark :: t.timeText ++
    match t.offset with
    | some o => offsetText o
    | none => []

def iso (t : Moment) : String :=
  String.ofList (t.textWith 'T')

end Moment

end ChainArchive.Time
