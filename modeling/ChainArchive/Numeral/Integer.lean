import ChainArchive.Numeral.Digits
import ChainArchive.Text.Blank
import ChainArchive.Text.Digit
import ChainArchive.Text.Quoted

namespace ChainArchive.Numeral

open ChainArchive.Text

/-- The greatest number of digits that a numeral may have where it is read. The same limit on what
is written is left out. -/
def digitLimit : Nat := 4300

inductive IntegerError where
  | malformed (text : String)
  | tooLong (digits : Nat)
  deriving DecidableEq, Repr

def quoteLimit : Nat := 200

def IntegerError.message : IntegerError → String
  | .malformed text =>
    "invalid literal for int() with base 10: " ++
      String.ofList ((quoted text).toList.take quoteLimit)
  | .tooLong digits =>
    "Exceeds the limit (" ++ toString digitLimit ++ " digits) for integer string conversion: value has "
      ++ toString digits ++ " digits; use sys.set_int_max_str_digits() to increase the limit"

def groupedAfter (digitBefore : Bool) : List Char → Bool
  | [] => digitBefore
  | c :: rest => if c == '_' then digitBefore && groupedAfter false rest else groupedAfter true rest

/-- Splits off the longest run of digits and underscores: the values of its digits and the rest,
if there is a digit at both ends and no two underscores stand side by side. -/
def readDigits (cs : List Char) : Option (List Nat × List Char) :=
  let inRun (c : Char) : Bool := c == '_' || (digitValue? c).isSome
  let run := cs.takeWhile inRun
  if groupedAfter false run then some (run.filterMap digitValue?, cs.dropWhile inRun) else none

/-- Reads a numeral in free form. A run of digits over the limit is refused as too long even if
something else follows it. -/
def readInteger (s : String) : Except IntegerError Int :=
  let (negative, body) := readSign (s.toList.dropWhile isWhite)
  match readDigits body with
  | none => .error (.malformed s)
  | some (ds, rest) =>
    if digitLimit < ds.length then .error (.tooLong ds.length)
    else if rest.all isWhite then .ok (signed negative (ofDigits ds))
    else .error (.malformed s)

end ChainArchive.Numeral
