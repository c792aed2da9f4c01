import ChainArchive.Json.Writer
import ChainArchive.Time.Moment

namespace ChainArchive

open ChainArchive.Numeral ChainArchive.Time

inductive Value where
  | plain (j : Json)
  | moment (t : Moment)
  | tuple (items : List Value)
  deriving Inhabited

namespace Value

def text (s : String) : Value := .plain (.text s)

def int (n : Int) : Value := .plain (.int n)

def bool (b : Bool) : Value := .plain (.bool b)

def null : Value := .plain .null

def texts (ss : List String) : Value := .plain (.array (ss.map .text))

def ofText? (s : Option String) : Value :=
  match s with
  | some s => text s
  | none => null

def isNull : Value → Bool
  | plain j => j.isNull
  | _ => false

def isTruthy : Value → Bool
  | plain j => j.isTruthy
  | moment _ => true
  | tuple items => !items.isEmpty

/-- A signed number of seconds as days and seconds of a day. -/
def durationText (n : Int) : List Char :=
  let days := n.fdiv 86400
  let seconds := n.fmod 86400
  "datetime.timedelta(".toList ++
    (if days = 0 then [] else "days=".toList ++ (toString days).toList) ++
    (if days ≠ 0 ∧ seconds ≠ 0 then ", ".toList else []) ++
    (if seconds = 0 then [] else "seconds=".toList ++ (toString seconds).toList) ++ [')']

/-- A moment inside a tuple: its fields, the second and microsecond only as far as they are not
zero, and the offset. -/
def momentText (t : Moment) : List Char :=
  let number (n : Nat) : List Char := ", ".toList ++ (toString n).toList
  "datetime.datetime(".toList ++ (toString t.year).toList ++ number t.month ++ number t.day ++
    number t.hour ++ number t.minute ++
    (if t.second = 0 ∧ t.micro = 0 then [] else number t.second) ++
    (if t.micro = 0 then [] else number t.micro) ++
    (match t.offset with
      | none => []
      | some 0 => ", tzinfo=datetime.timezone.utc".toList
      | some o => ", tzinfo=datetime.timezone(".toList ++ durationText o ++ [')']) ++ [')']

mutual

def inner : Value → List Char
  | plain j => j.inner
  | moment t => momentText t
  | tuple [v] => '(' :: inner v ++ [',', ')']
  | tuple items => '(' :: innerItems items ++ [')']

def innerItems : List Value → List Char
  | [] => []
  | [v] => inner v
  | v :: rest => inner v ++ ',' :: ' ' :: innerItems rest

end

def plainText : Value → List Char
  | plain j => j.plainText.toList
  | moment t => t.textWith ' '
  | v => inner v

end Value

end ChainArchive
