import ChainArchive.Numeral.Shortest
import ChainArchive.Text.Quoted

namespace ChainArchive

open ChainArchive.Numeral ChainArchive.Text

/-- JSON values as the chain delivers them. An integer and a float of equal value stay apart,
because both show in what is stored. -/
inductive Json where
  | null
  | bool (b : Bool)
  | int (n : Int)
  | float (x : Binary64)
  | text (s : String)
  | array (items : List Json)
  | object (members : List (String × Json))
  deriving Inhabited

namespace Json

/-- The member of an object under a key; the first one if there are several. -/
def lookup (key : String) (members : List (String × Json)) : Option Json :=
  (members.find? (·.1 == key)).map (·.2)

def get? (j : Json) (key : String) : Option Json :=
  match j with
  | object members => lookup key members
  | _ => none

def isNull : Json → Bool
  | null => true
  | _ => false

def isTruthy : Json → Bool
  | null => false
  | bool b => b
  | int n => n != 0
  | float x => x.significand != 0
  | text s => s != ""
  | array items => !items.isEmpty
  | object members => !members.isEmpty

mutual

def inner : Json → List Char
  | null => "None".toList
  | bool b => (if b then "True" else "False").toList
  | int n => (toString n).toList
  | float x => x.text.toList
  | text s => (quoted s).toList
  | array items => '[' :: innerItems items ++ [']']
  | object members => '{' :: innerMembers members ++ ['}']

def innerItems : List Json → List Char
  | [] => []
  | [j] => inner j
  | j :: rest => inner j ++ ',' :: ' ' :: innerItems rest

def innerMembers : List (String × Json) → List Char
  | [] => []
  | [(k, j)] => (quoted k).toList ++ ':' :: ' ' :: inner j
  | (k, j) :: rest => (quoted k).toList ++ ':' :: ' ' :: inner j ++ ',' :: ' ' :: innerMembers rest

end

/-- A value as plain text: a text is itself, any other value is written as inside a list. -/
def plainText : Json → String
  | text s => s
  | j => String.ofList (inner j)

end Json

end ChainArchive
