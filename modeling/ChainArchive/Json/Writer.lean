import ChainArchive.Json.Basic

namespace ChainArchive.Json

open ChainArchive.Text

def escapeChar (c : Char) : List Char :=
  if c == '"' then ['\\', '"']
  else if c == '\\' then ['\\', '\\']
  else if c == '\n' then ['\\', 'n']
  else if c == '\r' then ['\\', 'r']
  else if c == '\t' then ['\\', 't']
  else if c.toNat == 8 then ['\\', 'b']
  else if c.toNat == 12 then ['\\', 'f']
  else if c.toNat < 32 then '\\' :: 'u' :: hexDigits 4 c.toNat
  else [c]

def writeText (s : String) : List Char :=
  '"' :: s.toList.flatMap escapeChar ++ ['"']

mutual

/-- The compact text of a value: no blanks, members in order, every character as itself but for
quotes, backslashes and controls. Integers of any length and values of any depth are written: unlike
for what is read, where `Numeral.digitLimit` applies, the limits of a runtime on digits and on depth
are left out. -/
def write : Json → List Char
  | null => "null".toList
  | bool b => (if b then "true" else "false").toList
  | int n => (toString n).toList
  | float x => x.text.toList
  | text s => writeText s
  | array items => '[' :: writeItems items ++ [']']
  | object members => '{' :: writeMembers members ++ ['}']

def writeItems : List Json → List Char
  | [] => []
  | [j] => write j
  | j :: rest => write j ++ ',' :: writeItems rest

def writeMembers : List (String × Json) → List Char
  | [] => []
  | [(k, j)] => writeText k ++ ':' :: write j
  | (k, j) :: rest => writeText k ++ ':' :: write j ++ ',' :: writeMembers rest

end

def render (j : Json) : String :=
  String.ofList (write j)

def render? (j : Json) : Option String :=
  if j.isNull then none else some j.render

end ChainArchive.Json
