import ChainArchive.Text.Blank
import ChainArchive.Text.Lower
import ChainArchive.Text.Quoted
import ChainArchive.Text.Split

namespace ChainArchive.Settings.Ini

open ChainArchive.Text

inductive Fault where
  | noHeader (line : Nat) (text : String)
  | duplicateSection (line : Nat) (name : String)
  | duplicateOption (line : Nat) (inSection name : String)
  | badLines (lines : List (Nat × String))
  deriving DecidableEq, Repr

def sourceName : String := quoted "<string>"

def lineLabel (n : Nat) : String :=
  "[line " ++ (if n < 10 then " " else "") ++ toString n ++ "]"

def Fault.message : Fault → String
  | .noHeader n text =>
    "File contains no section headers.\nfile: " ++ sourceName ++ ", line: " ++ toString n ++
      "\n" ++ quoted text
  | .duplicateSection n s =>
    "While reading from " ++ sourceName ++ " " ++ lineLabel n ++ ": section " ++ quoted s ++
      " already exists"
  | .duplicateOption n s o =>
    "While reading from " ++ sourceName ++ " " ++ lineLabel n ++ ": option " ++ quoted o ++
      " in section " ++ quoted s ++ " already exists"
  | .badLines lines =>
    "Source contains parsing errors: " ++ sourceName ++
      String.join (lines.map fun (n, text) => "\n\t" ++ lineLabel n ++ ": " ++ quoted text)

def defaultSection : String := "DEFAULT"

structure Entry where
  inSection : String
  name : String
  lines : List (List Char)

/-- What has been read: the options in order, and where reading stands. -/
structure Reading where
  options : List Entry
  sections : List String
  openSection? : Option String
  openOption? : Option String
  indent : Nat
  bad : List (Nat × String)

def Reading.start : Reading := ⟨[], [], none, none, 0, []⟩

def isComment : List Char → Bool
  | c :: _ => c == '#' || c == ';'
  | [] => false

/-- The name in a section header: what stands between the bracket at the front and the last
closing one. -/
def header? : List Char → Option (List Char)
  | '[' :: rest =>
    let name := ((rest.reverse.dropWhile (· != ']')).drop 1).reverse
    if name.isEmpty then none else some name
  | _ => none

def optionLine? (cs : List Char) : Option (List Char × List Char) :=
  let isMark (c : Char) : Bool := c == '=' || c == ':'
  match cs.dropWhile fun c => !isMark c with
  | _ :: value => some (trimBoth isBlank (cs.takeWhile fun c => !isMark c), trimBoth isBlank value)
  | [] => none

namespace Reading

def extend (r : Reading) (text : List Char) : Reading :=
  match r.openSection?, r.openOption? with
  | some s, some o =>
    { r with options := r.options.map fun x =>
        if x.inSection == s && x.name == o then { x with lines := x.lines ++ [text] } else x }
  | _, _ => r

def openSection (r : Reading) (n : Nat) (name : String) : Except Fault Reading :=
  let r := { r with openSection? := some name, openOption? := none }
  if name == defaultSection then .ok r
  else if r.sections.contains name then .error (.duplicateSection n name)
  else .ok { r with sections := r.sections ++ [name] }

/-- Adds an option to the open section. An option without name is kept until the end, where it is
reported with the lines that are no option. -/
def addOption (r : Reading) (n : Nat) (inSection line name : String) (value : List Char) :
    Except Fault Reading :=
  let bad := if name == "" then r.bad ++ [(n, line)] else r.bad
  if r.options.any fun x => x.inSection == inSection && x.name == name then
    .error (.duplicateOption n inSection name)
  else .ok { r with
    options := r.options ++ [⟨inSection, name, [value]⟩]
    openOption? := if name == "" then none else some name
    bad }

def line (r : Reading) (n : Nat) (cs : List Char) : Except Fault Reading :=
  let text := trimBoth isBlank cs
  if isComment text then .ok r
  else if text.isEmpty then .ok (r.extend [])
  else
    let indent := (cs.takeWhile isBlank).length
    if r.openSection?.isSome && r.openOption?.isSome && r.indent < indent then .ok (r.extend text)
    else
      let r := { r with indent }
      match header? text with
      | some name => r.openSection n (String.ofList name)
      | none =>
        match r.openSection? with
        | none => .error (.noHeader n (String.ofList cs))
        | some s =>
          match optionLine? text with
          | some (name, value) =>
            r.addOption n s (String.ofList cs) (lower (String.ofList name)) value
          | none => .ok { r with bad := r.bad ++ [(n, String.ofList cs)] }

/-- Reads lines, numbered from `n`. Values go on in lines that are indented deeper, and an
option may not be given twice in a section, nor a section be opened twice, except the section of
defaults. -/
def linesFrom (r : Reading) (n : Nat) : List (List Char) → Except Fault Reading
  | [] => .ok r
  | cs :: rest => (r.line n cs).bind fun r => r.linesFrom (n + 1) rest

end Reading

def linesOf : List Char → List (List Char)
  | [] => []
  | c :: rest =>
    if c == '\n' then ['\n'] :: linesOf rest
    else match rest, linesOf rest with
      | _ :: _, l :: ls => (c :: l) :: ls
      | _, ls => [c] :: ls

def joinLines (lines : List (List Char)) : String :=
  let cs := (['\n'] : List Char).intercalate lines
  String.ofList (cs.reverse.dropWhile isBlank).reverse

def readDefaults (text : List Char) : Except Fault (List (String × String)) :=
  match Reading.start.linesFrom 1 (linesOf text) with
  | .error f => .error f
  | .ok r =>
    if r.bad.isEmpty then
      .ok ((r.options.filter (·.inSection == defaultSection)).map fun x => (x.name, joinLines x.lines))
    else .error (.badLines r.bad)

end ChainArchive.Settings.Ini
