import ChainArchive.Text.Digit
import ChainArchive.Text.Quoted
import ChainArchive.Text.Split

namespace ChainArchive

open ChainArchive.Text

inductive Command where
  | status
  | reset
  deriving DecidableEq, Repr

namespace Command

def all : List Command := [.status, .reset]

def name : Command → String
  | .status => "status"
  | .reset => "reset"

def named? (s : String) : Option Command := all.find? (·.name == s)

inductive Argument where
  | word (s : String)
  | divider
  | help
  | helpWith (value : String)
  | unknown (s : String)
  deriving DecidableEq, Repr

def areDigits (cs : List Char) : Bool := cs.all fun c => (digitValue? c).isSome

/-- Whether what follows a hyphen makes a negative number; a line end may follow it. -/
def isNumber (cs : List Char) : Bool :=
  let cs := if cs.getLast? == some '\n' then cs.dropLast else cs
  match cut '.' cs with
  | (whole, none) => !whole.isEmpty && areDigits whole
  | (whole, some part) => areDigits whole && !part.isEmpty && areDigits part

/-- What follows a short request for help in the same argument. It may ask for help again, any
number of times; anything else is a value. -/
def afterHelp : List Char → Argument
  | ['h'] => .help
  | 'h' :: rest => afterHelp rest
  | value => .helpWith (String.ofList value)

def Argument.read (s : String) : Argument :=
  match s.toList with
  | '-' :: '-' :: name =>
    match cut '=' name with
    | ([], none) => .divider
    | (name, value) =>
      if name.isPrefixOf "help".toList then
        match value with
        | none => .help
        | some v => .helpWith (String.ofList v)
      else if name.contains ' ' || (value.getD []).contains ' ' then .word s
      else .unknown s
  | ['-', 'h'] => .help
  | '-' :: 'h' :: '=' :: rest => afterHelp rest
  | '-' :: 'h' :: rest => afterHelp rest
  | ['-'] => .word s
  | '-' :: rest => if isNumber rest || rest.contains ' ' then .word s else .unknown s
  | _ => .word s

def Argument.readAll : List String → List Argument
  | [] => []
  | s :: rest =>
    match Argument.read s with
    | .divider => .divider :: rest.map .word
    | a => a :: Argument.readAll rest

inductive Wish where
  | help
  | run (command : Command)
  | misuse (text : String)
  deriving DecidableEq, Repr

def badChoice (s : String) : Wish :=
  .misuse ("argument command: invalid choice: " ++ quoted s ++ " (choose from " ++
    ", ".intercalate (all.map fun c => quoted c.name) ++ ")")

def needlessValue (value : String) : Wish :=
  .misuse ("argument -h/--help: ignored explicit argument " ++ quoted value)

def conclude (command? : Option Command) (surplus : List String) : Wish :=
  match command?, surplus with
  | none, _ => .misuse "the following arguments are required: command"
  | some c, [] => .run c
  | some _, surplus => .misuse ("unrecognized arguments: " ++ " ".intercalate surplus)

/-- Reads a wish, given the command found so far and the arguments that have no use; the first
argument that decides, decides. An argument that starts with a hyphen is an option, unless it is a
negative number or holds a space, and after the divider `--` every argument is a word. -/
def wishFrom (command? : Option Command) (surplus : List String) : List Argument → Wish
  | [] => conclude command? surplus
  | .help :: _ => .help
  | .helpWith value :: _ => needlessValue value
  | .unknown s :: rest => wishFrom command? (surplus ++ [s]) rest
  | .divider :: rest =>
    if command?.isNone && !rest.isEmpty then wishFrom command? surplus rest
    else wishFrom command? (surplus ++ ["--"]) rest
  | .word s :: rest =>
    match command? with
    | some c => wishFrom (some c) (surplus ++ [s]) rest
    | none =>
      match named? s, rest with
      | none, _ => badChoice s
      | some c, .divider :: rest => wishFrom (some c) surplus rest
      | some c, rest => wishFrom (some c) surplus rest

def Wish.ofArguments (args : List String) : Wish := wishFrom none [] (Argument.readAll args)

def program : String := "python -m database"

def usage : String :=
  "usage: " ++ program ++ " [-h] \x7b" ++ ",".intercalate (all.map name) ++ "\x7d\n"

def helpText : String :=
  usage ++ "\npositional arguments:\n  \x7b" ++ ",".intercalate (all.map name) ++
    "\x7d\n\noptions:\n  -h, --help      show this help message and exit\n"

def misuseText (text : String) : String := usage ++ program ++ ": error: " ++ text ++ "\n"

end Command

end ChainArchive
