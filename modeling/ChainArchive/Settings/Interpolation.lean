import ChainArchive.Settings.Ini

namespace ChainArchive.Settings.Interpolation

open ChainArchive.Text

inductive Fault where
  | unknownName (option name raw : String)
  | badReference (rest : String)
  | lonePercent (rest : String)
  | tooDeep (option raw : String)
  deriving DecidableEq, Repr

def maxDepth : Nat := 10

def Fault.message : Fault → String
  | .unknownName option name raw =>
    "Bad value substitution: option " ++ quoted option ++ " in section " ++
      quoted Ini.defaultSection ++ " contains an interpolation key " ++ quoted name ++
      " which is not a valid option name. Raw value: " ++ quoted raw
  | .badReference rest => "bad interpolation variable reference " ++ quoted rest
  | .lonePercent rest => "'%' must be followed by '%' or '(', found: " ++ quoted rest
  | .tooDeep option raw =>
    "Recursion limit exceeded in value substitution: option " ++ quoted option ++
      " in section " ++ quoted Ini.defaultSection ++
      " contains an interpolation key which cannot be substituted in " ++ toString maxDepth ++
      " steps. Raw value: " ++ quoted raw

def reference? (cs : List Char) : Option (List Char × List Char) :=
  match cut ')' cs with
  | (name, some ('s' :: rest)) => if name.isEmpty then none else some (name, rest)
  | _ => none

/-- Resolves the references in `cs`: `%(name)s` stands for the value of another option, which
`resolve` gives, and `%%` for a percent sign. -/
def resolveIn (resolve : (name : List Char) → Except Fault (List Char)) :
    (fuel : Nat) → List Char → Except Fault (List Char)
  | _, [] => .ok []
  | 0, _ => .ok []
  | fuel + 1, '%' :: '%' :: rest => ('%' :: ·) <$> resolveIn resolve fuel rest
  | fuel + 1, '%' :: '(' :: rest =>
    match reference? rest with
    | none => .error (.badReference (String.ofList ('%' :: '(' :: rest)))
    | some (name, rest) => do
      let value ← resolve name
      return value ++ (← resolveIn resolve fuel rest)
  | fuel + 1, c :: rest =>
    if c == '%' then .error (.lonePercent (String.ofList (c :: rest)))
    else (c :: ·) <$> resolveIn resolve fuel rest

/-- The value of an option `option` with raw value `raw`, `depth` steps away from the limit. -/
def valueAt (options : List (String × String)) (option raw : String) :
    (depth : Nat) → List Char → Except Fault (List Char)
  | 0, _ => .error (.tooDeep option raw)
  | depth + 1, cs =>
    resolveIn (fun name =>
      let name := lower (String.ofList name)
      match options.find? (·.1 == name) with
      | none => .error (.unknownName option name raw)
      | some (_, v) =>
        if v.toList.contains '%' then valueAt options option raw depth v.toList
        else .ok v.toList) (cs.length + 1) cs

def value (options : List (String × String)) (option raw : String) : Except Fault String :=
  String.ofList <$> valueAt options option raw maxDepth raw.toList

def resolveAll (options : List (String × String)) :
    List (String × String) → Except Fault (List (String × String))
  | [] => .ok []
  | (name, raw) :: rest => do
    let v ← value options name raw
    return (name, v) :: (← resolveAll options rest)

end ChainArchive.Settings.Interpolation
