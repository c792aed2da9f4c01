import ChainArchive.Failure

namespace ChainArchive.Settings

open ChainArchive.Numeral

abbrev Table := List (String × Json)

def defaults : List (String × String) := [
  ("create_database", "true"),
  ("connect_max_tries", "5"),
  ("log_level", "INFO")]

def truthWords : List (String × Bool) := [
  ("true", true), ("1", true), ("yes", true), ("on", true),
  ("false", false), ("0", false), ("no", false), ("off", false)]

def logLevels : List String :=
  ["CRITICAL", "FATAL", "ERROR", "WARN", "WARNING", "INFO", "DEBUG", "NOTSET"]

def urlSchemes : List String := ["postgres://", "postgresql://"]

structure Report where
  missing : List String
  invalid : List String
  missingSections : List String
  deriving DecidableEq, Repr

namespace Report

def clean : Report := ⟨[], [], []⟩

def isClean (r : Report) : Bool :=
  r.missing.isEmpty && r.invalid.isEmpty && r.missingSections.isEmpty

def block (heading : String) (items : List String) : List String :=
  if items.isEmpty then [] else heading :: items.map ("  - " ++ ·)

def lines (r : Report) : List String :=
  let groups := [block "Missing required sections:" r.missingSections,
    block "Missing required settings:" r.missing, block "Invalid settings:" r.invalid]
  [""].intercalate (groups.filter (!·.isEmpty))

def message (r : Report) : String :=
  "Settings Configuration Validation Failed\n\n" ++ "\n".intercalate r.lines

end Report

def put (name : String) (j : Json) : Table → Table
  | [] => [(name, j)]
  | (k, v) :: rest => if k == name then (k, j) :: rest else (k, v) :: put name j rest

def merge (given : Table) : Table :=
  given.foldl (fun t (k, j) => put k j t) (defaults.map fun (k, v) => (k, .text v))

def valueOf (t : Table) (name : String) : Json :=
  (Json.lookup name t).getD .null

/-- The outcome of checking one setting: its value from now on, or an entry of the report. -/
inductive Verdict where
  | keep
  | accept (j : Json)
  | missing (entry : String)
  | invalid (entry : String)

def checkUrl (j : Json) : Except Failure Verdict :=
  if !j.isTruthy then .ok (.missing "db_url")
  else match j with
  | .text s =>
    if urlSchemes.any fun scheme => scheme.toList.isPrefixOf s.toList then .ok .keep
    else .ok (.invalid "db_url: must start with postgres:// or postgresql://")
  | _ => .error .settingValue

def checkCreate (j : Json) : Verdict :=
  match truthWords.lookup (String.ofList (j.plainText.toList.map Char.toLower)) with
  | some b => .accept (.bool b)
  | none => .invalid ("create_database: " ++ j.plainText ++ " (expected a boolean)")

/-- A setting as an integer: a number is cut toward zero, a text is read as a numeral. -/
def toInteger (j : Json) : Except Failure (Option Int) :=
  match j with
  | .int n => .ok (some n)
  | .bool b => .ok (some b.toNat)
  | .float x => .ok (some x.truncate)
  | .text s =>
    match readInteger s with
    | .ok n => .ok (some n)
    | .error _ => .ok none
  | _ => .error .settingNumber

def checkTries (j : Json) : Except Failure Verdict :=
  (toInteger j).map fun
    | some n => if n < 1 then .invalid "connect_max_tries: must be at least 1" else .accept (.int n)
    | none => .invalid ("connect_max_tries: " ++ j.plainText ++ " (expected int)")

/-- The capital ASCII letter of a character. Beyond ASCII, the dotless i and the long s have one;
no other character becomes part of the name of a level. -/
def capital (c : Char) : Char :=
  if c.toNat == 0x131 then 'I' else if c.toNat == 0x17f then 'S' else c.toUpper

def checkLevel (j : Json) : Verdict :=
  let level := String.ofList (j.plainText.toList.map capital)
  if logLevels.contains level then .accept (.text level)
  else .invalid ("log_level: " ++ j.plainText)

def enter (name : String) (v : Verdict) (s : Table × Report) : Table × Report :=
  match v with
  | .keep => s
  | .accept j => (put name j s.1, s.2)
  | .missing entry => (s.1, { s.2 with missing := s.2.missing ++ [entry] })
  | .invalid entry => (s.1, { s.2 with invalid := s.2.invalid ++ [entry] })

def check (given : Table) : Except Failure Table := do
  let t := merge given
  let url ← checkUrl (valueOf t "db_url")
  let create := checkCreate (valueOf t "create_database")
  let tries ← checkTries (valueOf t "connect_max_tries")
  let level := checkLevel (valueOf t "log_level")
  let (t, report) := enter "log_level" level (enter "connect_max_tries" tries
    (enter "create_database" create (enter "db_url" url (t, .clean))))
  if report.isClean then return t else throw (.settings report.message)

end ChainArchive.Settings
