import ChainArchive.Settings.Check
import ChainArchive.Settings.Files
import ChainArchive.Settings.Interpolation
import ChainArchive.Text.Utf8

namespace ChainArchive.Settings

open ChainArchive.Text

def fileName : String := "settings.conf"

/-- Reads a path: empty names and single points are dropped, and exactly two slashes at the front
are a root of their own. -/
def Path.ofText (s : String) : Path :=
  let cs := s.toList
  let slashes := (cs.takeWhile (· == '/')).length
  let root := if slashes == 0 then "" else if slashes == 2 then "//" else "/"
  ⟨root, ((splitOn '/' cs).map String.ofList).filter fun n => n != "" && n != "."⟩

def unifyLineEnds : List Char → List Char
  | '\r' :: '\n' :: rest => '\n' :: unifyLineEnds rest
  | '\r' :: rest => '\n' :: unifyLineEnds rest
  | c :: rest => c :: unifyLineEnds rest
  | [] => []

def requiredHeader : String := "[DEFAULT]"

def withDefaults (options : List (String × String)) : List (String × String) :=
  options.foldl (fun t (k, v) =>
    if t.any (·.1 == k) then t.map fun (k', v') => if k' == k then (k', v) else (k', v')
    else t ++ [(k, v)]) defaults

def unreadable (reason : String) : Failure :=
  .settings ("Error parsing settings.conf: " ++ reason)

/-- Reads and checks the text of a settings file. -/
def ofText (text : List Char) : Except Failure Table :=
  if !occursIn requiredHeader.toList text then
    .error (.settings (Report.message { Report.clean with missingSections := [requiredHeader] }))
  else
    match Ini.readDefaults text with
    | .error f => .error (unreadable f.message)
    | .ok options =>
      let options := withDefaults options
      match Interpolation.resolveAll options options with
      | .error f => .error (unreadable f.message)
      | .ok options => check (options.map fun (k, v) => (k, .text v))

def load (fs : Files) (directory : String) : Except Failure Table :=
  let path := (Path.ofText directory).below fileName
  match path.node? fs with
  | none => .error (.settings ("Settings file not found at: " ++ path.text ++
      "\nPlease create settings.conf based on examples/settings.conf.example"))
  | some .directory => .error (unreadable (Failure.directoryInTheWay path.text).message)
  | some (.file bytes) =>
    match decodeUtf8 bytes with
    | .error e => .error (unreadable e.message)
    | .ok cs => ofText (unifyLineEnds cs)

def explain : Failure → Failure
  | .settings report => .settings ("Configuration Error\n=================\n\n" ++ report ++
      "\n\nPlease ensure settings.conf is properly configured.")
  | f => f

end ChainArchive.Settings
