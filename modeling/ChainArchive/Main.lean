import ChainArchive.Command.Describe
import ChainArchive.Server.Unreachable

namespace ChainArchive.Main

open ChainArchive.Command ChainArchive.Database

def readFiles : IO Settings.Files := do
  try
    let bytes ← IO.FS.readBinFile Settings.fileName
    return [([Settings.fileName], .file bytes.toList)]
  catch _ => return []

def writeFiles (fs : Settings.Files) : IO Unit := do
  match fs.node? examplePath with
  | some (.file bytes) =>
    IO.FS.createDirAll ("/".intercalate exampleDirectory)
    IO.FS.writeBinFile ("/".intercalate examplePath) ⟨bytes.toArray⟩
  | _ => return

def service (fs : Settings.Files) : Service Unreachable := ⟨⟨⟨⟩, []⟩, fs, none, [], none⟩

def present (o : Output) : IO UInt32 := do
  (← IO.getStdout).putStr o.stdout
  (← IO.getStderr).putStr o.stderr
  match o.failure with
  | none => return UInt32.ofNat o.exit
  | some f =>
    (← IO.getStderr).putStrLn f.message
    return 1

end ChainArchive.Main

open ChainArchive ChainArchive.Main in
/-- Runs the program that the first argument names. There is no driver for a database server, so
every attempt to connect is refused. -/
def main (args : List String) : IO UInt32 := do
  let s := service (← readFiles)
  match args with
  | "database" :: rest => present (Command.operate rest s).1
  | ["config"] =>
    let (o, s) := Command.describe s
    writeFiles s.files
    present o
  | _ =>
    (← IO.getStderr).putStrLn "usage: database [-h] \x7bstatus,reset\x7d, or: config"
    return 2
