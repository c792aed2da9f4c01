import ChainArchive.Command.Arguments
import ChainArchive.Database.Service

namespace ChainArchive.Command

open ChainArchive.Database ChainArchive.Schema

structure Console (σ : Type) where
  service : Service σ
  printed : String

/-- What a program leaves behind. A failure is what it ended with, if it did not end by itself. -/
structure Output where
  exit : Nat
  stdout : String
  stderr : String
  failure : Option Failure

def Output.printed (text : String) : Output := ⟨0, text, "", none⟩

namespace Console

variable {σ : Type} [Server σ]

def say (line : String) : Program (Console σ) Unit :=
  modify fun c => { c with printed := c.printed ++ line ++ "\n" }

def onService {α : Type} (p : Program (Service σ) α) : Program (Console σ) α :=
  p.onPart (·.service) fun service c => { c with service }

def onSession {α : Type} (id : SessionId) (p : Program (Link σ) α) : Program (Console σ) α :=
  onService (Service.onSession id p)

def sayValue (label : String) (v : Value) : Program (Console σ) Unit :=
  say (label ++ ": " ++ String.ofList v.plainText)

def closeService (c : Console σ) : Console σ :=
  { c with service := (Service.close.runFrom c.service).2 }

def showStatus (id : SessionId) : Program (Console σ) Unit := do
  if (← onSession id (latest.tableExists "stats")).isTruthy then
    sayValue "version" (← onSession id (Checkpoint.readStat Checkpoint.versionKey))
    sayValue "last_sync_block_id" (← onSession id (Checkpoint.readStat Checkpoint.lastSyncKey))
    sayValue "latest block id" (← onSession id Checkpoint.latestBlockId)
  else say "Schema not created"

def dropAll (id : SessionId) : Program (Console σ) Unit := do
  onSession id latest.dropTables
  onSession id latest.dropSequences

def perform (c : Command) : Program (Console σ) Unit := do
  let id ← onService (Service.acquire none false)
  let body := match c with
    | .status => showStatus id
    | .reset => dropAll id
  body.ensuring closeService

def outputOf (p : Program (Console σ) Unit) (s : Service σ) : Output × Service σ :=
  let (r, c) := p.runFrom ⟨s, ""⟩
  let failure := match r with
    | .ok () => none
    | .error f => some f
  (⟨0, c.printed, "", failure⟩, c.service)

end Console

variable {σ : Type} [Server σ]

/-- The operator program. The settings are loaded before the command is carried out, and the session
that it used is closed in every case. -/
def operate (args : List String) (s : Service σ) : Output × Service σ :=
  match Wish.ofArguments args with
  | .help => (.printed helpText, s)
  | .misuse text => (⟨2, "", misuseText text, none⟩, s)
  | .run c => Console.outputOf (do
      let _ ← Console.onService (Service.getSettings ".")
      Console.perform c) s

end ChainArchive.Command
