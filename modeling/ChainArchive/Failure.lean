import ChainArchive.Copy.Buffer
import ChainArchive.Numeral.Integer
import ChainArchive.Record.Checked
import ChainArchive.Server.Basic
import ChainArchive.Url.Basic

namespace ChainArchive

/-- Everything that can go wrong, by cause. The failures of the write path proper form a family of
their own: connecting, setting up, running statements, and disagreement between what is stored and
what is to be written. -/
inductive Failure where
  | connect (cause : ServerError)
  | createDatabase (name : String) (cause : ServerError)
  | dropDatabase (name : String) (cause : ServerError)
  | createSchema (cause : ServerError)
  | dropTable (table : String) (cause : ServerError)
  | dropSequence (sequence : String) (cause : ServerError)
  /-- A statement is not known, if there is no cause, or was refused at registration. -/
  | register (plan : String) (cause : Option ServerError)
  | transfer (table : String) (cause : ServerError)
  | statement (plan : String) (cause : ServerError)
  | noResult (plan : String)
  | versionMissing
  | versionObsolete (stored latest : String)
  | checkpointMissing
  | checkpointMismatch (checkpoint latest : String)
  | halted (reason : String)
  | notNext (blockNum : Int) (prev last : String)
  /-- An error of the server that is passed on as it is. -/
  | server (cause : ServerError)
  | notStarted
  | blockOpen (blockNum : Int)
  | notTheOpenUnit
  | unitDiscarded (blockNum : Int)
  | unknownTable (name : String)
  | rowWidth (error : Copy.WidthError)
  | noUrl
  | badUrl (fault : Url.Fault)
  | numeral (error : Numeral.IntegerError)
  | record (model : String) (problems : List Record.Problem)
  | symbolSeparator
  | noConnection
  | storedValue
  | storedVersion
  | settingValue
  | settingNumber
  | settings (report : String)
  | fileInTheWay (path : String)
  | directoryInTheWay (path : String)

namespace Failure

inductive Class where
  | connection
  | schema
  | preparation
  | statement
  | version
  | sync
  | server (kind : ServerErrorKind)
  | misuse
  | value
  | validation
  | index
  | attribute
  | type
  | settings
  | fileExists
  | isDirectory
  deriving DecidableEq, Repr

def toClass : Failure → Class
  | connect _ | createDatabase _ _ | dropDatabase _ _ => .connection
  | createSchema _ | dropTable _ _ | dropSequence _ _ => .schema
  | register _ _ => .preparation
  | transfer _ _ | statement _ _ | noResult _ => .statement
  | versionMissing | versionObsolete _ _ => .version
  | checkpointMissing | checkpointMismatch _ _ | halted _ | notNext _ _ _ => .sync
  | server e => .server e.kind
  | notStarted | blockOpen _ | notTheOpenUnit | unitDiscarded _ => .misuse
  | unknownTable _ | rowWidth _ | noUrl | badUrl _ | numeral _ => .value
  | record _ _ => .validation
  | symbolSeparator => .index
  | noConnection | storedValue | settingValue => .attribute
  | storedVersion | settingNumber => .type
  | settings _ => .settings
  | fileInTheWay _ => .fileExists
  | directoryInTheWay _ => .isDirectory

/-- Whether the failure is one of the write path's own. -/
def isDatabase (f : Failure) : Bool :=
  match f.toClass with
  | .connection | .schema | .preparation | .statement | .version | .sync => true
  | _ => false

def plan? : Failure → Option String
  | register plan _ | statement plan _ | noResult plan => some plan
  | _ => none

def statementMessage (plan text : String) : String :=
  if plan = "" then text else "Statement '" ++ plan ++ "' failed: " ++ text

def message : Failure → String
  | connect e => "Connect failed: " ++ e.text
  | createDatabase name e => "Create database " ++ name ++ " failed: " ++ e.text
  | dropDatabase name e => "Drop database " ++ name ++ " failed: " ++ e.text
  | createSchema e => "Failed to create schema: " ++ e.text
  | dropTable table e => "Failed to drop table " ++ table ++ ": " ++ e.text
  | dropSequence sequence e => "Failed to drop sequence " ++ sequence ++ ": " ++ e.text
  | register plan none => "Prepare plan '" ++ plan ++ "' failed: unknown plan"
  | register plan (some e) => "Prepare plan '" ++ plan ++ "' failed: " ++ e.text
  | transfer table e => "COPY into " ++ table ++ " failed: " ++ e.text
  | statement plan e => statementMessage plan e.text
  | noResult plan => statementMessage plan "no value returned for chained statement"
  | versionMissing => "Version information doesn't exist in current database"
  | versionObsolete stored latest =>
    "Version of current database is obsolete, cur: " ++ stored ++ ", latest: " ++ latest
  | checkpointMissing => "Last sync block id doesn't exist in current database"
  | checkpointMismatch checkpoint latest =>
    "Sync block and latest block are not match, sync is " ++ Text.quoted checkpoint ++
      ", latest is " ++ Text.quoted latest
  | halted reason => "Ingestion halted: " ++ reason
  | notNext n prev last =>
    "Block " ++ toString n ++ " does not follow the last synced block, prev is " ++ prev ++
      ", last sync is " ++ last
  | server e => e.text
  | notStarted => "Pipeline startup has not run"
  | blockOpen n => "Block " ++ toString n ++ " is still open"
  | notTheOpenUnit => "Unit is not the open ingestion unit"
  | unitDiscarded n => "Unit of block " ++ toString n ++ " was discarded"
  | unknownTable name => "Unknown table: " ++ name
  | rowWidth e => e.message
  | noUrl => "Database URL not provided"
  | badUrl f => f.message
  | numeral e => e.message
  | settings report => report
  | fileInTheWay path => "[Errno 17] File exists: " ++ Text.quoted path
  | directoryInTheWay path => "[Errno 21] Is a directory: " ++ Text.quoted path
  | record model _ => model ++ " is not valid"
  | symbolSeparator => "the symbol has no id"
  | noConnection => "the session has no connection"
  | storedValue => "a stored value is no text"
  | storedVersion => "the stored version is no text"
  | settingValue => "a setting is no text"
  | settingNumber => "a setting is no number"

end Failure

section Outcome

variable {ε α β : Type} {p : Except ε α} {y : β}

theorem bind_eq_ok {f : α → Except ε β} (h : (p >>= f) = .ok y) :
    ∃ x, p = .ok x ∧ f x = .ok y := by
  cases p with
  | error e => cases h
  | ok x => exact ⟨x, rfl, h⟩

theorem map_eq_ok {f : α → β} (h : f <$> p = .ok y) : ∃ x, p = .ok x ∧ f x = y := by
  cases p with
  | error e => cases h
  | ok x => exact ⟨x, rfl, Except.ok.inj h⟩

theorem eq_ok_of_isOk (h : p.isOk = true) : ∃ x, p = .ok x := by
  cases p with
  | error e => cases h
  | ok x => exact ⟨x, rfl⟩

end Outcome

end ChainArchive
