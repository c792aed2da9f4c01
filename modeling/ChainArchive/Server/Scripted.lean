import ChainArchive.Statement
import ChainArchive.Text.Split

namespace ChainArchive

inductive Breakdown where
  | database
  | interface
  | system
  deriving DecidableEq, Repr

inductive Outcome where
  | accepted
  | refused
  | starting
  | lost
  | badPassword
  | noDatabase
  | unreachable
  | badOption
  deriving DecidableEq, Repr

def Outcome.error? : Outcome → Option ServerError
  | .accepted => none
  | .refused => some ⟨.connectionRefused, "connection refused"⟩
  | .starting => some ⟨.cannotConnectNow, "the database system is starting up"⟩
  | .lost => some ⟨.connectionFailure, "connection failure"⟩
  | .badPassword => some ⟨.invalidPassword, "password authentication failed"⟩
  | .noDatabase => some ⟨.invalidCatalogName, "database does not exist"⟩
  | .unreachable => some ⟨.system, "host unreachable"⟩
  | .badOption => some ⟨.interface, "bad connection option"⟩

def Breakdown.onRun (b : Breakdown) (plan : String) : ServerError :=
  match b with
  | .database => ⟨.uniqueViolation, "duplicate key in " ++ plan⟩
  | .interface => ⟨.interface, "interface error in " ++ plan⟩
  | .system => ⟨.system, "connection lost in " ++ plan⟩

def Breakdown.onCopy (b : Breakdown) (table : String) : ServerError :=
  match b with
  | .database => ⟨.badCopyFormat, "bad row for " ++ table⟩
  | .interface => ⟨.interface, "interface error for " ++ table⟩
  | .system => ⟨.system, "connection lost for " ++ table⟩

structure Script where
  fetchValue : Json
  fetchRow : Json
  stats : Option (List (String × Json))
  knownBlocks : Option (List String)
  /-- The results of a statement, one for each run; the last one stays. -/
  results : List (String × List Json)
  failPlans : List (String × Breakdown)
  failCopy : List (String × Breakdown)
  failPrepare : List String
  failExecute : List String
  /-- The outcomes of the coming attempts to connect; after them every attempt succeeds. -/
  outcomes : List Outcome

namespace Script

def empty : Script := ⟨.null, .null, none, none, [], [], [], [], [], []⟩

/-- The name under which the script knows a statement: a standard statement has its own name, any
other text is its name itself. -/
def planName (sql : String) : String :=
  match Statement.standard.find? (·.sql == sql) with
  | some p => p.name
  | none => sql

def executeError? (s : Script) (sql : String) : Option ServerError :=
  (s.failExecute.find? fun part => Text.occursIn part.toList sql.toList).map fun part =>
    ⟨.syntaxOrAccess, "cannot run: " ++ part⟩

def firstText? : List Value → Option String
  | .plain (.text s) :: _ => some s
  | _ => none

def takeResult (s : Script) (plan : String) : Json × Script :=
  match s.results.lookup plan with
  | some (j :: next :: rest) =>
    (j, { s with results := s.results.map fun (p, js) =>
      if p == plan then (p, next :: rest) else (p, js) })
  | some [j] => (j, s)
  | _ => (.null, s)

def runResult (s : Script) (plan : String) (args : List Value) : Json × Script :=
  match plan, s.stats, s.knownBlocks with
  | "read_stat", some stats, _ =>
    (((firstText? args).bind fun key => Json.lookup key stats).getD .null, s)
  | "block_exists", _, some ids =>
    (.bool (((firstText? args).map ids.contains).getD false), s)
  | _, _, _ => s.takeResult plan

def reply (error? : Option ServerError) (v : Value) : Reply :=
  match error? with
  | some e => .error e
  | none => .ok v

def answer (s : Script) : Request → Reply × Script
  | .connect _ _ =>
    match s.outcomes with
    | [] => (.ok .null, s)
    | o :: rest => (reply o.error? .null, { s with outcomes := rest })
  | .execute sql _ => (reply (s.executeError? sql) (.text "OK"), s)
  | .fetchValue sql _ => (reply (s.executeError? sql) (.plain s.fetchValue), s)
  | .fetchRow _ _ => (.ok (.plain s.fetchRow), s)
  | .fetchAll _ _ => (.ok (.plain (.array [])), s)
  | .prepare p =>
    if s.failPrepare.contains (planName p.sql) then
      (.error ⟨.undefinedTable, "relation does not exist"⟩, s)
    else (.ok .null, s)
  | .run p args =>
    let plan := planName p.sql
    match s.failPlans.lookup plan with
    | some b => (.error (b.onRun plan), s)
    | none =>
      let (j, s) := s.runResult plan args
      (.ok (.plain j), s)
  | .copy table _ _ =>
    match s.failCopy.lookup table with
    | some b => (.error (b.onCopy table), s)
    | none => (.ok .null, s)

instance : Server Script where
  answer := answer
  notice := fun s _ => s

end Script

end ChainArchive
