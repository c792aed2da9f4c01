import ChainArchive.Database.Connect
import ChainArchive.Ingest.Pipeline
import ChainArchive.Settings.Load

namespace ChainArchive.Database

open ChainArchive.Ingest ChainArchive.Schema

abbrev SessionId := Nat

/-- A service holds at most one session, which everyone who asks gets as long as it is usable.
Sessions that were handed out stay known by their ids, also when they are held no longer. -/
structure Service (σ : Type) where
  line : Line σ
  files : Settings.Files
  settings : Option Settings.Table
  sessions : List Session
  held : Option SessionId

namespace Service

variable {σ : Type} [Server σ]

def session? (s : Service σ) (id : SessionId) : Option Session := s.sessions[id]?

def heldSession? (s : Service σ) : Option Session := s.held.bind s.session?

def usable? (s : Service σ) : Option SessionId :=
  s.held.filter fun id => ((s.session? id).map fun x => !x.isClosed).getD false

def addSession (s : Service σ) (x : Session) : SessionId × Service σ :=
  (s.sessions.length, { s with sessions := s.sessions ++ [x] })

def onLine {α : Type} (p : Program (Line σ) α) : Program (Service σ) α :=
  p.onPart (·.line) fun line s => { s with line }

def onSession {α : Type} (id : SessionId) (p : Program (Link σ) α) : Program (Service σ) α :=
  .of fun s =>
    match s.session? id with
    | none => (.error .noConnection, s)
    | some session =>
      let (r, link) := p.runFrom ⟨session, s.line⟩
      (r, { s with line := link.line, sessions := s.sessions.set id link.session })

def onPipeline {α : Type} (id : SessionId) (pipeline : Pipeline) (p : Program (Intake σ) α) :
    Program (Service σ) (Except Failure α × Pipeline) :=
  .of fun s =>
    match s.session? id with
    | none => (.ok (.error .noConnection, pipeline), s)
    | some session =>
      let (r, intake) := p.runFrom ⟨pipeline, session, s.line⟩
      (.ok (r, intake.pipeline),
        { s with line := intake.link.line, sessions := s.sessions.set id intake.link.session })

def getSettings (directory : String) : Program (Service σ) Settings.Table := do
  let s ← get
  match s.settings with
  | some t => return t
  | none =>
    let t ← .lift ((Settings.load s.files directory).mapError Settings.explain)
    set { s with settings := some t }
    return t

def openSession (url : String) (maxTries : Int) : Program (Service σ) SessionId := do
  onLine (connect url maxTries)
  .of fun s =>
    let (id, s) := s.addSession (.ofStatements Statement.standard)
    (.ok id, s)

structure Access where
  url : String
  maxTries : Int
  create : Bool
  deriving DecidableEq, Repr

def Access.ofSettings (t : Settings.Table) : Access where
  url := match Settings.valueOf t "db_url" with
    | .text s => s
    | _ => ""
  maxTries := match Settings.valueOf t "connect_max_tries" with
    | .int n => n
    | _ => 5
  create := (Settings.valueOf t "create_database").isTruthy

def access (url : Option String) : Program (Service σ) Access := do
  let a ← match url with
    | some url => pure ⟨url, 5, true⟩
    | none => Access.ofSettings <$> getSettings "."
  if a.url = "" then throw .noUrl
  return a

/-- The held session; if there is none in use, one is opened, for which the database is created
first if it is missing. A new session can be told to drop all tables and sequences. -/
def acquire (url : Option String) (recreate : Bool) : Program (Service σ) SessionId := do
  match (← get).usable? with
  | some id => return id
  | none =>
    let a ← access url
    if a.create then onLine (ensureDatabase a.url a.maxTries)
    let id ← openSession a.url a.maxTries
    modify fun s => { s with held := some id }
    if recreate then
      onSession id latest.dropTables
      onSession id latest.dropSequences
    return id

/-- The held session, opened with the settings if there is none. -/
def getSession : Program (Service σ) SessionId := do
  match (← get).held with
  | some id => return id
  | none => acquire none false

def close : Program (Service σ) Unit := do
  match (← get).held with
  | none => return
  | some id =>
    onSession id (modify Link.close)
    modify fun s => { s with held := none }

/-- Opens a pipeline over the held session and starts it. The pipeline takes over the handles of
`earlier`. -/
def openPipeline (earlier : Pipeline) (url : Option String) (recreate : Bool) :
    Program (Service σ) (SessionId × Pipeline) := do
  let id ← acquire url recreate
  let (r, pipeline) ← onPipeline id (earlier.succeed latest latest.version)
    Intake.startup
  let _ ← Program.lift r
  return (id, pipeline)

end Service

end ChainArchive.Database
