import ChainArchive.Database.Target
import ChainArchive.Program

namespace ChainArchive.Database

variable {σ : Type} [Server σ]

def request (r : Request) : Program (Line σ) Reply :=
  .of fun l =>
    let (reply, l) := l.ask r
    (.ok reply, l)

/-- Tries to connect, and tries `further` times again while the failure is transient. -/
def attempt (url application : String) : (further : Nat) → Program (Line σ) Reply
  | 0 => request (.connect url application)
  | n + 1 => do
    match ← request (.connect url application) with
    | .ok v => return .ok v
    | .error e => if e.isTransient then attempt url application n else return .error e

/-- The number of attempts where no limit is set. This deviates: attempts would go on for ever then,
and end here after that many. -/
def patience : Nat := Nat.pow 2 64

def attemptLimit (maxTries : Int) : Nat :=
  if 1 ≤ maxTries then maxTries.toNat else patience

def ofUrl {α : Type} (r : Except Url.Fault α) : Program (Line σ) α :=
  .lift (r.mapError .badUrl)

def connect (url : String) (maxTries : Int) : Program (Line σ) Unit := do
  let application ← ofUrl (applicationName url)
  match ← attempt url application (attemptLimit maxTries - 1) with
  | .ok _ => return
  | .error e => throw (if e.isDatabase || e.isSystem then .connect e else .server e)

/-- Runs `body` over a connection to the maintenance database of the server of `url`; the connection
is closed again in every case. -/
def onMaintenance {α : Type} (url : String) (maxTries : Int) (body : Program (Line σ) α) :
    Program (Line σ) α := do
  connect (← ofUrl (maintenanceUrl url)) maxTries
  body.ensuring (·.mark .close)

def existsSql : String :=
  "SELECT EXISTS(SELECT 1 FROM pg_catalog.pg_database WHERE datname = $1)"

def createSql (name : String) : String :=
  "\n            CREATE DATABASE \"" ++ name ++ "\"
            WITH
            TEMPLATE = template0
            ENCODING = 'UTF8'
            LC_COLLATE = 'C'
            LC_CTYPE = 'C'
            CONNECTION LIMIT = -1
        "

def dropSql (name : String) : String := "DROP DATABASE IF EXISTS \"" ++ name ++ "\""

def databaseExists (url : String) (maxTries : Int) : Program (Line σ) Value :=
  onMaintenance url maxTries do
    let name ← ofUrl (databaseName url)
    match ← request (.fetchValue existsSql [.text name]) with
    | .ok v => return v
    | .error e => throw (.server e)

def onDatabase (sql : String → String) (failure : String → ServerError → Failure) (url : String)
    (maxTries : Int) : Program (Line σ) Unit := do
  let name ← ofUrl (databaseName url)
  onMaintenance url maxTries do
    match ← request (.execute (sql name) []) with
    | .ok _ => return
    | .error e => throw (if e.isDatabase then failure name e else .server e)

def createDatabase : (url : String) → (maxTries : Int) → Program (Line σ) Unit :=
  onDatabase createSql .createDatabase

def dropDatabase : (url : String) → (maxTries : Int) → Program (Line σ) Unit :=
  onDatabase dropSql .dropDatabase

def ensureDatabase (url : String) (maxTries : Int) : Program (Line σ) Unit := do
  if !(← databaseExists url maxTries).isTruthy then createDatabase url maxTries

end ChainArchive.Database
