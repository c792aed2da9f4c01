import ChainArchive.Program
import ChainArchive.Statement

namespace ChainArchive

inductive Connection where
  | live
  /-- Closed by someone else while the session holds it. -/
  | severed
  | released
  deriving DecidableEq, Repr

/-- One connection with the statements that have been registered on it, none of them twice while the
connection lasts. -/
structure Session where
  statements : List Plan
  registered : List String
  connection : Connection
  deriving DecidableEq, Repr

def Session.ofStatements (statements : List Plan) : Session := ⟨statements, [], .live⟩

def Session.isClosed (s : Session) : Bool := s.connection != .live

def Session.isRegistered (s : Session) (name : String) : Bool := s.registered.contains name

structure Link (σ : Type) where
  session : Session
  line : Line σ

namespace Link

variable {σ : Type} [Server σ]

def ask (r : Request) : Program (Link σ) Reply :=
  .of fun l =>
    match l.session.connection with
    | .released => (.error .noConnection, l)
    | _ =>
      let (reply, line) := l.line.ask r
      (.ok reply, { l with line })

def mark (m : Mark) (l : Link σ) : Link σ := { l with line := l.line.mark m }

def passing (r : Request) : Program (Link σ) Value := do
  match ← ask r with
  | .ok v => return v
  | .error e => throw (.server e)

/-- Runs `body` in a transaction: it is committed if `body` succeeds and rolled back if not. That
the server refuses none of the three marks is assumed, since a mark has no reply. -/
def inTransaction {α : Type} (body : Program (Link σ) α) : Program (Link σ) α :=
  .of fun l =>
    match l.session.connection with
    | .released => (.error .noConnection, l)
    | _ =>
      match body.runFrom (l.mark .start) with
      | (.ok x, l) => (.ok x, l.mark .commit)
      | (.error e, l) => (.error e, l.mark .rollback)

/-- The statement with a name, registered first if it is not yet. -/
def plan (name : String) : Program (Link σ) Plan := do
  let l ← get
  match Statement.find? l.session.statements name with
  | none => throw (.register name none)
  | some p =>
    if l.session.isRegistered name then return p
    match ← ask (.prepare p) with
    | .ok _ =>
      modify fun l => { l with session.registered := l.session.registered ++ [name] }
      return p
    | .error e => throw (if e.isDatabase then .register name (some e) else .server e)

def planEach : List String → Program (Link σ) Unit
  | [] => return
  | name :: names => do
    let _ ← plan name
    planEach names

def planAll : Program (Link σ) Unit := do
  planEach ((← get).session.statements.map (·.name))

def run (name : String) (args : List Value) : Program (Link σ) Value := do
  let p ← plan name
  passing (.run p args)

def copyInto (table : String) (columns : List String) (data : List Char) :
    Program (Link σ) Unit := do
  match ← ask (.copy table columns data) with
  | .ok _ => return
  | .error e => throw (if e.isDatabase || e.isInterface then .transfer table e else .server e)

def hangUp (l : Link σ) : Link σ :=
  match l.session.connection with
  | .live => l.mark .close
  | .severed => l.mark .closeAgain
  | .released => l

def close (l : Link σ) : Link σ :=
  match l.session.connection with
  | .released => l
  | _ => { l.hangUp with session.connection := .released, session.registered := [] }

/-- Closes the connection behind the back of the session. -/
def sever : Program (Link σ) Unit :=
  .of fun l =>
    match l.session.connection with
    | .released => (.error .noConnection, l)
    | _ => (.ok (), { l.hangUp with session.connection := .severed })

end Link

end ChainArchive
