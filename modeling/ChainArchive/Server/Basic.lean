import ChainArchive.Value

namespace ChainArchive

structure Plan where
  name : String
  sql : String
  deriving DecidableEq, Repr

inductive ServerErrorKind where
  | uniqueViolation
  | badCopyFormat
  | undefinedTable
  | syntaxOrAccess
  | cannotConnectNow
  | connectionFailure
  | invalidPassword
  | invalidCatalogName
  /-- Misuse that the driver noticed itself. -/
  | interface
  | system
  | connectionRefused
  deriving DecidableEq, Repr

structure ServerError where
  kind : ServerErrorKind
  text : String
  deriving DecidableEq, Repr

namespace ServerError

def isDatabase (e : ServerError) : Bool :=
  match e.kind with
  | .interface | .system | .connectionRefused => false
  | _ => true

def isInterface (e : ServerError) : Bool := e.kind == .interface

def isSystem (e : ServerError) : Bool :=
  e.kind == .system || e.kind == .connectionRefused

/-- Whether a new attempt to connect may succeed. -/
def isTransient (e : ServerError) : Bool :=
  e.kind == .cannotConnectNow || e.kind == .connectionFailure || e.kind == .connectionRefused

end ServerError

inductive Request where
  | connect (url application : String)
  | execute (sql : String) (args : List Value)
  | fetchValue (sql : String) (args : List Value)
  | fetchRow (sql : String) (args : List Value)
  | fetchAll (sql : String) (args : List Value)
  | prepare (plan : Plan)
  | run (plan : Plan) (args : List Value)
  | copy (table : String) (columns : List String) (data : List Char)

/-- What is sent without waiting for an answer: the bracket of a transaction and the end of a
connection. That a server may refuse the bracket is left out. -/
inductive Mark where
  | start
  | commit
  | rollback
  | close
  /-- The close of a connection that is closed already; it changes nothing. -/
  | closeAgain
  deriving DecidableEq, Repr

abbrev Reply := Except ServerError Value

inductive Entry where
  | asked (request : Request) (reply : Reply)
  | marked (mark : Mark)

/-- A behaviour of a server with states `σ`: how it answers requests and notices marks. -/
class Server (σ : Type) where
  answer : σ → Request → Reply × σ
  /-- The state after a mark. A mark has no reply: that the start, the commit and the rollback of a
  transaction are never refused is assumed. -/
  notice : σ → Mark → σ

structure Line (σ : Type) where
  server : σ
  log : List Entry

namespace Line

variable {σ : Type} [Server σ]

def ask (l : Line σ) (r : Request) : Reply × Line σ :=
  let (reply, server) := Server.answer l.server r
  (reply, ⟨server, l.log ++ [.asked r reply]⟩)

def mark (l : Line σ) (m : Mark) : Line σ :=
  ⟨Server.notice l.server m, l.log ++ [.marked m]⟩

end Line

end ChainArchive
