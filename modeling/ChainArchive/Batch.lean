import ChainArchive.Session

namespace ChainArchive

structure Invocation where
  plan : String
  args : List Value

/-- A buffered statement, with the one that takes its result. -/
structure Call where
  plan : String
  args : List Value
  next : Option Invocation

abbrev Batch := List Call

namespace Batch

def add (b : Batch) (plan : String) (args : List Value) : Batch :=
  b ++ [⟨plan, args, none⟩]

def addChained (b : Batch) (plan : String) (args : List Value) (next : Invocation) : Batch :=
  b ++ [⟨plan, args, some next⟩]

variable {σ : Type} [Server σ]

def invoke (plan : String) (args : List Value) : Program (Link σ) Value :=
  (Link.run plan args).mapFailure fun
    | .server e => if e.isDatabase then .statement plan e else .server e
    | f => f

def runCall (c : Call) : Program (Link σ) Unit := do
  let result ← invoke c.plan c.args
  match c.next with
  | none => return
  | some next =>
    if result.isNull then throw (.noResult c.plan)
    let _ ← invoke next.plan (result :: next.args)

def runCalls : List Call → Program (Link σ) Unit
  | [] => return
  | c :: cs => do
    runCall c
    runCalls cs

/-- Runs a batch in one transaction, so that either all of its calls take effect or none does, and
returns what is left in it. An empty batch sends nothing. -/
def commit (b : Batch) : Program (Link σ) Batch := do
  if b.isEmpty then return b
  Link.inTransaction (runCalls b)
  return []

end Batch

/-- A batch that is kept while it is committed, with the link it is committed over. -/
structure Outbox (σ : Type) where
  calls : Batch
  link : Link σ

def Outbox.commit {σ : Type} [Server σ] : Program (Outbox σ) Unit := do
  let calls := (← get).calls
  let rest ← (Batch.commit calls).onPart (·.link) fun link o => { o with link }
  modify fun o => { o with calls := rest }

end ChainArchive
