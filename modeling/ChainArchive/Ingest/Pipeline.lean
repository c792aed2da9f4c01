import ChainArchive.Copy.Transfer
import ChainArchive.Ingest.Draft
import ChainArchive.Schema.Apply

namespace ChainArchive.Ingest

open ChainArchive.Record ChainArchive.Schema

abbrev DraftId := Nat

/-- The state of a pipeline. All drafts it ever opened are kept, so that a handle stays valid. -/
structure Pipeline where
  layout : Layout
  version : String
  /-- The id of the last committed block, empty before the first; none before a startup. -/
  lastSync : Option String
  drafts : List Draft
  current : Option DraftId
  halted : Option String
  started : Bool

namespace Pipeline

def ofLayout (layout : Layout) (version : String) : Pipeline :=
  ⟨layout, version, none, [], none, none, false⟩

/-- The pipeline that takes over the handles of an earlier one, whose drafts are out of date. -/
def succeed (p : Pipeline) (layout : Layout) (version : String) : Pipeline :=
  { ofLayout layout version with drafts := p.drafts }

def draft? (p : Pipeline) (id : DraftId) : Option Draft := p.drafts[id]?

def openDraft? (p : Pipeline) : Option Draft := p.current.bind p.draft?

def setDraft (p : Pipeline) (id : DraftId) (d : Draft) : Pipeline :=
  { p with drafts := p.drafts.set id d }

def release (p : Pipeline) (id : DraftId) : Pipeline :=
  if p.current = some id then { p with current := none } else p

def abort (p : Pipeline) (id : DraftId) : Pipeline :=
  match p.draft? id with
  | some d => (p.release id).setDraft id d.discard
  | none => p

def onDraft (p : Pipeline) (id : DraftId) (f : Draft → Except Failure Unit × Draft) :
    Except Failure Unit × Pipeline :=
  match p.draft? id with
  | none => (.error .notTheOpenUnit, p)
  | some d =>
    let (r, d') := f d
    let p := p.setDraft id d'
    (r, if d'.discarded && !d.discarded then p.release id else p)

def addTransaction (p : Pipeline) (id : DraftId) (t : Transaction) (seqNum : Option Int) :
    Except Failure Unit × Pipeline :=
  p.onDraft id (·.addTransaction t seqNum)

def addAction (p : Pipeline) (id : DraftId) (trxId : String) (a : Action) (seqNum : Int) :
    Except Failure Unit × Pipeline :=
  p.onDraft id (·.addAction trxId a seqNum)

def flush (p : Pipeline) (id : DraftId) : Except Failure Unit × Pipeline :=
  p.onDraft id fun d =>
    match d.flush with
    | .ok d => (.ok (), d)
    | .error e => (.error e, d)

def discard (p : Pipeline) (id : DraftId) : Except Failure Unit × Pipeline :=
  p.onDraft id fun d => (.ok (), d.discard)

def beginBlock (p : Pipeline) (b : Block) : Except Failure DraftId × Pipeline :=
  if !p.started then (.error .notStarted, p)
  else match p.halted with
  | some reason => (.error (.halted reason), p)
  | none =>
    match p.openDraft? with
    | some d => (.error (.blockOpen d.block.blockNum), p)
    | none =>
      let last := p.lastSync.getD ""
      if last ≠ "" ∧ b.prevBlockId ≠ last then
        (.error (.notNext b.blockNum b.prevBlockId last), p)
      else
        let id := p.drafts.length
        (.ok id, { p with drafts := p.drafts ++ [.ofBlock b], current := some id })

end Pipeline

structure Intake (σ : Type) where
  pipeline : Pipeline
  link : Link σ

namespace Intake

variable {σ : Type} [Server σ]

def onLink {α : Type} (p : Program (Link σ) α) : Program (Intake σ) α :=
  p.onPart (·.link) fun link s => { s with link }

def onPipeline {α : Type} (f : Pipeline → Except Failure α × Pipeline) : Program (Intake σ) α :=
  .of fun s =>
    let (r, pipeline) := f s.pipeline
    (r, { s with pipeline })

def update (f : Pipeline → Pipeline) : Program (Intake σ) Unit :=
  modify fun s => { s with pipeline := f s.pipeline }

/-- Prepares the database and verifies it against the checkpoint, and returns the point to resume
from. A new database gets the version and an empty checkpoint; an old one is only checked. -/
def startup : Program (Intake σ) String := do
  let p := (← get).pipeline
  if (← onLink (p.layout.tableExists "stats")).isTruthy then
    onLink p.layout.create
    let _ ← onLink (Checkpoint.checkVersion p.version)
    let last ← onLink Checkpoint.checkSync
    update fun p => { p with lastSync := some last }
  else
    onLink p.layout.create
    onLink (Checkpoint.store p.version)
    update fun p => { p with lastSync := some "" }
  onLink Link.planAll
  update fun p => { p with halted := none, started := true }
  return (← get).pipeline.lastSync.getD ""

def needsBootstrap : Program (Intake σ) Bool := do
  onLink ((← get).pipeline.layout.tableIsEmpty "blocks")

/-- Sends the writes of a draft: rows first, then the transaction of its changes. The draft keeps
what was not sent. -/
def send (id : DraftId) (d : Draft) : Program (Intake σ) Unit := do
  let d ← .lift d.flush
  let d := d.advance
  update (·.setDraft id d)
  let rows ← onLink d.rows.commit
  let d := { d with rows }
  update (·.setDraft id d)
  let batch ← onLink (Batch.commit d.batch)
  update (·.setDraft id { d with batch })

def haltReason (b : Block) (f : Failure) : String :=
  "commit of block " ++ toString b.blockNum ++ " (" ++ b.blockId ++ ") failed: " ++ f.message

def haltOn (b : Block) (f : Failure) (s : Intake σ) : Intake σ :=
  if f.isDatabase then { s with pipeline.halted := some (haltReason b f) } else s

/-- Commits the open draft: first its rows are transferred, then its changes run in one transaction,
which also moves the checkpoint. Whatever the outcome, the draft is open no longer; a failure of the
write path halts the pipeline until a startup has verified the database again. -/
def commit (id : DraftId) : Program (Intake σ) Unit := do
  let p := (← get).pipeline
  match p.draft? id with
  | none => throw .notTheOpenUnit
  | some d =>
    if p.current ≠ some id then throw .notTheOpenUnit
    ((send id d).onFailure (haltOn d.block)).ensuring fun s => { s with pipeline.current := none }
    update fun p => { p with lastSync := some d.block.blockId }

/-- Takes up and commits a whole block; false if the block is already stored. -/
def ingestBlock (b : Block) : Program (Intake σ) Bool := do
  if (← get).pipeline.lastSync = some b.blockId then return false
  if ← onLink (Checkpoint.blockExists b.blockId) then return false
  let id ← onPipeline (·.beginBlock b)
  onPipeline fun p => p.onDraft id (·.addTransactions b.transactions 0)
  commit id
  return true

def markIrreversible (blockId : String) : Program (Intake σ) Unit := do
  let _ ← onLink (Batch.commit (Batch.add [] "set_block_irreversible" [.text blockId]))

end Intake

end ChainArchive.Ingest
