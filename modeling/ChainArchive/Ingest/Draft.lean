import ChainArchive.Copy.Row
import ChainArchive.Checkpoint
import ChainArchive.Ingest.Rules

namespace ChainArchive.Ingest

open ChainArchive.Copy ChainArchive.Record

/-- The collected writes of one block; nothing is sent before the commit. The rows of the block and
of its transactions hold counts, so they are made by a flush and not when a record arrives. -/
structure Draft where
  block : Block
  rows : RowBuffer
  batch : Batch
  trxCount : Nat
  pending : List (Transaction × Int)
  /-- The transactions of the actions taken up, one entry for each action. -/
  delivered : List String
  discarded : Bool

namespace Draft

def ofBlock (b : Block) : Draft := ⟨b, .empty, [], 0, [], [], false⟩

def actionCount (d : Draft) : Nat := d.delivered.length

def actionsOf (d : Draft) (trxId : String) : Nat := d.delivered.count trxId

def discard (d : Draft) : Draft :=
  if d.discarded then d
  else { d with discarded := true, rows := .empty, batch := [], pending := [] }

def checkOpen (d : Draft) : Except Failure Unit :=
  if d.discarded then .error (.unitDiscarded d.block.blockNum) else .ok ()

def addRow (d : Draft) (t : RowTable) (fields : List Value) : Except Failure Draft :=
  match d.rows.add t fields with
  | .ok rows => .ok { d with rows }
  | .error e => .error (.rowWidth e)

def takeAction (d : Draft) (trxId : String) (a : Action) (seqNum : Int) :
    Except Failure Draft := do
  let (batch, _) ← renderOn d.batch a
  let d ← { d with batch }.addRow .actions (actionRow d.block trxId a seqNum)
  return { d with delivered := d.delivered ++ [trxId] }

/-- Takes up an action. A record that cannot be taken up spoils the whole draft, so a failure drops
it. -/
def addAction (d : Draft) (trxId : String) (a : Action) (seqNum : Int) : Except Failure Unit × Draft :=
  match d.checkOpen with
  | .error e => (.error e, d)
  | .ok () =>
    match d.takeAction trxId a seqNum with
    | .ok d => (.ok (), d)
    | .error e => (.error e, d.discard)

def addActions (d : Draft) (trxId : String) : List Action → (seqNum : Nat) → Except Failure Unit × Draft
  | [], _ => (.ok (), d)
  | a :: rest, n =>
    match d.addAction trxId a n with
    | (.ok (), d) => d.addActions trxId rest (n + 1)
    | (.error e, d) => (.error e, d)

def addTransaction (d : Draft) (t : Transaction) (seqNum : Option Int) : Except Failure Unit × Draft :=
  match d.checkOpen with
  | .error e => (.error e, d)
  | .ok () =>
    let d := { d with
      pending := d.pending ++ [(t, seqNum.getD d.trxCount)]
      trxCount := d.trxCount + 1 }
    d.addActions t.trxId t.actions 0

def addTransactions (d : Draft) : List Transaction → (seqNum : Nat) → Except Failure Unit × Draft
  | [], _ => (.ok (), d)
  | t :: rest, n =>
    match d.addTransaction t (some n) with
    | (.ok (), d) => d.addTransactions rest (n + 1)
    | (.error e, d) => (.error e, d)

def addPending (d : Draft) : List (Transaction × Int) → Except Failure Draft
  | [] => .ok d
  | (t, n) :: rest => do
    let d ← d.addRow .transactions (transactionRow d.block t n (some (d.actionsOf t.trxId)))
    d.addPending rest

/-- Makes the row of the block and the rows of its transactions. -/
def flush (d : Draft) : Except Failure Draft := do
  d.checkOpen
  let d ← d.addRow .blocks (blockRow d.block (some d.trxCount))
  let d ← d.addPending d.pending
  return { d with pending := [] }

def advance (d : Draft) : Draft :=
  { d with batch := Checkpoint.advance d.batch d.block.blockId }

end Draft

end ChainArchive.Ingest
