import ChainArchive.Batch
import ChainArchive.Schema.Latest
import ChainArchive.Text.Blank

namespace ChainArchive.Checkpoint

def versionKey : String := "version"

def lastSyncKey : String := "last_sync_block_id"

def addStat (b : Batch) (key value : String) : Batch :=
  b.add "insert_stat" [.text key, .text value]

def updateStat (b : Batch) (key value : String) : Batch :=
  b.add "update_stat" [.text key, .text value]

def advance (b : Batch) (blockId : String) : Batch :=
  updateStat b lastSyncKey blockId

variable {σ : Type} [Server σ]

def readStat (key : String) : Program (Link σ) Value :=
  Link.run "read_stat" [.text key]

def latestBlockId : Program (Link σ) Value :=
  Link.run "latest_block_id" []

def blockExists (blockId : String) : Program (Link σ) Bool := do
  return (← Link.run "block_exists" [.text blockId]).isTruthy

def store (version : String) : Program (Link σ) Unit := do
  let _ ← Batch.commit (addStat (addStat [] versionKey version) lastSyncKey "")

/-- Fails unless the stored version is at least the running one, by the order of texts. -/
def checkVersion (version : String) : Program (Link σ) String := do
  match ← readStat versionKey with
  | .plain .null => throw .versionMissing
  | .plain (.text stored) =>
    if stored < version then throw (.versionObsolete stored version) else return stored
  | _ => throw .storedVersion

def blockIdText (v : Value) : Except Failure String :=
  match v with
  | .plain (.text s) => .ok (Text.strip s)
  | v => if v.isTruthy then .error .storedValue else .ok ""

/-- Fails unless the checkpoint agrees with the latest stored block, and returns the point to resume
from. The checkpoint moves in the transaction of a block's changes, so a block that was left half
written shows here. -/
def checkSync : Program (Link σ) String := do
  let checkpoint ← readStat lastSyncKey
  if checkpoint.isNull then throw .checkpointMissing
  let latest ← .lift (blockIdText (← latestBlockId))
  match checkpoint with
  | .plain (.text s) =>
    let s := Text.strip s
    if s = latest then return latest else throw (.checkpointMismatch s latest)
  | _ => throw .storedValue

end ChainArchive.Checkpoint
