import ChainArchive.Copy.Field

namespace ChainArchive.Copy

inductive RowTable where
  | blocks
  | transactions
  | actions
  deriving DecidableEq, Repr

namespace RowTable

def all : List RowTable := [.blocks, .transactions, .actions]

def name : RowTable → String
  | .blocks => "blocks"
  | .transactions => "transactions"
  | .actions => "actions"

def named? (s : String) : Option RowTable :=
  all.find? (·.name == s)

/-- The columns of a row, in order. The time of creation is left to its default. -/
def columns : RowTable → List String
  | .blocks =>
    ["block_id", "block_num", "prev_block_id", "timestamp", "trx_merkle_root", "trx_count",
      "producer", "pending"]
  | .transactions =>
    ["trx_id", "seq_num", "block_id", "block_num", "action_count", "timestamp", "expiration",
      "max_charge", "payer", "pending", "type", "status", "signatures", "keys", "elapsed",
      "charge", "suspend_name"]
  | .actions =>
    ["block_id", "block_num", "trx_id", "seq_num", "name", "domain", "key", "data"]

end RowTable

structure WidthError where
  table : RowTable
  found : Nat
  deriving DecidableEq, Repr

def WidthError.message (e : WidthError) : String :=
  e.table.name ++ " row has " ++ toString e.found ++ " fields, expected " ++
    toString e.table.columns.length

structure RowBuffer where
  rows : RowTable → List (List Char)

namespace RowBuffer

def empty : RowBuffer := ⟨fun _ => []⟩

def push (b : RowBuffer) (t : RowTable) (row : List Char) : RowBuffer :=
  ⟨fun u => if u = t then b.rows u ++ [row] else b.rows u⟩

/-- Encodes a row and adds it, if it has the width of its table. -/
def add (b : RowBuffer) (t : RowTable) (fields : List Value) : Except WidthError RowBuffer :=
  if fields.length = t.columns.length then .ok (b.push t (encodeRow fields))
  else .error ⟨t, fields.length⟩

def count (b : RowBuffer) (t : RowTable) : Nat := (b.rows t).length

def payload (b : RowBuffer) (t : RowTable) : List Char := (b.rows t).flatten

@[simp] theorem rows_push (b : RowBuffer) (t u : RowTable) (row : List Char) :
    (b.push t row).rows u = if u = t then b.rows u ++ [row] else b.rows u := rfl

end RowBuffer

end ChainArchive.Copy
