import ChainArchive.Copy.Buffer
import ChainArchive.Record.Chain

namespace ChainArchive.Copy

open ChainArchive.Record

/-- The row of a block; `counted` is the number of its transactions. A count that the block carries
wins over it, and without either the transactions that came with the block are counted. -/
def blockRow (b : Block) (counted : Option Int) : List Value :=
  [.text b.blockId, .int b.blockNum, .text b.prevBlockId, .moment b.timestamp,
    .text b.trxMerkleRoot, .int ((b.trxCount <|> counted).getD b.transactions.length),
    .text b.producer, .bool true]

def transactionRow (b : Block) (t : Transaction) (seqNum : Int) (counted : Option Int) :
    List Value :=
  [.text t.trxId, .int seqNum, .text b.blockId, .int b.blockNum,
    .int ((t.actionCount <|> counted).getD t.actions.length), .moment b.timestamp, .moment t.expiration,
    .int t.maxCharge, .text t.payer, .bool true, .text t.kind.name, .text t.status.name,
    .texts t.signatures, .texts t.keys, .int t.elapsed, .int t.charge,
    .ofText? t.suspendName]

def actionRow (b : Block) (trxId : String) (a : Action) (seqNum : Int) : List Value :=
  [.text b.blockId, .int b.blockNum, .text trxId, .int seqNum, .text a.name, .text a.domain,
    .text a.key, .plain (.object a.data)]

@[simp] theorem length_blockRow (b : Block) (n : Option Int) :
    (blockRow b n).length = RowTable.blocks.columns.length := rfl

@[simp] theorem length_transactionRow (b : Block) (t : Transaction) (s : Int) (n : Option Int) :
    (transactionRow b t s n).length = RowTable.transactions.columns.length := rfl

@[simp] theorem length_actionRow (b : Block) (trxId : String) (a : Action) (s : Int) :
    (actionRow b trxId a s).length = RowTable.actions.columns.length := rfl

end ChainArchive.Copy
