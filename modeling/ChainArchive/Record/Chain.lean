import ChainArchive.Record.Checked

namespace ChainArchive.Record

open ChainArchive.Time

inductive TransactionKind where
  | input
  | suspended
  deriving DecidableEq, Repr

def TransactionKind.name : TransactionKind → String
  | .input => "input"
  | .suspended => "suspend"

def TransactionKind.named? (s : String) : Option TransactionKind :=
  [TransactionKind.input, .suspended].find? (·.name == s)

inductive TransactionStatus where
  | executed
  | softFail
  | hardFail
  | expired
  deriving DecidableEq, Repr

def TransactionStatus.name : TransactionStatus → String
  | .executed => "executed"
  | .softFail => "soft_fail"
  | .hardFail => "hard_fail"
  | .expired => "expired"

def TransactionStatus.named? (s : String) : Option TransactionStatus :=
  [TransactionStatus.executed, .softFail, .hardFail, .expired].find? (·.name == s)

structure Action where
  name : String
  domain : String
  key : String
  data : Members

def Action.check : Check Action :=
  record fun m =>
    Action.mk <$> required "name" text m <*> required "domain" text m <*> required "key" text m <*>
      defaulted "data" [] object m

structure Transaction where
  trxId : String
  expiration : Moment
  maxCharge : Int
  payer : String
  kind : TransactionKind
  status : TransactionStatus
  signatures : List String
  keys : List String
  elapsed : Int
  charge : Int
  suspendName : Option String
  actionCount : Option Int
  actions : List Action

def Transaction.check : Check Transaction :=
  record fun m =>
    Transaction.mk <$> required "trx_id" text m <*> required "expiration" moment m <*>
      required "max_charge" integer m <*> required "payer" text m <*>
      defaulted "type" .input (choice TransactionKind.named?) m <*>
      defaulted "status" .executed (choice TransactionStatus.named?) m <*>
      defaulted "signatures" [] (list text) m <*> defaulted "keys" [] (list text) m <*>
      defaulted "elapsed" 0 integer m <*> defaulted "charge" 0 integer m <*>
      defaulted "suspend_name" none (optional text) m <*>
      defaulted "action_count" none (optional integer) m <*>
      defaulted "actions" [] (list Action.check) m

structure Block where
  blockId : String
  blockNum : Int
  prevBlockId : String
  timestamp : Moment
  trxMerkleRoot : String
  producer : String
  trxCount : Option Int
  transactions : List Transaction

def Block.check : Check Block :=
  record fun m =>
    Block.mk <$> required "block_id" text m <*> required "block_num" integer m <*>
      required "prev_block_id" text m <*> required "timestamp" moment m <*>
      required "trx_merkle_root" text m <*> required "producer" text m <*>
      defaulted "trx_count" none (optional integer) m <*>
      defaulted "transactions" [] (list Transaction.check) m

end ChainArchive.Record
