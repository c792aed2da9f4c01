import ChainArchive.Ingest.Pipeline

namespace ChainArchive.Ingest

open ChainArchive.Copy ChainArchive.Record

inductive Addition where
  | transaction (t : Transaction) (seqNum : Option Int)
  | action (trxId : String) (a : Action) (seqNum : Int)

/-- An action with its transaction and its number there. -/
structure Delivered where
  trxId : String
  action : Action
  seqNum : Int

def carried (trxId : String) : List Action → (n : Nat) → List Delivered
  | [], _ => []
  | a :: as, n => ⟨trxId, a, n⟩ :: carried trxId as (n + 1)

def Addition.delivered : Addition → List Delivered
  | .transaction t _ => carried t.trxId t.actions 0
  | .action trxId a n => [⟨trxId, a, n⟩]

def deliveries (xs : List Addition) : List Delivered := xs.flatMap Addition.delivered

/-- The transactions among additions with their numbers: the given one, or the number of
transactions before. -/
def numbered : List Addition → (n : Nat) → List (Transaction × Int)
  | [], _ => []
  | .transaction t seqNum :: xs, n => (t, seqNum.getD n) :: numbered xs (n + 1)
  | .action _ _ _ :: xs, n => numbered xs n

def callsOf (a : Action) : List Call :=
  match render a with
  | .ok (some calls) => calls
  | _ => []

def Delivered.row (b : Block) (x : Delivered) : List Char :=
  encodeRow (actionRow b x.trxId x.action x.seqNum)

def listed : List Transaction → (n : Nat) → List Addition
  | [], _ => []
  | t :: ts, n => .transaction t (some n) :: listed ts (n + 1)

def bareBlock (blockId : String) (blockNum : Int) (prevBlockId : String) : Block :=
  ⟨blockId, blockNum, prevBlockId, ⟨2020, 1, 1, 0, 0, 0, 0, none, by decide⟩, "", "", none, []⟩

def bareTransaction (trxId : String) : Transaction :=
  ⟨trxId, ⟨2020, 1, 1, 0, 0, 0, 0, none, by decide⟩, 0, "", .input, .executed, [], [], 0, 0, none,
    none, []⟩

theorem numbered_append (xs ys : List Addition) (n : Nat) :
    numbered (xs ++ ys) n = numbered xs n ++ numbered ys (n + (numbered xs n).length) := by
  induction xs generalizing n with
  | nil => rfl
  | cons x xs ih =>
    cases x with
    | transaction t seqNum =>
      simp only [List.cons_append, numbered, ih, List.length_cons]
      rw [Nat.add_assoc, Nat.add_comm 1]
    | action trxId a seqNum => exact ih n

theorem numbered_concat (xs : List Addition) (x : Addition) :
    numbered (xs ++ [x]) 0 = numbered xs 0 ++ numbered [x] (numbered xs 0).length := by
  rw [numbered_append, Nat.zero_add]

theorem deliveries_concat (xs : List Addition) (x : Addition) :
    deliveries (xs ++ [x]) = deliveries xs ++ x.delivered := by
  simp [deliveries]

namespace Draft

theorem addRow_eq {d : Draft} {t : RowTable} {fields : List Value}
    (h : fields.length = t.columns.length) :
    d.addRow t fields = .ok { d with rows := d.rows.push t (encodeRow fields) } := by
  simp [addRow, RowBuffer.add, h]

def extend (d : Draft) (x : Delivered) : Draft :=
  { d with
    rows := d.rows.push .actions (x.row d.block)
    batch := d.batch ++ callsOf x.action
    delivered := d.delivered ++ [x.trxId] }

theorem takeAction_eq (d : Draft) (trxId : String) (a : Action) (n : Int) :
    d.takeAction trxId a n = (render a).map fun _ => d.extend ⟨trxId, a, n⟩ := by
  simp only [takeAction, renderOn]
  cases h : render a with
  | error e => rfl
  | ok calls =>
    cases calls with
    | none =>
      simp only [Except.map, bind, Except.bind, addRow_eq (length_actionRow _ _ _ _)]
      simp [extend, callsOf, h, Delivered.row, pure, Except.pure]
    | some calls =>
      simp only [Except.map, bind, Except.bind, addRow_eq (length_actionRow _ _ _ _)]
      simp [extend, callsOf, h, Delivered.row, pure, Except.pure]

/-- An action is taken up exactly if the draft is open and the action can be rendered; if it
cannot, an open draft is dropped. -/
theorem addAction_cases (d : Draft) (trxId : String) (a : Action) (n : Int) :
    (d.discarded = true ∧ d.addAction trxId a n = (.error (.unitDiscarded d.block.blockNum), d)) ∨
    (d.discarded = false ∧ ∃ e, render a = .error e ∧
      d.addAction trxId a n = (.error e, d.discard)) ∨
    (d.discarded = false ∧ (∃ calls, render a = .ok calls) ∧
      d.addAction trxId a n = (.ok (), d.extend ⟨trxId, a, n⟩)) := by
  cases hd : d.discarded with
  | true => exact .inl ⟨rfl, by simp [addAction, checkOpen, hd]⟩
  | false =>
    cases hr : render a with
    | error e =>
      refine .inr (.inl ⟨rfl, e, rfl, ?_⟩)
      simp [addAction, checkOpen, hd, takeAction_eq, hr, Except.map]
    | ok calls =>
      refine .inr (.inr ⟨rfl, ⟨calls, rfl⟩, ?_⟩)
      simp [addAction, checkOpen, hd, takeAction_eq, hr, Except.map]

def enlist (d : Draft) (t : Transaction) (seqNum : Option Int) : Draft :=
  { d with pending := d.pending ++ [(t, seqNum.getD d.trxCount)], trxCount := d.trxCount + 1 }

theorem addTransaction_eq {d : Draft} (hd : d.discarded = false) (t : Transaction)
    (seqNum : Option Int) :
    d.addTransaction t seqNum = (d.enlist t seqNum).addActions t.trxId t.actions 0 := by
  simp [addTransaction, checkOpen, hd, enlist]

theorem addActions_ok {d d' : Draft} {trxId : String} {as : List Action} {n : Nat}
    (hd : d.discarded = false) (h : d.addActions trxId as n = (.ok (), d')) :
    d' = (carried trxId as n).foldl extend d := by
  induction as generalizing d n with
  | nil =>
    simp only [addActions, Prod.mk.injEq, true_and] at h
    exact h.symm
  | cons a as ih =>
    obtain ⟨ht, -⟩ | ⟨-, e, -, he⟩ | ⟨-, -, ho⟩ := addAction_cases d trxId a n
    · rw [hd] at ht
      cases ht
    · simp [addActions, he] at h
    · simp only [addActions, ho] at h
      exact ih (d := d.extend ⟨trxId, a, n⟩) hd h

def takeUp (d : Draft) : Addition → Except Failure Unit × Draft
  | .transaction t seqNum => d.addTransaction t seqNum
  | .action trxId a n => d.addAction trxId a n

/-- An open draft of a block that holds what some additions delivered. -/
structure Holds (d : Draft) (b : Block) (xs : List Addition) : Prop where
  block_eq : d.block = b
  discarded_eq : d.discarded = false
  trxCount_eq : d.trxCount = (numbered xs 0).length
  pending_eq : d.pending = numbered xs 0
  delivered_eq : d.delivered = (deliveries xs).map (·.trxId)
  blocks_eq : d.rows.rows .blocks = []
  transactions_eq : d.rows.rows .transactions = []
  actions_eq : d.rows.rows .actions = (deliveries xs).map (Delivered.row b)
  batch_eq : d.batch = (deliveries xs).flatMap (callsOf ·.action)

theorem holds_ofBlock (b : Block) : (ofBlock b).Holds b [] where
  block_eq := rfl
  discarded_eq := rfl
  trxCount_eq := rfl
  pending_eq := rfl
  delivered_eq := rfl
  blocks_eq := rfl
  transactions_eq := rfl
  actions_eq := rfl
  batch_eq := rfl

theorem foldl_extend (d : Draft) (ys : List Delivered) :
    ys.foldl extend d = { d with
      rows := ⟨fun u => if u = .actions then d.rows.rows u ++ ys.map (Delivered.row d.block)
        else d.rows.rows u⟩
      batch := d.batch ++ ys.flatMap (callsOf ·.action)
      delivered := d.delivered ++ ys.map (·.trxId) } := by
  induction ys generalizing d with
  | nil => simp
  | cons y ys ih =>
    rw [List.foldl_cons, ih]
    simp only [extend, List.map_cons, List.flatMap_cons, List.append_assoc, RowBuffer.rows_push,
      List.singleton_append]
    congr 2
    funext u
    split <;> simp

def receive (d : Draft) : Addition → Draft
  | .transaction t seqNum => d.enlist t seqNum
  | .action _ _ _ => d

theorem takeUp_ok {d d' : Draft} {x : Addition} (hd : d.discarded = false)
    (h : d.takeUp x = (.ok (), d')) : d' = x.delivered.foldl extend (d.receive x) := by
  cases x with
  | transaction t seqNum =>
    rw [takeUp, addTransaction_eq hd] at h
    exact addActions_ok (d := d.enlist t seqNum) hd h
  | action trxId a n =>
    rw [takeUp] at h
    obtain ⟨ht, -⟩ | ⟨-, e, -, he⟩ | ⟨-, -, ho⟩ := addAction_cases d trxId a n
    · rw [hd] at ht
      cases ht
    · rw [he] at h
      cases h
    · rw [ho] at h
      cases h
      rfl

/-- What an addition leaves in the draft that took it up: its records stand behind those of before,
and no row is made that holds a count. -/
structure Takes (d d' : Draft) (x : Addition) : Prop where
  block_eq : d'.block = d.block
  discarded_eq : d'.discarded = d.discarded
  trxCount_eq : d'.trxCount = d.trxCount + (numbered [x] d.trxCount).length
  pending_eq : d'.pending = d.pending ++ numbered [x] d.trxCount
  delivered_eq : d'.delivered = d.delivered ++ x.delivered.map (·.trxId)
  blocks_eq : d'.rows.rows .blocks = d.rows.rows .blocks
  transactions_eq : d'.rows.rows .transactions = d.rows.rows .transactions
  actions_eq : d'.rows.rows .actions =
    d.rows.rows .actions ++ x.delivered.map (Delivered.row d.block)
  batch_eq : d'.batch = d.batch ++ x.delivered.flatMap (callsOf ·.action)

theorem takes_of_takeUp {d d' : Draft} {x : Addition} (hd : d.discarded = false)
    (h : d.takeUp x = (.ok (), d')) : d.Takes d' x := by
  have hx := takeUp_ok hd h
  rw [foldl_extend] at hx
  subst hx
  cases x with
  | transaction t seqNum => constructor <;> simp [receive, enlist, numbered]
  | action trxId a n => constructor <;> simp [receive, numbered]

theorem Holds.append {d d' : Draft} {b : Block} {xs : List Addition} {x : Addition}
    (h : d.Holds b xs) (hx : d.takeUp x = (.ok (), d')) : d'.Holds b (xs ++ [x]) := by
  have ht := takes_of_takeUp h.discarded_eq hx
  exact {
    block_eq := ht.block_eq.trans h.block_eq
    discarded_eq := ht.discarded_eq.trans h.discarded_eq
    trxCount_eq := by rw [ht.trxCount_eq, numbered_concat, List.length_append, h.trxCount_eq]
    pending_eq := by rw [ht.pending_eq, numbered_concat, h.pending_eq, h.trxCount_eq]
    delivered_eq := by
      rw [ht.delivered_eq, deliveries_concat, h.delivered_eq, List.map_append]
    blocks_eq := ht.blocks_eq.trans h.blocks_eq
    transactions_eq := ht.transactions_eq.trans h.transactions_eq
    actions_eq := by
      rw [ht.actions_eq, deliveries_concat, h.actions_eq, h.block_eq, List.map_append]
    batch_eq := by rw [ht.batch_eq, deliveries_concat, h.batch_eq, List.flatMap_append] }

theorem Holds.append_listed {d d' : Draft} {b : Block} {xs : List Addition}
    {ts : List Transaction} {n : Nat} (h : d.Holds b xs)
    (ht : d.addTransactions ts n = (.ok (), d')) :
    d'.Holds b (xs ++ listed ts n) := by
  induction ts generalizing d xs n with
  | nil =>
    cases ht
    simpa [listed] using h
  | cons t ts ih =>
    rw [addTransactions] at ht
    split at ht
    · next e hx => simpa [listed] using ih (h.append (x := .transaction t (some n)) hx) ht
    · cases ht

def countedRow (d : Draft) (p : Transaction × Int) : List Char :=
  encodeRow (transactionRow d.block p.1 p.2 (some (d.actionsOf p.1.trxId)))

def flushed (d : Draft) : Draft :=
  { d with
    pending := []
    rows := ⟨fun
      | .blocks => d.rows.rows .blocks ++ [encodeRow (blockRow d.block (some d.trxCount))]
      | .transactions => d.rows.rows .transactions ++ d.pending.map d.countedRow
      | .actions => d.rows.rows .actions⟩ }

theorem addPending_eq (d : Draft) (ps : List (Transaction × Int)) :
    d.addPending ps = .ok { d with
      rows := ⟨fun u => if u = .transactions then d.rows.rows u ++ ps.map d.countedRow
        else d.rows.rows u⟩ } := by
  induction ps generalizing d with
  | nil => simp [addPending]
  | cons p ps ih =>
    simp only [addPending, addRow_eq (length_transactionRow _ _ _ _), bind, Except.bind, ih]
    congr 3
    funext u
    split
    · simp [countedRow, actionsOf, *]
    · simp [*]

theorem flush_eq {d : Draft} (hd : d.discarded = false) : d.flush = .ok d.flushed := by
  simp only [flush, checkOpen, hd, Bool.false_eq_true, ↓reduceIte, bind, Except.bind,
    addRow_eq (length_blockRow _ _), addPending_eq, pure, Except.pure, flushed]
  congr 3
  funext u
  cases u <;> simp [countedRow, actionsOf]

end Draft

end ChainArchive.Ingest
