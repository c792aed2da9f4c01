import ChainArchive.Proofs.Ingest.Counting
import Mathlib.Data.List.Forall2

namespace ChainArchive.Ingest

open ChainArchive.Copy ChainArchive.Link ChainArchive.Record

namespace Draft

/-- An open draft of a block that holds what some additions delivered and was flushed `n` times.
A row that holds a count is that of the moment it was made: of the additions so far. -/
structure HoldsFlushed (d : Draft) (b : Block) (n : Nat) (xs : List Addition) : Prop where
  block_eq : d.block = b
  discarded_eq : d.discarded = false
  trxCount_eq : d.trxCount = (numbered xs 0).length
  delivered_eq : d.delivered = (deliveries xs).map (·.trxId)
  blocks : ∃ made : List (List Addition), made.length = n ∧ (∀ ys ∈ made, ys <+: xs) ∧
    d.rows.rows .blocks = made.map (blockLine b)
  transactions : ∃ made : List (List Addition × Transaction × Int), (∀ q ∈ made, q.1 <+: xs) ∧
    made.map (·.2) ++ d.pending = numbered xs 0 ∧
    d.rows.rows .transactions = made.map fun q => transactionLine b q.1 q.2
  actions_eq : d.rows.rows .actions = (deliveries xs).map (Delivered.row b)

variable {d d' : Draft} {b : Block} {n : Nat} {xs : List Addition} {x : Addition}

theorem Holds.holdsFlushed (h : d.Holds b xs) : d.HoldsFlushed b 0 xs where
  block_eq := h.block_eq
  discarded_eq := h.discarded_eq
  trxCount_eq := h.trxCount_eq
  delivered_eq := h.delivered_eq
  blocks := ⟨[], rfl, by simp, h.blocks_eq⟩
  transactions := ⟨[], by simp, h.pending_eq, h.transactions_eq⟩
  actions_eq := h.actions_eq

theorem HoldsFlushed.append (h : d.HoldsFlushed b n xs) (hx : d.takeUp x = (.ok (), d')) :
    d'.HoldsFlushed b n (xs ++ [x]) := by
  have ht := takes_of_takeUp h.discarded_eq hx
  obtain ⟨blocks, hlen, hblocks, hrows⟩ := h.blocks
  obtain ⟨made, hmade, hpending, hlines⟩ := h.transactions
  exact {
    block_eq := ht.block_eq.trans h.block_eq
    discarded_eq := ht.discarded_eq.trans h.discarded_eq
    trxCount_eq := by rw [ht.trxCount_eq, numbered_concat, List.length_append, h.trxCount_eq]
    delivered_eq := by
      rw [ht.delivered_eq, deliveries_concat, h.delivered_eq, List.map_append]
    blocks := ⟨blocks, hlen, fun ys hys => (hblocks ys hys).trans (List.prefix_append _ _),
      ht.blocks_eq.trans hrows⟩
    transactions := ⟨made, fun q hq => (hmade q hq).trans (List.prefix_append _ _),
      by rw [ht.pending_eq, ← List.append_assoc, hpending, numbered_concat, h.trxCount_eq],
      ht.transactions_eq.trans hlines⟩
    actions_eq := by
      rw [ht.actions_eq, deliveries_concat, h.actions_eq, h.block_eq, List.map_append] }

theorem HoldsFlushed.flushed (h : d.HoldsFlushed b n xs) :
    d.flushed.HoldsFlushed b (n + 1) xs := by
  obtain ⟨blocks, hlen, hblocks, hrows⟩ := h.blocks
  obtain ⟨made, hmade, hpending, hlines⟩ := h.transactions
  have hline : blockLine b xs = encodeRow (blockRow d.block (some d.trxCount)) := by
    rw [blockLine, h.block_eq, h.trxCount_eq]
  have hcounted : d.countedRow = transactionLine b xs := by
    funext p
    rw [countedRow, actionsOf, h.block_eq, h.delivered_eq, transactionLine]
  exact {
    block_eq := h.block_eq
    discarded_eq := h.discarded_eq
    trxCount_eq := h.trxCount_eq
    delivered_eq := h.delivered_eq
    blocks := ⟨blocks ++ [xs], by simp [hlen], by simpa [or_imp, forall_and] using hblocks,
      by simp [Draft.flushed, hrows, hline]⟩
    transactions := ⟨made ++ d.pending.map (xs, ·), by
        simp only [List.mem_append, List.mem_map]
        rintro q (hq | ⟨p, -, rfl⟩)
        · exact hmade q hq
        · exact List.prefix_rfl,
      by simpa [Draft.flushed, Function.comp_def] using hpending,
      by simp [Draft.flushed, hlines, hcounted, Function.comp_def]⟩
    actions_eq := h.actions_eq }

end Draft

def Op.isFlush (id : DraftId) : Op → Bool
  | .flush j => j == id
  | _ => false

def flushes (id : DraftId) (ops : List Op) : Nat := ops.countP (Op.isFlush id)

theorem Op.isFlush_iff {id : DraftId} {op : Op} : op.isFlush id = true ↔ op = .flush id := by
  cases op <;> simp [Op.isFlush]

theorem flushes_eq_zero {id : DraftId} {ops : List Op} : flushes id ops = 0 ↔ .flush id ∉ ops := by
  simp only [flushes, List.countP_eq_zero, Op.isFlush_iff]
  exact ⟨fun h hm => h _ hm rfl, fun h op hop he => h (he ▸ hop)⟩

theorem Turned.holdsFlushed {id : DraftId} {ops : List Op} {d e : Draft} {b : Block} {n : Nat}
    {xs : List Addition} (h : Turned id ops d e) (hd : d.HoldsFlushed b n xs) :
    e.HoldsFlushed b (n + flushes id ops) (xs ++ given id ops) := by
  induction h generalizing n xs with
  | nil d => simpa [given, flushes] using hd
  | @cons op ops d e f hturn _ ih =>
    have hcount : flushes id (op :: ops) = (if op.isFlush id then 1 else 0) + flushes id ops := by
      rw [flushes, List.countP_cons, Nat.add_comm, flushes]
    rw [given_cons, ← List.append_assoc, hcount, ← Nat.add_assoc]
    apply ih
    cases hturn with
    | taken hx he =>
      have hflush : op.isFlush id = false := by
        cases op <;> first | rfl | cases hx
      simpa [hx, hflush] using hd.append he
    | flushed => simpa [Op.isFlush, Op.addition?] using hd.flushed
    | beside _ hnone hne =>
      have hflush : op.isFlush id = false :=
        Bool.eq_false_iff.mpr fun h => hne (Op.isFlush_iff.mp h)
      simpa [hnone, hflush] using hd

/-- What was transferred is read back as `n` rows of a block, and one row for each transaction and
each action of additions, in order. The counts in a row are those of some moment. -/
structure RowsOf (es : List Entry) (b : Block) (n : Nat) (xs : List Addition) : Prop where
  blocks : ∃ rows, readRows? (transferred .blocks es) = some rows ∧ rows.length = n ∧
    ∀ row ∈ rows, ∃ ys, ys <+: xs ∧ row = readBlock b ys
  transactions : ∃ rows, readRows? (transferred .transactions es) = some rows ∧
    List.Forall₂ (fun row p => ∃ ys, ys <+: xs ∧ row = readTransaction b ys p) rows (numbered xs 0)
  actions : readRows? (transferred .actions es) = some ((deliveries xs).map (readAction b))

theorem RowsOf.unique {es : List Entry} {b : Block} {n m : Nat} {xs : List Addition}
    (h : RowsOf es b n xs) (h' : RowsOf es b m xs) : n = m := by
  obtain ⟨rows, hread, rfl, -⟩ := h.blocks
  obtain ⟨rows', hread', rfl, -⟩ := h'.blocks
  cases hread.symm.trans hread'
  rfl

theorem readRows?_map {α : Type} {row : α → List Value} (h : ∀ x, row x ≠ []) (xs : List α) :
    readRows? (xs.map fun x => encodeRow (row x)).flatten =
      some (xs.map fun x => (row x).map fieldText) := by
  have hrows := readRows?_encodeRow (xs.map row) fun r hr => by
    obtain ⟨x, -, rfl⟩ := List.mem_map.mp hr
    exact h x
  simpa only [List.map_map, Function.comp_def] using hrows

variable {t : Terms} {es : List Entry}

theorem Draft.transferred_eq {d : Draft} (h : InTurn t d.flushed.advance.steps (.ok ()) es)
    (u : RowTable) : transferred u es = (d.flushed.rows.rows u).flatten := by
  rw [h.transferred_eq, d.steps_flushed]
  simp only [List.flatMap_cons, List.flatMap_append, data_copyStep, data_bracketSteps]
  cases u <;> simp [Step.data]

theorem Draft.HoldsFlushed.rowsOf {d : Draft} {b : Block} {n : Nat} {xs : List Addition}
    (h : d.HoldsFlushed b n xs) (hturn : InTurn t d.flushed.advance.steps (.ok ()) es) :
    RowsOf es b (n + 1) xs := by
  obtain ⟨blocks, hlen, hblocks, hrows⟩ := h.flushed.blocks
  obtain ⟨made, hmade, hpending, hlines⟩ := h.flushed.transactions
  have hnumbered : made.map (·.2) = numbered xs 0 := (List.append_nil _).symm.trans hpending
  refine ⟨⟨blocks.map (readBlock b), ?_, by simpa using hlen, ?_⟩,
    ⟨made.map fun q => readTransaction b q.1 q.2, ?_, ?_⟩, ?_⟩
  · rw [Draft.transferred_eq hturn, hrows]
    exact readRows?_map (fun _ => List.cons_ne_nil _ _) blocks
  · intro row hrow
    obtain ⟨ys, hys, rfl⟩ := List.mem_map.mp hrow
    exact ⟨ys, hblocks ys hys, rfl⟩
  · rw [Draft.transferred_eq hturn, hlines]
    exact readRows?_map (fun _ => List.cons_ne_nil _ _) made
  · rw [← hnumbered, List.forall₂_map_left_iff, List.forall₂_map_right_iff, List.forall₂_same]
    exact fun q hq => ⟨q.1, hmade q hq, rfl⟩
  · rw [Draft.transferred_eq hturn, h.flushed.actions_eq]
    exact readRows?_map (fun _ => List.cons_ne_nil _ _) (deliveries xs)

variable {σ : Type} [Server σ]

/-- A block is opened, its draft is given transactions and actions and is flushed in any order,
whatever else is done. A commit that succeeds transfers one row for each transaction and each
action, and one row of the block more than there were flushes: one each exactly if there were
none. -/
theorem rows_of_flushed_commit {s : Intake σ} {b : Block} {id : DraftId} {q : Pipeline}
    {ops : List Op} (hb : s.pipeline.beginBlock b = (.ok id, q))
    (hok : ((Op.commit id).perform (after ops { s with pipeline := q })).result.isOk = true) :
    let es := ((Op.commit id).perform (after ops { s with pipeline := q })).entries
    RowsOf es b (flushes id ops + 1) (given id ops) ∧
      (RowsOf es b 1 (given id ops) ↔ Op.flush id ∉ ops) := by
  intro es
  have hrows : RowsOf es b (flushes id ops + 1) (given id ops) := by
    simp only [es, Op.perform, Op.program,
      Program.runFrom_bind_pure _ fun _ => Answer.done] at hok ⊢
    rw [isOk_map] at hok
    -- A draft that was dropped on the way is refused.
    have hc : (after ops { s with pipeline := q }).pipeline.current = some id := by
      by_contra hc
      rw [Intake.commit_refused hc] at hok
      cases hok
    obtain ⟨d, hturned, hopen⟩ := turned_of_beginBlock hb hc
    obtain ⟨es, hsend, hturn⟩ := Intake.commit_inTurn_steps hopen hok
    have hholds := hturned.holdsFlushed (Draft.holds_ofBlock b).holdsFlushed
    rw [Event.entries_eq hsend]
    simpa using hholds.rowsOf hturn
  refine ⟨hrows, fun hone => ?_, fun hops => ?_⟩
  · have hcount := hrows.unique hone
    exact flushes_eq_zero.mp (by omega)
  · simpa [flushes_eq_zero.mpr hops] using hrows

theorem rows_of_twice_flushed_commit :
    let b := bareBlock "b1" 1 "b0"
    let s := after [.startup] (scripted .empty)
    let pay : Action := ⟨"pay", "cars", "t1", []⟩
    let ops : List Op := [.addTransaction 0 { bareTransaction "x1" with actions := [pay] } none,
      .flush 0, .addAction 0 "x1" pay 1, .addTransaction 0 (bareTransaction "x2") none, .flush 0]
    let e := (Op.commit 0).perform (after ops ((Op.beginBlock b).perform s).after)
    e.result.isOk = true ∧ (numbered (given 0 ops) 0).length = 2 ∧
      (deliveries (given 0 ops)).length = 2 ∧ RowsOf e.entries b 3 (given 0 ops) ∧
      ¬ RowsOf e.entries b 1 (given 0 ops) := by
  intro b s pay ops e
  have hb : s.pipeline.beginBlock b = (.ok 0, s.pipeline.opened b) := by
    have hc : s.pipeline.current = none := by decide +kernel
    exact Pipeline.beginBlock_eq_ok.mpr ⟨by decide +kernel, by decide +kernel,
      Pipeline.openDraft?_of_closed hc, by decide +kernel, by decide +kernel, rfl⟩
  have hok : e.result.isOk = true := by decide +kernel
  have hopened := Op.after_beginBlock hb
  have hok' : ((Op.commit 0).perform
      (after ops { s with pipeline := s.pipeline.opened b })).result.isOk = true := by
    rw [← hopened]
    exact hok
  obtain ⟨hrows, hone⟩ := rows_of_flushed_commit hb hok'
  rw [← hopened] at hrows hone
  exact ⟨hok, rfl, rfl, hrows, fun h => hone.mp h (by simp [ops])⟩

/-- One flush before the commit, and the row of the block is transferred twice. -/
theorem not_one_row_after_flush :
    let b := bareBlock "b1" 1 "b0"
    let s := after [.startup, .beginBlock b] (scripted .empty)
    let e := (Op.commit 0).perform (after [.flush 0] s)
    s.pipeline.current = some 0 ∧ e.result.isOk = true ∧
      ¬ RowsOf e.entries b 1 (given 0 [.flush 0]) := by
  intro b s e
  have hc : s.pipeline.current = some 0 := by decide +kernel
  have hok : e.result.isOk = true := by decide +kernel
  have htwo : (readRows? (transferred .blocks e.entries)).map List.length = some 2 := by
    decide +kernel
  refine ⟨hc, hok, fun h => ?_⟩
  obtain ⟨rows, hread, hlen, -⟩ := h.blocks
  rw [hread, Option.map_some, hlen] at htwo
  cases htwo

end ChainArchive.Ingest
