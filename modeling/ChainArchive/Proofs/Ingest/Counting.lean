import ChainArchive.Proofs.Copy.Decode
import ChainArchive.Proofs.Ingest.Gathering

namespace ChainArchive

open ChainArchive.Copy ChainArchive.Link

/-- The data that an entry shows to be transferred into a table, with the columns of the table. -/
def Entry.data? (u : RowTable) : Entry → Option (List Char)
  | .asked (.copy table columns data) (.ok _) =>
    if table = u.name ∧ columns = u.columns then some data else none
  | _ => none

def transferred (u : RowTable) (es : List Entry) : List Char :=
  (es.filterMap (Entry.data? u)).flatten

def Step.data (u : RowTable) : Step → List Char
  | .copy table rows => if table = u then rows.flatten else []
  | .call _ | .mark _ => []

theorem Copy.RowTable.name_injective : Function.Injective RowTable.name := by
  intro t u h
  cases t <;> cases u <;> first | rfl | exact absurd h (by decide)

theorem transferred_append (u : RowTable) (es fs : List Entry) :
    transferred u (es ++ fs) = transferred u es ++ transferred u fs := by
  simp [transferred]

variable {t : Terms} {es : List Entry}

theorem Link.Ran.transferred_eq {raise : ServerError → Failure} {plan : String} {args : List Value}
    {v : Value} (h : Ran t raise plan args (.ok v) es) (u : RowTable) : transferred u es = [] := by
  cases h with
  | answered p es v hf hr =>
    rw [transferred_append]
    cases hr <;> rfl

theorem Step.Sent.transferred_eq {s : Step} (h : s.Sent t (.ok ()) es) (u : RowTable) :
    transferred u es = s.data u := by
  cases h with
  | @copy table rows _ _ h =>
    cases h with
    | done v =>
      -- The columns follow from the table, and no two tables have one name.
      have hname : (table.name = u.name ∧ table.columns = u.columns) ↔ table = u := by
        constructor
        · rintro ⟨hname, -⟩
          exact RowTable.name_injective hname
        · rintro rfl
          exact ⟨rfl, rfl⟩
      by_cases hu : table = u <;> simp [transferred, Entry.data?, Step.data, hname, hu]
  | call h =>
    cases h with
    | plain _ h => exact h.transferred_eq u
    | chained _ _ h h' =>
      rw [transferred_append, h.transferred_eq u, h'.transferred_eq u]
      rfl
  | mark => rfl

theorem InTurn.transferred_eq {ss : List Step} (h : InTurn t ss (.ok ()) es) (u : RowTable) :
    transferred u es = ss.flatMap (Step.data u) := by
  generalize ho : (Except.ok () : Except Failure Unit) = o at h
  induction h with
  | nil => rfl
  | stop => cases ho
  | cons hs _ ih => rw [transferred_append, hs.transferred_eq u, ih ho, List.flatMap_cons]

theorem data_copyStep (u table : RowTable) (rows : List (List Char)) :
    (copyStep table rows).flatMap (Step.data u) = if table = u then rows.flatten else [] := by
  unfold copyStep
  split
  · next h => simp [List.isEmpty_iff.mp h]
  · simp [Step.data]

theorem data_bracketSteps (u : RowTable) (b : Batch) :
    (bracketSteps b).flatMap (Step.data u) = [] := by
  simp [bracketSteps, Step.data]

abbrev Copy.ReadRow := List (Option (List Char))

/-- The counts in the row of a block and in the rows of its transactions are those of the rows. -/
structure CountsAgree (block : ReadRow) (trxs acts : List ReadRow) : Prop where
  trxCount : RowTable.blocks.column? "trx_count" block = some (fieldText (.int trxs.length))
  actionCount : ∀ trx ∈ trxs, RowTable.transactions.column? "action_count" trx =
    some (fieldText (.int (acts.countP fun act =>
      RowTable.actions.column? "trx_id" act = RowTable.transactions.column? "trx_id" trx)))

namespace Ingest

open ChainArchive.Record

def actionsGiven (xs : List Addition) (trxId : String) : Nat :=
  ((deliveries xs).map (·.trxId)).count trxId

def readBlock (b : Block) (xs : List Addition) : ReadRow :=
  (blockRow b (some (numbered xs 0).length)).map fieldText

def readTransaction (b : Block) (xs : List Addition) (p : Transaction × Int) : ReadRow :=
  (transactionRow b p.1 p.2 (some (actionsGiven xs p.1.trxId))).map fieldText

def readAction (b : Block) (x : Delivered) : ReadRow :=
  (actionRow b x.trxId x.action x.seqNum).map fieldText

def storedRows (b : Block) (xs : List Addition) : RowTable → List (List Value)
  | .blocks => [blockRow b (some (numbered xs 0).length)]
  | .transactions =>
    (numbered xs 0).map fun p => transactionRow b p.1 p.2 (some (actionsGiven xs p.1.trxId))
  | .actions => (deliveries xs).map fun x => actionRow b x.trxId x.action x.seqNum

theorem ne_nil_of_mem_storedRows {b : Block} {xs : List Addition} {u : RowTable}
    {fields : List Value} (h : fields ∈ storedRows b xs u) : fields ≠ [] := by
  cases u with
  | blocks =>
    cases List.mem_singleton.mp h
    exact List.cons_ne_nil _ _
  | transactions | actions =>
    obtain ⟨x, -, rfl⟩ := List.mem_map.mp h
    exact List.cons_ne_nil _ _

/-- What the steps of a block transfer is read back as its rows. -/
theorem readRows?_transferred {b : Block} {xs : List Addition}
    (h : InTurn t (commitSteps b xs) (.ok ()) es) (u : RowTable) :
    readRows? (transferred u es) = some ((storedRows b xs u).map (·.map fieldText)) := by
  have htrxs : (storedRows b xs .transactions).map encodeRow =
      (numbered xs 0).map (transactionLine b xs) := List.map_map
  have hacts : (storedRows b xs .actions).map encodeRow =
      (deliveries xs).map (Delivered.row b) := List.map_map
  have hrows : transferred u es = ((storedRows b xs u).map encodeRow).flatten := by
    rw [h.transferred_eq, commitSteps]
    simp only [List.flatMap_cons, List.flatMap_append, data_copyStep, data_bracketSteps]
    cases u with
    | blocks => simp [Step.data, storedRows, blockLine]
    | transactions => simp [Step.data, htrxs]
    | actions => simp [Step.data, hacts]
  rw [hrows, readRows?_encodeRow _ fun fields => ne_nil_of_mem_storedRows]

theorem mem_numbered {xs : List Addition} {n : Nat} {p : Transaction × Int}
    (h : p ∈ numbered xs n) : ∃ seqNum, Addition.transaction p.1 seqNum ∈ xs := by
  induction xs generalizing n with
  | nil => cases h
  | cons x xs ih =>
    cases x with
    | transaction t seqNum =>
      obtain rfl | h := List.mem_cons.mp h
      · exact ⟨seqNum, List.mem_cons_self⟩
      · obtain ⟨seqNum, hm⟩ := ih h
        exact ⟨seqNum, List.mem_cons_of_mem _ hm⟩
    | action trxId a seqNum =>
      obtain ⟨seqNum, hm⟩ := ih h
      exact ⟨seqNum, List.mem_cons_of_mem _ hm⟩

theorem mem_of_mem_given {id : DraftId} {ops : List Op} {t : Transaction} {seqNum : Option Int}
    (h : Addition.transaction t seqNum ∈ given id ops) : Op.addTransaction id t seqNum ∈ ops := by
  obtain ⟨op, hop, he⟩ := List.mem_filterMap.mp h
  cases op with
  | addTransaction j t' n =>
    simp only [Op.addition?] at he
    split at he
    · next hj =>
      cases he
      exact hj ▸ hop
    · cases he
  | addAction j trxId a n =>
    simp only [Op.addition?] at he
    split at he <;> cases he
  | startup | needsBootstrap | beginBlock | flush | discard | abort | commit | ingestBlock
  | markIrreversible => cases he

theorem column?_trxId_readTransaction (b : Block) (xs : List Addition) (p : Transaction × Int) :
    RowTable.transactions.column? "trx_id" (readTransaction b xs p) =
      some (some p.1.trxId.toList) := rfl

theorem column?_trxId_readAction (b : Block) (x : Delivered) :
    RowTable.actions.column? "trx_id" (readAction b x) = some (some x.trxId.toList) := rfl

theorem column?_trxCount_readBlock (b : Block) (xs : List Addition) :
    RowTable.blocks.column? "trx_count" (readBlock b xs) =
      some (fieldText (.int ((b.trxCount <|> some ((numbered xs 0).length : Int)).getD
        b.transactions.length))) := rfl

theorem column?_actionCount_readTransaction (b : Block) (xs : List Addition)
    (p : Transaction × Int) :
    RowTable.transactions.column? "action_count" (readTransaction b xs p) =
      some (fieldText (.int ((p.1.actionCount <|> some (actionsGiven xs p.1.trxId : Int)).getD
        p.1.actions.length))) := rfl

theorem actionsGiven_eq_countP (b : Block) (xs : List Addition) (trxId : String) :
    actionsGiven xs trxId = ((deliveries xs).map (readAction b)).countP fun act =>
      RowTable.actions.column? "trx_id" act = some (some trxId.toList) := by
  rw [actionsGiven, List.count, List.countP_map, List.countP_map]
  refine List.countP_congr fun x _ => ?_
  simp [column?_trxId_readAction, String.toList_inj]

theorem countsAgree_read {b : Block} {xs : List Addition} (hb : b.trxCount = none)
    (hx : ∀ t seqNum, Addition.transaction t seqNum ∈ xs → t.actionCount = none) :
    CountsAgree (readBlock b xs) ((numbered xs 0).map (readTransaction b xs))
      ((deliveries xs).map (readAction b)) := by
  constructor
  · rw [column?_trxCount_readBlock, hb, List.length_map]
    rfl
  · intro trx htrx
    obtain ⟨p, hp, rfl⟩ := List.mem_map.mp htrx
    obtain ⟨seqNum, hm⟩ := mem_numbered hp
    rw [column?_actionCount_readTransaction, hx p.1 seqNum hm, column?_trxId_readTransaction,
      ← actionsGiven_eq_countP]
    rfl

/-- What was transferred is read back as the row of one block and the rows of what was added to it,
and the counts in the rows are those of the rows. -/
def Tallies (es : List Entry) (xs : List Addition) : Prop :=
  ∃ block trxs acts, readRows? (transferred .blocks es) = some [block] ∧
    readRows? (transferred .transactions es) = some trxs ∧
    readRows? (transferred .actions es) = some acts ∧
    trxs.map (RowTable.transactions.column? "trx_id") =
      (numbered xs 0).map (fun p => some (some p.1.trxId.toList)) ∧
    acts.map (RowTable.actions.column? "trx_id") =
      (deliveries xs).map (fun x => some (some x.trxId.toList)) ∧
    CountsAgree block trxs acts

theorem tallies_of_inTurn {b : Block} {xs : List Addition} (hb : b.trxCount = none)
    (hx : ∀ t seqNum, Addition.transaction t seqNum ∈ xs → t.actionCount = none)
    (h : InTurn t (commitSteps b xs) (.ok ()) es) : Tallies es xs := by
  have htrxs : (storedRows b xs .transactions).map (·.map fieldText) =
      (numbered xs 0).map (readTransaction b xs) := List.map_map
  have hacts : (storedRows b xs .actions).map (·.map fieldText) =
      (deliveries xs).map (readAction b) := List.map_map
  refine ⟨_, _, _, readRows?_transferred h .blocks, htrxs ▸ readRows?_transferred h .transactions,
    hacts ▸ readRows?_transferred h .actions, ?_, ?_, countsAgree_read hb hx⟩
  · rw [List.map_map]
    exact List.map_congr_left fun p _ => column?_trxId_readTransaction b xs p
  · rw [List.map_map]
    exact List.map_congr_left fun x _ => column?_trxId_readAction b x

variable {σ : Type} [Server σ]

theorem Intake.commit_inTurn_steps {s : Intake σ} {id : DraftId} {d : Draft}
    (h : s.pipeline.HasOpen id d) (hok : ((commit id).runFrom s).1.isOk = true) :
    ∃ es, Sends s.link es ((commit id).runFrom s).2.link ∧
      InTurn s.link.terms d.flushed.advance.steps (.ok ()) es := by
  obtain ⟨es, d', hsend, ⟨sent, hturn, rfl⟩, -⟩ := commit_runFrom s h.current_eq h.draft?_eq h.live
  refine ⟨_, hsend, ?_⟩
  obtain ⟨_, hr⟩ := eq_ok_of_isOk hok
  rw [hr] at hturn ⊢
  simpa [closing] using hturn

theorem Intake.commit_inTurn {s : Intake σ} {id : DraftId} {b : Block} {xs : List Addition}
    (hcar : s.pipeline.Carries id b xs) (hok : ((commit id).runFrom s).1.isOk = true) :
    ∃ es, Sends s.link es ((commit id).runFrom s).2.link ∧
      InTurn s.link.terms (commitSteps b xs) (.ok ()) es := by
  obtain ⟨hc, d, hd, hh⟩ := hcar
  rw [← hh.steps_eq]
  exact commit_inTurn_steps ⟨hc, hd, hh.discarded_eq⟩ hok

/-- A block is opened and its draft is given transactions and actions in any order, whatever else is
done short of a flush. If neither the block nor the transactions carry counts of their own, the
counts that a successful commit stores are those of the rows it stores. -/
theorem tallies_of_commit {s : Intake σ} {b : Block} {id : DraftId} {q : Pipeline}
    {ops : List Op} (hb : s.pipeline.beginBlock b = (.ok id, q)) (hops : Op.flush id ∉ ops)
    (hblock : b.trxCount = none)
    (htrx : ∀ t seqNum, Op.addTransaction id t seqNum ∈ ops → t.actionCount = none)
    (hok : ((Op.commit id).perform (after ops { s with pipeline := q })).result.isOk = true) :
    Tallies ((Op.commit id).perform (after ops { s with pipeline := q })).entries
      (given id ops) := by
  simp only [Op.perform, Op.program, Program.runFrom_bind_pure _ fun _ => Answer.done] at hok ⊢
  rw [isOk_map] at hok
  -- A draft that was dropped on the way is refused.
  have hc : (after ops { s with pipeline := q }).pipeline.current = some id := by
    by_contra hc
    rw [Intake.commit_refused hc] at hok
    cases hok
  obtain ⟨es, hsend, hturn⟩ := Intake.commit_inTurn (carries_given hb hops hc) hok
  rw [Event.entries_eq hsend]
  exact tallies_of_inTurn hblock (fun t seqNum hm => htrx t seqNum (mem_of_mem_given hm)) hturn

theorem tallies_of_interleaved_commit :
    let b := bareBlock "b1" 1 "b0"
    let s := after [.startup] (scripted .empty)
    let pay : Action := ⟨"pay", "cars", "t1", []⟩
    let ops : List Op := [.addAction 0 "x1" pay 0,
      .addTransaction 0 { bareTransaction "x2" with actions := [pay, pay] } none,
      .addTransaction 0 (bareTransaction "x1") none, .addAction 0 "x2" pay 2,
      .addTransaction 0 (bareTransaction "x1") none]
    let e := (Op.commit 0).perform (after ops ((Op.beginBlock b).perform s).after)
    e.result.isOk = true ∧ (numbered (given 0 ops) 0).length = 3 ∧
      (deliveries (given 0 ops)).length = 4 ∧ Tallies e.entries (given 0 ops) := by
  intro b s pay ops e
  have hb : s.pipeline.beginBlock b = (.ok 0, s.pipeline.opened b) := by
    have hc : s.pipeline.current = none := by decide +kernel
    exact Pipeline.beginBlock_eq_ok.mpr ⟨by decide +kernel, by decide +kernel,
      Pipeline.openDraft?_of_closed hc, by decide +kernel, by decide +kernel, rfl⟩
  have hok : e.result.isOk = true := by decide +kernel
  have hopened := Op.after_beginBlock hb
  have htrx : ∀ t seqNum, Op.addTransaction 0 t seqNum ∈ ops → t.actionCount = none := by
    intro t seqNum hm
    simp only [ops, List.mem_cons, Op.addTransaction.injEq, reduceCtorEq, List.not_mem_nil,
      or_false, false_or, true_and] at hm
    rcases hm with ⟨rfl, -⟩ | ⟨rfl, -⟩ | ⟨rfl, -⟩ <;> rfl
  have hops : Op.flush 0 ∉ ops := by simp [ops]
  have htallies := tallies_of_commit hb hops rfl htrx (by
    rw [← hopened]
    exact hok)
  rw [← hopened] at htallies
  exact ⟨hok, rfl, rfl, htallies⟩

end Ingest

end ChainArchive
