import ChainArchive.Proofs.Ingest.Chain
import ChainArchive.Proofs.Ingest.Dropping
import ChainArchive.Proofs.Ingest.Stale

namespace ChainArchive.Ingest

open ChainArchive.Link ChainArchive.Record

def Op.addition? (id : DraftId) : Op → Option Addition
  | .addTransaction j t seqNum => if j = id then some (.transaction t seqNum) else none
  | .addAction j trxId a seqNum => if j = id then some (.action trxId a seqNum) else none
  | _ => none

def given (id : DraftId) (ops : List Op) : List Addition := ops.filterMap (Op.addition? id)

/-- What an operation makes of the open draft behind a handle, unless it ends it. -/
inductive Op.Turns (id : DraftId) : Op → Draft → Draft → Prop
  | taken {op : Op} {x : Addition} {d e : Draft} : op.addition? id = some x →
      d.takeUp x = (.ok (), e) → Turns id op d e
  | flushed (d : Draft) : Turns id (.flush id) d d.flushed
  | beside {op : Op} (d : Draft) : op.addition? id = none → op ≠ .flush id → Turns id op d d

/-- What operations make of the open draft behind a handle, unless one of them ends it. -/
inductive Turned (id : DraftId) : List Op → Draft → Draft → Prop
  | nil (d : Draft) : Turned id [] d d
  | cons {op : Op} {ops : List Op} {d e f : Draft} : op.Turns id d e → Turned id ops e f →
      Turned id (op :: ops) d f

structure Pipeline.HasOpen (p : Pipeline) (id : DraftId) (d : Draft) : Prop where
  current_eq : p.current = some id
  draft?_eq : p.draft? id = some d
  live : d.discarded = false

namespace Pipeline

variable {p q : Pipeline} {id : DraftId} {d : Draft}

theorem hasOpen_opened (p : Pipeline) (b : Block) :
    (p.opened b).HasOpen p.drafts.length (.ofBlock b) :=
  ⟨rfl, p.draft?_opened b, rfl⟩

theorem HasOpen.spent (h : p.HasOpen id d) (hb : p.blocks <+: q.blocks)
    (hc : q.current ≠ some id) : q.Spent [id] := by
  obtain ⟨hlt, -⟩ := List.getElem?_eq_some_iff.mp h.draft?_eq
  have hlen : p.blocks.length = p.drafts.length := List.length_map _
  intro i hi
  cases List.mem_singleton.mp hi
  exact ⟨Nat.lt_of_lt_of_le (hlen ▸ hlt) hb.length_le, hc⟩

theorem HasOpen.of_undisturbed (h : p.HasOpen id d) (hq : p.Undisturbed q) : q.HasOpen id d := by
  have hc : q.current = some id := hq.current_eq.trans h.current_eq
  refine ⟨hc, ?_, h.live⟩
  have hopen := hq.openDraft?_eq
  rw [openDraft?, openDraft?, hc, h.current_eq, Option.bind_some, Option.bind_some] at hopen
  rw [hopen, h.draft?_eq]

theorem HasOpen.restarts {r : Except Failure String} (h : p.HasOpen id d) (hq : p.Restarts r q) :
    q.HasOpen id d := by
  cases r with
  | ok last =>
    rw [show q = _ from hq]
    exact ⟨h.current_eq, h.draft?_eq, h.live⟩
  | error f =>
    obtain rfl | ⟨last, rfl⟩ := hq
    · exact h
    · exact ⟨h.current_eq, h.draft?_eq, h.live⟩

theorem HasOpen.beginBlock (h : p.HasOpen id d) (b : Block) :
    ∃ f, p.beginBlock b = (.error f, p) := by
  have hopen : p.openDraft? = some d := by
    rw [openDraft?, h.current_eq, Option.bind_some, h.draft?_eq]
  cases hb : p.beginBlock b with
  | mk r q =>
    cases r with
    | error f =>
      cases beginBlock_error hb
      exact ⟨f, rfl⟩
    | ok id' =>
      obtain ⟨-, -, hnone, -⟩ := beginBlock_eq_ok.mp hb
      cases hopen.symm.trans hnone

theorem HasOpen.onDraft_live (h : p.HasOpen id d) {f : Draft → Except Failure Unit × Draft}
    (hlive : (f d).2.discarded = false) : (p.onDraft id f).2.HasOpen id (f d).2 := by
  have hset : (p.onDraft id f).2 = p.setDraft id (f d).2 := by
    simp [onDraft, h.draft?_eq, hlive]
  rw [hset]
  exact ⟨h.current_eq, draft?_setDraft_self h.draft?_eq, hlive⟩

theorem HasOpen.flush (h : p.HasOpen id d) : (p.flush id).2.HasOpen id d.flushed := by
  have hlive : d.flushed.discarded = false := h.live
  have hset : (p.flush id).2 = p.setDraft id d.flushed := by
    simp [Pipeline.flush, onDraft, h.draft?_eq, Draft.flush_eq h.live, hlive]
  rw [hset]
  exact ⟨h.current_eq, draft?_setDraft_self h.draft?_eq, hlive⟩

theorem HasOpen.onDraft_dropped (h : p.HasOpen id d) {f : Draft → Except Failure Unit × Draft}
    (hf : ∀ d, Draft.Leads d (f d).2) (hdrop : (f d).2.discarded = true) :
    (p.onDraft id f).2.Spent [id] := by
  refine h.spent (p.onDraft_kept id hf).blocks_grow ?_
  simp only [onDraft, h.draft?_eq, hdrop, h.live, Bool.not_false, Bool.and_self, ↓reduceIte]
  exact release_ne _ id

theorem HasOpen.takeUp (h : p.HasOpen id d) (x : Addition) :
    (p.takeUp id x).2.Spent [id] ∨
      ∃ e, d.takeUp x = (.ok (), e) ∧ (p.takeUp id x).2.HasOpen id e := by
  have hdrop := Draft.discarded_takeUp h.live x
  rw [takeUp_eq]
  cases hr : (d.takeUp x).1 with
  | ok _ =>
    rw [hr] at hdrop
    exact .inr ⟨_, Prod.ext hr rfl, h.onDraft_live (f := (·.takeUp x)) hdrop⟩
  | error f =>
    rw [hr] at hdrop
    exact .inl (h.onDraft_dropped (f := (·.takeUp x)) (fun d => d.leads_takeUp x) hdrop)

end Pipeline

variable {σ : Type} [Server σ] {s : Intake σ} {id : DraftId} {b : Block} {xs : List Addition}
  {d e : Draft}

theorem given_cons (id : DraftId) (op : Op) (ops : List Op) :
    given id (op :: ops) = (op.addition? id).toList ++ given id ops := by
  rw [given, List.filterMap_cons]
  cases op.addition? id <;> rfl

/-- A draft that is open no longer is not opened again. -/
theorem Op.perform_spent (hs : s.pipeline.Sound) {ids : List DraftId}
    (h : s.pipeline.Spent ids) (op : Op) : (op.perform s).after.pipeline.Spent ids := by
  have hspent := (op.perform_effect hs).spent h
  split at hspent
  · exact fun i hi => hspent.2 i (List.mem_cons_of_mem _ hi)
  · exact hspent

theorem after_spent (ops : List Op) (hs : s.pipeline.Sound) {ids : List DraftId}
    (h : s.pipeline.Spent ids) : (after ops s).pipeline.Spent ids := by
  induction ops generalizing s with
  | nil => exact h
  | cons op ops ih => exact ih ((op.perform_effect hs).sound hs) (op.perform_spent hs h)

theorem Intake.ingestBlock_hasOpen (h : s.pipeline.HasOpen id d) (b : Block) :
    ((ingestBlock b).runFrom s).2.pipeline = s.pipeline := by
  rw [ingestBlock, Program.runFrom_bind, Program.runFrom_get]
  dsimp only
  split
  · rfl
  rw [Program.runFrom_bind, onLink_runFrom]
  cases (Checkpoint.blockExists b.blockId).runFrom s.link with
  | mk r l =>
    cases r with
    | error e => rfl
    | ok found =>
      cases found with
      | true => rfl
      | false =>
        obtain ⟨f, hb⟩ := h.beginBlock b
        have hbegin : (onPipeline (·.beginBlock b)).runFrom (⟨s.pipeline, l⟩ : Intake σ) =
            (.error f, ⟨s.pipeline, l⟩) := by
          simp [onPipeline, hb]
        simp only [Bool.false_eq_true, ↓reduceIte]
        rw [Program.runFrom_bind_error hbegin]

theorem Op.perform_hasOpen_beside (h : s.pipeline.HasOpen id d) {op : Op}
    (hop : op.Beside s.pipeline) : (op.perform s).after.pipeline.HasOpen id d := by
  refine h.of_undisturbed (op.perform_beside hop ?_).1
  cases op with
  | beginBlock b =>
    obtain ⟨f, hb⟩ := h.beginBlock b
    rw [Op.perform_beginBlock, hb]
    rfl
  | startup | needsBootstrap | addTransaction | addAction | flush | discard | abort | commit
  | ingestBlock | markIrreversible => rfl

theorem Op.perform_ended (hs : s.pipeline.Sound) (h : s.pipeline.HasOpen id d) {op : Op}
    (hop : op = .discard id ∨ op = .abort id ∨ op = .commit id) :
    (op.perform s).after.pipeline.Spent [id] := by
  have hdone := fun p : Program (Intake σ) Unit =>
    Program.runFrom_bind_pure p (fun _ => Answer.done) s
  obtain rfl | rfl | rfl := hop
  · simp only [Op.perform, Op.program, hdone, Intake.onPipeline, Program.runFrom_of]
    exact h.onDraft_dropped (fun d => d.leads_discard) d.discarded_discard
  · simp only [Op.perform, Op.program, hdone, Intake.update_runFrom]
    exact h.spent (s.pipeline.abort_kept id).blocks_grow (by simp [hs.current_abort h.current_eq])
  · obtain ⟨hgrow, hnone, -⟩ := Intake.commit_settles h.current_eq h.draft?_eq h.live
    simp only [Op.perform, Op.program, hdone]
    exact h.spent hgrow (by simp [hnone])

theorem Op.perform_flush_hasOpen (h : s.pipeline.HasOpen id d) :
    ((Op.flush id).perform s).after.pipeline.HasOpen id d.flushed := by
  have hdone := fun p : Program (Intake σ) Unit =>
    Program.runFrom_bind_pure p (fun _ => Answer.done) s
  simp only [Op.perform, Op.program, hdone, Intake.onPipeline, Program.runFrom_of]
  exact h.flush

theorem Op.perform_turns (hs : s.pipeline.Sound) (h : s.pipeline.HasOpen id d) (op : Op) :
    (op.perform s).after.pipeline.Spent [id] ∨
      ∃ e, op.Turns id d e ∧ (op.perform s).after.pipeline.HasOpen id e := by
  have hkept {op : Op} (hnone : op.addition? id = none) (hflush : op ≠ .flush id)
      (hopen : (op.perform s).after.pipeline.HasOpen id d) :
      (op.perform s).after.pipeline.Spent [id] ∨
        ∃ e, op.Turns id d e ∧ (op.perform s).after.pipeline.HasOpen id e :=
    .inr ⟨d, .beside d hnone hflush, hopen⟩
  have hbeside {j : DraftId} (hj : j ≠ id) : s.pipeline.current ≠ some j := fun hc =>
    hj (Option.some.inj (hc.symm.trans h.current_eq))
  have htaken (x : Addition) (hx : (x.op id).addition? id = some x) :
      ((x.op id).perform s).after.pipeline.Spent [id] ∨
        ∃ e, (x.op id).Turns id d e ∧ ((x.op id).perform s).after.pipeline.HasOpen id e := by
    rw [(x.perform_op id s).2]
    obtain hspent | ⟨e, he, hopen⟩ := h.takeUp x
    · exact .inl hspent
    · exact .inr ⟨e, .taken hx he, hopen⟩
  -- With another handle than that of the open draft, a call is one beside it.
  cases op with
  | needsBootstrap | beginBlock | markIrreversible =>
    exact hkept rfl (by simp) (Op.perform_hasOpen_beside h trivial)
  | startup =>
    obtain ⟨-, -, -, hr⟩ := Intake.startup_quietly s
    refine hkept rfl (by simp) ?_
    simp only [Op.perform, Op.program, Program.runFrom_bind_pure]
    exact h.restarts hr
  | ingestBlock b =>
    refine hkept rfl (by simp) ?_
    simp only [Op.perform, Op.program, Program.runFrom_bind_pure]
    rwa [Intake.ingestBlock_hasOpen h]
  | addTransaction j t seqNum =>
    by_cases hj : j = id
    · subst hj
      exact htaken (.transaction t seqNum) (if_pos rfl)
    · exact hkept (if_neg hj) (by simp) (Op.perform_hasOpen_beside h (hbeside hj))
  | addAction j trxId a seqNum =>
    by_cases hj : j = id
    · subst hj
      exact htaken (.action trxId a seqNum) (if_pos rfl)
    · exact hkept (if_neg hj) (by simp) (Op.perform_hasOpen_beside h (hbeside hj))
  | flush j =>
    by_cases hj : j = id
    · subst hj
      exact .inr ⟨_, .flushed d, Op.perform_flush_hasOpen h⟩
    · exact hkept rfl (by simpa using hj) (Op.perform_hasOpen_beside h (hbeside hj))
  | discard j | abort j | commit j =>
    by_cases hj : j = id
    · subst hj
      exact .inl (Op.perform_ended hs h (by simp))
    · exact hkept rfl (by simp) (Op.perform_hasOpen_beside h (hbeside hj))

theorem after_turned (ops : List Op) (hs : s.pipeline.Sound) (h : s.pipeline.HasOpen id d) :
    (after ops s).pipeline.Spent [id] ∨
      ∃ e, Turned id ops d e ∧ (after ops s).pipeline.HasOpen id e := by
  induction ops generalizing s d with
  | nil => exact .inr ⟨d, .nil d, h⟩
  | cons op ops ih =>
    have hsound := (op.perform_effect hs).sound hs
    obtain hspent | ⟨e, hturn, hopen⟩ := op.perform_turns hs h
    · exact .inl (after_spent ops hsound hspent)
    · obtain hspent | ⟨f, hturned, hf⟩ := ih hsound hopen
      · exact .inl hspent
      · exact .inr ⟨f, .cons hturn hturned, hf⟩

/-- The draft of a block that was opened is turned by operations, if it is still open after them. -/
theorem turned_of_beginBlock {q : Pipeline} (hb : s.pipeline.beginBlock b = (.ok id, q))
    {ops : List Op} (hc : (after ops { s with pipeline := q }).pipeline.current = some id) :
    ∃ e, Turned id ops (.ofBlock b) e ∧
      (after ops { s with pipeline := q }).pipeline.HasOpen id e := by
  obtain ⟨hst, hh, -, -, rfl, rfl⟩ := Pipeline.beginBlock_eq_ok.mp hb
  have hturned := after_turned ops (s := { s with pipeline := s.pipeline.opened b })
    (Pipeline.opened_sound hst hh) (s.pipeline.hasOpen_opened b)
  exact hturned.resolve_left fun hspent => (hspent _ List.mem_cons_self).2 hc

theorem Turned.holds {ops : List Op} (h : Turned id ops d e) (hops : Op.flush id ∉ ops)
    (hd : d.Holds b xs) : e.Holds b (xs ++ given id ops) := by
  induction h generalizing xs with
  | nil d => simpa [given] using hd
  | cons hturn _ ih =>
    rw [given_cons, ← List.append_assoc]
    refine ih (fun hm => hops (List.mem_cons_of_mem _ hm)) ?_
    cases hturn with
    | taken hx he =>
      rw [hx]
      exact hd.append he
    | flushed => exact absurd List.mem_cons_self hops
    | beside d hnone =>
      rw [hnone]
      simpa using hd

/-- If the draft of a block that was opened is still open after operations, it holds what they gave
it. -/
theorem carries_given {q : Pipeline} (hb : s.pipeline.beginBlock b = (.ok id, q)) {ops : List Op}
    (hops : Op.flush id ∉ ops)
    (hc : (after ops { s with pipeline := q }).pipeline.current = some id) :
    (after ops { s with pipeline := q }).pipeline.Carries id b (given id ops) := by
  obtain ⟨e, hturned, hopen⟩ := turned_of_beginBlock hb hc
  exact ⟨hc, e, hopen.draft?_eq, hturned.holds hops (Draft.holds_ofBlock b)⟩

end ChainArchive.Ingest
