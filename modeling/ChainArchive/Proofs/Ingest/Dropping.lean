import ChainArchive.Proofs.Ingest.Callbacks
import ChainArchive.Proofs.Ingest.Shelf
import ChainArchive.Proofs.Ingest.Walk

namespace ChainArchive.Ingest

open ChainArchive.Copy ChainArchive.Link ChainArchive.Record ChainArchive.Schema

namespace Draft

structure Dropped (d : Draft) (b : Block) : Prop where
  block_eq : d.block = b
  discarded_eq : d.discarded = true
  rows_eq : d.rows = .empty
  batch_eq : d.batch = []
  pending_eq : d.pending = []

theorem dropped_discard {d : Draft} (hd : d.discarded = false) : d.discard.Dropped d.block := by
  have heq : d.discard =
      { d with discarded := true, rows := .empty, batch := [], pending := [] } := by
    simp [discard, hd]
  rw [heq]
  exact ⟨rfl, rfl, rfl, rfl, rfl⟩

/-- Whatever calls collected before, a draft that was dropped by one of them is empty. -/
theorem Leads.dropped {d e : Draft} (h : d.Leads e) (hd : d.discarded = false)
    (he : e.discarded = true) : e.Dropped d.block := by
  cases h with
  | refl => cases hd.symm.trans he
  | tail h hstep =>
    rw [hstep.eq_discard he, ← Leads.block_eq h]
    exact dropped_discard hstep.live

theorem takeUp_of_discarded {d : Draft} (hd : d.discarded = true) (x : Addition) :
    d.takeUp x = (.error (.unitDiscarded d.block.blockNum), d) := by
  cases x with
  | transaction t seqNum => simp [takeUp, addTransaction, checkOpen, hd]
  | action trxId a n => simp [takeUp, addAction, checkOpen, hd]

theorem discarded_of_takeUp_error {d : Draft} {x : Addition}
    (h : (d.takeUp x).1.isOk = false) : (d.takeUp x).2.discarded = true := by
  cases hd : d.discarded with
  | true => rw [takeUp_of_discarded hd, hd]
  | false => rw [discarded_takeUp hd, h]; rfl

end Draft

namespace Pipeline

def holding (p : Pipeline) (d : Draft) : Pipeline :=
  { p with
    drafts := p.drafts ++ [d]
    current := if d.discarded then none else some p.drafts.length }

theorem onDraft_holding (p : Pipeline) {d : Draft} {f : Draft → Except Failure Unit × Draft}
    (hf : d.discarded = true → (f d).2 = d) :
    (p.holding d).onDraft p.drafts.length f = ((f d).1, p.holding (f d).2) := by
  have hd : (p.holding d).draft? p.drafts.length = some d := by simp [holding, draft?]
  have hset : ∀ e, (p.holding d).setDraft p.drafts.length e =
      { p.holding e with current := (p.holding d).current } := by
    intro e
    simp [holding, setDraft]
  rw [onDraft, hd]
  dsimp only
  rw [hset]
  cases hdrop : d.discarded with
  | true =>
    rw [hf hdrop, hdrop]
    rfl
  | false =>
    cases he : (f d).2.discarded with
    | true => simp [release, holding, hdrop, he]
    | false => simp [holding, hdrop, he]

theorem takeUp_holding (p : Pipeline) (d : Draft) (x : Addition) :
    (p.holding d).takeUp p.drafts.length x = ((d.takeUp x).1, p.holding (d.takeUp x).2) := by
  rw [takeUp_eq]
  exact p.onDraft_holding fun hd => by rw [Draft.takeUp_of_discarded hd]

theorem holding_of_discarded {p : Pipeline} {d : Draft} (hc : p.current = none)
    (hd : d.discarded = true) : p.holding d = p.shelve p.drafts.length d := by
  simp [holding, shelve, hd, hc, List.insertIdx_length_self]

end Pipeline

def Addition.op (id : DraftId) : Addition → Op
  | .transaction t seqNum => .addTransaction id t seqNum
  | .action trxId a seqNum => .addAction id trxId a seqNum

/-- Whether an operation adds to the draft behind a handle, flushes it or commits it. -/
def Op.Uses (id : DraftId) : Op → Prop
  | .addTransaction j _ _ | .addAction j _ _ _ | .flush j | .commit j => j = id
  | _ => False

variable {σ : Type} [Server σ]

theorem Addition.perform_op (x : Addition) (id : DraftId) (s : Intake σ) :
    ((x.op id).perform s).result = (s.pipeline.takeUp id x).1.map (fun _ => .done) ∧
      ((x.op id).perform s).after = { s with pipeline := (s.pipeline.takeUp id x).2 } := by
  cases x <;> exact ⟨congrArg Prod.fst (Program.runFrom_bind_pure _ (fun _ => Answer.done) s),
    congrArg Prod.snd (Program.runFrom_bind_pure _ (fun _ => Answer.done) s)⟩

theorem after_additions (xs : List Addition) (p : Pipeline) (d : Draft) (l : Link σ) :
    ∃ e, d.Leads e ∧ after (xs.map (·.op p.drafts.length)) ⟨p.holding d, l⟩ = ⟨p.holding e, l⟩ := by
  induction xs generalizing d with
  | nil => exact ⟨d, .refl, rfl⟩
  | cons x xs ih =>
    have hx := (x.perform_op p.drafts.length (⟨p.holding d, l⟩ : Intake σ)).2
    rw [p.takeUp_holding] at hx
    obtain ⟨e, hlead, he⟩ := ih (d.takeUp x).2
    refine ⟨e, (d.leads_takeUp x).trans hlead, ?_⟩
    rw [List.map_cons, after, hx, he]

/-- An event that was refused as a misuse and changed nothing. -/
structure Event.Misused (e : Event σ) : Prop where
  failed : ∃ f, e.result = .error f ∧ f.toClass = .misuse
  unchanged : e.after = e.before

theorem Op.perform_dropped {s : Intake σ} (hs : s.pipeline.Sound) {id : DraftId} {d : Draft}
    (hd : s.pipeline.draft? id = some d) (hdrop : d.discarded = true) {op : Op} (h : op.Uses id) :
    (op.perform s).Misused := by
  have hmisused : ∀ (op : Op) (p : Program (Intake σ) Unit) (f : Failure),
      op.program = (do p; return .done) → p.runFrom s = (.error f, s) → f.toClass = .misuse →
      (op.perform s).Misused := by
    intro op p f hprogram hp hf
    have hrun : op.program.runFrom s = (.error f, s) := by
      rw [hprogram, Program.runFrom_bind_error hp]
    exact ⟨⟨f, congrArg Prod.fst hrun, hf⟩, congrArg Prod.snd hrun⟩
  have honDraft : ∀ f : Draft → Except Failure Unit × Draft,
      f d = (.error (.unitDiscarded d.block.blockNum), d) →
      (Intake.onPipeline (·.onDraft id f)).runFrom s =
        (.error (.unitDiscarded d.block.blockNum), s) := by
    intro f hf
    simp only [Intake.onPipeline, Program.runFrom_of, Pipeline.onDraft, hd, hf, hdrop,
      Bool.not_true, Bool.and_false, Bool.false_eq_true, if_false, Pipeline.setDraft_self hd]
  have htakeUp := fun x => honDraft (·.takeUp x) (Draft.takeUp_of_discarded hdrop x)
  -- The draft itself refuses records and flushes; it is not the open one, which refuses a commit.
  cases op with
  | addTransaction j t seqNum =>
    cases h
    exact hmisused _ _ _ rfl (htakeUp (.transaction t seqNum)) rfl
  | addAction j trxId a seqNum =>
    cases h
    exact hmisused _ _ _ rfl (htakeUp (.action trxId a seqNum)) rfl
  | flush j =>
    cases h
    refine hmisused _ _ _ rfl (honDraft _ ?_) rfl
    simp [Draft.flush, Draft.checkOpen, hdrop, bind, Except.bind]
  | commit j =>
    cases h
    exact hmisused _ _ _ rfl (Intake.commit_refused (hs.ne_of_discarded hd hdrop)) rfl
  | startup | needsBootstrap | beginBlock | discard | abort | ingestBlock | markIrreversible =>
    cases h

/-- Of the draft of a block that was opened at `s` nothing is left at `t`. -/
structure Intake.Traceless (s t : Intake σ) (b : Block) (id : DraftId) (d : Draft) : Prop where
  closed : s.pipeline.current = none
  dropped : d.Dropped b
  eq_shelve : t = s.shelve id d
  misused : ∀ (later : List Op) (op : Op), op.Uses id → (op.perform (after later t)).Misused
  history_eq : ∀ later,
    history (later.map (·.past id)) t = (history later s).map (·.shelve id d)

theorem shelve_of_failed_record {s t : Intake σ} {b : Block} {xs : List Addition} {x : Addition}
    {f : Failure} (hc : s.pipeline.current = none)
    (hx : (x.op s.pipeline.drafts.length).program.runFrom
      (after (xs.map (·.op s.pipeline.drafts.length)) { s with pipeline := s.pipeline.opened b }) =
        (.error f, t)) :
    ∃ d, d.Dropped b ∧ t = s.shelve s.pipeline.drafts.length d := by
  obtain ⟨d, hlead, hafter⟩ := after_additions xs s.pipeline (.ofBlock b) s.link
  obtain ⟨hresult, ht⟩ := x.perform_op s.pipeline.drafts.length
    (after (xs.map (·.op s.pipeline.drafts.length)) ⟨s.pipeline.opened b, s.link⟩)
  simp only [Op.perform, hx] at hresult ht
  rw [show s.pipeline.opened b = s.pipeline.holding (.ofBlock b) from rfl, hafter,
    s.pipeline.takeUp_holding] at hresult ht
  -- The failure comes from the draft itself, which is dropped by it if it was not before.
  have hdrop : (d.takeUp x).2.discarded = true := by
    apply Draft.discarded_of_takeUp_error
    cases hr : (d.takeUp x).1 with
    | error e => rfl
    | ok u =>
      rw [hr] at hresult
      cases hresult
  refine ⟨(d.takeUp x).2, Draft.Leads.dropped (hlead.trans (d.leads_takeUp x)) rfl hdrop, ?_⟩
  rw [ht]
  exact congrArg (Intake.mk · s.link) (Pipeline.holding_of_discarded hc hdrop)

/-- A block is opened and calls deliver records of it. If the last of them fails, nothing is left
of the draft. -/
theorem traceless_of_failed_record {p : Pipeline} {layout : Layout} {version : String} {l : Link σ}
    {ops : List Op} {s t : Intake σ} {b : Block} {id : DraftId} {q : Pipeline}
    {xs : List Addition} {x : Addition} {f : Failure}
    (hs : s = after ops ⟨p.succeed layout version, l⟩)
    (hb : s.pipeline.beginBlock b = (.ok id, q))
    (hx : (x.op id).program.runFrom (after (xs.map (·.op id)) { s with pipeline := q }) =
      (.error f, t)) :
    ∃ d, s.Traceless t b id d := by
  have hsound : s.pipeline.Sound := hs ▸ after_sound ops (p.succeed_sound layout version)
  obtain ⟨-, -, hopen, -, rfl, rfl⟩ := Pipeline.beginBlock_eq_ok.mp hb
  have hclosed : s.pipeline.current = none := hsound.closed_of_openDraft? hopen
  obtain ⟨d, hdropped, hshelve⟩ := shelve_of_failed_record hclosed hx
  have htsound : t.pipeline.Sound := by
    refine .of_closed ?_ fun hh => ?_
    · rw [hshelve]
      simp [Intake.shelve, Pipeline.shelve, hclosed]
    · rw [hshelve] at hh ⊢
      exact hsound.running hh
  have hid : t.pipeline.draft? s.pipeline.drafts.length = some d := by
    rw [hshelve]
    simp [Intake.shelve, Pipeline.shelve, Pipeline.draft?, List.insertIdx_length_self]
  have hdrop := hdropped.discarded_eq
  refine ⟨d, hclosed, hdropped, hshelve, fun later op huses => ?_, fun later => ?_⟩
  · have hwalk := after_walks later htsound
    exact Op.perform_dropped (hwalk.sound htsound) (hwalk.draft?_dropped htsound hid hdrop) hdrop
      huses
  · rw [hshelve]
    exact history_past later (Nat.le_refl _)

theorem traceless_of_unseparated_symbol :
    let b := bareBlock "b1" 1 "b0"
    let s := after [.startup] (scripted .empty)
    let destroyed : Action :=
      ⟨"destroytoken", "cars", "t1", [("domain", .text "cars"), ("name", .text "t1")]⟩
    let unseparated : Action := ⟨"newfungible", ".fungible", "EVT", [("name", .text "EVT"),
      ("sym_name", .text "EVT"), ("sym", .text "5,S"), ("creator", .text "c"),
      ("issue", .object []), ("manage", .object [])]⟩
    let xs : List Addition :=
      [.transaction (bareTransaction "x1") none, .action "x1" destroyed 0]
    let e := ((Addition.action "x1" unseparated 1).op 0).perform
      (after (xs.map (·.op 0)) ((Op.beginBlock b).perform s).after)
    failureClass? e.result = some .index ∧ ∃ d, s.Traceless e.after b 0 d := by
  intro b s destroyed unseparated xs e
  have hclass : failureClass? e.result = some .index := by decide +kernel
  refine ⟨hclass, ?_⟩
  have hb : s.pipeline.beginBlock b = (.ok 0, s.pipeline.opened b) := by
    have hc : s.pipeline.current = none := by decide +kernel
    exact Pipeline.beginBlock_eq_ok.mpr ⟨by decide +kernel, by decide +kernel,
      Pipeline.openDraft?_of_closed hc, by decide +kernel, by decide +kernel, rfl⟩
  have hs : s = after [.startup] ⟨(Pipeline.ofLayout statsLayout "1").succeed statsLayout "1",
      (scripted .empty).link⟩ := rfl
  clear_value s
  obtain ⟨f, hf, -⟩ := exists_of_failureClass? hclass
  have hopened : ((Op.beginBlock b).perform s).after = { s with pipeline := s.pipeline.opened b } :=
    Op.after_beginBlock hb
  have hfailed : ((Addition.action "x1" unseparated 1).op 0).program.runFrom
      (after (xs.map (·.op 0)) { s with pipeline := s.pipeline.opened b }) =
      (.error f, e.after) := by
    rw [← hopened]
    exact Prod.ext hf rfl
  exact traceless_of_failed_record hs hb hfailed

end ChainArchive.Ingest
