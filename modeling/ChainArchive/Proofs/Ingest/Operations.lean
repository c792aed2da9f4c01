import ChainArchive.Proofs.Ingest.Walk
import ChainArchive.Proofs.Recovery.Startup
import ChainArchive.Proofs.Session.Composed

namespace ChainArchive

open ChainArchive.Link ChainArchive.Program ChainArchive.Record ChainArchive.Schema

namespace Ingest

structure Vocabulary (writes : String → List Value → Prop) : Prop where
  insertStat : ∀ key value : String, writes "insert_stat" [.text key, .text value]
  updateStat : ∀ key value : String, writes "update_stat" [.text key, .text value]
  setIrreversible : ∀ blockId : String, writes "set_block_irreversible" [.text blockId]
  callsOf : ∀ a, ∀ c ∈ callsOf a, c.Within writes

theorem vocabulary_any : Vocabulary fun _ _ => True where
  insertStat _ _ := trivial
  updateStat _ _ := trivial
  setIrreversible _ := trivial
  callsOf _ c _ := c.within_any

variable {σ : Type} {writes : String → List Value → Prop}

/-- The open draft was not dropped, and its calls are run as `writes` says. -/
structure Pipeline.Within (writes : String → List Value → Prop) (p : Pipeline) : Prop where
  sound : p.Sound
  calls : ∀ id d, p.current = some id → p.draft? id = some d → ∀ c ∈ d.batch, c.Within writes

theorem Pipeline.within_succeed (p : Pipeline) (layout : Layout) (version : String) :
    (p.succeed layout version).Within writes :=
  ⟨p.succeed_sound layout version, fun _ _ h => by cases h⟩

theorem Pipeline.Walks.within {p q : Pipeline} (h : p.Walks q) (hv : Vocabulary writes)
    (hp : p.Within writes) : q.Within writes :=
  ⟨h.sound hp.sound, h.draft_open hp.sound (P := fun d => ∀ c ∈ d.batch, c.Within writes)
    (fun b => by simp [Draft.ofBlock]) (fun _ _ hstep _ hd => hstep.forall_calls hv.callsOf hd)
    hp.calls⟩

variable [Server σ]

theorem after_within (hv : Vocabulary writes) (p : Pipeline) (layout : Layout) (version : String)
    (l : Link σ) (ops : List Op) :
    (after ops ⟨p.succeed layout version, l⟩).pipeline.Within writes := by
  have hs : (p.succeed layout version).Within writes := p.within_succeed layout version
  exact (after_walks ops (s := ⟨_, l⟩) hs.sound).within hv hs

end Ingest

namespace Composed

open Ingest

variable {σ : Type} [Server σ] {writes : String → List Value → Prop}

theorem store (hv : Vocabulary writes) (version : String) :
    Composed (σ := σ) writes (Checkpoint.store version) := by
  refine (commit ?_).bind fun _ => pure _
  simp [Checkpoint.addStat, Batch.add, Call.Within, hv.insertStat]

theorem prepare (hv : Vocabulary writes) (layout : Layout) (version : String) :
    Composed (σ := σ) writes (Checkpoint.prepare layout version) := by
  refine (tableExists _ _).bind fun found => ?_
  extract_lets finish
  have hfinish : ∀ last, Composed writes (finish last) := fun last =>
    planAll.bind fun _ => pure last
  split
  · exact (create _).bind fun _ => (checkVersion _).bind fun _ => checkSync.bind hfinish
  · exact (create _).bind fun _ => (store hv _).bind fun _ => (pure "").bind hfinish

end Composed

namespace Ingest

variable {σ : Type} [Server σ] {writes : String → List Value → Prop}

def Draft.sending (d : Draft) : Program (Link σ) Unit := do
  let _ ← d.rows.commit
  let _ ← Batch.commit d.batch

theorem Intake.commit_sending {s : Intake σ} {id : DraftId} {d : Draft}
    (hc : s.pipeline.current = some id) (hid : s.pipeline.draft? id = some d)
    (hd : d.discarded = false) : d.flushed.advance.sending.runFrom s.link =
      (((commit id).runFrom s).1, ((commit id).runFrom s).2.link) := by
  rw [commit_eq hc hid, concluding_runFrom]
  simp only [send, Draft.sending, runFrom_bind, runFrom_lift, Draft.flush_eq hd, update_runFrom,
    onLink_runFrom]
  cases (d.flushed.advance.rows.commit).runFrom s.link with
  | mk r l =>
    cases r with
    | error f => rfl
    | ok rows =>
      dsimp only
      cases (Batch.commit d.flushed.advance.batch).runFrom l with
      | mk r m => cases r <;> rfl

theorem Draft.sending_composed (hv : Vocabulary writes) {d : Draft}
    (hd : ∀ c ∈ d.batch, c.Within writes) :
    Composed (σ := σ) writes d.flushed.advance.sending := by
  have hcalls : ∀ c ∈ d.flushed.advance.batch, c.Within writes := by
    intro c hc
    obtain hc | hc := List.mem_append.mp hc
    · exact hd c hc
    · cases List.mem_singleton.mp hc
      exact ⟨hv.updateStat _ _, fun _ h => by cases h⟩
  exact (Composed.transfer _).bind fun _ => (Composed.commit hcalls).bind fun _ => .pure _

/-- The event answers as a program of the session does, from the link before to the one after. -/
def Event.Follows (e : Event σ) (q : Program (Link σ) Answer) : Prop :=
  q.runFrom e.before.link = (e.result, e.after.link)

theorem Event.Follows.records {e : Event σ} {q : Program (Link σ) Answer} (h : e.Follows q)
    {Q : Except Failure Answer → List Entry → Prop} (hq : Records e.before.link.terms q Q) :
    Q e.result e.entries := by
  obtain ⟨es, hsend, hres⟩ := hq e.before.link rfl
  rw [show q.runFrom e.before.link = _ from h] at hsend hres
  rwa [Event.entries_eq hsend]

theorem Intake.ingestBlock_follows (hv : Vocabulary writes) {s : Intake σ}
    (hs : s.pipeline.Sound) (b : Block) :
    ∃ q, Composed writes q ∧ ((Op.ingestBlock b).perform s).Follows q := by
  simp only [Event.Follows, Op.perform, Op.program, runFrom_bind_pure]
  have hcases := ingestBlock_cases hs b
  generalize ((ingestBlock b).runFrom s).1 = r, ((ingestBlock b).runFrom s).2 = s' at hcases ⊢
  have hexists : Composed writes (Checkpoint.blockExists (σ := σ) b.blockId) := .blockExists _
  cases hcases with
  | reached => exact ⟨_, .pure (Answer.flag false), rfl⟩
  | stored hl =>
    exact ⟨_, hexists.bind fun _ => .pure (Answer.flag false), runFrom_bind_ok hl _⟩
  | @refused _ _ _ f hl _ _ hr =>
    obtain rfl | ⟨rfl, hf⟩ := hr
    · exact ⟨_, hexists.bind fun _ => .pure (Answer.flag false), runFrom_bind_error hl _⟩
    · exact ⟨_, hexists.bind fun _ => .throw hf, runFrom_bind_ok hl _⟩
  | @written l id p q hl hb hk hq =>
    obtain ⟨hc, d, hd, hh⟩ := hq
    have hcalls : ∀ c ∈ d.batch, c.Within writes := by
      intro c hc
      rw [hh.batch_eq] at hc
      obtain ⟨x, -, hx⟩ := List.mem_flatMap.mp hc
      exact hv.callsOf x.action c hx
    refine ⟨_, hexists.bind fun _ => (Draft.sending_composed hv hcalls).bind fun _ =>
      .pure (Answer.flag true), ?_⟩
    rw [runFrom_bind_ok hl, runFrom_bind_pure _ fun _ => Answer.flag true]
    rw [Intake.commit_sending (s := ⟨q, l⟩) hc hd hh.discarded_eq]
    cases ((commit id).runFrom ⟨q, l⟩).1 <;> rfl

/-- Every operation runs one program of the session. -/
theorem Op.perform_follows (hv : Vocabulary writes) {s : Intake σ}
    (hs : s.pipeline.Within writes) (op : Op) :
    ∃ q, Composed writes q ∧ (op.perform s).Follows q := by
  have hdone := fun p : Program (Intake σ) Unit => runFrom_bind_pure p (fun _ => Answer.done) s
  cases op with
  | startup =>
    simp only [Event.Follows, Op.perform, Op.program, runFrom_bind_pure]
    refine ⟨_, (Composed.prepare hv s.pipeline.layout s.pipeline.version).bind fun last =>
      .pure (Answer.point last), ?_⟩
    obtain ⟨hr, hl⟩ := Intake.startup_runFrom s
    rw [runFrom_bind_pure, hr, hl]
  | needsBootstrap =>
    simp only [Event.Follows, Op.perform, Op.program, runFrom_bind_pure]
    exact ⟨_, (Composed.tableIsEmpty s.pipeline.layout "blocks").bind fun b =>
      .pure (Answer.flag b), runFrom_bind_pure _ _ _⟩
  | beginBlock b =>
    rw [Op.perform_beginBlock]
    exact ⟨_, .lift ((s.pipeline.ordinary_beginBlock b).map Answer.opened), rfl⟩
  | addTransaction id t seqNum =>
    simp only [Event.Follows, Op.perform, Op.program, hdone]
    exact ⟨_, .lift ((s.pipeline.ordinary_onDraft id fun d =>
      d.ordinary_addTransaction t seqNum).map _), rfl⟩
  | addAction id trxId a seqNum =>
    simp only [Event.Follows, Op.perform, Op.program, hdone]
    exact ⟨_, .lift ((s.pipeline.ordinary_onDraft id fun d =>
      d.ordinary_addAction trxId a seqNum).map _), rfl⟩
  | flush id =>
    simp only [Event.Follows, Op.perform, Op.program, hdone]
    exact ⟨_, .lift ((s.pipeline.ordinary_flush id).map _), rfl⟩
  | discard id =>
    simp only [Event.Follows, Op.perform, Op.program, hdone]
    exact ⟨_, .lift ((s.pipeline.ordinary_onDraft id (f := fun d => (.ok (), d.discard))
      fun _ => .ok ()).map fun _ => Answer.done), rfl⟩
  | abort id => exact ⟨_, .pure Answer.done, rfl⟩
  | commit id =>
    simp only [Event.Follows, Op.perform, Op.program, hdone]
    by_cases hc : s.pipeline.current = some id
    · obtain ⟨d, hd, hlive⟩ := hs.sound.live id hc
      refine ⟨_, (Draft.sending_composed hv (hs.calls id d hc hd)).bind fun _ =>
        .pure Answer.done, ?_⟩
      rw [runFrom_bind_pure _ fun _ => Answer.done, Intake.commit_sending hc hd hlive]
    · rw [Intake.commit_refused hc]
      exact ⟨_, .throw (f := .notTheOpenUnit) (by simp [Failure.toClass]), rfl⟩
  | ingestBlock b => exact Intake.ingestBlock_follows hv hs.sound b
  | markIrreversible blockId =>
    simp only [Event.Follows, Op.perform, Op.program, hdone]
    have hcalls : ∀ c ∈ Batch.add [] "set_block_irreversible" [.text blockId],
        c.Within writes := by
      simp [Batch.add, Call.Within, hv.setIrreversible]
    refine ⟨_, (Composed.commit hcalls).bind fun _ => .pure Answer.done, ?_⟩
    rw [runFrom_bind_pure _ fun _ => Answer.done, Intake.markIrreversible,
      runFrom_bind_pure _ fun _ => (), Intake.onLink_runFrom]
    cases ((Batch.commit _).runFrom s.link).1 <;> rfl

end Ingest

end ChainArchive
