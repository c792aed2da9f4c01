import ChainArchive.Proofs.Ingest.History
import ChainArchive.Proofs.Session.Outcome
import Mathlib.Data.List.InsertIdx

namespace ChainArchive.Ingest

open ChainArchive.Record

/-- The handle of a draft once another one stands at `n`. -/
def past (n id : Nat) : Nat := if id < n then id else id + 1

theorem past_injective (n : Nat) : Function.Injective (past n) := by
  intro i j h
  unfold past at h
  split at h <;> split at h <;> omega

def Op.past (n : Nat) : Op → Op
  | .addTransaction id t seqNum => .addTransaction (Ingest.past n id) t seqNum
  | .addAction id trxId a seqNum => .addAction (Ingest.past n id) trxId a seqNum
  | .flush id => .flush (Ingest.past n id)
  | .discard id => .discard (Ingest.past n id)
  | .abort id => .abort (Ingest.past n id)
  | .commit id => .commit (Ingest.past n id)
  | op => op

def Answer.past (n : Nat) : Answer → Answer
  | .opened id => .opened (Ingest.past n id)
  | x => x

namespace Pipeline

/-- The pipeline with a draft put in at `n`, where it is not open. -/
def shelve (n : Nat) (d : Draft) (p : Pipeline) : Pipeline :=
  { p with drafts := p.drafts.insertIdx n d, current := p.current.map (past n) }

variable {n : Nat} {d : Draft}

theorem draft?_shelve (p : Pipeline) (id : Nat) :
    (p.shelve n d).draft? (past n id) = p.draft? id := by
  simp only [draft?, shelve, past]
  grind

theorem current_shelve (p : Pipeline) (id : Nat) :
    (p.shelve n d).current = some (past n id) ↔ p.current = some id := by
  cases hc : p.current with
  | none => simp [shelve, hc]
  | some j => simp [shelve, hc, (past_injective n).eq_iff]

theorem setDraft_shelve (p : Pipeline) (id : Nat) (e : Draft) :
    (p.shelve n d).setDraft (past n id) e = (p.setDraft id e).shelve n d := by
  have hdrafts : (p.drafts.insertIdx n d).set (past n id) e =
      (p.drafts.set id e).insertIdx n d := by
    apply List.ext_getElem?
    grind [past]
  simp only [setDraft, shelve, hdrafts]

theorem release_shelve (p : Pipeline) (id : Nat) :
    (p.shelve n d).release (past n id) = (p.release id).shelve n d := by
  unfold release
  by_cases hc : p.current = some id
  · rw [if_pos hc, if_pos ((p.current_shelve id).mpr hc)]
    rfl
  · rw [if_neg hc, if_neg fun h => hc ((p.current_shelve id).mp h)]

theorem onDraft_shelve (p : Pipeline) (id : Nat) (f : Draft → Except Failure Unit × Draft) :
    (p.shelve n d).onDraft (past n id) f = ((p.onDraft id f).1, (p.onDraft id f).2.shelve n d) := by
  unfold onDraft
  rw [draft?_shelve]
  cases p.draft? id with
  | none => rfl
  | some e =>
    dsimp only
    split
    · rw [setDraft_shelve, release_shelve]
    · rw [setDraft_shelve]

theorem abort_shelve (p : Pipeline) (id : Nat) :
    (p.shelve n d).abort (past n id) = (p.abort id).shelve n d := by
  unfold abort
  rw [draft?_shelve]
  cases p.draft? id with
  | none => rfl
  | some e =>
    dsimp only
    rw [release_shelve, setDraft_shelve]

theorem opened_shelve {p : Pipeline} (hn : n ≤ p.drafts.length) (b : Block) :
    (p.shelve n d).opened b = (p.opened b).shelve n d := by
  have hlength : (p.drafts.insertIdx n d).length = p.drafts.length + 1 :=
    List.length_insertIdx_of_le_length hn d
  have hpast : past n p.drafts.length = p.drafts.length + 1 := if_neg (by omega)
  have hdrafts : p.drafts.insertIdx n d ++ [.ofBlock b] =
      (p.drafts ++ [Draft.ofBlock b]).insertIdx n d := by
    apply List.ext_getElem?
    grind
  simp only [opened, shelve, hlength, hdrafts, Option.map_some, hpast]

theorem openDraft?_shelve (p : Pipeline) : (p.shelve n d).openDraft? = p.openDraft? := by
  unfold openDraft?
  cases hc : p.current with
  | none => simp [shelve, hc]
  | some id =>
    rw [(p.current_shelve id).mpr hc]
    exact p.draft?_shelve id

theorem beginBlock_shelve {p : Pipeline} (hn : n ≤ p.drafts.length) (b : Block) :
    (p.shelve n d).beginBlock b =
      ((p.beginBlock b).1.map (past n), (p.beginBlock b).2.shelve n d) := by
  have hlength : (p.shelve n d).drafts.length = past n p.drafts.length := by
    rw [past, if_neg (by omega)]
    exact List.length_insertIdx_of_le_length hn d
  have hopened := opened_shelve (d := d) hn b
  unfold beginBlock
  rw [openDraft?_shelve]
  simp only [show (p.shelve n d).started = p.started from rfl,
    show (p.shelve n d).halted = p.halted from rfl,
    show (p.shelve n d).lastSync = p.lastSync from rfl]
  split
  · rfl
  · split
    · rfl
    · split
      · rfl
      · split
        · rfl
        · exact Prod.ext (congrArg Except.ok hlength) hopened

theorem length_onDraft (p : Pipeline) (id : Nat) (f : Draft → Except Failure Unit × Draft) :
    (p.onDraft id f).2.drafts.length = p.drafts.length := by
  unfold onDraft
  cases p.draft? id with
  | none => rfl
  | some e =>
    dsimp only
    unfold release
    split
    · split <;> exact List.length_set
    · exact List.length_set

theorem length_abort (p : Pipeline) (id : Nat) : (p.abort id).drafts.length = p.drafts.length := by
  unfold abort
  cases p.draft? id with
  | none => rfl
  | some e =>
    dsimp only
    unfold release
    split <;> exact List.length_set

theorem length_beginBlock (p : Pipeline) (b : Block) :
    p.drafts.length ≤ (p.beginBlock b).2.drafts.length := by
  cases hb : p.beginBlock b with
  | mk r q =>
    cases r with
    | error f =>
      cases beginBlock_error hb
      exact Nat.le_refl _
    | ok id =>
      obtain ⟨-, -, -, -, -, rfl⟩ := beginBlock_eq_ok.mp hb
      simp [opened]

end Pipeline

variable {σ : Type} {n : Nat} {d : Draft} {α β γ δ : Type}

def Intake.shelve (n : Nat) (d : Draft) (s : Intake σ) : Intake σ :=
  { s with pipeline := s.pipeline.shelve n d }

def Event.shelve (n : Nat) (d : Draft) (e : Event σ) : Event σ :=
  ⟨e.op.past n, e.before.shelve n d, e.result.map (·.past n), e.after.shelve n d⟩

/-- With a draft on the shelf, `q` does what `p` does without it. -/
def RunsPast (n : Nat) (d : Draft) (g : α → β) (p : Program (Intake σ) α)
    (q : Program (Intake σ) β) : Prop :=
  ∀ s, n ≤ s.pipeline.drafts.length → n ≤ (p.runFrom s).2.pipeline.drafts.length ∧
    q.runFrom (s.shelve n d) = ((p.runFrom s).1.map g, (p.runFrom s).2.shelve n d)

namespace RunsPast

theorem pure {g : α → β} (x : α) :
    RunsPast (σ := σ) n d g (Pure.pure x) (Pure.pure (g x)) :=
  fun _ hn => ⟨hn, rfl⟩

theorem bind {g : α → β} {h : γ → δ} {p : Program (Intake σ) α} {q : Program (Intake σ) β}
    {f : α → Program (Intake σ) γ} {k : β → Program (Intake σ) δ} (hp : RunsPast n d g p q)
    (hf : ∀ x, RunsPast n d h (f x) (k (g x))) : RunsPast n d h (p >>= f) (q >>= k) := by
  intro s hn
  obtain ⟨hn', hq⟩ := hp s hn
  rw [Program.runFrom_bind, Program.runFrom_bind, hq]
  cases hr : p.runFrom s with
  | mk r t =>
    rw [hr] at hn'
    cases r with
    | error e => exact ⟨hn', rfl⟩
    | ok x => exact hf x t hn'

theorem get_bind {h : γ → δ} {f : Intake σ → Program (Intake σ) γ}
    {k : Intake σ → Program (Intake σ) δ} (hf : ∀ s, RunsPast n d h (f s) (k (s.shelve n d))) :
    RunsPast n d h (MonadState.get >>= f) (MonadState.get >>= k) :=
  fun s hn => hf s s hn

theorem onLink (p : Program (Link σ) α) :
    RunsPast n d (fun x => x) (Intake.onLink p) (Intake.onLink p) := by
  intro s hn
  refine ⟨hn, ?_⟩
  have hrun : (Intake.onLink p).runFrom (s.shelve n d) =
      ((p.runFrom s.link).1, ⟨s.pipeline.shelve n d, (p.runFrom s.link).2⟩) := rfl
  rw [hrun, Intake.onLink_runFrom]
  cases (p.runFrom s.link).1 <;> rfl

theorem lift (r : Except Failure α) :
    RunsPast (σ := σ) n d (fun x => x) (Program.lift r) (Program.lift r) :=
  fun _ hn => ⟨hn, Prod.ext (by cases r <;> rfl) rfl⟩

theorem onPipeline {g : α → β} {f : Pipeline → Except Failure α × Pipeline}
    {k : Pipeline → Except Failure β × Pipeline}
    (hlength : ∀ p, p.drafts.length ≤ (f p).2.drafts.length)
    (hk : ∀ p, n ≤ p.drafts.length → k (p.shelve n d) = ((f p).1.map g, (f p).2.shelve n d)) :
    RunsPast (σ := σ) n d g (Intake.onPipeline f) (Intake.onPipeline k) := by
  intro s hn
  refine ⟨Nat.le_trans hn (hlength s.pipeline), ?_⟩
  simp only [Intake.onPipeline, Program.runFrom_of, Intake.shelve, hk s.pipeline hn]

theorem update {f k : Pipeline → Pipeline} (hlength : ∀ p, p.drafts.length ≤ (f p).drafts.length)
    (hk : ∀ p, k (p.shelve n d) = (f p).shelve n d) :
    RunsPast (σ := σ) n d (fun x => x) (Intake.update f) (Intake.update k) := by
  intro s hn
  refine ⟨Nat.le_trans hn (hlength s.pipeline), ?_⟩
  simp only [Intake.update_runFrom, Intake.shelve, hk s.pipeline]
  rfl

theorem concluding {p q : Program (Intake σ) Unit} (h : RunsPast n d (fun x => x) p q) (b : Block) :
    RunsPast n d (fun x => x) (Intake.concluding b p) (Intake.concluding b q) := by
  intro s hn
  obtain ⟨hn', hq⟩ := h s hn
  rw [Intake.concluding_runFrom, Intake.concluding_runFrom, hq]
  cases hr : p.runFrom s with
  | mk r t =>
    rw [hr] at hn'
    cases r with
    | ok _ => exact ⟨hn', rfl⟩
    | error f => exact ⟨hn', rfl⟩

theorem setDraft (id : Nat) (e : Draft) : RunsPast (σ := σ) n d (fun x => x)
    (Intake.update (·.setDraft id e)) (Intake.update (·.setDraft (past n id) e)) :=
  update (fun _ => Nat.le_of_eq List.length_set.symm) fun p => p.setDraft_shelve id e

theorem beginBlock (b : Block) : RunsPast (σ := σ) n d (past n)
    (Intake.onPipeline (·.beginBlock b)) (Intake.onPipeline (·.beginBlock b)) :=
  onPipeline (fun p => p.length_beginBlock b) fun _ hn => Pipeline.beginBlock_shelve hn b

theorem onDraft (id : Nat) (f : Draft → Except Failure Unit × Draft) :
    RunsPast (σ := σ) n d (fun x => x) (Intake.onPipeline (·.onDraft id f))
      (Intake.onPipeline (·.onDraft (past n id) f)) := by
  refine onPipeline (fun p => Nat.le_of_eq (p.length_onDraft id f).symm) fun p _ => ?_
  rw [p.onDraft_shelve]
  exact Prod.ext (by cases (p.onDraft id f).1 <;> rfl) rfl

variable [Server σ]

theorem send (id : Nat) (e : Draft) :
    RunsPast (σ := σ) n d (fun x => x) (Intake.send id e) (Intake.send (past n id) e) := by
  refine (lift e.flush).bind fun e => (setDraft id e.advance).bind fun _ => ?_
  refine (onLink e.advance.rows.commit).bind fun rows => ?_
  refine (setDraft id { e.advance with rows }).bind fun _ => ?_
  exact (onLink (Batch.commit e.advance.batch)).bind fun batch =>
    setDraft id { e.advance with rows, batch }

theorem commit (id : Nat) :
    RunsPast (σ := σ) n d (fun x => x) (Intake.commit id) (Intake.commit (past n id)) := by
  intro s hn
  have hcurrent := s.pipeline.current_shelve (n := n) (d := d) id
  have hdraft := s.pipeline.draft?_shelve (n := n) (d := d) id
  by_cases hc : s.pipeline.current = some id
  · cases hd : s.pipeline.draft? id with
    | none =>
      rw [Intake.commit_unknown hd, Intake.commit_unknown (hdraft.trans hd)]
      exact ⟨hn, rfl⟩
    | some e =>
      rw [Intake.commit_eq hc hd, Intake.commit_eq (hcurrent.mpr hc) (hdraft.trans hd)]
      exact (send id e).concluding e.block s hn
  · rw [Intake.commit_refused hc, Intake.commit_refused fun h => hc (hcurrent.mp h)]
    exact ⟨hn, rfl⟩

theorem ingestBlock (b : Block) :
    RunsPast (σ := σ) n d (fun x => x) (Intake.ingestBlock b) (Intake.ingestBlock b) := by
  refine get_bind fun s => ?_
  by_cases h : s.pipeline.lastSync = some b.blockId
  · rw [if_pos h, if_pos (show (s.shelve n d).pipeline.lastSync = _ from h)]
    exact .pure false
  · rw [if_neg h, if_neg (show ¬ (s.shelve n d).pipeline.lastSync = _ from h)]
    refine (onLink _).bind fun found => ?_
    cases found with
    | true => exact .pure false
    | false =>
      refine (beginBlock b).bind fun id => (onDraft id _).bind fun _ => ?_
      exact (commit id).bind fun _ => .pure true

theorem startup : RunsPast (σ := σ) n d (fun x => x) Intake.startup Intake.startup := by
  refine get_bind fun s => (onLink _).bind fun found => ?_
  extract_lets register
  have hready : RunsPast (σ := σ) n d (fun x => x)
      (Intake.update fun p => { p with halted := none, started := true })
      (Intake.update fun p => { p with halted := none, started := true }) :=
    update (fun _ => Nat.le_refl _) fun _ => rfl
  have hregister : ∀ u, RunsPast n d (fun x => x) (register u) (register u) := by
    intro u
    refine (onLink _).bind fun _ => hready.bind fun _ => ?_
    exact get_bind fun s => .pure (s.pipeline.lastSync.getD "")
  have hresume : ∀ last : String, RunsPast (σ := σ) n d (fun x => x)
      (Intake.update fun p => { p with lastSync := some last })
      (Intake.update fun p => { p with lastSync := some last }) :=
    fun last => update (fun _ => Nat.le_refl _) fun _ => rfl
  split
  · refine (onLink _).bind fun _ => (onLink _).bind fun _ => (onLink _).bind fun last => ?_
    exact (hresume last).bind fun _ => hregister ()
  · refine (onLink _).bind fun _ => (onLink _).bind fun _ => ?_
    exact (hresume "").bind fun _ => hregister ()

end RunsPast

variable [Server σ]

theorem Op.program_past (op : Op) :
    RunsPast n d (·.past n) (op.program (σ := σ)) (op.past n).program := by
  cases op with
  | startup => exact RunsPast.startup.bind fun last => .pure (Answer.point last)
  | needsBootstrap =>
    have hprogram : RunsPast (σ := σ) n d (fun x => x) Intake.needsBootstrap
        Intake.needsBootstrap := .get_bind fun s => .onLink _
    exact hprogram.bind fun b => .pure (Answer.flag b)
  | beginBlock b => exact (RunsPast.beginBlock b).bind fun id => .pure (Answer.opened id)
  | addTransaction id t seqNum => exact (RunsPast.onDraft id _).bind fun _ => .pure Answer.done
  | addAction id trxId a seqNum => exact (RunsPast.onDraft id _).bind fun _ => .pure Answer.done
  | flush id => exact (RunsPast.onDraft id _).bind fun _ => .pure Answer.done
  | discard id => exact (RunsPast.onDraft id _).bind fun _ => .pure Answer.done
  | abort id =>
    have hprogram : RunsPast (σ := σ) n d (fun x => x) (Intake.update (·.abort id))
        (Intake.update (·.abort (Ingest.past n id))) :=
      .update (fun p => Nat.le_of_eq (p.length_abort id).symm) fun p => p.abort_shelve id
    exact hprogram.bind fun _ => .pure Answer.done
  | commit id => exact (RunsPast.commit id).bind fun _ => .pure Answer.done
  | ingestBlock b => exact (RunsPast.ingestBlock b).bind fun b => .pure (Answer.flag b)
  | markIrreversible blockId =>
    have hprogram : RunsPast (σ := σ) n d (fun x => x) (Intake.markIrreversible blockId)
        (Intake.markIrreversible blockId) := (RunsPast.onLink _).bind fun _ => .pure ()
    exact hprogram.bind fun _ => .pure Answer.done

theorem Op.perform_past (op : Op) {s : Intake σ} (hn : n ≤ s.pipeline.drafts.length) :
    n ≤ (op.perform s).after.pipeline.drafts.length ∧
      (op.past n).perform (s.shelve n d) = (op.perform s).shelve n d := by
  obtain ⟨hn', hrun⟩ := op.program_past (d := d) s hn
  refine ⟨hn', ?_⟩
  simp only [Op.perform, hrun, Event.shelve]

/-- A history with a draft on the shelf is the history without it. -/
theorem history_past (ops : List Op) {s : Intake σ} (hn : n ≤ s.pipeline.drafts.length) :
    history (ops.map (·.past n)) (s.shelve n d) = (history ops s).map (·.shelve n d) := by
  induction ops generalizing s with
  | nil => rfl
  | cons op ops ih =>
    obtain ⟨hn', hperform⟩ := op.perform_past (d := d) hn
    simp only [List.map_cons, history, hperform]
    exact congrArg _ (ih hn')

end ChainArchive.Ingest
