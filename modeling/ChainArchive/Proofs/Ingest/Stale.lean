import ChainArchive.Proofs.Ingest.Walk

namespace ChainArchive.Ingest

open ChainArchive.Record

/-- `q` is in the state of `p`, with the same draft open and nothing changed in it. -/
structure Pipeline.Undisturbed (p q : Pipeline) : Prop where
  lastSync_eq : q.lastSync = p.lastSync
  halted_eq : q.halted = p.halted
  started_eq : q.started = p.started
  current_eq : q.current = p.current
  openDraft?_eq : q.openDraft? = p.openDraft?

/-- An operation beside the open draft of `p`: a call with the handle of another draft, or one that
concerns no draft. -/
def Op.Beside (p : Pipeline) : Op → Prop
  | .addTransaction id _ _ | .addAction id _ _ _ | .flush id | .discard id | .abort id
  | .commit id => p.current ≠ some id
  | .beginBlock _ | .needsBootstrap | .markIrreversible _ => True
  | .startup | .ingestBlock _ => False

/-- Whether an operation has a question or a change for the server even if no draft is open. -/
def Op.asksServer : Op → Bool
  | .startup | .needsBootstrap | .ingestBlock _ | .markIrreversible _ => true
  | _ => false

def Event.opens {σ : Type} (e : Event σ) : Bool :=
  match e.op, e.result with
  | .beginBlock _, .ok _ => true
  | _, _ => false

namespace Pipeline

variable {p q r : Pipeline} {id : DraftId}

theorem Undisturbed.refl (p : Pipeline) : p.Undisturbed p := ⟨rfl, rfl, rfl, rfl, rfl⟩

theorem Undisturbed.trans (h : p.Undisturbed q) (h' : q.Undisturbed r) : p.Undisturbed r where
  lastSync_eq := h'.lastSync_eq.trans h.lastSync_eq
  halted_eq := h'.halted_eq.trans h.halted_eq
  started_eq := h'.started_eq.trans h.started_eq
  current_eq := h'.current_eq.trans h.current_eq
  openDraft?_eq := h'.openDraft?_eq.trans h.openDraft?_eq

theorem setDraft_undisturbed (h : p.current ≠ some id) (d : Draft) :
    p.Undisturbed (p.setDraft id d) := by
  refine ⟨rfl, rfl, rfl, rfl, ?_⟩
  cases hc : p.current with
  | none => simp [openDraft?, setDraft, hc]
  | some j =>
    have hij : id ≠ j := fun e => h (e ▸ hc)
    have hopen : (p.setDraft id d).openDraft? = (p.setDraft id d).draft? j := by
      rw [openDraft?, show (p.setDraft id d).current = some j from hc, Option.bind_some]
    rw [hopen, draft?_setDraft_ne hij, openDraft?, hc, Option.bind_some]

theorem onDraft_undisturbed (h : p.current ≠ some id) (f : Draft → Except Failure Unit × Draft) :
    p.Undisturbed (p.onDraft id f).2 := by
  unfold onDraft
  cases p.draft? id with
  | none => exact .refl p
  | some d =>
    have hset := setDraft_undisturbed h (f d).2
    dsimp only
    split
    · -- A draft that is dropped gives up the open place only if it holds it.
      rwa [release_of_ne (by rwa [hset.current_eq])]
    · exact hset

theorem abort_undisturbed (h : p.current ≠ some id) : p.Undisturbed (p.abort id) := by
  unfold abort
  cases p.draft? id with
  | none => exact .refl p
  | some d =>
    dsimp only
    rw [release_of_ne h]
    exact setDraft_undisturbed h d.discard

end Pipeline

variable {σ : Type} [Server σ]

theorem Op.perform_beside {s : Intake σ} {op : Op} (h : op.Beside s.pipeline)
    (hopens : (op.perform s).opens = false) :
    s.pipeline.Undisturbed (op.perform s).after.pipeline ∧
      (op.asksServer = false → (op.perform s).after.link = s.link) := by
  have hdone := fun p : Program (Intake σ) Unit =>
    Program.runFrom_bind_pure p (fun _ => Answer.done) s
  cases op with
  | startup | ingestBlock => cases h
  | beginBlock b =>
    -- It opened no draft, so the block was refused.
    rw [Op.perform_beginBlock] at hopens ⊢
    cases hb : s.pipeline.beginBlock b with
    | mk r q =>
      rw [hb] at hopens
      cases r with
      | ok id => cases hopens
      | error f =>
        obtain rfl := Pipeline.beginBlock_error hb
        exact ⟨.refl _, fun _ => rfl⟩
  | needsBootstrap =>
    obtain ⟨-, -, -, hp⟩ := Intake.needsBootstrap_quietly s
    simp only [Op.perform, Op.program, Program.runFrom_bind_pure]
    exact ⟨hp ▸ .refl _, fun hask => by cases hask⟩
  | markIrreversible blockId =>
    obtain ⟨-, -, -, hp⟩ := Intake.markIrreversible_quietly blockId s
    simp only [Op.perform, Op.program, hdone]
    exact ⟨hp ▸ .refl _, fun hask => by cases hask⟩
  | addTransaction id | addAction id | flush id | discard id =>
    simp only [Op.perform, Op.program, hdone, Intake.onPipeline, Program.runFrom_of]
    exact ⟨Pipeline.onDraft_undisturbed h _, fun _ => trivial⟩
  | abort id =>
    simp only [Op.perform, Op.program, hdone, Intake.update_runFrom]
    exact ⟨Pipeline.abort_undisturbed h, fun _ => trivial⟩
  | commit id =>
    simp only [Op.perform, Op.program, hdone]
    rw [Intake.commit_refused h]
    exact ⟨.refl _, fun _ => rfl⟩

theorem Pipeline.Undisturbed.beside {p q : Pipeline} (h : p.Undisturbed q) {op : Op}
    (hop : op.Beside p) : op.Beside q := by
  cases op with
  | startup | ingestBlock => exact hop
  | beginBlock | needsBootstrap | markIrreversible => trivial
  | addTransaction | addAction | flush | discard | abort | commit =>
    exact fun hc => hop (h.current_eq.symm.trans hc)

/-- Operations beside the open draft of a pipeline, whatever they end with, leave the pipeline
undisturbed, each of them and all the way; calls with the handles of other drafts send nothing. -/
theorem undisturbed_of_beside (ops : List Op) {s : Intake σ}
    (hops : ∀ op ∈ ops, op.Beside s.pipeline) (hopens : ∀ e ∈ history ops s, e.opens = false) :
    ∀ e ∈ history ops s, s.pipeline.Undisturbed e.after.pipeline ∧
      (e.op.asksServer = false → e.after.link = e.before.link ∧ e.entries = []) := by
  induction ops generalizing s with
  | nil =>
    intro e he
    cases he
  | cons op ops ih =>
    obtain ⟨hkept, hlink⟩ := Op.perform_beside (hops op List.mem_cons_self)
      (hopens _ List.mem_cons_self)
    intro e he
    obtain rfl | he := List.mem_cons.mp he
    · refine ⟨hkept, fun hask => ⟨hlink hask, Event.entries_eq ?_⟩⟩
      rw [hlink hask]
      exact .refl s.link
    · obtain ⟨hkept', hlink'⟩ := ih
        (fun op hop => hkept.beside (hops op (List.mem_cons_of_mem _ hop)))
        (fun e he => hopens e (List.mem_cons_of_mem _ he)) e he
      exact ⟨hkept.trans hkept', hlink'⟩

theorem undisturbed_beside_reopened_block :
    let b₁ := bareBlock "b1" 1 "b0"
    let b₂ := bareBlock "b2" 2 "b1"
    let s := after [.startup, .beginBlock b₁, .commit 0, .beginBlock b₂, .abort 1, .beginBlock b₂,
      .addTransaction 2 (bareTransaction "x2") none] (scripted .empty)
    let ops : List Op := [.addTransaction 0 (bareTransaction "x1") none, .flush 0, .discard 0,
      .addTransaction 1 (bareTransaction "x1") none, .abort 1, .commit 0, .beginBlock b₂,
      .markIrreversible "b1", .needsBootstrap]
    s.pipeline.current = some 2 ∧
      ∀ e ∈ history ops s, s.pipeline.Undisturbed e.after.pipeline ∧
        (e.op.asksServer = false → e.after.link = e.before.link ∧ e.entries = []) := by
  intro b₁ b₂ s ops
  have hc : s.pipeline.current = some 2 := by decide +kernel
  have hopens : (history ops s).all (!·.opens) = true := by decide +kernel
  refine ⟨hc, undisturbed_of_beside ops (fun op hop => ?_) fun e he => ?_⟩
  · simp only [ops, List.mem_cons, List.not_mem_nil, or_false] at hop
    rcases hop with rfl | rfl | rfl | rfl | rfl | rfl | rfl | rfl | rfl <;> simp [Op.Beside, hc]
  · simpa using List.all_eq_true.mp hopens e he

end ChainArchive.Ingest
