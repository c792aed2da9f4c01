import ChainArchive.Proofs.Ingest.History
import ChainArchive.Proofs.Session.Registering

namespace ChainArchive

open ChainArchive.Program

variable {σ : Type} [Server σ] {α : Type}

namespace Ingest

open ChainArchive.Link ChainArchive.Schema

namespace Intake

theorem onLink_allRegistered {p : Program (Link σ) α} (hp : Quiet p) (q : Pipeline) :
    Maintains (fun s => s.pipeline = q ∧ s.link.AllRegistered) (onLink p) := by
  rintro s ⟨hq, hs⟩
  obtain ⟨es, hsend, -⟩ := hp s.link.terms s.link rfl
  exact ⟨hq, hsend.allRegistered hs⟩

theorem startup_keeps (q : Pipeline) : Ends (fun s => s.pipeline = q ∧ s.link.AllRegistered)
    (startup (σ := σ)) fun r s => r.isOk = false → s.pipeline = q := by
  refine Ends.get_bind fun _ => ?_
  refine Ends.bind (onLink_allRegistered (.tableExists _ _) q) (fun found => ?_)
    fun _ _ h _ => h.1
  extract_lets register
  have hresume : ∀ last, Ends (fun s => s.pipeline = q ∧ s.link.AllRegistered) (do
      update fun p => { p with lastSync := some last }
      register ()) fun r s => r.isOk = false → s.pipeline = q := by
    rintro last s ⟨-, hs⟩ hfail
    simp only [register, runFrom_bind, update_runFrom, onLink_runFrom, hs.planAll_runFrom] at hfail
    cases hfail
  split
  · refine Ends.bind (onLink_allRegistered (.create _) q) (fun _ => ?_) fun _ _ h _ => h.1
    refine Ends.bind (onLink_allRegistered (.checkVersion _) q) (fun _ => ?_) fun _ _ h _ => h.1
    exact Ends.bind (onLink_allRegistered .checkSync q) hresume fun _ _ h _ => h.1
  · refine Ends.bind (onLink_allRegistered (.create _) q) (fun _ => ?_) fun _ _ h _ => h.1
    exact Ends.bind (onLink_allRegistered (.store _) q) (fun _ => hresume "") fun _ _ h _ => h.1

theorem allRegistered_of_startup : Ends (fun _ => True) (startup (σ := σ)) fun r s =>
    r.isOk = true → s.link.AllRegistered := by
  have hany : ∀ {β : Type} (p : Program (Link σ) β),
      Ends (fun _ => True) (onLink p) fun _ _ => True := fun _ _ _ => trivial
  refine Ends.get_bind fun _ => ?_
  refine Ends.bind (hany _) (fun found => ?_) fun _ _ _ h => by cases h
  extract_lets register
  have hregister : ∀ u, Ends (fun _ => True) (register u) fun r s =>
      r.isOk = true → s.link.AllRegistered := by
    intro u s _ hok
    simp only [register, runFrom_bind, onLink_runFrom] at hok ⊢
    cases hp : planAll.runFrom s.link with
    | mk r l =>
      rw [hp] at hok
      cases r with
      | error f => cases hok
      | ok _ => exact allRegistered_of_planAll hp
  have hresume : ∀ last : String, Ends (fun _ => True) (do
      update fun p => { p with lastSync := some last }
      register ()) fun r s => r.isOk = true → s.link.AllRegistered :=
    fun last => Ends.bind (Q := fun _ _ => True) (fun _ _ => trivial) hregister
      fun _ _ _ h => by cases h
  split
  · refine Ends.bind (hany _) (fun _ => ?_) fun _ _ _ h => by cases h
    refine Ends.bind (hany _) (fun _ => ?_) fun _ _ _ h => by cases h
    exact Ends.bind (hany _) (fun last => hresume last) fun _ _ _ h => by cases h
  · refine Ends.bind (hany _) (fun _ => ?_) fun _ _ _ h => by cases h
    exact Ends.bind (hany _) (fun _ => hresume "") fun _ _ _ h => by cases h

/-- A pipeline that was started has registered all its statements. -/
def Prepared (s : Intake σ) : Prop := s.pipeline.started = true → s.link.AllRegistered

end Intake

theorem Op.startup_registers {s : Intake σ} (hok : (Op.startup.perform s).result.isOk = true) :
    (Op.startup.perform s).after.link.AllRegistered := by
  simp only [Op.perform, Op.program, runFrom_bind_pure] at hok ⊢
  rw [isOk_map] at hok
  exact Intake.allRegistered_of_startup s trivial hok

theorem Op.perform_prepared {s : Intake σ} (hs : s.pipeline.Sound) (hp : s.Prepared) (op : Op) :
    (op.perform s).after.Prepared := by
  intro hst
  have hsend := op.perform_sends hs
  have heff := op.perform_effect hs
  by_cases hstarted : s.pipeline.started = true
  · exact hsend.allRegistered (hp hstarted)
  · -- Only a startup that succeeds starts a pipeline.
    have hr : ¬ s.pipeline.Ready := fun h => hstarted h.1
    by_cases hop : op = .startup ∧ (op.perform s).result.isOk = true
    · obtain ⟨rfl, hok⟩ := hop
      exact Op.startup_registers hok
    · have hfail : op = .startup → (op.perform s).result.isOk = false :=
        fun h => by simpa using fun hok => hop ⟨h, hok⟩
      obtain ⟨-, hkept, -⟩ := heff.of_not_ready hs hr hfail
      exact absurd (hkept.symm.trans hst) hstarted

/-- A startup that fails on a pipeline that was started before leaves the pipeline as it was. -/
theorem Op.perform_startup_error {s : Intake σ} (hp : s.Prepared)
    (hst : s.pipeline.started = true)
    (hfail : (Op.startup.perform s).result.isOk = false) :
    (Op.startup.perform s).after.pipeline = s.pipeline := by
  simp only [Op.perform, Op.program, runFrom_bind_pure] at hfail ⊢
  refine Intake.startup_keeps s.pipeline s ⟨rfl, hp hst⟩ ?_
  cases hr : (Intake.startup.runFrom s).1 with
  | ok _ =>
    rw [hr] at hfail
    cases hfail
  | error f => rfl

end Ingest

end ChainArchive
