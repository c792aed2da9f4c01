import ChainArchive.Proofs.Session.Composed
import ChainArchive.Proofs.Session.Quiet

namespace ChainArchive

open ChainArchive.Program

theorem Session.isRegistered_eq_true {s : Session} {name : String} :
    s.isRegistered name = true ↔ name ∈ s.registered := by
  simp [Session.isRegistered]

theorem Session.isRegistered_eq_false {s : Session} {name : String} :
    s.isRegistered name = false ↔ name ∉ s.registered := by
  simp [Session.isRegistered]

theorem Statement.exists_find?_of_mem {ps : List Plan} {p : Plan} (hp : p ∈ ps) :
    ∃ q, Statement.find? ps p.name = some q :=
  Option.isSome_iff_exists.mp (List.find?_isSome.mpr ⟨p, hp, by simp⟩)

namespace Link

variable {σ : Type} [Server σ] {l m : Link σ} {es : List Entry} {name : String} {p : Plan}

theorem runFrom_ask_connected (r : Request) (hc : l.session.connection ≠ .released) :
    (ask r).runFrom l = (.ok (l.line.ask r).1, { l with line := (l.line.ask r).2 }) := by
  simp only [ask, runFrom_of]

theorem runFrom_ask_released (r : Request) (hc : l.session.connection = .released) :
    (ask r).runFrom l = (.error .noConnection, l) := by
  simp only [ask, runFrom_of, hc]

theorem runFrom_passing_snd (r : Request) (l : Link σ) :
    ((passing r).runFrom l).2 = ((ask r).runFrom l).2 := by
  rw [passing, runFrom_bind]
  cases (ask r).runFrom l with
  | mk reply m =>
    cases reply with
    | error e => rfl
    | ok reply => cases reply <;> rfl

theorem runFrom_plan_unknown (hf : Statement.find? l.session.statements name = none) :
    (plan name).runFrom l = (.error (.register name none), l) := by
  simp only [plan, runFrom_bind, runFrom_get, hf, runFrom_throw]

theorem runFrom_plan_registered (hf : Statement.find? l.session.statements name = some p)
    (hr : l.session.isRegistered name = true) : (plan name).runFrom l = (.ok p, l) := by
  simp only [plan, runFrom_bind, runFrom_get, hf, hr, ↓reduceIte, runFrom_pure]

theorem runFrom_plan_unregistered (hf : Statement.find? l.session.statements name = some p)
    (hr : l.session.isRegistered name = false) (hc : l.session.connection ≠ .released) :
    (plan name).runFrom l = match (l.line.ask (.prepare p)).1 with
      | .ok _ => (.ok p, { l with
          line := (l.line.ask (.prepare p)).2
          session.registered := l.session.registered ++ [name] })
      | .error e => (.error (registrationFailure name e),
          { l with line := (l.line.ask (.prepare p)).2 }) := by
  simp only [plan, runFrom_bind, runFrom_get, hf, hr, Bool.false_eq_true, ↓reduceIte,
    runFrom_ask_connected (.prepare p) hc]
  cases (l.line.ask (.prepare p)).1 <;> rfl

theorem runFrom_plan_released (hf : Statement.find? l.session.statements name = some p)
    (hr : l.session.isRegistered name = false) (hc : l.session.connection = .released) :
    (plan name).runFrom l = (.error .noConnection, l) := by
  simp only [plan, runFrom_bind, runFrom_get, hf, hr, Bool.false_eq_true, ↓reduceIte,
    runFrom_ask_released (.prepare p) hc]

def AllRegistered (l : Link σ) : Prop :=
  ∀ p ∈ l.session.statements, p.name ∈ l.session.registered

theorem Sends.registered_subset (h : Sends l es m) : l.session.registered ⊆ m.session.registered := by
  induction h with
  | refl => exact List.Subset.refl _
  | ask r h hc ih | mark k h hc ih => exact ih
  | register name h ih => exact List.Subset.trans ih (List.subset_append_left _ _)

theorem Sends.statements_eq (h : Sends l es m) : m.session.statements = l.session.statements :=
  congrArg Terms.statements h.terms_eq

theorem Sends.allRegistered (h : Sends l es m) (hl : l.AllRegistered) : m.AllRegistered := by
  intro p hp
  rw [h.statements_eq] at hp
  exact h.registered_subset (hl p hp)

/-- A session with the standard statements, all of them registered. -/
structure Equipped (l : Link σ) : Prop where
  statements_eq : l.session.statements = Statement.standard
  registered : l.AllRegistered

theorem Sends.equipped (h : Sends l es m) (hl : l.Equipped) : m.Equipped :=
  ⟨h.statements_eq.trans hl.statements_eq, h.allRegistered hl.registered⟩

theorem plan_registers (h : (plan name).runFrom l = (.ok p, m)) :
    Statement.find? l.session.statements name = some p ∧ name ∈ m.session.registered := by
  cases hf : Statement.find? l.session.statements name with
  | none =>
    rw [runFrom_plan_unknown hf] at h
    cases h
  | some q =>
    cases hr : l.session.isRegistered name with
    | true =>
      rw [runFrom_plan_registered hf hr] at h
      cases h
      exact ⟨rfl, Session.isRegistered_eq_true.mp hr⟩
    | false =>
      by_cases hc : l.session.connection = .released
      · rw [runFrom_plan_released hf hr hc] at h
        cases h
      · rw [runFrom_plan_unregistered hf hr hc] at h
        split at h
        · cases h
          exact ⟨rfl, List.mem_append_right _ List.mem_cons_self⟩
        · cases h

theorem planEach_registers {names : List String} (h : (planEach names).runFrom l = (.ok (), m)) :
    ∀ name ∈ names, name ∈ m.session.registered := by
  induction names generalizing l with
  | nil => exact fun _ hn => by cases hn
  | cons name names ih =>
    rw [planEach, runFrom_bind] at h
    split at h
    · next p l' hplan =>
      obtain ⟨es, hsend, -⟩ := Quiet.planEach names l'.terms l' rfl
      rw [h] at hsend
      intro n hn
      obtain rfl | hn := List.mem_cons.mp hn
      · exact hsend.registered_subset (plan_registers hplan).2
      · exact ih h n hn
    · cases h

theorem allRegistered_of_planAll (h : planAll.runFrom l = (.ok (), m)) :
    m.AllRegistered := by
  obtain ⟨es, hsend, -⟩ := Quiet.planAll l.terms l rfl
  rw [h] at hsend
  intro p hp
  rw [hsend.statements_eq] at hp
  exact planEach_registers h p.name (List.mem_map_of_mem hp)

/-- Where all statements are registered, one that is known is at hand. -/
theorem AllRegistered.plan_runFrom (hl : l.AllRegistered)
    (hp : Statement.find? l.session.statements name = some p) :
    (plan name).runFrom l = (.ok p, l) := by
  refine runFrom_plan_registered hp (Session.isRegistered_eq_true.mpr ?_)
  rw [← Statement.name_of_find? hp]
  exact hl p (List.mem_of_find?_eq_some hp)

theorem AllRegistered.planAll_runFrom (hl : l.AllRegistered) :
    planAll.runFrom l = (.ok (), l) := by
  have heach : ∀ ps ⊆ l.session.statements,
      (planEach (ps.map (·.name))).runFrom l = (.ok (), l) := by
    intro ps hps
    induction ps with
    | nil => rfl
    | cons p ps ih =>
      have hp : p ∈ l.session.statements := hps List.mem_cons_self
      obtain ⟨q, hq⟩ := Statement.exists_find?_of_mem hp
      rw [List.map_cons, planEach, runFrom_bind_ok (hl.plan_runFrom hq)]
      exact ih (List.Subset.trans (List.subset_cons_self p ps) hps)
  exact heach _ (List.Subset.refl _)

end Link

end ChainArchive
