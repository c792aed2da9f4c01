import ChainArchive.Proofs.Entity.Statements

namespace ChainArchive.Entity

open ChainArchive.Ingest ChainArchive.Record ChainArchive.Sql

theorem callsOf_agrees {a : Action} {r : Option (List Call)} (h : render a = .ok r) (E : Entities) :
    Agrees (E.takeAction a) (E.database.runCalls (callsOf a)) := by
  unfold Entities.takeAction callsOf
  rw [h]
  cases r with
  | none =>
    rw [change_of_unruled (rule?_eq_none_of_render h)]
    rfl
  | some calls =>
    obtain ⟨rule, hrule, hcalls⟩ := exists_rule_of_render h
    obtain ⟨c, hof, hdoes⟩ := rule_does hrule hcalls
    rw [hof]
    exact hdoes E

def renderAll : Batch → List Action → Except Failure Batch
  | b, [] => .ok b
  | b, a :: as => do
    let (b, _) ← renderOn b a
    renderAll b as

theorem renderOn_eq_ok {b : Batch} {a : Action} {x : Batch × Bool} (h : renderOn b a = .ok x) :
    x.1 = b ++ callsOf a ∧ ∃ r, render a = .ok r := by
  unfold renderOn at h
  unfold callsOf
  cases hr : render a with
  | error f =>
    rw [hr] at h
    cases h
  | ok r =>
    rw [hr] at h
    cases h
    cases r <;> simp

theorem renderAll_eq_ok {b b' : Batch} {as : List Action} :
    renderAll b as = .ok b' ↔ b' = b ++ as.flatMap callsOf ∧ ∀ a ∈ as, ∃ r, render a = .ok r := by
  induction as generalizing b with
  | nil =>
    simp only [renderAll, Except.ok.injEq, List.flatMap_nil, List.append_nil, List.not_mem_nil,
      false_implies, implies_true, and_true]
    exact eq_comm
  | cons a as ih =>
    rw [List.flatMap_cons, ← List.append_assoc, List.forall_mem_cons]
    constructor
    · intro h
      obtain ⟨x, hx, h⟩ := bind_eq_ok h
      obtain ⟨hb, ha⟩ := renderOn_eq_ok hx
      obtain ⟨rfl, has⟩ := ih.mp h
      exact ⟨by rw [hb], ha, has⟩
    · rintro ⟨rfl, ⟨r, hr⟩, has⟩
      cases hx : renderOn b a with
      | error f => simp [renderOn, hr, Except.map] at hx
      | ok x =>
        rw [renderAll, hx]
        exact ih.mpr ⟨by rw [(renderOn_eq_ok hx).1], has⟩

/-- At a numbered action the calls are refused for a key that is taken; those before it do what
they mean. -/
structure RefusedAt (E : Entities) (as : List Action) (i : Nat) (f : Failure) (a : Action)
    (E' : Entities) : Prop where
  action : as[i]? = some a
  taken : E.takeActions (as.take i) = .ok E'
  before : E.database.runCalls ((as.take i).flatMap callsOf) = .ok ((), E'.database)
  refused : E'.database.runCalls (callsOf a) = .error f
  duplicate : ∃ plan e, f = .statement plan e ∧ e.kind = .uniqueViolation

theorem RefusedAt.cons {E E₁ E' : Entities} {as : List Action} {i : Nat} {f : Failure}
    {a a' : Action} (h : RefusedAt E₁ as i f a' E') (ht : E.takeAction a = some E₁)
    (hr : E.database.runCalls (callsOf a) = .ok ((), E₁.database)) :
    RefusedAt E (a :: as) (i + 1) f a' E' where
  action := by simpa using h.action
  taken := by
    rw [List.take_succ_cons, Entities.takeActions, ht]
    simp only [h.taken]
    rfl
  before := by
    rw [List.take_succ_cons, List.flatMap_cons, Database.runCalls_append, hr]
    exact h.before
  refused := h.refused
  duplicate := h.duplicate

theorem runCalls_takeActions {as : List Action} (h : ∀ a ∈ as, ∃ r, render a = .ok r)
    (E : Entities) :
    (∃ E', E.takeActions as = .ok E' ∧
      E.database.runCalls (as.flatMap callsOf) = .ok ((), E'.database)) ∨
    ∃ i f a E', E.takeActions as = .error i ∧ RefusedAt E as i f a E' ∧
      E.database.runCalls (as.flatMap callsOf) = .error f := by
  -- From action to action the entities go on, and the rows with them.
  induction as generalizing E with
  | nil => exact .inl ⟨E, rfl, rfl⟩
  | cons a as ih =>
    obtain ⟨⟨r, hr⟩, has⟩ := List.forall_mem_cons.mp h
    have ha := callsOf_agrees hr E
    rw [List.flatMap_cons, Database.runCalls_append, Entities.takeActions]
    cases hE : E.takeAction a with
    | none =>
      rw [hE] at ha
      obtain ⟨plan, e, hf, he⟩ := ha
      exact .inr ⟨0, .statement plan e, a, E, rfl, ⟨rfl, rfl, rfl, hf, plan, e, rfl, he⟩,
        by rw [hf]; rfl⟩
    | some E₁ =>
      rw [hE] at ha
      have hok : E.database.runCalls (callsOf a) = .ok ((), E₁.database) := ha
      rw [hok]
      obtain ⟨E', ht, hrun⟩ | ⟨i, f, a', E', ht, hat, hrun⟩ := ih has E₁
      · exact .inl ⟨E', by simp only [ht]; rfl, hrun⟩
      · exact .inr ⟨i + 1, f, a', E', by simp only [ht]; rfl, hat.cons hE hok, hrun⟩

/-- A batch rendered from actions does to the stored rows what the actions mean, or is refused
for a taken key at the action that would repeat one, and then nothing is changed. -/
theorem commit_renderAll {E : Entities} {as : List Action} {b : Batch} {l : Link Ledger}
    (hr : renderAll [] as = .ok b) (hl : Ledger.Serves l ⟨E.database, none⟩) :
    match E.takeActions as with
    | .ok E' => ∃ m, (Batch.commit b).runFrom l = (.ok [], m) ∧
        Ledger.Serves m ⟨E'.database, none⟩
    | .error i => ∃ before calls later a E' plan e m, b = before ++ calls ++ later ∧
        renderAll [] (as.take i) = .ok before ∧ as[i]? = some a ∧ render a = .ok (some calls) ∧
        E.takeActions (as.take i) = .ok E' ∧
        Ledger.Carries (Batch.runCalls before) E.database (.ok ((), E'.database)) ∧
        Ledger.Carries (Batch.runCalls calls) E'.database (.error (.statement plan e)) ∧
        e.kind = .uniqueViolation ∧
        (Batch.commit b).runFrom l = (.error (.statement plan e), m) ∧
        Ledger.Serves m ⟨E.database, none⟩ := by
  obtain ⟨hb, has⟩ := renderAll_eq_ok.mp hr
  rw [List.nil_append] at hb
  obtain ⟨m, hm, hs⟩ := hl.commit b
  obtain ⟨E', ht, hrun⟩ | ⟨i, f, a, E', ht, ⟨ha, htaken, hbefore, hrefused, plan, e, rfl, he⟩, hrun⟩ :=
    hb ▸ runCalls_takeActions has E
  · rw [ht]
    rw [hrun] at hm hs
    exact ⟨m, hm, hs⟩
  · rw [ht]
    rw [hrun] at hm hs
    obtain ⟨hi, rfl⟩ := List.getElem?_eq_some_iff.mp ha
    -- The calls are cut where those of the refused action begin.
    have hsplit : as = as.take i ++ as[i] :: as.drop (i + 1) := by
      rw [← List.drop_eq_getElem_cons hi, List.take_append_drop]
    refine ⟨(as.take i).flatMap callsOf, callsOf as[i], (as.drop (i + 1)).flatMap callsOf, as[i],
      E', plan, e, m, ?_, ?_, ha, ?_, htaken, ?_, ?_, he, hm, hs⟩
    · rw [hb, List.append_assoc, ← List.flatMap_cons, ← List.flatMap_append, ← hsplit]
    · exact renderAll_eq_ok.mpr ⟨rfl, fun a h => has a (List.mem_of_mem_take h)⟩
    · obtain ⟨r, hr⟩ := has as[i] (List.getElem_mem hi)
      cases r with
      | none => simp [callsOf, hr, Database.runCalls] at hrefused
      | some calls => simp [callsOf, hr]
    · exact hbefore ▸ Ledger.runCalls_carries _ _
    · exact hrefused ▸ Ledger.runCalls_carries _ _

def repeatedIssue : List Action := [
  ⟨"issuetoken", "cards", "", [("domain", .text "cards"), ("names", .array [.text "a"]),
    ("owner", .array [.text "EVT1"])]⟩,
  ⟨"addmeta", "cards", "a", [("key", .text "k"), ("value", .text "v"), ("creator", .text "EVT1")]⟩,
  ⟨"issuetoken", "cards", "", [("domain", .text "cards"), ("names", .array [.text "b", .text "a"]),
    ("owner", .array [.text "EVT2"])]⟩]

def noEntities : Entities :=
  ⟨.empty, .empty, .empty, .empty, [], 1, ⟨2024, 1, 1, 0, 0, 0, 0, some 0, by decide⟩, nofun⟩

def noEntitiesLink : Link Ledger :=
  ⟨.ofStatements Statement.standard, ⟨noEntities.database, none⟩, []⟩

theorem commit_renderAll_repeatedIssue :
    ∃ b, renderAll [] repeatedIssue = .ok b ∧
      Ledger.Serves noEntitiesLink ⟨noEntities.database, none⟩ ∧
      noEntities.takeActions repeatedIssue = .error 2 ∧
      ∃ plan e m, (Batch.commit b).runFrom noEntitiesLink = (.error (.statement plan e), m) ∧
        e.kind = .uniqueViolation ∧ Ledger.Serves m ⟨noEntities.database, none⟩ := by
  have hserves : Ledger.Serves noEntitiesLink ⟨noEntities.database, none⟩ := ⟨rfl, by decide, rfl⟩
  have hrefused : noEntities.takeActions repeatedIssue = .error 2 := rfl
  obtain ⟨b, hb⟩ : ∃ b, renderAll [] repeatedIssue = .ok b := ⟨_, rfl⟩
  have h := commit_renderAll hb hserves
  rw [hrefused] at h
  obtain ⟨_, _, _, _, _, plan, e, m, _, _, _, _, _, _, _, he, hm, hs⟩ := h
  exact ⟨b, hb, hserves, hrefused, plan, e, m, hm, he, hs⟩

end ChainArchive.Entity
