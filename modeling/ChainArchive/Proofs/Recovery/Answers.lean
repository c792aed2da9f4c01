import ChainArchive.Batch
import ChainArchive.Proofs.Recovery.Store

namespace ChainArchive.Disk

open ChainArchive.Link ChainArchive.Schema

variable {α β : Type} {t : Terms} {fault : Nat → Option ServerError} {s s₁ s₂ : Store}

/-- From every link with terms `t` to a disk with store `s`, the program ends with `x` and leaves
the store `s'`, unless it fails at a fault. -/
def Yields (t : Terms) (fault : Nat → Option ServerError) (s : Store) (p : Program (Link Disk) α)
    (x : Except Failure α) (s' : Store) : Prop :=
  ∀ l : Link Disk, l.terms = t → l.line.server.fault = fault → l.line.server.store = s →
    (p.runFrom l).2.terms = t ∧ (p.runFrom l).2.line.server.fault = fault ∧
      ((p.runFrom l).1 = x ∧ (p.runFrom l).2.line.server.store = s' ∨
        (∃ n, fault n ≠ none) ∧ (p.runFrom l).1.isOk = false)

namespace Yields

variable {p : Program (Link Disk) α} {f : α → Program (Link Disk) β}

theorem lift (r : Except Failure α) : Yields t fault s (Program.lift r) r s :=
  fun _ ht hf hs => ⟨ht, hf, .inl ⟨rfl, hs⟩⟩

theorem pure (x : α) : Yields t fault s (Pure.pure x) (.ok x) s := lift (.ok x)

theorem throw (e : Failure) :
    Yields t fault s (MonadExcept.throw e : Program (Link Disk) α) (.error e) s :=
  lift (.error e)

theorem bind {x : α} {y : Except Failure β} (hp : Yields t fault s p (.ok x) s₁)
    (hf : Yields t fault s₁ (f x) y s₂) : Yields t fault s (p >>= f) y s₂ := by
  intro l ht hfault hs
  obtain ⟨ht', hfault', h⟩ := hp l ht hfault hs
  rw [Program.runFrom_bind]
  cases hr : p.runFrom l with
  | mk r m =>
    rw [hr] at ht' hfault' h
    obtain ⟨rfl, hs'⟩ | ⟨hn, he⟩ := h
    · exact hf m ht' hfault' hs'
    · cases r with
      | ok x => cases he
      | error e => exact ⟨ht', hfault', .inr ⟨hn, rfl⟩⟩

theorem bind_error {e : Failure} (hp : Yields t fault s p (.error e) s₁) :
    Yields t fault s (p >>= f) (.error e) s₁ := by
  intro l ht hfault hs
  obtain ⟨ht', hfault', h⟩ := hp l ht hfault hs
  rw [Program.runFrom_bind]
  cases hr : p.runFrom l with
  | mk r m =>
    rw [hr] at ht' hfault' h
    cases r with
    | ok x => obtain ⟨h, -⟩ | ⟨-, h⟩ := h <;> cases h
    | error e' =>
      refine ⟨ht', hfault', ?_⟩
      obtain ⟨h, hs'⟩ | ⟨hn, -⟩ := h
      · cases h
        exact .inl ⟨rfl, hs'⟩
      · exact .inr ⟨hn, rfl⟩

theorem mapFailure {x : α} (hp : Yields t fault s p (.ok x) s₁) (g : Failure → Failure) :
    Yields t fault s (p.mapFailure g) (.ok x) s₁ := by
  intro l ht hfault hs
  obtain ⟨ht', hfault', h⟩ := hp l ht hfault hs
  rw [Program.runFrom_mapFailure]
  cases hr : p.runFrom l with
  | mk r m =>
    rw [hr] at ht' hfault' h
    cases r with
    | ok x => exact ⟨ht', hfault', h⟩
    | error e =>
      refine ⟨ht', hfault', .inr ?_⟩
      obtain ⟨h, -⟩ | ⟨hn, -⟩ := h
      · cases h
      · exact ⟨hn, rfl⟩

end Yields

/-- A request is answered from the store, or fails at a fault. -/
theorem ask_runFrom {l : Link Disk} {r : Request} {reply : Reply} (ht : l.terms = t)
    (hc : t.connection ≠ .released) (hf : l.line.server.fault = fault)
    (hs : l.line.server.store = s) (hr : ∀ o, s.view.reply o r = reply) :
    ∃ reply' m, (ask r).runFrom l = (.ok reply', m) ∧ m.terms = t ∧ m.session = l.session ∧
      m.line.server.fault = fault ∧ m.line.server.store = s.take (.asked r reply') ∧
      (reply' = reply ∨ (∃ n, fault n ≠ none) ∧ ∃ e, reply' = .error e) := by
  have hl : l.session.connection ≠ .released := by
    intro h
    exact hc (ht ▸ h)
  refine ⟨l.line.server.reply r, { l with line := (l.line.ask r).2 }, ?_, ht, rfl, hf, ?_, ?_⟩
  · simp only [ask, Program.runFrom_of]
    rfl
  · rw [← hs]
    rfl
  · unfold Disk.reply
    cases hn : l.line.server.fault l.line.server.asked with
    | none =>
      left
      rw [hs]
      exact hr _
    | some e => exact .inr ⟨⟨l.line.server.asked, by rw [← hf, hn]; simp⟩, e, rfl⟩

theorem passing_yields {r : Request} {v : Value} (hc : t.connection ≠ .released)
    (hr : ∀ o, s.view.reply o r = .ok v) :
    Yields t fault s (passing r) (.ok v) (s.take (.asked r (.ok v))) := by
  intro l ht hf hs
  obtain ⟨reply, m, hm, ht', -, hf', hs', h⟩ := ask_runFrom ht hc hf hs hr
  simp only [passing, Program.runFrom_bind, hm]
  obtain rfl | ⟨hn, e, rfl⟩ := h
  · exact ⟨ht', hf', .inl ⟨rfl, hs'⟩⟩
  · exact ⟨ht', hf', .inr ⟨hn, rfl⟩⟩

theorem plan_yields {name : String} {p : Plan} (hc : t.connection ≠ .released)
    (hp : Statement.find? t.statements name = some p) :
    Yields t fault s (plan name) (.ok p) s := by
  intro l ht hf hs
  have hst : Statement.find? l.session.statements name = some p := by
    rw [← hp, ← ht]
    rfl
  simp only [plan, Program.runFrom_bind, Program.runFrom_get, hst]
  by_cases hreg : l.session.isRegistered name
  · simp only [hreg, ↓reduceIte]
    exact ⟨ht, hf, .inl ⟨rfl, hs⟩⟩
  · have hreply : ∀ o, s.view.reply o (.prepare p) = .ok .null := fun _ => rfl
    obtain ⟨reply, m, hm, ht', -, hf', hs', h⟩ := ask_runFrom ht hc hf hs hreply
    simp only [hreg, Bool.false_eq_true, ↓reduceIte, Program.runFrom_bind, hm]
    obtain rfl | ⟨hn, e, rfl⟩ := h
    · refine ⟨ht', hf', .inl ⟨rfl, hs'.trans ?_⟩⟩
      obtain ⟨h, bracket⟩ := s
      cases bracket <;> rfl
    · exact ⟨ht', hf', .inr ⟨hn, rfl⟩⟩

theorem run_yields {name : String} {args : List Value} {p : Plan} {v : Value}
    (hc : t.connection ≠ .released) (hp : Statement.find? t.statements name = some p)
    (hr : ∀ o, s.view.reply o (.run p args) = .ok v) :
    Yields t fault s (run name args) (.ok v) (s.take (.asked (.run p args) (.ok v))) :=
  (plan_yields hc hp).bind (passing_yields hc hr)

theorem planEach_yields {names : List String} (hc : t.connection ≠ .released)
    (hn : ∀ name ∈ names, (Statement.find? t.statements name).isSome) :
    Yields t fault s (planEach names) (.ok ()) s := by
  induction names with
  | nil => exact .pure ()
  | cons name names ih =>
    obtain ⟨p, hp⟩ := Option.isSome_iff_exists.mp (hn name List.mem_cons_self)
    exact (plan_yields hc hp).bind (ih fun n h => hn n (List.mem_cons_of_mem _ h))

theorem planAll_yields (hc : t.connection ≠ .released) :
    Yields t fault s planAll (.ok ()) s := by
  intro l ht hf hs
  have hst : l.session.statements = t.statements := by rw [← ht]; rfl
  simp only [planAll, Program.runFrom_bind, Program.runFrom_get]
  refine planEach_yields hc (fun name hn => ?_) l ht hf hs
  rw [hst] at hn
  obtain ⟨p, hp, rfl⟩ := List.mem_map.mp hn
  exact List.find?_isSome.mpr ⟨p, hp, by simp⟩

theorem inTransaction_yields {p : Program (Link Disk) α} {x : α} {h h' : Holdings}
    (hc : t.connection ≠ .released)
    (hp : Yields t fault ⟨h, some h⟩ p (.ok x) ⟨h, some h'⟩) :
    Yields t fault ⟨h, none⟩ (inTransaction p) (.ok x) ⟨h', none⟩ := by
  intro l ht hf hs
  have hl : l.session.connection ≠ .released := by
    intro h
    exact hc (ht ▸ h)
  -- The body sees the durable holdings, as those of the open transaction.
  obtain ⟨ht', hf', hp⟩ := hp (l.mark .start) ht hf (by
    change l.line.server.store.take (.marked .start) = _
    rw [hs]
    rfl)
  simp only [inTransaction, Program.runFrom_of]
  cases hr : p.runFrom (l.mark .start) with
  | mk r m =>
    rw [hr] at ht' hf' hp
    obtain ⟨rfl, hs'⟩ | ⟨hn, he⟩ := hp
    · refine ⟨ht', hf', .inl ⟨rfl, ?_⟩⟩
      change m.line.server.store.take (.marked .commit) = _
      rw [hs']
      rfl
    · cases r with
      | ok x => cases he
      | error e => exact ⟨ht', hf', .inr ⟨hn, rfl⟩⟩

theorem ddl_yields (d : Ddl) (hc : t.connection ≠ .released) :
    Yields t fault s d.apply (.ok ()) (s.take (.asked (.execute d.sql []) (.ok (.text "OK")))) := by
  intro l ht hf hs
  have hreply : ∀ o, s.view.reply o (.execute d.sql []) = .ok (.text "OK") := fun _ => rfl
  obtain ⟨reply, m, hm, ht', -, hf', hs', h⟩ := ask_runFrom ht hc hf hs hreply
  simp only [Ddl.apply, Program.runFrom_bind, hm]
  obtain rfl | ⟨hn, e, rfl⟩ := h
  · exact ⟨ht', hf', .inl ⟨rfl, hs'⟩⟩
  · exact ⟨ht', hf', .inr ⟨hn, rfl⟩⟩

def applyDdl (h : Holdings) (ds : List Ddl) : Holdings :=
  ds.foldl (fun h d => h.apply (.execute d.sql [])) h

theorem create_yields (layout : Layout) (h : Holdings) (hc : t.connection ≠ .released) :
    Yields t fault ⟨h, none⟩ layout.create (.ok ()) ⟨applyDdl h layout.creation, none⟩ := by
  unfold Layout.create applyDdl
  induction layout.creation generalizing h with
  | nil => exact .pure ()
  | cons d ds ih => exact (ddl_yields d hc).bind (ih _)

end ChainArchive.Disk
