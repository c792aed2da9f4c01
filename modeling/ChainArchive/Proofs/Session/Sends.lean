import ChainArchive.Session

namespace ChainArchive.Link

variable {σ : Type} [Server σ] {α β : Type}

/-- The parts of a session that its own programs never change. -/
structure Terms where
  statements : List Plan
  connection : Connection

def terms (l : Link σ) : Terms := ⟨l.session.statements, l.session.connection⟩

/-- One link follows from another by requests, marks and registrations with these entries. -/
inductive Sends : Link σ → List Entry → Link σ → Prop
  | refl (l : Link σ) : Sends l [] l
  | ask {l m : Link σ} {es : List Entry} (r : Request) :
      Sends l es m → m.session.connection ≠ .released →
      Sends l (es ++ [.asked r (m.line.ask r).1]) { m with line := (m.line.ask r).2 }
  | mark {l m : Link σ} {es : List Entry} (k : Mark) :
      Sends l es m → m.session.connection ≠ .released →
      Sends l (es ++ [.marked k]) (m.mark k)
  | register {l m : Link σ} {es : List Entry} (name : String) : Sends l es m →
      Sends l es { m with session.registered := m.session.registered ++ [name] }

namespace Sends

variable {l m n : Link σ} {es fs : List Entry}

theorem log_eq (h : Sends l es m) : m.line.log = l.line.log ++ es := by
  induction h with
  | refl => simp
  | ask r h hc ih | mark k h hc ih => simp [Line.ask, Link.mark, Line.mark, ih]
  | register name h ih => exact ih

theorem entries_unique (h : Sends l es m) (h' : Sends l fs m) : es = fs :=
  List.append_cancel_left (h.log_eq.symm.trans h'.log_eq)

theorem terms_eq (h : Sends l es m) : m.terms = l.terms := by
  induction h with
  | refl => rfl
  | ask r h hc ih | mark k h hc ih | register name h ih => exact ih

theorem trans (h : Sends l es m) (h' : Sends m fs n) : Sends l (es ++ fs) n := by
  induction h' with
  | refl => simpa using h
  | ask r _ hc ih =>
    rw [← List.append_assoc]
    exact ask r ih hc
  | mark k _ hc ih =>
    rw [← List.append_assoc]
    exact mark k ih hc
  | register name _ ih => exact register name ih

theorem eq_nil (h : Sends l es m) (hl : l.session.connection = .released) : es = [] := by
  induction h with
  | refl => rfl
  | ask r h hc ih | mark k h hc ih =>
    have hm := congrArg Terms.connection h.terms_eq
    exact absurd (hm.trans hl) hc
  | register name h ih => exact ih

end Sends

/-- On every link with terms `t`, the program sends entries that stand with its result as `Q`
says. -/
def Records (t : Terms) (p : Program (Link σ) α) (Q : Except Failure α → List Entry → Prop) :
    Prop :=
  ∀ l : Link σ, l.terms = t → ∃ es, Sends l es (p.runFrom l).2 ∧ Q (p.runFrom l).1 es

namespace Records

variable {t : Terms} {p : Program (Link σ) α} {f : α → Program (Link σ) β}
  {Q : Except Failure α → List Entry → Prop} {R : Except Failure β → List Entry → Prop}

theorem mono {Q' : Except Failure α → List Entry → Prop} (h : Records t p Q)
    (hQ : ∀ r es, Q r es → Q' r es) : Records t p Q' := by
  intro l hl
  obtain ⟨es, hs, hq⟩ := h l hl
  exact ⟨es, hs, hQ _ _ hq⟩

theorem pure {x : α} (h : Q (.ok x) []) : Records t (Pure.pure x : Program (Link σ) α) Q :=
  fun l _ => ⟨[], .refl l, h⟩

theorem throw {e : Failure} (h : Q (.error e) []) :
    Records t (MonadExcept.throw e : Program (Link σ) α) Q :=
  fun l _ => ⟨[], .refl l, h⟩

theorem bind {S : α → Except Failure β → List Entry → Prop} (hp : Records t p Q)
    (hf : ∀ x, Records t (f x) (S x)) (he : ∀ e es, Q (.error e) es → R (.error e) es)
    (hx : ∀ x es r fs, Q (.ok x) es → S x r fs → R r (es ++ fs)) : Records t (p >>= f) R := by
  intro l hl
  obtain ⟨es, hs, hq⟩ := hp l hl
  rw [Program.runFrom_bind]
  cases h : p.runFrom l with
  | mk r m =>
    rw [h] at hs hq
    cases r with
    | error e => exact ⟨es, hs, he e es hq⟩
    | ok x =>
      obtain ⟨fs, hs', hq'⟩ := hf x m (hs.terms_eq.trans hl)
      exact ⟨es ++ fs, hs.trans hs', hx x es _ fs hq hq'⟩

theorem mapFailure {g : Failure → Failure} {Q' : Except Failure α → List Entry → Prop}
    (h : Records t p Q)
    (hok : ∀ x es, Q (.ok x) es → Q' (.ok x) es)
    (herr : ∀ e es, Q (.error e) es → Q' (.error (g e)) es) : Records t (p.mapFailure g) Q' := by
  intro l hl
  obtain ⟨es, hs, hq⟩ := h l hl
  rw [Program.runFrom_mapFailure]
  cases hr : p.runFrom l with
  | mk r m =>
    rw [hr] at hs hq
    cases r with
    | error e => exact ⟨es, hs, herr e es hq⟩
    | ok x => exact ⟨es, hs, hok x es hq⟩

end Records

theorem ask_records (t : Terms) (r : Request) :
    Records (σ := σ) t (ask r) fun res es =>
      (t.connection = .released ∧ res = .error .noConnection ∧ es = []) ∨
      (t.connection ≠ .released ∧ ∃ reply, res = .ok reply ∧ es = [.asked r reply]) := by
  intro l hl
  have ht : t.connection = l.session.connection := hl ▸ rfl
  by_cases hc : l.session.connection = .released
  · refine ⟨[], ?_, .inl ⟨ht.trans hc, ?_, rfl⟩⟩
    · have h : ((ask r).runFrom l).2 = l := by simp [ask, hc]
      rw [h]
      exact .refl l
    · simp [ask, hc]
  · have h : (ask r).runFrom l =
        (.ok (l.line.ask r).1, { l with line := (l.line.ask r).2 }) := by
      simp only [ask, Program.runFrom_of]
    rw [h]
    exact ⟨[.asked r (l.line.ask r).1], .ask r (.refl l) hc,
      .inr ⟨fun h => hc (ht ▸ h), _, rfl, rfl⟩⟩

end ChainArchive.Link
