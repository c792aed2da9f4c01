import ChainArchive.Program

namespace ChainArchive

namespace Program

variable {s α β : Type} {P P' : s → Prop}

/-- From every state where `P` holds, the program ends with a result and a state as `Q` says. -/
def Ends (P : s → Prop) (p : Program s α) (Q : Except Failure α → s → Prop) : Prop :=
  ∀ a, P a → Q (p.runFrom a).1 (p.runFrom a).2

/-- What holds before the program holds after it, even if it fails. -/
def Maintains (P : s → Prop) (p : Program s α) : Prop := Ends P p fun _ => P

theorem Ends.mono {p : Program s α} {Q Q' : Except Failure α → s → Prop} (h : Ends P p Q)
    (hP : ∀ a, P' a → P a) (hQ : ∀ r a, Q r a → Q' r a) : Ends P' p Q' :=
  fun a ha => hQ _ _ (h a (hP a ha))

theorem Ends.bind {p : Program s α} {f : α → Program s β} {Q : Except Failure α → s → Prop}
    {R : Except Failure β → s → Prop} (hp : Ends P p Q)
    (hf : ∀ x, Ends (Q (.ok x)) (f x) R) (he : ∀ e a, Q (.error e) a → R (.error e) a) :
    Ends P (p >>= f) R := by
  intro a ha
  have hQ := hp a ha
  rw [runFrom_bind]
  cases h : p.runFrom a with
  | mk r b =>
    rw [h] at hQ
    cases r with
    | ok x => exact hf x b hQ
    | error e => exact he e b hQ

theorem Ends.mapFailure {p : Program s α} {Q : Except Failure α → s → Prop} (hp : Ends P p Q)
    (g : Failure → Failure) (he : ∀ e a, Q (.error e) a → Q (.error (g e)) a) :
    Ends P (p.mapFailure g) Q := by
  intro a ha
  have hQ := hp a ha
  rw [runFrom_mapFailure]
  cases h : p.runFrom a with
  | mk r b =>
    rw [h] at hQ
    cases r with
    | ok x => exact hQ
    | error e => exact he e b hQ

theorem Ends.get_bind {f : s → Program s β} {Q : Except Failure β → s → Prop}
    (hf : ∀ a, Ends P (f a) Q) : Ends P (MonadState.get >>= f) Q :=
  fun a h => hf a a h

namespace Maintains

theorem lift (r : Except Failure α) : Maintains P (Program.lift r) := fun _ h => h

theorem pure (x : α) : Maintains P (Pure.pure x) := fun _ h => h

theorem throw (e : Failure) : Maintains P (MonadExcept.throw e : Program s α) := fun _ h => h

theorem bind {p : Program s α} {f : α → Program s β} (hp : Maintains P p)
    (hf : ∀ x, Maintains P (f x)) : Maintains P (p >>= f) :=
  Ends.bind hp hf fun _ _ h => h

theorem get_bind {f : s → Program s β} (hf : ∀ a, Maintains P (f a)) :
    Maintains P (MonadState.get >>= f) :=
  fun a h => hf a a h

end Maintains

end Program

def Ordinary {α : Type} (r : Except Failure α) : Prop :=
  ∀ f, r = .error f → f.toClass ≠ .preparation

namespace Ordinary

variable {α β : Type}

theorem ok (x : α) : Ordinary (.ok x) := fun _ h => by cases h

theorem error {f : Failure} (hf : f.toClass ≠ .preparation) :
    Ordinary (.error f : Except Failure α) := by
  rintro _ ⟨⟩
  exact hf

theorem bind {r : Except Failure α} {f : α → Except Failure β} (hr : Ordinary r)
    (hf : ∀ x, Ordinary (f x)) : Ordinary (r >>= f) := by
  cases r with
  | ok x => exact hf x
  | error e => exact error (hr e rfl)

theorem map {r : Except Failure α} (hr : Ordinary r) (f : α → β) : Ordinary (r.map f) := by
  cases r with
  | ok x => exact ok (f x)
  | error e => exact error (hr e rfl)

end Ordinary

end ChainArchive
