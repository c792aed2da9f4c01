import ChainArchive.Proofs.Session.Steps

namespace ChainArchive

open ChainArchive.Link

/-- Whether an entry is a request whose error is raised as it came from the server. -/
def Entry.escapes : Entry → Bool
  | .asked (.copy _ _ _) (.error e) => !(e.isDatabase || e.isInterface)
  | .asked _ (.error e) => !e.isDatabase
  | _ => false

def escaped {α : Type} : Except Failure α → Bool
  | .ok _ => false
  | .error f => !f.isDatabase

variable {t : Terms} {r : Except Failure Unit} {es : List Entry}

theorem isDatabase_registrationFailure (plan : String) (e : ServerError) :
    (registrationFailure plan e).isDatabase = e.isDatabase := by
  unfold registrationFailure
  cases h : e.isDatabase <;> rfl

theorem isDatabase_transferFailure (table : String) (e : ServerError) :
    (transferFailure table e).isDatabase = (e.isDatabase || e.isInterface) := by
  unfold transferFailure
  cases h : e.isDatabase || e.isInterface <;> rfl

theorem Batch.isDatabase_statementFailure (plan : String) (e : ServerError) :
    (statementFailure plan e).isDatabase = e.isDatabase := by
  unfold statementFailure
  cases h : e.isDatabase <;> rfl

theorem Link.Registered.escapes_eq {p : Plan} (h : Registered t p es) :
    es.any Entry.escapes = false := by
  cases h <;> rfl

theorem Link.Ran.escapes_eq {plan : String} {args : List Value} {r : Except Failure Value}
    (hc : t.connection ≠ .released) (h : Ran t (Batch.statementFailure plan) plan args r es) :
    es.any Entry.escapes = escaped r := by
  cases h with
  | unknown => rfl
  | cutOff h => exact absurd h hc
  | refused p e => simp [Entry.escapes, escaped, isDatabase_registrationFailure]
  | failed p es e hf hr =>
    simp [hr.escapes_eq, Entry.escapes, escaped, Batch.isDatabase_statementFailure]
  | answered p es v hf hr => simp [hr.escapes_eq, Entry.escapes, escaped]

theorem Link.Ran.escapes_of_ok {raise : ServerError → Failure} {plan : String} {args : List Value}
    {v : Value} (h : Ran t raise plan args (.ok v) es) : es.any Entry.escapes = false := by
  cases h with
  | answered p es v hf hr => simp [hr.escapes_eq, Entry.escapes]

theorem Batch.Called.escapes_eq {c : Call} (hc : t.connection ≠ .released)
    (h : Batch.Called t c r es) : es.any Entry.escapes = escaped r := by
  cases h with
  | first h => exact h.escapes_eq hc
  | plain _ h => exact h.escapes_eq hc
  | absent _ _ h => exact h.escapes_eq hc
  | second _ _ h h' =>
    rw [List.any_append, h.escapes_eq hc, h'.escapes_eq hc]
    rfl
  | chained _ _ h h' =>
    rw [List.any_append, h.escapes_eq hc, h'.escapes_eq hc]
    rfl

theorem Step.Sent.escapes_eq {s : Step} (hc : t.connection ≠ .released) (h : s.Sent t r es) :
    es.any Entry.escapes = escaped r := by
  cases h with
  | copy h =>
    cases h with
    | cutOff h => exact absurd h hc
    | failed e => simp [Entry.escapes, escaped, isDatabase_transferFailure]
    | done v => rfl
  | call h => exact h.escapes_eq hc
  | mark => rfl
  | unmarked h => exact absurd h hc

theorem InTurn.escapes_eq {ss : List Step} (hc : t.connection ≠ .released)
    (h : InTurn t ss r es) : es.any Entry.escapes = escaped r := by
  induction h with
  | nil => rfl
  | stop hs => exact hs.escapes_eq hc
  | cons hs _ ih =>
    rw [List.any_append, hs.escapes_eq hc, ih]
    rfl

/-- On a connection, the log of a sequence of steps shows whether its failure is the write path's
own. -/
theorem Written.escapes_eq {ss : List Step} (hc : t.connection ≠ .released)
    (h : Written t ss r es) : es.any Entry.escapes = escaped r := by
  obtain ⟨sent, h, rfl⟩ := h
  have hclose : (closing r sent).any Entry.escapes = false := by
    cases r with
    | ok _ => rfl
    | error f =>
      simp only [closing]
      split <;> rfl
  rw [List.any_append, h.escapes_eq hc, hclose, Bool.or_false]

end ChainArchive
