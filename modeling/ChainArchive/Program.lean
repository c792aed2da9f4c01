import ChainArchive.Failure

namespace ChainArchive

/-- A program over states `s` with results `α`. The state that was reached is kept when a program
fails. -/
abbrev Program (s α : Type) : Type := ExceptT Failure (StateM s) α

namespace Program

variable {s t α β : Type}

def runFrom (p : Program s α) (a : s) : Except Failure α × s := StateT.run (ExceptT.run p) a

def of (f : s → Except Failure α × s) : Program s α := ExceptT.mk f

def lift (r : Except Failure α) : Program s α := of fun a => (r, a)

def onPart (get : s → t) (set : t → s → s) (p : Program t α) : Program s α :=
  of fun a =>
    let (r, b) := p.runFrom (get a)
    (r, set b a)

/-- A program with a change of state at its end, whatever its outcome. -/
def ensuring (p : Program s α) (last : s → s) : Program s α :=
  of fun a =>
    let (r, b) := p.runFrom a
    (r, last b)

def mapFailure (p : Program s α) (f : Failure → Failure) : Program s α :=
  of fun a =>
    match p.runFrom a with
    | (.ok x, b) => (.ok x, b)
    | (.error e, b) => (.error (f e), b)

def onFailure (p : Program s α) (f : Failure → s → s) : Program s α :=
  of fun a =>
    match p.runFrom a with
    | (.ok x, b) => (.ok x, b)
    | (.error e, b) => (.error e, f e b)

@[simp] theorem runFrom_pure (x : α) (a : s) :
    (pure x : Program s α).runFrom a = (.ok x, a) := rfl

@[simp] theorem runFrom_throw (e : Failure) (a : s) :
    (throw e : Program s α).runFrom a = (.error e, a) := rfl

@[simp] theorem runFrom_get (a : s) : (get : Program s s).runFrom a = (.ok a, a) := rfl

@[simp] theorem runFrom_set (a b : s) : (set b : Program s PUnit).runFrom a = (.ok ⟨⟩, b) := rfl

@[simp] theorem runFrom_modify (f : s → s) (a : s) :
    (modify f : Program s PUnit).runFrom a = (.ok ⟨⟩, f a) := rfl

@[simp] theorem runFrom_of (f : s → Except Failure α × s) (a : s) : (of f).runFrom a = f a := rfl

@[simp] theorem runFrom_lift (r : Except Failure α) (a : s) :
    (lift r : Program s α).runFrom a = (r, a) := rfl

@[simp] theorem runFrom_onPart (get : s → t) (set : t → s → s) (p : Program t α) (a : s) :
    (onPart get set p).runFrom a = ((p.runFrom (get a)).1, set (p.runFrom (get a)).2 a) := rfl

@[simp] theorem runFrom_ensuring (p : Program s α) (last : s → s) (a : s) :
    (p.ensuring last).runFrom a = ((p.runFrom a).1, last (p.runFrom a).2) := rfl

theorem runFrom_mapFailure (p : Program s α) (f : Failure → Failure) (a : s) :
    (p.mapFailure f).runFrom a = match p.runFrom a with
      | (.ok x, b) => (.ok x, b)
      | (.error e, b) => (.error (f e), b) := rfl

theorem runFrom_onFailure (p : Program s α) (f : Failure → s → s) (a : s) :
    (p.onFailure f).runFrom a = match p.runFrom a with
      | (.ok x, b) => (.ok x, b)
      | (.error e, b) => (.error e, f e b) := rfl

theorem runFrom_bind (p : Program s α) (f : α → Program s β) (a : s) :
    (p >>= f).runFrom a = match p.runFrom a with
      | (.ok x, b) => (f x).runFrom b
      | (.error e, b) => (.error e, b) := by
  show (ExceptT.bind p f).run.run a = _
  simp only [ExceptT.bind, ExceptT.run, ExceptT.mk, StateT.run, runFrom, bind, StateT.bind]
  cases p a with
  | mk r b => cases r <;> rfl

theorem runFrom_bind_ok {p : Program s α} {a b : s} {x : α} (h : p.runFrom a = (.ok x, b))
    (f : α → Program s β) : (p >>= f).runFrom a = (f x).runFrom b := by
  rw [runFrom_bind, h]

theorem runFrom_bind_error {p : Program s α} {a b : s} {e : Failure}
    (h : p.runFrom a = (.error e, b)) (f : α → Program s β) :
    (p >>= f).runFrom a = (.error e, b) := by
  rw [runFrom_bind, h]

theorem runFrom_bind_pure (p : Program s α) (g : α → β) (a : s) :
    (p >>= fun x => pure (g x)).runFrom a = ((p.runFrom a).1.map g, (p.runFrom a).2) := by
  rw [runFrom_bind]
  cases h : p.runFrom a with
  | mk r b => cases r <;> rfl

end Program

end ChainArchive
