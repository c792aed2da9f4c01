import ChainArchive.Proofs.Entity.Database
import ChainArchive.Proofs.Session.Steps

namespace ChainArchive.Sql

open ChainArchive.Link

namespace Database

def answer (d : Database) (p : Plan) (args : List Value) : Except ServerError (Value × Database) :=
  match read? p.sql, args.mapM Cell.ofValue? with
  | some c, some cells => d.exec cells c
  | _, _ => .error ⟨.syntaxOrAccess, "not a statement on entities"⟩

def invoke (d : Database) (plan : String) (args : List Value) :
    Except Failure (Value × Database) :=
  match Statement.find? Statement.standard plan with
  | none => .error (.register plan none)
  | some p => (d.answer p args).mapError (Batch.statementFailure plan)

def runCall (d : Database) (c : Call) : Except Failure (Unit × Database) := do
  let (result, d) ← d.invoke c.plan c.args
  match c.next with
  | none => return ((), d)
  | some next =>
    if result.isNull then throw (.noResult c.plan)
    let (_, d) ← d.invoke next.plan (result :: next.args)
    return ((), d)

def runCalls : List Call → Database → Except Failure (Unit × Database)
  | [], d => .ok ((), d)
  | c :: cs, d => do
    let (_, d) ← d.runCall c
    runCalls cs d

theorem runCalls_append (cs cs' : List Call) (d : Database) :
    d.runCalls (cs ++ cs') = (d.runCalls cs).bind fun x => x.2.runCalls cs' := by
  induction cs generalizing d with
  | nil => rfl
  | cons c cs ih =>
    rw [List.cons_append, runCalls, runCalls]
    cases d.runCall c with
    | error f => rfl
    | ok x => exact ih x.2

theorem invoke_ofEntities {plan : String} {c : Edit} {args : List Value} {cells : List Cell}
    (h : (plan, c) ∈ Edit.ofEntities) (ha : args.mapM Cell.ofValue? = some cells) (d : Database) :
    d.invoke plan args = (d.exec cells c).mapError (Batch.statementFailure plan) := by
  obtain ⟨p, hfind, hread⟩ := read?_ofEntities (plan, c) h
  have hanswer : d.answer p args = d.exec cells c := by rw [answer, hread, ha]
  rw [invoke, hfind, ← hanswer]

end Database

/-- The durable database, and the one that an open transaction would commit. -/
structure Ledger where
  durable : Database
  bracket : Option Database

namespace Ledger

def view (s : Ledger) : Database := s.bracket.getD s.durable

def hold (s : Ledger) (d : Database) : Ledger :=
  match s.bracket with
  | some _ => { s with bracket := some d }
  | none => { s with durable := d }

instance : Server Ledger where
  answer s
    | .run p args =>
      match s.view.answer p args with
      | .ok (v, d) => (.ok v, s.hold d)
      | .error e => (.error e, s)
    | _ => (.ok .null, s)
  notice s
    | .start => { s with bracket := some s.durable }
    | .commit => ⟨s.view, none⟩
    | _ => { s with bracket := none }

structure Serves (l : Link Ledger) (s : Ledger) : Prop where
  statements : l.session.statements = Statement.standard
  connected : l.session.connection ≠ .released
  server : l.line.server = s

variable {l : Link Ledger} {s : Ledger} {α β : Type}

theorem Serves.mark (h : Serves l s) (m : Mark) : Serves (l.mark m) (Server.notice s m) :=
  ⟨h.statements, h.connected, congrArg (Server.notice · m) h.server⟩

theorem Serves.ask (h : Serves l s) (r : Request) : ∃ m,
    (Link.ask r).runFrom l = (.ok (Server.answer s r).1, m) ∧ Serves m (Server.answer s r).2 ∧
      m.session = l.session := by
  obtain ⟨hst, hc, rfl⟩ := h
  refine ⟨{ l with line := (l.line.ask r).2 }, ?_, ⟨hst, hc, rfl⟩, rfl⟩
  cases hl : l.session.connection with
  | released => exact absurd hl hc
  | live | severed => simp [Link.ask, hl, Line.ask]

theorem Serves.plan (h : Serves l s) {name : String} {p : Plan}
    (hp : Statement.find? Statement.standard name = some p) : ∃ m,
    (Link.plan name).runFrom l = (.ok p, m) ∧ Serves m s := by
  simp only [Link.plan, Program.runFrom_bind, Program.runFrom_get, h.statements, hp]
  by_cases hr : l.session.isRegistered name
  · exact ⟨l, by simp [hr], h⟩
  · obtain ⟨m, hm, hs, -⟩ := h.ask (.prepare p)
    simp only [hr, Bool.false_eq_true, ↓reduceIte, Program.runFrom_bind, hm]
    exact ⟨_, rfl, hs.statements, hs.connected, hs.server⟩

def Carries (p : Program (Link Ledger) α) (d : Database) (r : Except Failure (α × Database)) :
    Prop :=
  ∀ durable l, Serves l ⟨durable, some d⟩ → ∃ m e, p.runFrom l = (r.map (·.1), m) ∧
    Serves m ⟨durable, some e⟩ ∧ ∀ x, r = .ok x → e = x.2

theorem Carries.pure (x : α) (d : Database) : Carries (pure x) d (.ok (x, d)) := by
  rintro durable l h
  refine ⟨l, d, rfl, h, ?_⟩
  rintro _ ⟨⟩
  rfl

theorem Carries.throw (f : Failure) (d : Database) :
    Carries (α := α) (throw f) d (.error f) :=
  fun _ l h => ⟨l, d, rfl, h, nofun⟩

theorem Carries.bind {p : Program (Link Ledger) α} {f : α → Program (Link Ledger) β} {d : Database}
    {r : Except Failure (α × Database)} {g : α × Database → Except Failure (β × Database)}
    (hp : Carries p d r) (hf : ∀ x, r = .ok x → Carries (f x.1) x.2 (g x)) :
    Carries (p >>= f) d (r.bind g) := by
  intro durable l h
  obtain ⟨m, e, hm, hs, he⟩ := hp durable l h
  cases r with
  | error e' => exact ⟨m, e, Program.runFrom_bind_error hm f, hs, nofun⟩
  | ok x =>
    obtain rfl := he x rfl
    obtain ⟨n, e, hn, hs, he⟩ := hf x rfl durable m hs
    exact ⟨n, e, (Program.runFrom_bind_ok hm f).trans hn, hs, he⟩

theorem run_carries {plan : String} {p : Plan}
    (hp : Statement.find? Statement.standard plan = some p) (args : List Value) (d : Database) :
    Carries (Link.run plan args) d ((d.answer p args).mapError .server) := by
  intro durable l h
  obtain ⟨m, hm, hs⟩ := h.plan hp
  obtain ⟨n, hn, hs', -⟩ := hs.ask (.run p args)
  have hanswer : Server.answer (Ledger.mk durable (some d)) (.run p args) =
      match d.answer p args with
      | .ok (v, e) => (.ok v, ⟨durable, some e⟩)
      | .error e => (.error e, ⟨durable, some d⟩) := rfl
  rw [Link.run, Program.runFrom_bind_ok hm, Link.passing, Program.runFrom_bind_ok hn]
  rw [hanswer] at hs' ⊢
  cases ha : d.answer p args with
  | error e =>
    rw [ha] at hs'
    exact ⟨n, d, rfl, hs', nofun⟩
  | ok x =>
    rw [ha] at hs'
    refine ⟨n, x.2, rfl, hs', ?_⟩
    rintro _ ⟨⟩
    rfl

theorem invoke_carries (plan : String) (args : List Value) (d : Database) :
    Carries (Batch.invoke plan args) d (d.invoke plan args) := by
  intro durable l h
  rw [Batch.invoke, Program.runFrom_mapFailure]
  cases hp : Statement.find? Statement.standard plan with
  | none =>
    have hl : (Link.plan plan).runFrom l = (.error (.register plan none), l) := by
      simp [Link.plan, Program.runFrom_bind, h.statements, hp]
    have hinvoke : d.invoke plan args = .error (.register plan none) := by
      rw [Database.invoke, hp]
    rw [Link.run, Program.runFrom_bind_error hl, hinvoke]
    exact ⟨l, d, rfl, h, by simp⟩
  | some p =>
    have hinvoke : d.invoke plan args =
        (d.answer p args).mapError (Batch.statementFailure plan) := by
      rw [Database.invoke, hp]
    obtain ⟨m, e, hm, hs, he⟩ := run_carries hp args d durable l h
    rw [hm, hinvoke]
    cases ha : d.answer p args with
    | error f => exact ⟨m, e, rfl, hs, fun _ h => by cases h⟩
    | ok x =>
      rw [ha] at he
      exact ⟨m, e, rfl, hs, he⟩

theorem runCall_carries (c : Call) (d : Database) : Carries (Batch.runCall c) d (d.runCall c) := by
  refine (invoke_carries c.plan c.args d).bind ?_
  rintro ⟨v, e⟩ -
  cases hn : c.next with
  | none => exact .pure () e
  | some next =>
    cases hv : v.isNull with
    | true =>
      simp only [hv, ↓reduceIte]
      exact (Carries.throw _ e).bind (g := fun x => .ok x) (by simp)
    | false =>
      simp only [hv, Bool.false_eq_true, ↓reduceIte]
      exact (invoke_carries next.plan (v :: next.args) e).bind
        (g := fun x => .ok ((), x.2)) fun x _ => .pure () x.2

theorem runCalls_carries (cs : List Call) (d : Database) :
    Carries (Batch.runCalls cs) d (d.runCalls cs) := by
  induction cs generalizing d with
  | nil => exact .pure () d
  | cons c cs ih => exact (runCall_carries c d).bind fun x _ => ih x.2

/-- A batch is committed as a whole: it leaves what its calls make of the database, and nothing
is changed if one of them fails. -/
theorem Serves.commit {d : Database} (h : Serves l ⟨d, none⟩) (b : Batch) : ∃ m,
    (Batch.commit b).runFrom l = ((d.runCalls b).map fun _ => [], m) ∧
      Serves m ⟨((d.runCalls b).map (·.2)).toOption.getD d, none⟩ := by
  by_cases hb : b.isEmpty = true
  · obtain rfl : b = [] := by simpa using hb
    exact ⟨l, rfl, h⟩
  · have hin : Serves (l.mark .start) ⟨d, some d⟩ := h.mark .start
    obtain ⟨m, e, hm, hs, he⟩ := runCalls_carries b d d _ hin
    have htx : (Link.inTransaction (Batch.runCalls b)).runFrom l =
        match (d.runCalls b).map (·.1) with
        | .ok x => (.ok x, m.mark .commit)
        | .error f => (.error f, m.mark .rollback) := by
      cases hl : l.session.connection with
      | released => exact absurd hl h.connected
      | live | severed =>
        simp only [Link.inTransaction, Program.runFrom_of, hl, hm]
        cases d.runCalls b <;> rfl
    unfold Batch.commit
    simp only [hb, Bool.false_eq_true, ↓reduceIte, Program.runFrom_bind, htx]
    cases hr : d.runCalls b with
    | error f => exact ⟨m.mark .rollback, rfl, hs.mark .rollback⟩
    | ok x =>
      obtain rfl := he x hr
      exact ⟨m.mark .commit, rfl, hs.mark .commit⟩

end Ledger

end ChainArchive.Sql
