import ChainArchive.Proofs.Session.Quiet
import Mathlib.Data.List.Forall2

namespace ChainArchive

open ChainArchive.Link

def Entry.isRegistration : Entry → Bool
  | .asked (.prepare _) _ => true
  | _ => false

def beyondRegistrations (es : List Entry) : List Entry := es.filter (!·.isRegistration)

/-- A statement that could not be registered, with the failure. -/
inductive Unregistered (ps : List Plan) (plan : String) : Failure → Prop
  | unknown : Statement.find? ps plan = none → Unregistered ps plan (.register plan none)
  | refused {p : Plan} (e : ServerError) : Statement.find? ps plan = some p →
      Unregistered ps plan (registrationFailure plan e)

inductive Call.Done (ps : List Plan) (c : Call) : List Entry → Prop
  | alone {p : Plan} {v : Value} : c.next = none → Statement.find? ps c.plan = some p →
      Done ps c [.asked (.run p c.args) (.ok v)]
  | followed {next : Invocation} {p q : Plan} {v w : Value} : c.next = some next →
      Statement.find? ps c.plan = some p → v.isNull = false →
      Statement.find? ps next.plan = some q →
      Done ps c [.asked (.run p c.args) (.ok v), .asked (.run q (v :: next.args)) (.ok w)]

inductive Call.Stops (ps : List Plan) (c : Call) : Failure → List Entry → Prop
  | unregistered {f : Failure} : Unregistered ps c.plan f → Stops ps c f []
  | failed {p : Plan} {e : ServerError} : Statement.find? ps c.plan = some p →
      Stops ps c (Batch.statementFailure c.plan e) [.asked (.run p c.args) (.error e)]
  | absent {next : Invocation} {p : Plan} {v : Value} : c.next = some next →
      Statement.find? ps c.plan = some p → v.isNull = true →
      Stops ps c (.noResult c.plan) [.asked (.run p c.args) (.ok v)]
  | unregisteredNext {next : Invocation} {p : Plan} {v : Value} {f : Failure} :
      c.next = some next → Statement.find? ps c.plan = some p → v.isNull = false →
      Unregistered ps next.plan f → Stops ps c f [.asked (.run p c.args) (.ok v)]
  | failedNext {next : Invocation} {p q : Plan} {v : Value} {e : ServerError} :
      c.next = some next → Statement.find? ps c.plan = some p → v.isNull = false →
      Statement.find? ps next.plan = some q →
      Stops ps c (Batch.statementFailure next.plan e)
        [.asked (.run p c.args) (.ok v), .asked (.run q (v :: next.args)) (.error e)]

/-- The entries of a transaction of calls: all of them are done and it is committed, or one fails
after those before it, and it is rolled back. -/
inductive Transacted (ps : List Plan) (cs : List Call) : Except Failure Unit → List Entry → Prop
  | committed {runs : List (List Entry)} : List.Forall₂ (Call.Done ps) cs runs →
      Transacted ps cs (.ok ()) (.marked .start :: runs.flatten ++ [.marked .commit])
  | rolledBack {before after : List Call} {c : Call} {f : Failure} {runs : List (List Entry)}
      {last : List Entry} : cs = before ++ c :: after → List.Forall₂ (Call.Done ps) before runs →
      c.Stops ps f last →
      Transacted ps cs (.error f)
        (.marked .start :: (runs.flatten ++ last) ++ [.marked .rollback])

def Request.raised : Request → ServerError → Failure
  | .run p _, e => Batch.statementFailure p.name e
  | .prepare p, e => registrationFailure p.name e
  | _, e => .server e

@[simp] theorem beyondRegistrations_append (es fs : List Entry) :
    beyondRegistrations (es ++ fs) = beyondRegistrations es ++ beyondRegistrations fs :=
  List.filter_append ..

namespace Link

variable {t : Terms} {raise : ServerError → Failure} {plan : String} {args : List Value}
  {es : List Entry}

theorem Registered.beyond {p : Plan} (h : Registered t p es) : beyondRegistrations es = [] := by
  cases h <;> rfl

theorem Registered.answered {p : Plan} (h : Registered t p es) (r : Request) (e : ServerError) :
    Entry.asked r (.error e) ∉ es := by
  cases h <;> simp

theorem Ran.answer {v : Value} (h : Ran t raise plan args (.ok v) es) :
    ∃ p, Statement.find? t.statements plan = some p ∧
      beyondRegistrations es = [.asked (.run p args) (.ok v)] := by
  cases h with
  | answered p es v hf hr =>
    refine ⟨p, hf, ?_⟩
    rw [beyondRegistrations_append, hr.beyond]
    rfl

theorem Ran.failure {f : Failure} (hc : t.connection ≠ .released)
    (h : Ran t raise plan args (.error f) es) :
    (Unregistered t.statements plan f ∧ beyondRegistrations es = []) ∨
    ∃ p e, Statement.find? t.statements plan = some p ∧ f = raise e ∧
      beyondRegistrations es = [.asked (.run p args) (.error e)] := by
  cases h with
  | unknown hf => exact .inl ⟨.unknown hf, rfl⟩
  | cutOff h => exact absurd h hc
  | refused p e hf => exact .inl ⟨.refused e hf, rfl⟩
  | failed p es e hf hr =>
    refine .inr ⟨p, e, hf, rfl, ?_⟩
    rw [beyondRegistrations_append, hr.beyond]
    rfl

theorem Ran.raised {r : Except Failure Value} {req : Request} {e : ServerError}
    (h : Ran t (Batch.statementFailure plan) plan args r es)
    (hm : Entry.asked req (.error e) ∈ es) : r = .error (req.raised e) := by
  cases h with
  | unknown | cutOff => simp at hm
  | refused p e' hf =>
    obtain ⟨rfl, rfl⟩ : req = .prepare p ∧ e = e' := by simpa using hm
    rw [Request.raised, Statement.name_of_find? hf]
  | failed p es e' hf hr =>
    obtain ⟨rfl, rfl⟩ : req = .run p args ∧ e = e' := by simpa [hr.answered] using hm
    rw [Request.raised, Statement.name_of_find? hf]
  | answered p es v hf hr => simp [hr.answered] at hm

end Link

namespace Batch.Called

variable {t : Terms} {c : Call} {es : List Entry}

theorem done (h : Batch.Called t c (.ok ()) es) :
    c.Done t.statements (beyondRegistrations es) := by
  cases h with
  | plain hn hr =>
    obtain ⟨p, hf, he⟩ := hr.answer
    rw [he]
    exact .alone hn hf
  | chained hn hv hr hs =>
    obtain ⟨p, hf, he⟩ := hr.answer
    obtain ⟨q, hg, he'⟩ := hs.answer
    rw [beyondRegistrations_append, he, he']
    exact .followed hn hf hv hg

theorem stops {f : Failure} (hc : t.connection ≠ .released)
    (h : Batch.Called t c (.error f) es) : c.Stops t.statements f (beyondRegistrations es) := by
  cases h with
  | first hr =>
    obtain ⟨hu, he⟩ | ⟨p, e, hf, rfl, he⟩ := hr.failure hc
    · rw [he]
      exact .unregistered hu
    · rw [he]
      exact .failed hf
  | absent hn hv hr =>
    obtain ⟨p, hf, he⟩ := hr.answer
    rw [he]
    exact .absent hn hf hv
  | second hn hv hr hs =>
    obtain ⟨p, hf, he⟩ := hr.answer
    rw [beyondRegistrations_append, he]
    obtain ⟨hu, he'⟩ | ⟨q, e, hg, rfl, he'⟩ := hs.failure hc
    · rw [he', List.append_nil]
      exact .unregisteredNext hn hf hv hu
    · rw [he']
      exact .failedNext hn hf hv hg

theorem raised {r : Except Failure Unit} {req : Request} {e : ServerError}
    (h : Batch.Called t c r es) (hm : Entry.asked req (.error e) ∈ es) :
    r = .error (req.raised e) := by
  cases h with
  | first hr =>
    cases hr.raised hm
    rfl
  | plain _ hr | absent _ _ hr => cases hr.raised hm
  | second _ _ hr hs =>
    obtain hm | hm := List.mem_append.mp hm
    · cases hr.raised hm
    · cases hs.raised hm
      rfl
  | chained _ _ hr hs =>
    obtain hm | hm := List.mem_append.mp hm
    · cases hr.raised hm
    · cases hs.raised hm

end Batch.Called

namespace InTurn

variable {t : Terms} {cs : List Call} {es : List Entry}

theorem done (h : InTurn t (cs.map .call) (.ok ()) es) :
    ∃ runs, List.Forall₂ (Call.Done t.statements) cs runs ∧
      beyondRegistrations es = runs.flatten := by
  induction cs generalizing es with
  | nil =>
    cases h
    exact ⟨[], .nil, rfl⟩
  | cons c cs ih =>
    cases h with
    | cons hs h =>
      cases hs with
      | call hcall =>
        obtain ⟨runs, hruns, he⟩ := ih h
        exact ⟨_ :: runs, .cons hcall.done hruns, by simp [he]⟩

theorem stops {f : Failure} (hc : t.connection ≠ .released)
    (h : InTurn t (cs.map .call) (.error f) es) :
    ∃ before c after runs last, cs = before ++ c :: after ∧
      List.Forall₂ (Call.Done t.statements) before runs ∧ c.Stops t.statements f last ∧
      beyondRegistrations es = runs.flatten ++ last := by
  obtain ⟨done, s, rest, sent, last, hss, hdone, hlast, rfl⟩ := h.exists_stop
  obtain ⟨before, cs', rfl, rfl, hcs'⟩ := List.map_eq_append_iff.mp hss
  obtain ⟨c, after, rfl, rfl, -⟩ := List.map_eq_cons_iff.mp hcs'
  obtain ⟨runs, hruns, he⟩ := hdone.done
  cases hlast with
  | call hcall => exact ⟨before, c, after, runs, _, rfl, hruns, hcall.stops hc, by simp [he]⟩

theorem raised {r : Except Failure Unit} {req : Request} {e : ServerError}
    (h : InTurn t (cs.map .call) r es) (hm : Entry.asked req (.error e) ∈ es) :
    r = .error (req.raised e) := by
  induction cs generalizing es with
  | nil =>
    cases h
    simp at hm
  | cons c cs ih =>
    cases h with
    | stop hs =>
      cases hs with
      | call hcall => exact hcall.raised hm
    | cons hs h =>
      cases hs with
      | call hcall =>
        obtain hm | hm := List.mem_append.mp hm
        · cases hcall.raised hm
        · exact ih h hm

end InTurn

def endingMark : Except Failure Unit → Mark
  | .ok _ => .commit
  | .error _ => .rollback

/-- Between the marks of a transaction stand the entries of its calls. -/
theorem Written.calls {t : Terms} {cs : List Call} {r : Except Failure Unit} {es : List Entry}
    (hc : t.connection ≠ .released) (h : Written t (bracketSteps cs) r es) :
    ∃ fs, InTurn t (cs.map .call) r fs ∧ es = .marked .start :: fs ++ [.marked (endingMark r)] := by
  obtain ⟨sent, hi, rfl⟩ := h
  -- The first mark is only missing without a connection; the last one, where a call failed, is
  -- the one that closes the transaction.
  cases hi with
  | stop hs =>
    cases hs with
    | unmarked h => exact absurd h hc
  | cons hs hi =>
    cases hs with
    | mark =>
      obtain ⟨hcalls, f, rfl⟩ | ⟨fs, gs, hcalls, hlast, rfl⟩ := hi.of_append
      · exact ⟨_, hcalls, by simp [closing, Entry.isStart, endingMark]⟩
      · cases hlast with
        | stop hs =>
          cases hs with
          | unmarked h => exact absurd h hc
        | cons hs hnil =>
          cases hnil
          cases hs with
          | mark => exact ⟨fs, hcalls, by simp [closing, endingMark]⟩

theorem InTurn.transacted {t : Terms} {cs : List Call} {r : Except Failure Unit} {es : List Entry}
    (hc : t.connection ≠ .released) (h : InTurn t (cs.map .call) r es) :
    Transacted t.statements cs r
      (beyondRegistrations (.marked .start :: es ++ [.marked (endingMark r)])) := by
  have hmarks : beyondRegistrations (.marked .start :: es ++ [.marked (endingMark r)]) =
      .marked .start :: beyondRegistrations es ++ [.marked (endingMark r)] := by
    rw [beyondRegistrations_append]
    rfl
  rw [hmarks]
  cases r with
  | ok =>
    obtain ⟨runs, hruns, he⟩ := h.done
    rw [he]
    exact .committed hruns
  | error f =>
    obtain ⟨before, c, after, runs, last, hcs, hruns, hlast, he⟩ := h.stops hc
    rw [he]
    exact .rolledBack hcs hruns hlast

variable {σ : Type} [Server σ]

theorem Batch.eq_nil_of_commit {b rest : Batch} {l m : Link σ}
    (h : (Batch.commit b).runFrom l = (.ok rest, m)) : rest = [] := by
  unfold Batch.commit at h
  split at h
  · next hb =>
    cases h
    exact List.isEmpty_iff.mp hb
  · rw [Program.runFrom_bind_pure (inTransaction (runCalls b)) fun _ => []] at h
    cases hr : ((inTransaction (runCalls b)).runFrom l).1 with
    | error f => simp [hr, Except.map] at h
    | ok => simpa [hr, Except.map] using (congrArg Prod.fst h).symm

theorem Batch.commit_released {b : Batch} (hb : b ≠ []) {l : Link σ}
    (hc : l.session.connection = .released) :
    (Batch.commit b).runFrom l = (.error .noConnection, l) := by
  have he : b.isEmpty = false := by simpa using hb
  have hrun : (inTransaction (runCalls b)).runFrom l = (.error .noConnection, l) := by
    simp [inTransaction, hc]
  unfold Batch.commit
  simp only [he, Bool.false_eq_true, ↓reduceIte]
  exact Program.runFrom_bind_error hrun _

theorem Batch.commit_transacted {b : Batch} (hb : b ≠ []) {l : Link σ}
    (hc : l.session.connection ≠ .released) :
    let r := ((Batch.commit b).runFrom l).1.map fun _ => ()
    ∃ es, ((Batch.commit b).runFrom l).2.line.log = l.line.log ++ es ∧
      Transacted l.session.statements b r (beyondRegistrations es) ∧
      ∀ req e, .asked req (.error e) ∈ es → r = .error (req.raised e) := by
  obtain ⟨es, hsends, hw⟩ := Batch.commit_records l.terms b hb l rfl
  obtain ⟨fs, hcalls, rfl⟩ := hw.calls hc
  refine ⟨_, hsends.log_eq, hcalls.transacted hc, fun req e hm => ?_⟩
  exact hcalls.raised (by simpa using hm)

namespace Outbox

theorem commit_runFrom (o : Outbox σ) :
    commit.runFrom o = match (Batch.commit o.calls).runFrom o.link with
      | (.ok rest, l) => (.ok (), ⟨rest, l⟩)
      | (.error f, l) => (.error f, ⟨o.calls, l⟩) := by
  simp only [commit, Program.runFrom_bind, Program.runFrom_get, Program.runFrom_onPart]
  cases (Batch.commit o.calls).runFrom o.link with
  | mk r l => cases r <;> rfl

theorem commit_sent (o : Outbox σ) :
    (commit.runFrom o).1 = ((Batch.commit o.calls).runFrom o.link).1.map (fun _ => ()) ∧
      (commit.runFrom o).2.link = ((Batch.commit o.calls).runFrom o.link).2 := by
  rw [commit_runFrom]
  cases (Batch.commit o.calls).runFrom o.link with
  | mk r l => cases r <;> exact ⟨rfl, rfl⟩

theorem commit_calls (o : Outbox σ) :
    (commit.runFrom o).1 = .ok () ∧ (commit.runFrom o).2.calls = [] ∨
      (∃ f, (commit.runFrom o).1 = .error f) ∧ (commit.runFrom o).2.calls = o.calls := by
  rw [commit_runFrom]
  cases hrun : (Batch.commit o.calls).runFrom o.link with
  | mk r l =>
    cases r with
    | ok rest => exact .inl ⟨rfl, Batch.eq_nil_of_commit hrun⟩
    | error f => exact .inr ⟨⟨f, rfl⟩, rfl⟩

/-- A batch without calls sends nothing, and neither does a session that gave up its connection.
Any other commit writes one transaction, apart from registrations: the runs of the calls in order,
up to the first failure, and a commit or a rollback by whether there was one. The batch is empty
after a success and holds what it held after a failure, and the failure of a statement names it. -/
theorem commit_transacts (o : Outbox σ) :
    let r := (commit.runFrom o).1
    let o' := (commit.runFrom o).2
    (o.calls = [] ∧ r = .ok () ∧ o' = o) ∨
    (o.calls ≠ [] ∧ o.link.session.connection = .released ∧ r = .error .noConnection ∧ o' = o) ∨
    (o.calls ≠ [] ∧ o.link.session.connection ≠ .released ∧
      ∃ es, o'.link.line.log = o.link.line.log ++ es ∧
        Transacted o.link.session.statements o.calls r (beyondRegistrations es) ∧
        (r = .ok () ∧ o'.calls = [] ∨ (∃ f, r = .error f) ∧ o'.calls = o.calls) ∧
        (∀ p args e, .asked (.run p args) (.error e) ∈ es →
          r = .error (if e.isDatabase then .statement p.name e else .server e)) ∧
        ∀ p e, .asked (.prepare p) (.error e) ∈ es →
          r = .error (if e.isDatabase then .register p.name (some e) else .server e)) := by
  intro r o'
  by_cases hb : o.calls = []
  · refine .inl ⟨hb, ?_⟩
    have hrun : commit.runFrom o = (.ok (), o) := by
      rw [commit_runFrom, hb]
      simp [Batch.commit, ← hb]
    simp only [r, o', hrun, and_self]
  refine .inr ?_
  by_cases hc : o.link.session.connection = .released
  · refine .inl ⟨hb, hc, ?_⟩
    have hrun : commit.runFrom o = (.error .noConnection, o) := by
      rw [commit_runFrom, Batch.commit_released hb hc]
    simp only [r, o', hrun, and_self]
  · refine .inr ⟨hb, hc, ?_⟩
    obtain ⟨es, hlog, htransacted, hraised⟩ := Batch.commit_transacted hb hc
    obtain ⟨hr, hlink⟩ := o.commit_sent
    rw [← hr] at htransacted hraised
    refine ⟨es, hlink ▸ hlog, htransacted, o.commit_calls, ?_, ?_⟩
    · exact fun p args e => hraised (.run p args) e
    · exact fun p e => hraised (.prepare p) e

end Outbox

end ChainArchive
