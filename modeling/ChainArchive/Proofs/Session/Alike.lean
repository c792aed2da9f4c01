import ChainArchive.Batch
import ChainArchive.Copy.Transfer

namespace ChainArchive.Link

open ChainArchive.Copy

variable {σ : Type} {α β : Type}

/-- Related server states answer alike and stay related. -/
structure Bisimulation [Server σ] (R : σ → σ → Prop) : Prop where
  reply_eq : ∀ {s t}, R s t → ∀ r, (Server.answer s r).1 = (Server.answer t r).1
  answer : ∀ {s t}, R s t → ∀ r, R (Server.answer s r).2 (Server.answer t r).2
  notice : ∀ {s t}, R s t → ∀ k, R (Server.notice s k) (Server.notice t k)

theorem Bisimulation.eq [Server σ] : Bisimulation (σ := σ) (· = ·) where
  reply_eq h r := congrArg (fun s => (Server.answer s r).1) h
  answer h r := congrArg (fun s => (Server.answer s r).2) h
  notice h k := congrArg (Server.notice · k) h

/-- Links to related servers that differ at most in whether one statement is registered. -/
structure Alike (R : σ → σ → Prop) (aside : String) (l m : Link σ) : Prop where
  server : R l.line.server m.line.server
  statements : l.session.statements = m.session.statements
  connection : l.session.connection = m.session.connection
  registered : ∀ name, name ≠ aside → l.session.isRegistered name = m.session.isRegistered name

structure GoAlike (R : σ → σ → Prop) (aside : String) (l m : Link σ) (es : List Entry)
    (l' m' : Link σ) : Prop where
  alike : Alike R aside l' m'
  log_left : l'.line.log = l.line.log ++ es
  log_right : m'.line.log = m.line.log ++ es

/-- The program runs alike on links that are alike. -/
def Parallel (R : σ → σ → Prop) (aside : String) (p : Program (Link σ) α) : Prop :=
  ∀ l m, Alike R aside l m → ∃ r es l' m', p.runFrom l = (r, l') ∧ p.runFrom m = (r, m') ∧
    GoAlike R aside l m es l' m'

variable {R : σ → σ → Prop} {aside : String} {l m l' m' n o : Link σ} {es fs : List Entry}

theorem Alike.stay (h : Alike R aside l m) : GoAlike R aside l m [] l m :=
  ⟨h, (List.append_nil _).symm, (List.append_nil _).symm⟩

theorem GoAlike.trans (h : GoAlike R aside l m es l' m') (h' : GoAlike R aside l' m' fs n o) :
    GoAlike R aside l m (es ++ fs) n o where
  alike := h'.alike
  log_left := by rw [h'.log_left, h.log_left, List.append_assoc]
  log_right := by rw [h'.log_right, h.log_right, List.append_assoc]

theorem Alike.register (h : Alike R aside l m) (name : String) : GoAlike R aside l m []
    { l with session.registered := l.session.registered ++ [name] }
    { m with session.registered := m.session.registered ++ [name] } := by
  refine ⟨⟨h.server, h.statements, h.connection, fun other hn => ?_⟩, h.stay.log_left,
    h.stay.log_right⟩
  have hr := h.registered other hn
  simp only [Session.isRegistered, List.contains_eq_mem, List.mem_append, Bool.decide_or] at hr ⊢
  rw [hr]

theorem Alike.mark [Server σ] (hR : Bisimulation R) (h : Alike R aside l m) (k : Mark) :
    GoAlike R aside l m [.marked k] (l.mark k) (m.mark k) :=
  ⟨⟨hR.notice h.server k, h.statements, h.connection, h.registered⟩, rfl, rfl⟩

namespace Parallel

theorem pure (x : α) : Parallel R aside (pure x) :=
  fun l m h => ⟨.ok x, [], l, m, rfl, rfl, h.stay⟩

theorem throw (f : Failure) : Parallel (α := α) R aside (throw f) :=
  fun l m h => ⟨.error f, [], l, m, rfl, rfl, h.stay⟩

theorem register (name : String) : Parallel (σ := σ) R aside
    (modify fun l => { l with session.registered := l.session.registered ++ [name] }) :=
  fun _ _ h => ⟨.ok (), [], _, _, rfl, rfl, h.register name⟩

theorem bind {p : Program (Link σ) α} {f : α → Program (Link σ) β} (hp : Parallel R aside p)
    (hf : ∀ x, Parallel R aside (f x)) : Parallel R aside (p >>= f) := by
  intro l m h
  obtain ⟨r, es, l', m', hl, hm, hgo⟩ := hp l m h
  cases r with
  | error e =>
    exact ⟨.error e, es, l', m', Program.runFrom_bind_error hl f,
      Program.runFrom_bind_error hm f, hgo⟩
  | ok x =>
    obtain ⟨r, fs, n, o, hn, ho, hgo'⟩ := hf x l' m' hgo.alike
    refine ⟨r, es ++ fs, n, o, ?_, ?_, hgo.trans hgo'⟩
    · rw [Program.runFrom_bind_ok hl, hn]
    · rw [Program.runFrom_bind_ok hm, ho]

theorem mapFailure {p : Program (Link σ) α} (hp : Parallel R aside p) (f : Failure → Failure) :
    Parallel R aside (p.mapFailure f) := by
  intro l m h
  obtain ⟨r, es, l', m', hl, hm, hgo⟩ := hp l m h
  refine ⟨r.mapError f, es, l', m', ?_, ?_, hgo⟩
  · rw [Program.runFrom_mapFailure, hl]
    cases r <;> rfl
  · rw [Program.runFrom_mapFailure, hm]
    cases r <;> rfl

variable [Server σ]

theorem ask (hR : Bisimulation R) (r : Request) : Parallel R aside (Link.ask r) := by
  intro l m h
  unfold Link.ask
  rw [Program.runFrom_of, Program.runFrom_of, ← h.connection]
  have hreply := hR.reply_eq h.server r
  have hasked : Alike R aside { l with line := (l.line.ask r).2 }
      { m with line := (m.line.ask r).2 } :=
    ⟨hR.answer h.server r, h.statements, h.connection, h.registered⟩
  cases l.session.connection with
  | released => exact ⟨_, [], l, m, rfl, rfl, h.stay⟩
  | live | severed =>
    refine ⟨_, [.asked r (l.line.ask r).1], _, _, rfl, ?_, hasked, rfl, ?_⟩
    · exact congrArg (fun x => (Except.ok x, _)) hreply.symm
    · exact congrArg (fun x => m.line.log ++ [.asked r x]) hreply.symm

theorem plan (hR : Bisimulation R) {name : String} (hn : name ≠ aside) :
    Parallel R aside (Link.plan name) := by
  intro l m h
  simp only [Link.plan, Program.runFrom_bind, Program.runFrom_get, ← h.statements,
    ← h.registered name hn]
  cases Statement.find? l.session.statements name with
  | none => exact throw _ l m h
  | some p =>
    by_cases hr : l.session.isRegistered name
    · simp only [hr, ↓reduceIte]
      exact pure p l m h
    · simp only [hr, Bool.false_eq_true, ↓reduceIte]
      refine ((ask hR (.prepare p)).bind fun reply => ?_) l m h
      cases reply with
      | error e => exact throw _
      | ok v => exact (register name).bind fun _ => pure p

theorem run (hR : Bisimulation R) {name : String} (hn : name ≠ aside) (args : List Value) :
    Parallel R aside (Link.run name args) := by
  refine (plan hR hn).bind fun p => (ask hR (.run p args)).bind fun reply => ?_
  cases reply with
  | error e => exact throw _
  | ok v => exact pure v

theorem copyInto (hR : Bisimulation R) (table : String) (columns : List String)
    (data : List Char) : Parallel R aside (Link.copyInto table columns data) := by
  refine (ask hR (.copy table columns data)).bind fun reply => ?_
  cases reply with
  | error e => exact throw _
  | ok v => exact pure ()

theorem inTransaction (hR : Bisimulation R) {p : Program (Link σ) α} (hp : Parallel R aside p) :
    Parallel R aside (Link.inTransaction p) := by
  intro l m h
  unfold Link.inTransaction
  rw [Program.runFrom_of, Program.runFrom_of, ← h.connection]
  have hstart := h.mark hR .start
  obtain ⟨r, es, l', m', hl, hm, hgo⟩ := hp _ _ hstart.alike
  -- The closing mark follows the outcome, which is the same on both sides.
  have hend := fun k => (hstart.trans hgo).trans (hgo.alike.mark hR k)
  cases l.session.connection with
  | released => exact ⟨_, [], l, m, rfl, rfl, h.stay⟩
  | live | severed =>
    simp only [hl, hm]
    cases r with
    | error e => exact ⟨_, _, _, _, rfl, rfl, hend .rollback⟩
    | ok x => exact ⟨_, _, _, _, rfl, rfl, hend .commit⟩

theorem invoke (hR : Bisimulation R) {plan : String} (hn : plan ≠ aside) (args : List Value) :
    Parallel R aside (Batch.invoke plan args) :=
  (run hR hn args).mapFailure _

/-- The calls of a batch leave a statement alone. -/
def Spared (aside : String) (b : Batch) : Prop :=
  ∀ c ∈ b, c.plan ≠ aside ∧ ∀ next, c.next = some next → next.plan ≠ aside

theorem runCalls (hR : Bisimulation R) {cs : List Call} (hcs : Spared aside cs) :
    Parallel R aside (Batch.runCalls cs) := by
  induction cs with
  | nil => exact pure ()
  | cons c cs ih =>
    obtain ⟨⟨hc, hn⟩, hcs⟩ := List.forall_mem_cons.mp hcs
    refine bind ?_ fun _ => ih hcs
    refine (invoke hR hc c.args).bind fun v => ?_
    cases h : c.next with
    | none => exact pure ()
    | some next =>
      have hnext := (invoke hR (hn next h) (v :: next.args)).bind fun _ => pure ()
      dsimp only
      split
      · exact (throw _).bind fun _ => hnext
      · exact hnext

theorem commit (hR : Bisimulation R) {b : Batch} (hb : Spared aside b) :
    Parallel R aside (Batch.commit b) := by
  unfold Batch.commit
  split
  · exact pure b
  · exact (inTransaction hR (runCalls hR hb)).bind fun _ => pure []

theorem transferEach (hR : Bisimulation R) (b : RowBuffer) (us : List RowTable) :
    Parallel R aside (b.transferEach us) := by
  induction us with
  | nil => exact pure ()
  | cons u us ih =>
    unfold RowBuffer.transferEach
    split
    · exact (copyInto hR u.name u.columns (b.payload u)).bind fun _ => ih
    · exact ih

theorem transfer (hR : Bisimulation R) (b : RowBuffer) : Parallel R aside b.commit :=
  (transferEach hR b RowTable.all).bind fun _ => pure RowBuffer.empty

end Parallel

variable [Server σ]

theorem session_ask (r : Request) (l : Link σ) : ((ask r).runFrom l).2.session = l.session := by
  simp only [ask, Program.runFrom_of]
  split <;> rfl

theorem session_passing (r : Request) (l : Link σ) :
    ((passing r).runFrom l).2.session = l.session := by
  rw [← session_ask r l, passing, Program.runFrom_bind]
  split
  · next reply m h =>
    rw [h]
    cases reply <;> rfl
  · next e m h => rw [h]

theorem session_plan (name : String) (l : Link σ) :
    ((plan name).runFrom l).2.session = l.session ∨ ((plan name).runFrom l).2.session =
      { l.session with registered := l.session.registered ++ [name] } := by
  simp only [plan, Program.runFrom_bind, Program.runFrom_get]
  cases Statement.find? l.session.statements name with
  | none => exact .inl rfl
  | some p =>
    by_cases hr : l.session.isRegistered name
    · simp only [hr, ↓reduceIte]
      exact .inl rfl
    · have hask := session_ask (.prepare p) l
      simp only [hr, Bool.false_eq_true, ↓reduceIte, Program.runFrom_bind]
      cases h : (ask (.prepare p)).runFrom l with
      | mk r m =>
        rw [h] at hask
        cases r with
        | error e => exact .inl hask
        | ok reply =>
          cases reply with
          | error e => exact .inl hask
          | ok v =>
            right
            rw [← hask]
            rfl

/-- A statement that was run is set aside, if the server does not mind that it was. -/
theorem Alike.of_run {name : String} {args : List Value}
    (hR : R ((run name args).runFrom m).2.line.server m.line.server) :
    Alike R name ((run name args).runFrom m).2 m := by
  have hsession : ((run name args).runFrom m).2.session = ((plan name).runFrom m).2.session := by
    rw [run, Program.runFrom_bind]
    cases h : (plan name).runFrom m with
    | mk r l =>
      cases r with
      | error e => rfl
      | ok p => exact session_passing (.run p args) l
  obtain h | h := session_plan name m
  · rw [h] at hsession
    exact ⟨hR, by rw [hsession], by rw [hsession], fun _ _ => by rw [hsession]⟩
  · rw [h] at hsession
    refine ⟨hR, by rw [hsession], by rw [hsession], fun other hn => ?_⟩
    rw [hsession]
    simp [Session.isRegistered, hn]

end ChainArchive.Link
