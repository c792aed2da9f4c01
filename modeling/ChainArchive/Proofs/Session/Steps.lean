import ChainArchive.Batch
import ChainArchive.Copy.Transfer
import ChainArchive.Proofs.Session.Transcript

namespace ChainArchive

open ChainArchive.Copy ChainArchive.Link

/-- One write: the transfer of encoded rows, a call, or a mark. -/
inductive Step where
  | copy (table : RowTable) (rows : List (List Char))
  | call (c : Call)
  | mark (m : Mark)

def Batch.statementFailure (plan : String) (e : ServerError) : Failure :=
  if e.isDatabase then .statement plan e else .server e

/-- The entries of a call: its statement and, fed with the result, the one that follows. A
result that is absent ends a call that has a follower. -/
inductive Batch.Called (t : Terms) (c : Call) : Except Failure Unit → List Entry → Prop
  | first {f : Failure} {es : List Entry} :
      Ran t (statementFailure c.plan) c.plan c.args (.error f) es → Called t c (.error f) es
  | plain {v : Value} {es : List Entry} : c.next = none →
      Ran t (statementFailure c.plan) c.plan c.args (.ok v) es → Called t c (.ok ()) es
  | absent {next : Invocation} {v : Value} {es : List Entry} :
      c.next = some next → v.isNull = true →
      Ran t (statementFailure c.plan) c.plan c.args (.ok v) es →
      Called t c (.error (.noResult c.plan)) es
  | second {next : Invocation} {v : Value} {f : Failure} {es fs : List Entry} :
      c.next = some next → v.isNull = false →
      Ran t (statementFailure c.plan) c.plan c.args (.ok v) es →
      Ran t (statementFailure next.plan) next.plan (v :: next.args) (.error f) fs →
      Called t c (.error f) (es ++ fs)
  | chained {next : Invocation} {v w : Value} {es fs : List Entry} :
      c.next = some next → v.isNull = false →
      Ran t (statementFailure c.plan) c.plan c.args (.ok v) es →
      Ran t (statementFailure next.plan) next.plan (v :: next.args) (.ok w) fs →
      Called t c (.ok ()) (es ++ fs)

inductive Step.Sent (t : Terms) : Step → Except Failure Unit → List Entry → Prop
  | copy {table : RowTable} {rows : List (List Char)} {r : Except Failure Unit} {es : List Entry} :
      Copied t table.name table.columns rows.flatten r es → Sent t (.copy table rows) r es
  | call {c : Call} {r : Except Failure Unit} {es : List Entry} :
      Batch.Called t c r es → Sent t (.call c) r es
  | mark {m : Mark} : Sent t (.mark m) (.ok ()) [.marked m]
  | unmarked {m : Mark} : t.connection = .released → Sent t (.mark m) (.error .noConnection) []

/-- Steps taken one after another, up to the first that fails. -/
inductive InTurn (t : Terms) : List Step → Except Failure Unit → List Entry → Prop
  | nil : InTurn t [] (.ok ()) []
  | stop {s : Step} {ss : List Step} {f : Failure} {es : List Entry} :
      s.Sent t (.error f) es → InTurn t (s :: ss) (.error f) es
  | cons {s : Step} {ss : List Step} {r : Except Failure Unit} {es fs : List Entry} :
      s.Sent t (.ok ()) es → InTurn t ss r fs → InTurn t (s :: ss) r (es ++ fs)

namespace InTurn

variable {t : Terms} {ss ss' : List Step} {r : Except Failure Unit} {f : Failure}
  {es fs : List Entry}

theorem append (h : InTurn t ss (.ok ()) es) (h' : InTurn t ss' r fs) :
    InTurn t (ss ++ ss') r (es ++ fs) := by
  generalize ho : (Except.ok () : Except Failure Unit) = o at h
  induction h with
  | nil => exact h'
  | stop => cases ho
  | cons hs _ ih =>
    rw [List.append_assoc]
    exact cons hs (ih ho)

theorem append_stop (h : InTurn t ss (.error f) es) : InTurn t (ss ++ ss') (.error f) es := by
  generalize ho : (Except.error f : Except Failure Unit) = o at h
  induction h with
  | nil => cases ho
  | stop hs => exact stop hs
  | cons hs _ ih => exact cons hs (ih ho)

theorem single {s : Step} (h : s.Sent t r es) : InTurn t [s] r es := by
  cases r with
  | error f => exact stop h
  | ok => simpa using cons h nil

theorem all_entries {P : Entry → Bool} (h : InTurn t ss r es)
    (hs : ∀ s ∈ ss, ∀ r es, s.Sent t r es → es.all P = true) : es.all P = true := by
  induction h with
  | nil => rfl
  | stop h => exact hs _ List.mem_cons_self _ _ h
  | cons h _ ih =>
    rw [List.all_append, hs _ List.mem_cons_self _ _ h, Bool.true_and]
    exact ih fun s hm => hs s (List.mem_cons_of_mem _ hm)

theorem of_append (h : InTurn t (ss ++ ss') r es) :
    (InTurn t ss r es ∧ ∃ f, r = .error f) ∨
      ∃ fs gs, InTurn t ss (.ok ()) fs ∧ InTurn t ss' r gs ∧ es = fs ++ gs := by
  induction ss generalizing es with
  | nil => exact .inr ⟨[], es, nil, h, rfl⟩
  | cons s ss ih =>
    cases h with
    | stop h => exact .inl ⟨stop h, _, rfl⟩
    | cons hs h =>
      obtain ⟨h, f, rfl⟩ | ⟨fs, gs, hf, hg, rfl⟩ := ih h
      · exact .inl ⟨cons hs h, f, rfl⟩
      · exact .inr ⟨_, gs, cons hs hf, hg, (List.append_assoc ..).symm⟩

theorem exists_stop (h : InTurn t ss (.error f) es) : ∃ done s rest sent last,
    ss = done ++ s :: rest ∧ InTurn t done (.ok ()) sent ∧ s.Sent t (.error f) last ∧
      es = sent ++ last := by
  generalize ho : (Except.error f : Except Failure Unit) = o at h
  induction h with
  | nil => cases ho
  | @stop s ss f' es hs =>
    cases ho
    exact ⟨[], s, ss, [], es, rfl, nil, hs, rfl⟩
  | @cons s ss r es fs hs _ ih =>
    obtain ⟨done, s', rest, sent, last, rfl, hd, hl, rfl⟩ := ih ho
    exact ⟨s :: done, s', rest, es ++ sent, last, rfl, cons hs hd, hl, by simp⟩

end InTurn

def Entry.isStart : Entry → Bool
  | .marked .start => true
  | _ => false

/-- What follows the entries of a sequence of steps: a transaction that was started is rolled
back if the sequence failed. -/
def closing : Except Failure Unit → List Entry → List Entry
  | .ok _, _ => []
  | .error _, es => if es.any Entry.isStart then [.marked .rollback] else []

def Written (t : Terms) (ss : List Step) (r : Except Failure Unit) (es : List Entry) : Prop :=
  ∃ sent, InTurn t ss r sent ∧ es = sent ++ closing r sent

def copyStep (table : RowTable) (rows : List (List Char)) : List Step :=
  if rows.isEmpty then [] else [.copy table rows]

def bracketSteps (b : Batch) : List Step :=
  .mark .start :: b.map .call ++ [.mark .commit]

variable {σ : Type} [Server σ]

theorem Batch.invoke_records (t : Terms) (plan : String) (args : List Value) :
    Records (σ := σ) t (Batch.invoke plan args) (Ran t (statementFailure plan) plan args) := by
  refine (run_records t plan args).mapFailure ?_ ?_
  · intro v es h
    cases h with
    | answered p es v hf hr => exact .answered p es v hf hr
  · intro e es h
    cases h with
    | unknown h => exact .unknown h
    | cutOff h => exact .cutOff h
    | refused p e h =>
      have hr : Ran t (statementFailure plan) plan args (.error (registrationFailure plan e)) _ :=
        .refused p e h
      unfold registrationFailure at hr ⊢
      cases hd : e.isDatabase <;> simpa [hd] using hr
    | failed p es e hf hr => exact .failed p es e hf hr

theorem Batch.runCall_records (t : Terms) (c : Call) :
    Records (σ := σ) t (Batch.runCall c) (Called t c) := by
  -- `S` is how a call goes on once its statement has returned `v`.
  refine (invoke_records t c.plan c.args).bind
    (S := fun v r fs => (c.next = none ∧ r = .ok () ∧ fs = []) ∨ ∃ next, c.next = some next ∧
      ((v.isNull = true ∧ r = .error (.noResult c.plan) ∧ fs = []) ∨
        (v.isNull = false ∧ ∃ r',
          Ran t (statementFailure next.plan) next.plan (v :: next.args) r' fs ∧
            r = r'.map fun _ => ())))
    (fun v => ?_) (fun f es h => .first h) ?_
  · cases c.next with
    | none => exact .pure (.inl ⟨rfl, rfl, rfl⟩)
    | some next =>
      cases hv : v.isNull with
      | true => exact Records.throw (.inr ⟨next, rfl, .inl ⟨rfl, rfl, rfl⟩⟩)
      | false =>
        refine (invoke_records t next.plan (v :: next.args)).bind
          (S := fun _ r fs => r = .ok () ∧ fs = []) (fun w => .pure ⟨rfl, rfl⟩) ?_ ?_
        · intro f fs h
          exact .inr ⟨next, rfl, .inr ⟨rfl, _, h, rfl⟩⟩
        · rintro w fs r gs h ⟨rfl, rfl⟩
          rw [List.append_nil]
          exact .inr ⟨next, rfl, .inr ⟨rfl, _, h, rfl⟩⟩
  · rintro v es r fs h (⟨hn, rfl, rfl⟩ | ⟨next, hn, ⟨hv, rfl, rfl⟩ | ⟨hv, r', hr, rfl⟩⟩)
    · rw [List.append_nil]
      exact .plain hn h
    · rw [List.append_nil]
      exact .absent hn hv h
    · cases r' with
      | error f => exact .second hn hv h hr
      | ok w => exact .chained hn hv h hr

theorem Batch.runCalls_records (t : Terms) (cs : List Call) :
    Records (σ := σ) t (Batch.runCalls cs) (InTurn t (cs.map .call)) := by
  induction cs with
  | nil => exact .pure .nil
  | cons c cs ih =>
    exact (runCall_records t c).bind (fun _ => ih) (fun f es h => .stop (.call h))
      (fun _ es r fs h hs => .cons (.call h) hs)

theorem inTransaction_records {t : Terms} {α : Type} {body : Program (Link σ) α}
    {Q : Except Failure α → List Entry → Prop} (h : Records t body Q) :
    Records t (inTransaction body) fun r es =>
      (t.connection = .released ∧ r = .error .noConnection ∧ es = []) ∨
      (∃ fs x, r = .ok x ∧ Q r fs ∧ es = .marked .start :: fs ++ [.marked .commit]) ∨
      (∃ fs f, r = .error f ∧ Q r fs ∧ es = .marked .start :: fs ++ [.marked .rollback]) := by
  intro l hl
  by_cases hc : l.session.connection = .released
  · have hb : (inTransaction body).runFrom l = (.error .noConnection, l) := by
      simp [inTransaction, hc]
    rw [hb]
    exact ⟨[], .refl l, .inl ⟨by rw [← hl]; exact hc, rfl, rfl⟩⟩
  · obtain ⟨fs, hs, hq⟩ := h (l.mark .start) hl
    have hm : Sends l [.marked .start] (l.mark .start) := .mark .start (.refl l) hc
    have hs' := hm.trans hs
    have hc' : ((body.runFrom (l.mark .start)).2).session.connection ≠ .released := fun h =>
      hc ((congrArg Terms.connection hs'.terms_eq).symm.trans h)
    simp only [inTransaction, Program.runFrom_of]
    cases hr : body.runFrom (l.mark .start) with
    | mk r m =>
      rw [hr] at hs' hq hc'
      cases r with
      | ok x =>
        exact ⟨_, .mark .commit hs' hc', .inr (.inl ⟨fs, x, rfl, hq, rfl⟩)⟩
      | error f =>
        exact ⟨_, .mark .rollback hs' hc', .inr (.inr ⟨fs, f, rfl, hq, rfl⟩)⟩

theorem Batch.commit_records (t : Terms) (b : Batch) (hb : b ≠ []) :
    Records (σ := σ) t (Batch.commit b) fun r es =>
      Written t (bracketSteps b) (r.map fun _ => ()) es := by
  have he : b.isEmpty = false := by simpa using hb
  unfold Batch.commit
  simp only [he, Bool.false_eq_true, ↓reduceIte]
  have hstart : Step.Sent t (.mark .start) (.ok ()) [.marked .start] := .mark
  refine (inTransaction_records (runCalls_records t b)).bind
    (S := fun _ r fs => r = .ok [] ∧ fs = []) (fun _ => .pure ⟨rfl, rfl⟩) ?_ ?_
  · rintro f es (⟨hc, hf, rfl⟩ | ⟨fs, x, hx, -, -⟩ | ⟨fs, f', hf, h, rfl⟩)
    · cases hf
      exact ⟨[], .stop (.unmarked hc), rfl⟩
    · cases hx
    · cases hf
      refine ⟨.marked .start :: fs, ?_, ?_⟩
      · exact .cons hstart h.append_stop
      · simp [Except.map, closing, Entry.isStart]
  · rintro x es r fs (⟨-, hf, -⟩ | ⟨gs, y, -, h, rfl⟩ | ⟨-, f, hf, -⟩) ⟨rfl, rfl⟩
    · cases hf
    · refine ⟨.marked .start :: (gs ++ [.marked .commit]), ?_, ?_⟩
      · exact .cons hstart (h.append (.single .mark))
      · simp [Except.map, closing]
    · cases hf

theorem RowBuffer.transferEach_records (t : Terms) (b : RowBuffer) (us : List RowTable) :
    Records (σ := σ) t (b.transferEach us)
      (InTurn t (us.flatMap fun u => copyStep u (b.rows u))) := by
  induction us with
  | nil => exact .pure .nil
  | cons u us ih =>
    simp only [RowBuffer.transferEach, List.flatMap_cons]
    cases hr : (b.rows u).isEmpty with
    | true =>
      have hu : copyStep u (b.rows u) = [] := by simp [copyStep, hr]
      rw [hu]
      exact ih
    | false =>
      have hu : copyStep u (b.rows u) = [.copy u (b.rows u)] := by simp [copyStep, hr]
      rw [hu]
      exact (copyInto_records t u.name u.columns (b.payload u)).bind (fun _ => ih)
        (fun f es h => .stop (.copy h)) (fun _ es r fs h hs => .cons (.copy h) hs)

end ChainArchive
