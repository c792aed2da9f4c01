import ChainArchive.Database.Connect

namespace ChainArchive

def Entry.opens : Entry → Bool
  | .asked (.connect _ _) (.ok _) => true
  | _ => false

def Entry.closes : Entry → Bool
  | .marked .close => true
  | _ => false

structure Entry.Neutral (e : Entry) : Prop where
  opens_eq : e.opens = false
  closes_eq : e.closes = false

namespace Database

variable {σ : Type} {α β : Type}

/-- On every line, the program leaves entries that stand with its result as `Q` says. -/
def Leaves (p : Program (Line σ) α) (Q : Except Failure α → List Entry → Prop) : Prop :=
  ∀ l, ∃ es, (p.runFrom l).2.log = l.log ++ es ∧ Q (p.runFrom l).1 es

namespace Leaves

variable {p : Program (Line σ) α} {f : α → Program (Line σ) β}
  {Q : Except Failure α → List Entry → Prop} {R : Except Failure β → List Entry → Prop}

theorem mono {Q' : Except Failure α → List Entry → Prop} (h : Leaves p Q)
    (hQ : ∀ r es, Q r es → Q' r es) : Leaves p Q' := by
  intro l
  obtain ⟨es, hlog, hq⟩ := h l
  exact ⟨es, hlog, hQ _ _ hq⟩

theorem lift {r : Except Failure α} (h : Q r []) :
    Leaves (Program.lift r : Program (Line σ) α) Q :=
  fun l => ⟨[], (List.append_nil l.log).symm, h⟩

theorem pure {x : α} (h : Q (.ok x) []) : Leaves (Pure.pure x : Program (Line σ) α) Q := lift h

theorem throw {e : Failure} (h : Q (.error e) []) :
    Leaves (MonadExcept.throw e : Program (Line σ) α) Q :=
  lift h

theorem bind {S : α → Except Failure β → List Entry → Prop} (hp : Leaves p Q)
    (hf : ∀ x, Leaves (f x) (S x)) (he : ∀ e es, Q (.error e) es → R (.error e) es)
    (hx : ∀ x es r fs, Q (.ok x) es → S x r fs → R r (es ++ fs)) : Leaves (p >>= f) R := by
  intro l
  obtain ⟨es, hlog, hq⟩ := hp l
  rw [Program.runFrom_bind]
  cases h : p.runFrom l with
  | mk r m =>
    rw [h] at hlog hq
    cases r with
    | error e => exact ⟨es, hlog, he e es hq⟩
    | ok x =>
      obtain ⟨fs, hlog', hq'⟩ := hf x m
      refine ⟨es ++ fs, ?_, hx x es _ fs hq hq'⟩
      rw [hlog', show m.log = l.log ++ es from hlog, List.append_assoc]

theorem ofUrl_bind {r : Except Url.Fault α}
    (he : ∀ fault, r = .error fault → R (.error (.badUrl fault)) [])
    (hx : ∀ x, r = .ok x → Leaves (f x) R) : Leaves (ofUrl r >>= f) R := by
  cases r with
  | error fault => exact fun l => ⟨[], (List.append_nil l.log).symm, he fault rfl⟩
  | ok x => exact hx x rfl

theorem request_bind [Server σ] {q : Request} {f : Reply → Program (Line σ) β}
    (hf : ∀ reply, Leaves (f reply) fun r es => R r (.asked q reply :: es)) :
    Leaves (Database.request q >>= f) R := by
  intro l
  obtain ⟨es, hlog, hr⟩ := hf (l.ask q).1 (l.ask q).2
  exact ⟨.asked q (l.ask q).1 :: es, hlog.trans (List.append_assoc l.log _ es), hr⟩

end Leaves

variable [Server σ]

inductive Attempts (url application : String) : (further : Nat) → Reply → List Entry → Prop
  | accepted {n : Nat} (v : Value) :
      Attempts url application n (.ok v) [.asked (.connect url application) (.ok v)]
  | givenUp {n : Nat} {e : ServerError} : n = 0 ∨ e.isTransient = false →
      Attempts url application n (.error e) [.asked (.connect url application) (.error e)]
  | again {n : Nat} {e : ServerError} {r : Reply} {es : List Entry} : e.isTransient = true →
      Attempts url application n r es →
      Attempts url application (n + 1) r (.asked (.connect url application) (.error e) :: es)

namespace Attempts

variable {url application : String} {n : Nat} {es : List Entry}

theorem neutral {e : ServerError} (h : Attempts url application n (.error e) es) :
    ∀ x ∈ es, x.Neutral := by
  generalize hr : (Except.error e : Reply) = r at h
  induction h with
  | accepted => cases hr
  | givenUp => simpa using ⟨rfl, rfl⟩
  | again _ _ ih => exact List.forall_mem_cons.mpr ⟨⟨rfl, rfl⟩, ih hr⟩

theorem eq_concat {v : Value} (h : Attempts url application n (.ok v) es) :
    ∃ failed, es = failed ++ [.asked (.connect url application) (.ok v)] ∧
      ∀ x ∈ failed, x.Neutral := by
  generalize hr : (Except.ok v : Reply) = r at h
  induction h with
  | accepted w =>
    cases hr
    exact ⟨[], rfl, by simp⟩
  | givenUp => cases hr
  | again _ _ ih =>
    obtain ⟨failed, rfl, hf⟩ := ih hr
    exact ⟨_ :: failed, rfl, List.forall_mem_cons.mpr ⟨⟨rfl, rfl⟩, hf⟩⟩

end Attempts

theorem attempt_leaves (url application : String) (further : Nat) :
    Leaves (σ := σ) (attempt url application further) fun res es =>
      ∃ reply, res = .ok reply ∧ Attempts url application further reply es := by
  induction further with
  | zero =>
    intro l
    refine ⟨[.asked (.connect url application) _], rfl,
      (l.ask (.connect url application)).1, rfl, ?_⟩
    show Attempts url application 0 _
      [.asked (.connect url application) (l.ask (.connect url application)).1]
    cases (l.ask (.connect url application)).1 with
    | ok v => exact .accepted v
    | error e => exact .givenUp (.inl rfl)
  | succ n ih =>
    refine Leaves.request_bind fun reply => ?_
    cases reply with
    | ok v => exact .pure ⟨_, rfl, .accepted v⟩
    | error e =>
      cases ht : e.isTransient with
      | false =>
        simp only [ht]
        exact .pure ⟨_, rfl, .givenUp (.inr ht)⟩
      | true =>
        simp only [ht]
        refine ih.mono ?_
        rintro _ es ⟨reply', rfl, h⟩
        exact ⟨reply', rfl, .again ht h⟩

def connectFailure (e : ServerError) : Failure :=
  if e.isDatabase || e.isSystem then .connect e else .server e

inductive Connected (url : String) (maxTries : Int) : Except Failure Unit → List Entry → Prop
  | unread {fault : Url.Fault} : applicationName url = .error fault →
      Connected url maxTries (.error (.badUrl fault)) []
  | failed {application : String} {e : ServerError} {es : List Entry} :
      applicationName url = .ok application →
      Attempts url application (attemptLimit maxTries - 1) (.error e) es →
      Connected url maxTries (.error (connectFailure e)) es
  | made {application : String} {v : Value} {es : List Entry} :
      applicationName url = .ok application →
      Attempts url application (attemptLimit maxTries - 1) (.ok v) es →
      Connected url maxTries (.ok ()) es

theorem connect_leaves (url : String) (maxTries : Int) :
    Leaves (σ := σ) (connect url maxTries) (Connected url maxTries) := by
  refine Leaves.ofUrl_bind (fun fault => .unread) fun application ha => ?_
  refine (attempt_leaves _ _ _).bind
    (S := fun reply r es => es = [] ∧ r = (reply.mapError connectFailure).map fun _ => ())
    (fun reply => ?_) (fun e es h => ?_) ?_
  · cases reply with
    | ok v => exact .pure ⟨rfl, rfl⟩
    | error e => exact .throw ⟨rfl, rfl⟩
  · obtain ⟨reply, hr, -⟩ := h
    cases hr
  · rintro reply es _ _ ⟨_, ⟨⟩, h⟩ ⟨rfl, rfl⟩
    rw [List.append_nil]
    cases reply with
    | ok v => exact .made ha h
    | error e => exact .failed ha h

namespace Connected

variable {url : String} {maxTries : Int} {es : List Entry}

theorem neutral {f : Failure} (h : Connected url maxTries (.error f) es) : ∀ x ∈ es, x.Neutral := by
  cases h with
  | unread => simp
  | failed _ h => exact h.neutral

theorem eq_concat (h : Connected url maxTries (.ok ()) es) :
    ∃ failed application v, es = failed ++ [.asked (.connect url application) (.ok v)] ∧
      ∀ x ∈ failed, x.Neutral := by
  cases h with
  | made _ h =>
    obtain ⟨failed, hes, hf⟩ := h.eq_concat
    exact ⟨failed, _, _, hes, hf⟩

end Connected

/-- The entries of one visit to the maintenance database of a server: one request at most over the
connection, which is closed after it. -/
inductive Visit : List Entry → Prop
  | unread : Visit []
  | unreached {target url : String} {maxTries : Int} {f : Failure} {es : List Entry} :
      maintenanceUrl target = .ok url → Connected url maxTries (.error f) es → Visit es
  | made {target url : String} {maxTries : Int} {es fs : List Entry} :
      maintenanceUrl target = .ok url → Connected url maxTries (.ok ()) es →
      fs.length ≤ 1 → (∀ e ∈ fs, e.Neutral) → Visit (es ++ fs ++ [.marked .close])

theorem onMaintenance_leaves {body : Program (Line σ) α} (url : String) (maxTries : Int)
    (hbody : Leaves body fun _ es => es.length ≤ 1 ∧ ∀ e ∈ es, e.Neutral) :
    Leaves (onMaintenance url maxTries body) fun _ => Visit := by
  refine Leaves.ofUrl_bind (fun _ _ => .unread) fun target ht => ?_
  have hclosing : Leaves (body.ensuring (·.mark .close)) fun _ es =>
      ∃ fs, fs.length ≤ 1 ∧ (∀ e ∈ fs, e.Neutral) ∧ es = fs ++ [.marked .close] := by
    intro l
    obtain ⟨es, hlog, hlength, hneutral⟩ := hbody l
    refine ⟨_, ?_, es, hlength, hneutral, rfl⟩
    rw [Program.runFrom_ensuring, ← List.append_assoc, ← hlog]
    rfl
  refine (connect_leaves target maxTries).bind (fun _ => hclosing)
    (fun e es h => .unreached ht h) ?_
  rintro _ es _ _ h ⟨fs, hlength, hneutral, rfl⟩
  rw [← List.append_assoc]
  exact .made ht h hlength hneutral

theorem databaseExists_leaves (url : String) (maxTries : Int) :
    Leaves (σ := σ) (databaseExists url maxTries) fun _ => Visit := by
  refine onMaintenance_leaves url maxTries ?_
  refine Leaves.ofUrl_bind (fun _ _ => by simp) fun name _ => Leaves.request_bind fun reply => ?_
  cases reply with
  | ok v => exact .pure (by simpa using ⟨rfl, rfl⟩)
  | error e => exact .throw (by simpa using ⟨rfl, rfl⟩)

theorem onDatabase_leaves (sql : String → String) (failure : String → ServerError → Failure)
    (url : String) (maxTries : Int) :
    Leaves (σ := σ) (onDatabase sql failure url maxTries) fun _ => Visit := by
  refine Leaves.ofUrl_bind (fun _ _ => .unread) fun name _ => onMaintenance_leaves url maxTries ?_
  refine Leaves.request_bind fun reply => ?_
  cases reply with
  | ok v => exact .pure (by simpa using ⟨rfl, rfl⟩)
  | error e => exact .throw (by simpa using ⟨rfl, rfl⟩)

theorem ensureDatabase_leaves (url : String) (maxTries : Int) :
    Leaves (σ := σ) (ensureDatabase url maxTries) fun _ es => ∃ visits : List (List Entry),
      es = visits.flatten ∧ visits.length ≤ 2 ∧ ∀ v ∈ visits, Visit v := by
  refine (databaseExists_leaves url maxTries).bind
    (S := fun _ _ fs => fs = [] ∨ Visit fs) (fun found => ?_) ?_ ?_
  · split
    · exact (onDatabase_leaves _ _ url maxTries).mono fun _ _ h => .inr h
    · exact .pure (.inl rfl)
  · intro e es h
    exact ⟨[es], by simp, by simp, by simpa using h⟩
  · rintro _ es _ fs h (rfl | hfs)
    · exact ⟨[es], by simp, by simp, by simpa using h⟩
    · exact ⟨[es, fs], by simp, by simp, by simpa using ⟨h, hfs⟩⟩

/-- A log as visits to maintenance databases, and outside of them `made` connections that were made
and `closed` ones that were closed. -/
inductive Ledger : List Entry → (made closed : Nat) → Prop
  | nil : Ledger [] 0 0
  | visit {es fs : List Entry} {m c : Nat} : Ledger es m c → Visit fs → Ledger (es ++ fs) m c
  | neutral {es : List Entry} {e : Entry} {m c : Nat} : Ledger es m c → e.Neutral →
      Ledger (es ++ [e]) m c
  | made {es : List Entry} {m c : Nat} (url application : String) (v : Value) : Ledger es m c →
      Ledger (es ++ [.asked (.connect url application) (.ok v)]) (m + 1) c
  | closed {es : List Entry} {m c : Nat} : Ledger es m c →
      Ledger (es ++ [.marked .close]) m (c + 1)

theorem countP_neutral {es : List Entry} (h : ∀ e ∈ es, e.Neutral) :
    es.countP Entry.opens = 0 ∧ es.countP Entry.closes = 0 := by
  simp only [List.countP_eq_zero]
  exact ⟨fun e he => by simp [(h e he).opens_eq], fun e he => by simp [(h e he).closes_eq]⟩

/-- A connection that is made in a visit is closed in it, once. -/
theorem Visit.countP_eq {es : List Entry} (h : Visit es) :
    es.countP Entry.opens = es.countP Entry.closes ∧ es.countP Entry.closes ≤ 1 := by
  cases h with
  | unread => simp
  | unreached _ h =>
    obtain ⟨ho, hc⟩ := countP_neutral h.neutral
    omega
  | made _ h _ hn =>
    obtain ⟨failed, application, v, rfl, hf⟩ := h.eq_concat
    obtain ⟨ho, hc⟩ := countP_neutral hf
    obtain ⟨ho', hc'⟩ := countP_neutral hn
    simp [List.countP_append, ho, hc, ho', hc', List.countP_cons, Entry.opens, Entry.closes]

namespace Ledger

variable {es fs : List Entry} {m c : Nat}

theorem append_neutral (h : Ledger es m c) (hfs : ∀ e ∈ fs, e.Neutral) :
    Ledger (es ++ fs) m c := by
  induction fs generalizing es with
  | nil => simpa using h
  | cons f fs ih =>
    obtain ⟨hf, hfs⟩ := List.forall_mem_cons.mp hfs
    simpa using ih (h.neutral hf) hfs

theorem append_visits {visits : List (List Entry)} (h : Ledger es m c)
    (hv : ∀ v ∈ visits, Visit v) : Ledger (es ++ visits.flatten) m c := by
  induction visits generalizing es with
  | nil => simpa using h
  | cons v vs ih =>
    obtain ⟨hv, hvs⟩ := List.forall_mem_cons.mp hv
    simpa using ih (h.visit hv) hvs

theorem countP_eq (h : Ledger es m c) :
    es.countP Entry.opens + c = es.countP Entry.closes + m := by
  induction h with
  | nil => rfl
  | visit _ hv ih =>
    have := hv.countP_eq
    simp only [List.countP_append]
    omega
  | neutral _ hn ih =>
    simpa [List.countP_append, List.countP_cons, hn.opens_eq, hn.closes_eq] using ih
  | made | closed =>
    simp [List.countP_append, List.countP_cons, Entry.opens, Entry.closes]
    omega

end Ledger

end Database

end ChainArchive
