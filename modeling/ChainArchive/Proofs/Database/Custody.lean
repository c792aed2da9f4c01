import ChainArchive.Database.Service
import ChainArchive.Proofs.Database.Connections
import ChainArchive.Proofs.Ingest.Operations

namespace ChainArchive

open ChainArchive.Ingest ChainArchive.Link ChainArchive.Program ChainArchive.Schema

variable {σ : Type} {α : Type}

/-- One link is another one with its connection closed, which shows if it was open. -/
structure Link.Shuts (l m : Link σ) : Prop where
  isClosed : m.session.isClosed = true
  log : ∃ es, m.line.log = l.line.log ++ es ∧
    (l.session.isClosed = true → ∀ e ∈ es, e.Neutral) ∧
    (l.session.isClosed = false → es = [.marked .close])

namespace Database

theorem countP_eq_ite {α : Type} {p : α → Bool} {xs : List α} {k : Nat}
    (h : ∀ i x, xs[i]? = some x → p x = true → i = k) :
    xs.countP p = if xs[k]?.any p then 1 else 0 := by
  induction xs generalizing k with
  | nil => rfl
  | cons x xs ih =>
    cases k with
    | zero =>
      have hrest : xs.countP p = 0 := List.countP_eq_zero.mpr fun y hy hp => by
        obtain ⟨i, hi⟩ := List.mem_iff_getElem?.mp hy
        cases h (i + 1) y hi hp
      simp [List.countP_cons, hrest]
    | succ k =>
      have hx : ¬ p x = true := fun hp => by cases h 0 x rfl hp
      rw [List.countP_cons_of_neg hx, ih fun i y hy hp => Nat.succ.inj (h (i + 1) y hy hp)]
      rfl

namespace Service

/-- What is always true of a service: a session that is held is known, no other one is open, and
the log shows the connections of its sessions apart from visits. -/
structure Orderly (s : Service σ) : Prop where
  known : ∀ id, s.held = some id → id < s.sessions.length
  held_of_open : ∀ id x, s.session? id = some x → x.isClosed = false → s.held = some id
  ledger : Ledger s.line.log s.sessions.length (s.sessions.countP Session.isClosed)

variable {s : Service σ} {id : SessionId} {u : Option SessionId} {x : Session} {l : Link σ}

theorem usable?_eq_some_iff : s.usable? = some id ↔
    s.held = some id ∧ ∃ x, s.session? id = some x ∧ x.isClosed = false := by
  unfold usable?
  rw [Option.filter_eq_some_iff]
  refine and_congr_right fun _ => ?_
  cases s.session? id with
  | none => simp
  | some x => simp

/-- The service is orderly, and `u` is the session in use, if there is one. -/
structure Custody (u : Option SessionId) (s : Service σ) : Prop where
  orderly : s.Orderly
  usable_eq : s.usable? = u

theorem Orderly.custody (h : s.Orderly) : Custody s.usable? s := ⟨h, rfl⟩

theorem Custody.isClosed (h : Custody u s) (hx : s.session? id = some x) (hu : u ≠ some id) :
    x.isClosed = true := by
  cases hc : x.isClosed with
  | true => rfl
  | false =>
    have husable := usable?_eq_some_iff.mpr ⟨h.orderly.held_of_open id x hx hc, x, hx, hc⟩
    exact absurd (h.usable_eq.symm.trans husable) hu

theorem Custody.line {line : Line σ} (h : Custody u s)
    (hl : Ledger line.log s.sessions.length (s.sessions.countP Session.isClosed)) :
    Custody u { s with line } :=
  ⟨⟨h.orderly.known, h.orderly.held_of_open, hl⟩, h.usable_eq⟩

theorem Custody.settings (h : Custody u s) (t : Option Settings.Table) :
    Custody u { s with settings := t } :=
  ⟨⟨h.orderly.known, h.orderly.held_of_open, h.orderly.ledger⟩, h.usable_eq⟩

theorem Custody.letGo (h : Custody none s) : Custody none { s with held := none } := by
  refine ⟨⟨nofun, fun id x hx hc => ?_, h.orderly.ledger⟩, rfl⟩
  exact absurd (h.isClosed hx nofun) (by simp [hc])

theorem Custody.add {line : Line σ} (h : Custody none s) (hx : x.isClosed = false)
    (hl : Ledger line.log (s.sessions.length + 1) (s.sessions.countP Session.isClosed)) :
    Custody (some s.sessions.length)
      { s with line, sessions := s.sessions ++ [x], held := some s.sessions.length } := by
  have hadded : (s.sessions ++ [x])[s.sessions.length]? = some x := List.getElem?_concat_length
  refine ⟨⟨?_, fun id y hy hc => ?_, ?_⟩, usable?_eq_some_iff.mpr ⟨rfl, x, hadded, hx⟩⟩
  · rintro id ⟨⟩
    simp
  · obtain hid | rfl | hid := Nat.lt_trichotomy id s.sessions.length
    · have hold : s.session? id = some y := by
        simpa [session?, List.getElem?_append_left hid] using hy
      exact absurd (h.isClosed hold nofun) (by simp [hc])
    · rfl
    · simp [session?, List.getElem?_eq_none (show (s.sessions ++ [x]).length ≤ id by simpa)] at hy
  · simpa [List.countP_append, List.countP_cons, hx] using hl

def back (s : Service σ) (id : SessionId) (l : Link σ) : Service σ :=
  { s with line := l.line, sessions := s.sessions.set id l.session }

theorem onSession_runFrom (hx : s.session? id = some x) (p : Program (Link σ) α) :
    (onSession id p).runFrom s =
      ((p.runFrom ⟨x, s.line⟩).1, s.back id (p.runFrom ⟨x, s.line⟩).2) := by
  simp only [onSession, runFrom_of, hx, back]

theorem onSession_unknown (hx : s.session? id = none) (p : Program (Link σ) α) :
    (onSession id p).runFrom s = (.error .noConnection, s) := by
  simp only [onSession, runFrom_of, hx]

theorem back_session? (hx : s.session? id = some x) (i : SessionId) :
    (s.back id l).session? i = if i = id then some l.session else s.session? i := by
  have hlt : id < s.sessions.length := (List.getElem?_eq_some_iff.mp hx).1
  by_cases hi : i = id
  · subst hi
    simp [session?, back, List.getElem?_set_self hlt]
  · simp [session?, back, List.getElem?_set_ne (Ne.symm hi), hi]

theorem countP_back (hx : s.session? id = some x) :
    (s.back id l).sessions.countP Session.isClosed + (if x.isClosed then 1 else 0) =
      s.sessions.countP Session.isClosed + (if l.session.isClosed then 1 else 0) := by
  obtain ⟨hlt, hget⟩ := List.getElem?_eq_some_iff.mp hx
  have hcount : (if x.isClosed then 1 else 0) ≤ s.sessions.countP Session.isClosed := by
    split
    · exact List.countP_pos_iff.mpr ⟨x, List.mem_of_getElem? hx, ‹_›⟩
    · exact Nat.zero_le _
  have hset := List.countP_set (p := Session.isClosed) (a := l.session) hlt
  rw [hget] at hset
  simp only [back, hset]
  omega

/-- A session that is used is still open afterwards, or was closed, with an entry that says so. -/
theorem Orderly.back (h : s.Orderly) (hx : s.session? id = some x)
    (hopen : l.session.isClosed = false → x.isClosed = false)
    (hledger : Ledger l.line.log s.sessions.length
      ((s.back id l).sessions.countP Session.isClosed)) : (s.back id l).Orderly where
  known i hi := by
    simpa [Service.back] using h.known i hi
  held_of_open i y hy hc := by
    rw [back_session? hx] at hy
    split at hy
    · cases hy
      exact ‹i = id› ▸ h.held_of_open id x hx (hopen hc)
    · exact h.held_of_open i y hy hc
  ledger := by simpa [Service.back] using hledger

theorem Custody.shut (h : Custody u s) (hx : s.session? id = some x)
    (hl : Link.Shuts ⟨x, s.line⟩ l) : Custody (u.filter (· != id)) (s.back id l) := by
  obtain ⟨es, hlog, hes⟩ := hl.log
  have hcount := countP_back (l := l) hx
  refine ⟨h.orderly.back hx (fun ho => absurd hl.isClosed (by simp [ho])) ?_, ?_⟩
  · rw [hl.isClosed] at hcount
    rw [hlog]
    cases hc : x.isClosed with
    | true =>
      rw [hc, Nat.add_right_cancel_iff] at hcount
      rw [hcount]
      exact h.orderly.ledger.append_neutral (hes.1 hc)
    | false =>
      simp only [hc, Bool.false_eq_true, ↓reduceIte, Nat.add_zero] at hcount
      rw [hcount, hes.2 hc]
      exact h.orderly.ledger.closed
  · rw [← h.usable_eq]
    refine Option.ext fun i => ?_
    rw [Option.filter_eq_some_iff, usable?_eq_some_iff, usable?_eq_some_iff, back_session? hx]
    by_cases hi : i = id
    · simp [hi, hl.isClosed]
    · simp [hi, Service.back]

end Service

end Database

variable [Server σ]

namespace Link.Shuts

variable {l m : Link σ}

theorem of_hangUp (hm : m.session.isClosed = true) (hline : m.line = l.hangUp.line) :
    Shuts l m := by
  refine ⟨hm, ?_⟩
  rw [hline]
  cases hc : l.session.connection with
  | live =>
    exact ⟨[.marked .close], by simp [hangUp, hc, mark, Line.mark], by simp [Session.isClosed, hc],
      fun _ => rfl⟩
  | severed =>
    exact ⟨[.marked .closeAgain], by simp [hangUp, hc, mark, Line.mark],
      fun _ => List.forall_mem_singleton.mpr ⟨rfl, rfl⟩, by simp [Session.isClosed, hc]⟩
  | released =>
    exact ⟨[], by simp [hangUp, hc], fun _ => List.forall_mem_nil _, by simp [Session.isClosed, hc]⟩

theorem close (l : Link σ) : Shuts l l.close := by
  cases hc : l.session.connection <;>
    exact of_hangUp (by simp [Link.close, Session.isClosed, hc]) (by simp [Link.close, hangUp, hc])

theorem sever (l : Link σ) : Shuts l (Link.sever.runFrom l).2 := by
  cases hc : l.session.connection <;>
    exact of_hangUp (by simp [Link.sever, Session.isClosed, hc]) (by simp [Link.sever, hangUp, hc])

end Link.Shuts

def Link.Neutral (p : Program (Link σ) α) : Prop :=
  ∀ t, Records t p fun _ es => ∀ e ∈ es, e.Neutral

theorem Entry.neutral_prepare {es : List Entry}
    (h : ∀ e ∈ es, ∃ q reply, e = .asked (.prepare q) reply) : ∀ e ∈ es, e.Neutral := by
  intro e he
  obtain ⟨q, reply, rfl⟩ := h e he
  exact ⟨rfl, rfl⟩

theorem Link.Ran.neutral {t : Terms} {raise : ServerError → Failure} {plan : String}
    {args : List Value} {r : Except Failure Value} {es : List Entry}
    (h : Ran t raise plan args r es) : ∀ e ∈ es, e.Neutral := by
  cases h with
  | unknown | cutOff => exact List.forall_mem_nil _
  | refused => exact List.forall_mem_singleton.mpr ⟨rfl, rfl⟩
  | failed _ _ _ _ hr | answered _ _ _ _ hr =>
    exact List.forall_mem_append.mpr
      ⟨Entry.neutral_prepare hr.prepares, List.forall_mem_singleton.mpr ⟨rfl, rfl⟩⟩

namespace Link.Neutral

theorem pure (x : α) : Link.Neutral (Pure.pure x : Program (Link σ) α) :=
  fun _ => .pure (List.forall_mem_nil _)

theorem throw (f : Failure) : Link.Neutral (MonadExcept.throw f : Program (Link σ) α) :=
  fun _ => .throw (List.forall_mem_nil _)

theorem bind {β : Type} {p : Program (Link σ) α} {f : α → Program (Link σ) β}
    (hp : Link.Neutral p) (hf : ∀ x, Link.Neutral (f x)) : Link.Neutral (p >>= f) :=
  fun t => (hp t).bind (fun x => hf x t) (fun _ _ h => h) fun _ _ _ _ h h' =>
    List.forall_mem_append.mpr ⟨h, h'⟩

theorem asked (q : Request) (value : Value → α) (raise : ServerError → Failure)
    (hq : ∀ reply, (Entry.asked q reply).Neutral) :
    Link.Neutral (σ := σ) (do
      match ← ask q with
      | .ok v => return value v
      | .error e => MonadExcept.throw (raise e)) := by
  refine fun t => (asked_records t q value raise).mono ?_
  rintro r es (⟨-, -, rfl⟩ | ⟨e, -, rfl⟩ | ⟨v, -, rfl⟩)
  · exact List.forall_mem_nil _
  · exact List.forall_mem_singleton.mpr (hq _)
  · exact List.forall_mem_singleton.mpr (hq _)

theorem inTransaction {p : Program (Link σ) α} (hp : Link.Neutral p) :
    Link.Neutral (Link.inTransaction p) := by
  refine fun t => (inTransaction_records (hp t)).mono ?_
  have hmarked : ∀ {es : List Entry} {m : Mark}, (∀ e ∈ es, e.Neutral) → m ≠ .close →
      ∀ e ∈ Entry.marked .start :: es ++ [.marked m], e.Neutral := by
    intro es m h hm
    refine List.forall_mem_append.mpr ⟨List.forall_mem_cons.mpr ⟨⟨rfl, rfl⟩, h⟩, ?_⟩
    refine List.forall_mem_singleton.mpr ⟨rfl, ?_⟩
    cases m <;> first | rfl | exact absurd rfl hm
  rintro r es (⟨-, -, rfl⟩ | ⟨fs, x, -, h, rfl⟩ | ⟨fs, f, -, h, rfl⟩)
  · exact List.forall_mem_nil _
  · exact hmarked h (by decide)
  · exact hmarked h (by decide)

theorem planAll : Link.Neutral (σ := σ) Link.planAll :=
  fun t => (planAll_records t).mono fun _ _ h => Entry.neutral_prepare h

end Link.Neutral

theorem Composed.neutral {writes : String → List Value → Prop} {p : Program (Link σ) α}
    (h : Composed writes p) : Link.Neutral p := by
  induction h with
  | @lift α r hr =>
    cases r with
    | ok x => exact .pure x
    | error f => exact .throw f
  | bind _ _ ihp ihf => exact ihp.bind ihf
  | inTransaction _ ih => exact ih.inTransaction
  | fetchValue sql args => exact .asked (.fetchValue sql args) (fun v => v) _ fun _ => ⟨rfl, rfl⟩
  | fetchRow sql args => exact .asked (.fetchRow sql args) (fun v => v) _ fun _ => ⟨rfl, rfl⟩
  | apply d => exact .asked (.execute d.sql []) (fun _ => ()) _ fun _ => ⟨rfl, rfl⟩
  | planAll => exact .planAll
  | read => exact fun t => (run_records t _ _).mono fun _ _ h => h.neutral
  | write => exact fun t => (Batch.invoke_records t _ _).mono fun _ _ h => h.neutral
  | copy table columns data =>
    exact .asked (.copy table columns data) (fun _ => ()) _ fun _ => ⟨rfl, rfl⟩

namespace Database.Service

variable {s : Service σ} {id : SessionId} {u : Option SessionId} {x : Session} {l : Link σ}

/-- A session that was used for requests only is as closed or open as before. -/
theorem Custody.sends {es : List Entry} (h : Custody u s) (hx : s.session? id = some x)
    (hs : Sends ⟨x, s.line⟩ es l) (hn : ∀ e ∈ es, e.Neutral) : Custody u (s.back id l) := by
  have hclosed : l.session.isClosed = x.isClosed := by
    have := congrArg Terms.connection hs.terms_eq
    simp only [Session.isClosed, show l.session.connection = x.connection from this]
  have hcount := countP_back (l := l) hx
  rw [hclosed, Nat.add_right_cancel_iff] at hcount
  refine ⟨h.orderly.back hx hclosed.symm.trans ?_, ?_⟩
  · rw [hs.log_eq, hcount]
    exact h.orderly.ledger.append_neutral hn
  · rw [← h.usable_eq]
    refine Option.ext fun i => ?_
    rw [usable?_eq_some_iff, usable?_eq_some_iff]
    refine and_congr_right fun _ => ?_
    rw [back_session? hx]
    split
    · subst i
      simp [hclosed, hx]
    · rfl

end Database.Service

end ChainArchive
