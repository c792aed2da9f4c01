import ChainArchive.Proofs.Database.Custody
import Mathlib.Data.List.Forall2

namespace ChainArchive

open ChainArchive.Link ChainArchive.Program ChainArchive.Schema

variable {σ : Type} {α : Type}

namespace Link.Applied

variable {t : Terms} {ds : List Ddl} {r : Except Failure Unit} {es : List Entry}

theorem neutral (h : Applied t ds r es) : ∀ e ∈ es, e.Neutral := by
  induction h with
  | nil | cutOff => exact List.forall_mem_nil _
  | failed => exact List.forall_mem_singleton.mpr ⟨rfl, rfl⟩
  | cons he _ ih =>
    obtain ⟨v, rfl⟩ := he
    exact List.forall_mem_cons.mpr ⟨⟨rfl, rfl⟩, ih⟩

theorem forall₂_executed (h : Applied t ds (.ok ()) es) : List.Forall₂ Executed ds es := by
  generalize hr : (Except.ok () : Except Failure Unit) = r at h
  induction h with
  | nil => exact .nil
  | cutOff | failed => cases hr
  | cons he _ ih => exact .cons he (ih hr)

end Link.Applied

namespace Database.Service

variable {u : Option SessionId}

theorem onLine_runFrom (p : Program (Line σ) α) (s : Service σ) :
    (onLine p).runFrom s = ((p.runFrom s.line).1, { s with line := (p.runFrom s.line).2 }) := rfl

theorem getSettings_maintains {P : Service σ → Prop}
    (hP : ∀ s settings, P s → P { s with settings }) (directory : String) :
    Maintains P (getSettings directory) := by
  intro s h
  simp only [getSettings, runFrom_bind, runFrom_get]
  cases s.settings with
  | some t => exact h
  | none =>
    simp only [runFrom_bind, runFrom_lift]
    cases Settings.load s.files directory with
    | error e => exact h
    | ok t => exact hP s (some t) h

theorem access_maintains {P : Service σ → Prop}
    (hP : ∀ s settings, P s → P { s with settings }) (url : Option String) :
    Maintains P (access url) := by
  have hcheck : ∀ a : Access, Maintains P (do
      if a.url = "" then throw .noUrl
      return a) := by
    intro a
    split
    · exact (Maintains.throw _).bind fun _ => .pure a
    · exact .pure a
  cases url with
  | some url => exact hcheck ⟨url, 5, true⟩
  | none =>
    refine Maintains.bind ?_ hcheck
    rw [map_eq_pure_bind]
    exact (getSettings_maintains hP ".").bind fun t => .pure (Access.ofSettings t)

variable [Server σ]

theorem onSession_maintains {p : Program (Link σ) α} (hp : Link.Neutral p) (id : SessionId) :
    Maintains (Custody u) (onSession id p) := by
  intro s h
  cases hx : s.session? id with
  | none =>
    rw [onSession_unknown hx]
    exact h
  | some x =>
    obtain ⟨es, hs, hn⟩ := hp _ ⟨x, s.line⟩ rfl
    rw [onSession_runFrom hx]
    exact h.sends hx hs hn

omit [Server σ] in
theorem onSession_ends_shut {p : Program (Link σ) α}
    (hp : ∀ l, Link.Shuts l (p.runFrom l).2) (id : SessionId) :
    Ends (Custody u) (onSession id p) fun _ => Custody (u.filter (· != id)) := by
  intro s h
  cases hx : s.session? id with
  | none =>
    rw [onSession_unknown hx]
    cases u with
    | none => exact h
    | some i =>
      have hi : i ≠ id := by
        rintro rfl
        obtain ⟨-, x, hx', -⟩ := usable?_eq_some_iff.mp h.usable_eq
        cases hx.symm.trans hx'
      rwa [Option.filter_some_pos (by simpa using hi)]
  | some x =>
    rw [onSession_runFrom hx]
    exact h.shut hx (hp ⟨x, s.line⟩)

theorem ensureDatabase_maintains {P : Service σ → Prop}
    (hP : ∀ s line (visits : List (List Entry)), P s → (∀ v ∈ visits, Visit v) →
      line.log = s.line.log ++ visits.flatten → P { s with line })
    (url : String) (maxTries : Int) : Maintains P (onLine (ensureDatabase url maxTries)) := by
  intro s h
  obtain ⟨es, hlog, visits, rfl, -, hv⟩ := ensureDatabase_leaves url maxTries s.line
  rw [onLine_runFrom]
  generalize (ensureDatabase url maxTries).runFrom s.line = ended at hlog ⊢
  exact hP s ended.2 visits h hv hlog

omit [Server σ] in
theorem Custody.visits {s : Service σ} {line : Line σ} {visits : List (List Entry)}
    (h : Custody u s) (hv : ∀ v ∈ visits, Visit v)
    (hlog : line.log = s.line.log ++ visits.flatten) : Custody u { s with line } :=
  h.line (hlog ▸ h.orderly.ledger.append_visits hv)

/-- On the way from `s` to a new session, before there is one. -/
structure Pending (s t : Service σ) : Prop where
  custody : Custody none t
  sessions_eq : t.sessions = s.sessions
  log : s.line.log <+: t.line.log

theorem openSession_ends (s : Service σ) (url : String) (maxTries : Int) :
    Ends (Pending s) (openSession url maxTries) fun r t => match r with
      | .ok id => id = s.sessions.length ∧ Custody (some id) { t with held := some id } ∧
          s.line.log <+: t.line.log
      | .error _ => Custody none t := by
  intro t h
  obtain ⟨es, hlog, hc⟩ := connect_leaves url maxTries t.line
  simp only [openSession, runFrom_bind, onLine_runFrom]
  cases hr : (connect url maxTries).runFrom t.line with
  | mk r line =>
    rw [hr] at hlog hc
    cases r with
    | error f =>
      refine h.custody.line ?_
      rw [hlog]
      exact h.custody.orderly.ledger.append_neutral hc.neutral
    | ok _ =>
      obtain ⟨failed, application, v, rfl, hf⟩ := hc.eq_concat
      have hledger := (h.custody.orderly.ledger.append_neutral hf).made url application v
      rw [List.append_assoc, ← show line.log = _ from hlog] at hledger
      refine ⟨congrArg List.length h.sessions_eq, h.custody.add rfl hledger, ?_⟩
      exact h.log.trans ⟨_, hlog.symm⟩

theorem Custody.applyEach {s : Service σ} {id : SessionId} (h : Custody (some id) s)
    (ds : List Ddl) : ∃ t r es u, (onSession id (Schema.applyEach ds)).runFrom s = (r, u) ∧
      Applied t ds r es ∧ Custody (some id) u ∧ u.line.log = s.line.log ++ es := by
  obtain ⟨-, x, hx, -⟩ := usable?_eq_some_iff.mp h.usable_eq
  obtain ⟨es, hs, happlied⟩ := applyEach_records _ ds ⟨x, s.line⟩ rfl
  exact ⟨_, _, es, _, onSession_runFrom hx _, happlied, h.sends hx hs happlied.neutral, hs.log_eq⟩

/-- The entries end with the drops of every table and then of every sequence. -/
def Resets (es : List Entry) : Prop :=
  ∃ before drops, es = before ++ drops ∧
    List.Forall₂ Executed (latest.tableDrops ++ latest.sequenceDrops) drops

/-- How a session is acquired. A new one that could not be reset is held all the same. -/
inductive Acquired (recreate : Bool) (s : Service σ) :
    Except Failure SessionId → Service σ → Prop
  | kept {id : SessionId} : Custody (some id) s → Acquired recreate s (.ok id) s
  | opened {t : Service σ} {es : List Entry} : s.usable? = none →
      Custody (some s.sessions.length) t → t.line.log = s.line.log ++ es →
      (recreate = true → Resets es) → Acquired recreate s (.ok s.sessions.length) t
  | unopened {f : Failure} {t : Service σ} : Custody none t → Acquired recreate s (.error f) t
  | unreset {id : SessionId} {f : Failure} {t : Service σ} : recreate = true →
      Custody (some id) t → Acquired recreate s (.error f) t

omit [Server σ] in
theorem Acquired.orderly {recreate : Bool} {r : Except Failure SessionId} {s t : Service σ}
    (h : Acquired recreate s r t) : t.Orderly := by
  cases h with
  | kept h | opened _ h | unopened h | unreset _ h => exact h.orderly

def resetting (recreate : Bool) (id : SessionId) : Program (Service σ) SessionId := do
  if recreate then
    onSession id latest.dropTables
    onSession id latest.dropSequences
  return id

theorem resetting_acquired {s t : Service σ} (hs : s.usable? = none)
    (ht : Custody (some s.sessions.length) t) (hlog : s.line.log <+: t.line.log)
    (recreate : Bool) : Acquired recreate s ((resetting recreate s.sessions.length).runFrom t).1
      ((resetting recreate s.sessions.length).runFrom t).2 := by
  obtain ⟨before, hbefore⟩ := hlog
  cases recreate with
  | false => exact .opened hs ht hbefore.symm nofun
  | true =>
    obtain ⟨_, r, es, u, hrun, happlied, hu, hes⟩ := ht.applyEach latest.tableDrops
    simp only [resetting, Layout.dropTables, Layout.dropSequences, ↓reduceIte, runFrom_bind, hrun]
    cases r with
    | error f => exact .unreset rfl hu
    | ok _ =>
      obtain ⟨_, r, fs, v, hrun', happlied', hv, hfs⟩ := hu.applyEach latest.sequenceDrops
      simp only [hrun']
      cases r with
      | error f => exact .unreset rfl hv
      | ok _ =>
        have hlog : v.line.log = s.line.log ++ (before ++ (es ++ fs)) := by
          rw [hfs, hes, ← hbefore]
          simp only [List.append_assoc]
        have hexecuted := List.rel_append happlied.forall₂_executed happlied'.forall₂_executed
        exact .opened hs hv hlog fun _ => ⟨before, es ++ fs, rfl, hexecuted⟩

theorem acquire_acquired {s : Service σ} (h : s.Orderly) (url : Option String) (recreate : Bool) :
    Acquired recreate s ((acquire url recreate).runFrom s).1
      ((acquire url recreate).runFrom s).2 := by
  simp only [acquire, runFrom_bind, runFrom_get]
  cases hu : s.usable? with
  | some id => exact .kept ⟨h, hu⟩
  | none =>
    refine (show Ends (Pending s) _ (Acquired recreate s) from ?_) s
      ⟨⟨h, hu⟩, rfl, List.prefix_refl _⟩
    have haccess : Maintains (Pending s) (access url) :=
      access_maintains (fun t _ ht => ⟨ht.custody.settings _, ht.sessions_eq, ht.log⟩) url
    refine Ends.bind haccess (fun a => ?_) fun _ _ ht => .unopened ht.custody
    have hensure : Maintains (Pending s) (onLine (ensureDatabase a.url a.maxTries)) :=
      ensureDatabase_maintains (fun t _ _ ht hv hlog =>
        ⟨ht.custody.visits hv hlog, ht.sessions_eq, ht.log.trans ⟨_, hlog.symm⟩⟩) a.url a.maxTries
    have hopen : Ends (Pending s) (openSession a.url a.maxTries >>= fun id =>
        modify (fun t => { t with held := some id }) >>= fun _ => resetting recreate id)
        (Acquired recreate s) := by
      refine (openSession_ends s a.url a.maxTries).bind ?_ fun _ _ => .unopened
      rintro _ t ⟨rfl, ht, hlog⟩
      exact resetting_acquired hu ht hlog recreate
    split
    · exact Ends.bind hensure (fun _ => hopen) fun _ _ ht => .unopened ht.custody
    · exact hopen

end Database.Service

end ChainArchive
