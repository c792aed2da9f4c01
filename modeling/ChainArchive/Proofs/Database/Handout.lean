import ChainArchive.Proofs.Database.Histories
import ChainArchive.Server.Scripted

namespace ChainArchive.Database.Service

open ChainArchive.Program ChainArchive.Schema

variable {σ : Type} {s t : Service σ} {id : SessionId} {recreate : Bool}

def isOpen (s : Service σ) (id : SessionId) : Bool := (s.session? id).any (!·.isClosed)

theorem isOpen_iff (h : s.held = some id) : s.isOpen id = true ↔ s.usable? = some id := by
  rw [usable?_eq_some_iff, and_iff_right h, isOpen, Option.any_eq_true]
  simp

theorem Acquired.custody (h : Acquired recreate s (.ok id) t) : Custody (some id) t := by
  cases h with
  | kept h | opened _ h => exact h

theorem Custody.held_eq (h : Custody (some id) s) : s.held = some id :=
  (usable?_eq_some_iff.mp h.usable_eq).1

theorem Acquired.eq_iff {other : SessionId} (h : Acquired recreate s (.ok other) t)
    (hs : s.Orderly) (hid : s.held = some id) : other = id ↔ s.isOpen id = true := by
  rw [isOpen_iff hid]
  cases h with
  | kept h =>
    rw [h.usable_eq]
    exact ⟨fun h => h ▸ rfl, Option.some.inj⟩
  | opened hu =>
    rw [hu]
    exact ⟨fun h => absurd (hs.known id hid) (Nat.not_lt.mpr (h ▸ Nat.le_refl _)), nofun⟩

theorem not_resets_of_same (log : List Entry) : ¬∃ es, log = log ++ es ∧ Resets es := by
  rintro ⟨es, hlog, before, drops, hes, hexecuted⟩
  have hes : before ++ drops = [] := hes.symm.trans (List.append_right_eq_self.mp hlog.symm)
  rw [(List.append_eq_nil_iff.mp hes).2] at hexecuted
  exact absurd (List.forall₂_nil_right_iff.mp hexecuted) (by decide)

variable [Server σ]

theorem acquire_runFrom_of_usable (h : s.usable? = some id) (url : Option String)
    (recreate : Bool) : (acquire url recreate).runFrom s = (.ok id, s) := by
  simp only [acquire, runFrom_bind, runFrom_get, h]
  rfl

theorem getSession_runFrom_of_held (h : s.held = some id) :
    getSession.runFrom s = (.ok id, s) := by
  simp only [getSession, runFrom_bind, runFrom_get, h]
  rfl

/-- A session that was asked for is the one that is held then; it is open unless the one that was
held before was closed. -/
theorem getSession_ends (hs : s.Orderly) (h : getSession.runFrom s = (.ok id, t)) :
    t.Orderly ∧ t.held = some id ∧
      (t.isOpen id = true ↔ s.heldSession?.all (!·.isClosed) = true) := by
  cases hheld : s.held with
  | some i =>
    rw [getSession_runFrom_of_held hheld] at h
    cases h
    have hlt : id < s.sessions.length := hs.known id hheld
    have hx : s.session? id = some s.sessions[id] := List.getElem?_eq_getElem hlt
    exact ⟨hs, hheld, by simp [isOpen, heldSession?, hheld, hx]⟩
  | none =>
    simp only [getSession, runFrom_bind, runFrom_get, hheld] at h
    have hacquired := acquire_acquired hs none false
    rw [h] at hacquired
    have hc := hacquired.custody
    refine ⟨hc.orderly, hc.held_eq, ?_⟩
    simp [isOpen_iff hc.held_eq, hc.usable_eq, heldSession?, hheld]

/-- Acquiring never hands out a closed session, and whoever asks next gets the same one. Asking for
the held session hands out a closed one exactly if the held one was closed, and acquiring next gets
the same one exactly if it is open. -/
theorem sessions_handed_out (server : σ) (files : Settings.Files)
    (settings : Option Settings.Table) (ops : List Op) :
    let s := after ops (start server files settings)
    (∀ url recreate id t, (acquire url recreate).runFrom s = (.ok id, t) →
      t.isOpen id = true ∧ getSession.runFrom t = (.ok id, t)) ∧
    ∀ id t, getSession.runFrom s = (.ok id, t) →
      (t.isOpen id = true ↔ s.heldSession?.all (!·.isClosed) = true) ∧
      ∀ url recreate other u, (acquire url recreate).runFrom t = (.ok other, u) →
        (other = id ↔ t.isOpen id = true) := by
  intro s
  have hs : s.Orderly := (start_orderly server files settings).after ops
  refine ⟨fun url recreate id t h => ?_, fun id t h => ?_⟩
  · have hacquired := acquire_acquired hs url recreate
    rw [h] at hacquired
    have hc := hacquired.custody
    exact ⟨(isOpen_iff hc.held_eq).mpr hc.usable_eq, getSession_runFrom_of_held hc.held_eq⟩
  · obtain ⟨ht, hheld, hopen⟩ := getSession_ends hs h
    refine ⟨hopen, fun url recreate other u h => ?_⟩
    have hacquired := acquire_acquired ht url recreate
    rw [h] at hacquired
    exact hacquired.eq_iff ht hheld

theorem runFrom_eq_of_toOption {τ α : Type} {p : Program τ α} {a : τ} {x : α}
    (h : (p.runFrom a).1.toOption = some x) : p.runFrom a = (.ok x, (p.runFrom a).2) := by
  cases hp : p.runFrom a with
  | mk r b =>
    rw [hp] at h
    cases r with
    | error e => cases h
    | ok y =>
      cases h
      rfl

theorem after_acquire (url : Option String) (recreate : Bool) (s : Service σ) :
    after [.acquire url recreate] s = ((acquire url recreate).runFrom s).2 := rfl

theorem handed_out_open :
    let server := { Script.empty with fetchValue := .bool true }
    let s := after [.acquire (some "postgresql://h/evt") false] (start server [] none)
    s.isOpen 0 = true ∧ getSession.runFrom s = (.ok 0, s) ∧
      (s.isOpen 0 = true ↔ s.heldSession?.all (!·.isClosed) = true) := by
  intro server s
  have hid : ((acquire (some "postgresql://h/evt") false).runFrom
      (start server [] none)).1.toOption = some 0 := by decide +kernel
  have hrun := runFrom_eq_of_toOption hid
  rw [← after_acquire] at hrun
  obtain ⟨hopen, hheld⟩ := (sessions_handed_out server [] none []).1 _ _ 0 s hrun
  exact ⟨hopen, hheld, ((sessions_handed_out server [] none _).2 0 s hheld).1⟩

/-- The session that is held was closed, and is handed out all the same. -/
theorem not_open_after_closeSession :
    let server := { Script.empty with fetchValue := .bool true }
    let s := after [.acquire (some "postgresql://h/evt") false, .closeSession 0]
      (start server [] none)
    ∃ t, getSession.runFrom s = (.ok 0, t) ∧ t.isOpen 0 = false := by
  intro server s
  have hheld : s.held = some 0 := by decide +kernel
  exact ⟨s, getSession_runFrom_of_held hheld, by decide +kernel⟩

omit [Server σ] in
theorem all_heldSession? (s : Service σ) :
    s.heldSession?.all Session.isClosed = s.usable?.isNone := by
  rw [← Option.not_isSome, ← any_heldSession?]
  cases s.heldSession? <;> simp

/-- Acquiring with a reset drops every table and then every sequence exactly if no session was in
use. -/
theorem acquire_resets_iff (server : σ) (files : Settings.Files)
    (settings : Option Settings.Table) (ops : List Op) {url : Option String}
    (h : (acquire url true).runFrom (after ops (start server files settings)) = (.ok id, t)) :
    (∃ es, t.line.log = (after ops (start server files settings)).line.log ++ es ∧ Resets es) ↔
      (after ops (start server files settings)).heldSession?.all Session.isClosed = true := by
  have hs := (start_orderly server files settings).after ops
  generalize after ops (start server files settings) = s at h hs ⊢
  have hacquired := acquire_acquired hs url true
  rw [h] at hacquired
  rw [all_heldSession?]
  cases hacquired with
  | kept hc =>
    rw [hc.usable_eq]
    exact ⟨fun h => absurd h (not_resets_of_same _), nofun⟩
  | opened hu _ hlog hes =>
    rw [hu]
    exact ⟨fun _ => rfl, fun _ => ⟨_, hlog, hes rfl⟩⟩

theorem acquire_resets_first :
    let s := after [] (start { Script.empty with fetchValue := .bool true } [] none)
    ∃ t, (acquire (some "postgresql://h/evt") true).runFrom s = (.ok 0, t) ∧
      ∃ es, t.line.log = s.line.log ++ es ∧ Resets es := by
  intro s
  have hid : ((acquire (some "postgresql://h/evt") true).runFrom s).1.toOption = some 0 := by
    decide +kernel
  have hclosed : s.heldSession?.all Session.isClosed = true := by decide +kernel
  have hrun := runFrom_eq_of_toOption hid
  exact ⟨_, hrun, (acquire_resets_iff _ _ _ _ hrun).mpr hclosed⟩

/-- A drop fails and so does acquiring; acquired once more, the same session is handed out and
nothing is dropped. -/
theorem not_resets_after_failed_drop :
    let server := { Script.empty with fetchValue := .bool true, failExecute := ["public.blocks"] }
    let again := acquire (some "postgresql://h/evt") true
    let s := after [.acquire (some "postgresql://h/evt") true] (start server [] none)
    (again.runFrom (start server [] none)).1.toOption = none ∧
      ∃ t, again.runFrom s = (.ok 0, t) ∧ ¬∃ es, t.line.log = s.line.log ++ es ∧ Resets es := by
  intro server again s
  have hfailed : (again.runFrom (start server [] none)).1.toOption = none := by decide +kernel
  have husable : s.usable? = some 0 := by decide +kernel
  exact ⟨hfailed, s, acquire_runFrom_of_usable husable _ _, not_resets_of_same _⟩

end ChainArchive.Database.Service
