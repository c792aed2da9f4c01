import ChainArchive.Proofs.Session.Sends
import ChainArchive.Schema.Apply

namespace ChainArchive.Link

open ChainArchive.Schema

variable {σ : Type} [Server σ] {α : Type}

def registrationFailure (plan : String) (e : ServerError) : Failure :=
  if e.isDatabase then .register plan (some e) else .server e

def transferFailure (table : String) (e : ServerError) : Failure :=
  if e.isDatabase || e.isInterface then .transfer table e else .server e

/-- The entries of a registration that may have been made before. -/
inductive Registered (t : Terms) (p : Plan) : List Entry → Prop
  | before : Registered t p []
  | now (v : Value) : t.connection ≠ .released → Registered t p [.asked (.prepare p) (.ok v)]

/-- The entries of a statement that is run once: its registration, if that is still to be made,
and its run. Errors of the run are raised as `raise` says. -/
inductive Ran (t : Terms) (raise : ServerError → Failure) (plan : String) (args : List Value) :
    Except Failure Value → List Entry → Prop
  | unknown : Statement.find? t.statements plan = none →
      Ran t raise plan args (.error (.register plan none)) []
  | cutOff : t.connection = .released → Ran t raise plan args (.error .noConnection) []
  | refused (p : Plan) (e : ServerError) : Statement.find? t.statements plan = some p →
      Ran t raise plan args (.error (registrationFailure plan e)) [.asked (.prepare p) (.error e)]
  | failed (p : Plan) (es : List Entry) (e : ServerError) :
      Statement.find? t.statements plan = some p → Registered t p es →
      Ran t raise plan args (.error (raise e)) (es ++ [.asked (.run p args) (.error e)])
  | answered (p : Plan) (es : List Entry) (v : Value) :
      Statement.find? t.statements plan = some p → Registered t p es →
      Ran t raise plan args (.ok v) (es ++ [.asked (.run p args) (.ok v)])

inductive Copied (t : Terms) (table : String) (columns : List String) (data : List Char) :
    Except Failure Unit → List Entry → Prop
  | cutOff : t.connection = .released → Copied t table columns data (.error .noConnection) []
  | failed (e : ServerError) : Copied t table columns data (.error (transferFailure table e))
      [.asked (.copy table columns data) (.error e)]
  | done (v : Value) : Copied t table columns data (.ok ())
      [.asked (.copy table columns data) (.ok v)]

def Executed (d : Ddl) (e : Entry) : Prop := ∃ v, e = .asked (.execute d.sql []) (.ok v)

inductive Applied (t : Terms) : List Ddl → Except Failure Unit → List Entry → Prop
  | nil : Applied t [] (.ok ()) []
  | cutOff {d : Ddl} {ds : List Ddl} : t.connection = .released →
      Applied t (d :: ds) (.error .noConnection) []
  | failed {d : Ddl} {ds : List Ddl} (e : ServerError) :
      Applied t (d :: ds) (.error (if e.isDatabase then d.failure e else .server e))
        [.asked (.execute d.sql []) (.error e)]
  | cons {d : Ddl} {ds : List Ddl} {e : Entry} {r : Except Failure Unit} {es : List Entry} :
      Executed d e → Applied t ds r es → Applied t (d :: ds) r (e :: es)

inductive Planned (t : Terms) (name : String) : Except Failure Plan → List Entry → Prop
  | unknown : Statement.find? t.statements name = none →
      Planned t name (.error (.register name none)) []
  | cutOff : t.connection = .released → Planned t name (.error .noConnection) []
  | refused (p : Plan) (e : ServerError) : Statement.find? t.statements name = some p →
      Planned t name (.error (registrationFailure name e)) [.asked (.prepare p) (.error e)]
  | ready (p : Plan) (es : List Entry) : Statement.find? t.statements name = some p →
      Registered t p es → Planned t name (.ok p) es

variable {t : Terms} {p : Plan} {es : List Entry}

theorem Registered.prepares (h : Registered t p es) :
    ∀ e ∈ es, ∃ q reply, e = .asked (.prepare q) reply := by
  cases h with
  | before => exact List.forall_mem_nil _
  | now v => exact List.forall_mem_singleton.mpr ⟨p, .ok v, rfl⟩

theorem Planned.prepares {name : String} {r : Except Failure Plan} (h : Planned t name r es) :
    ∀ e ∈ es, ∃ q reply, e = .asked (.prepare q) reply := by
  cases h with
  | unknown | cutOff => exact List.forall_mem_nil _
  | refused p e => exact List.forall_mem_singleton.mpr ⟨p, .error e, rfl⟩
  | ready _ _ _ hr => exact hr.prepares

theorem plan_records (t : Terms) (name : String) :
    Records (σ := σ) t (plan name) (Planned t name) := by
  intro l hl
  have hst : t.statements = l.session.statements := hl ▸ rfl
  simp only [plan, Program.runFrom_bind, Program.runFrom_get]
  cases hf : Statement.find? l.session.statements name with
  | none => exact ⟨[], .refl l, .unknown (hst ▸ hf)⟩
  | some p =>
    by_cases hr : l.session.isRegistered name
    · simp only [hr, ↓reduceIte]
      exact ⟨[], .refl l, .ready p [] (hst ▸ hf) .before⟩
    · obtain ⟨es, hs, hq⟩ := ask_records t (.prepare p) l hl
      simp only [hr, Bool.false_eq_true, ↓reduceIte, Program.runFrom_bind]
      cases ha : (ask (.prepare p)).runFrom l with
      | mk r m =>
        rw [ha] at hs hq
        obtain ⟨hc, rfl, rfl⟩ | ⟨hc, reply, rfl, rfl⟩ := hq
        · exact ⟨[], hs, .cutOff hc⟩
        · cases reply with
          | error e => exact ⟨_, hs, .refused p e (hst ▸ hf)⟩
          | ok v => exact ⟨_, .register name hs, .ready p _ (hst ▸ hf) (.now v hc)⟩

theorem planAll_records (t : Terms) : Records (σ := σ) t planAll fun _ es =>
    ∀ e ∈ es, ∃ q reply, e = .asked (.prepare q) reply := by
  have heach : ∀ names, Records (σ := σ) t (planEach names) fun _ es =>
      ∀ e ∈ es, ∃ q reply, e = .asked (.prepare q) reply := by
    intro names
    induction names with
    | nil => exact .pure (List.forall_mem_nil _)
    | cons name names ih =>
      exact ((plan_records t name).mono fun _ _ h => h.prepares).bind (fun _ => ih)
        (fun _ _ h => h) fun _ _ _ _ h h' => List.forall_mem_append.mpr ⟨h, h'⟩
  exact fun l hl => heach _ l hl

theorem asked_records (t : Terms) (r : Request) (value : Value → α)
    (raise : ServerError → Failure) :
    Records (σ := σ) t (do
      match ← ask r with
      | .ok v => return value v
      | .error e => throw (raise e)) fun res es =>
      (t.connection = .released ∧ res = .error .noConnection ∧ es = []) ∨
      (∃ e, res = .error (raise e) ∧ es = [.asked r (.error e)]) ∨
      (∃ v, res = .ok (value v) ∧ es = [.asked r (.ok v)]) := by
  refine (ask_records t r).bind
    (S := fun reply res es => es = [] ∧ (∀ e, reply = .error e → res = .error (raise e)) ∧
      ∀ v, reply = .ok v → res = .ok (value v))
    (fun reply => ?_) ?_ ?_
  · cases reply with
    | error e => exact .throw ⟨rfl, by simp, by simp⟩
    | ok v => exact .pure ⟨rfl, by simp, by simp⟩
  · rintro e es (⟨hc, he, rfl⟩ | ⟨-, reply, he, -⟩)
    · exact .inl ⟨hc, by simpa using he, rfl⟩
    · cases he
  · rintro reply es res fs (⟨-, he, -⟩ | ⟨-, reply', he, rfl⟩) ⟨rfl, herr, hok⟩
    · cases he
    · cases he
      cases reply with
      | error e => exact .inr (.inl ⟨e, herr e rfl, rfl⟩)
      | ok v => exact .inr (.inr ⟨v, hok v rfl, rfl⟩)

theorem passing_records (t : Terms) (r : Request) :
    Records (σ := σ) t (passing r) fun res es =>
      (t.connection = .released ∧ res = .error .noConnection ∧ es = []) ∨
      (∃ e, res = .error (.server e) ∧ es = [.asked r (.error e)]) ∨
      (∃ v, res = .ok v ∧ es = [.asked r (.ok v)]) :=
  asked_records t r (fun v => v) .server

theorem run_records (t : Terms) (plan : String) (args : List Value) :
    Records (σ := σ) t (run plan args) (Ran t .server plan args) := by
  refine (plan_records t plan).bind (fun p => passing_records t (.run p args)) ?_ ?_
  · intro e es h
    cases h with
    | unknown h => exact .unknown h
    | cutOff h => exact .cutOff h
    | refused p e h => exact .refused p e h
  · intro p es r fs h hp
    cases h with
    | ready _ _ hf hr =>
      obtain ⟨hc, rfl, rfl⟩ | ⟨e, rfl, rfl⟩ | ⟨v, rfl, rfl⟩ := hp
      · cases hr with
        | before => exact .cutOff hc
        | now v hr => exact absurd hc hr
      · exact .failed p es e hf hr
      · exact .answered p es v hf hr

theorem copyInto_records (t : Terms) (table : String) (columns : List String) (data : List Char) :
    Records (σ := σ) t (copyInto table columns data) (Copied t table columns data) := by
  refine (asked_records t (.copy table columns data) (fun _ => ()) (transferFailure table)).mono ?_
  rintro res es (⟨hc, rfl, rfl⟩ | ⟨e, rfl, rfl⟩ | ⟨v, rfl, rfl⟩)
  · exact .cutOff hc
  · exact .failed e
  · exact .done v

theorem applyEach_records (t : Terms) (ds : List Ddl) :
    Records (σ := σ) t (applyEach ds) (Applied t ds) := by
  induction ds with
  | nil => exact .pure .nil
  | cons d ds ih =>
    refine (asked_records t (.execute d.sql []) (fun _ => ())
      fun e => if e.isDatabase then d.failure e else .server e).bind (fun _ => ih) ?_ ?_
    · rintro f es (⟨hc, he, rfl⟩ | ⟨e, he, rfl⟩ | ⟨v, he, -⟩)
      · cases he
        exact .cutOff hc
      · cases he
        exact .failed e
      · cases he
    · rintro _ es r fs (⟨-, he, -⟩ | ⟨e, he, -⟩ | ⟨v, -, rfl⟩) h
      · cases he
      · cases he
      · exact .cons ⟨v, rfl⟩ h

end ChainArchive.Link
