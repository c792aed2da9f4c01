import ChainArchive.Command.Operate
import ChainArchive.Proofs.Database.Acquiring

namespace ChainArchive

open ChainArchive.Command ChainArchive.Ingest ChainArchive.Link ChainArchive.Program
  ChainArchive.Schema

variable {σ : Type} [Server σ] {α : Type}

namespace Database.Service

variable {u : Option SessionId}

theorem getSession_maintains : Maintains (Orderly (σ := σ)) getSession := by
  intro s h
  simp only [getSession, runFrom_bind, runFrom_get]
  cases s.held with
  | some id => exact h
  | none => exact (acquire_acquired h none false).orderly

theorem startup_maintains (id : SessionId) (pipeline : Pipeline) :
    Maintains (Custody (σ := σ) u) (onPipeline id pipeline Intake.startup) := by
  intro s h
  simp only [onPipeline, runFrom_of]
  cases hx : s.session? id with
  | none => exact h
  | some x =>
    obtain ⟨es, hs, hn⟩ := (Composed.prepare vocabulary_any pipeline.layout
      pipeline.version).neutral _ ⟨x, s.line⟩ rfl
    rw [← (Intake.startup_runFrom ⟨pipeline, ⟨x, s.line⟩⟩).2] at hs
    exact h.sends hx hs hn

theorem openPipeline_maintains (earlier : Pipeline) (url : Option String) (recreate : Bool) :
    Maintains (Orderly (σ := σ)) (openPipeline earlier url recreate) := by
  have hacquire : Maintains (Orderly (σ := σ)) (acquire url recreate) :=
    fun s h => (acquire_acquired h url recreate).orderly
  refine hacquire.bind fun id => Maintains.bind ?_ fun started =>
    (Maintains.lift started.1).bind fun _ => .pure (id, started.2)
  exact fun s h => (startup_maintains id _ s h.custody).orderly

theorem close_ends : Ends (Orderly (σ := σ)) close fun r s => r = .ok () ∧ Custody none s := by
  intro s h
  simp only [close, runFrom_bind, runFrom_get]
  cases hheld : s.held with
  | none => exact ⟨rfl, h, by simp [usable?, hheld]⟩
  | some id =>
    have hlt : id < s.sessions.length := h.known id hheld
    have hx : s.session? id = some s.sessions[id] := List.getElem?_eq_getElem hlt
    have hshut := h.custody.shut hx (.close _)
    have hnone : s.usable?.filter (· != id) = none := by
      rw [usable?, hheld, Option.filter_filter]
      simp
    rw [hnone] at hshut
    have hrun : (onSession id (modify Link.close)).runFrom s = _ := onSession_runFrom hx _
    simp only [runFrom_bind, hrun]
    exact ⟨rfl, hshut.letGo⟩

omit [Server σ] in
theorem onService_maintains {P : Service σ → Prop} {p : Program (Service σ) α}
    (h : Maintains P p) : Maintains (fun k => P k.service) (Console.onService p) :=
  fun k hk => h k.service hk

theorem onSession_composed {p : Program (Link σ) α} (hp : Composed (fun _ _ => True) p)
    (id : SessionId) : Maintains (fun k => Orderly k.service) (Console.onSession id p) :=
  onService_maintains fun s h => (onSession_maintains hp.neutral id s h.custody).orderly

theorem showStatus_maintains (id : SessionId) :
    Maintains (fun k => Orderly k.service) (Console.showStatus (σ := σ) id) := by
  have hsay : ∀ line, Maintains (fun k : Console σ => Orderly k.service) (Console.say line) :=
    fun _ _ h => h
  refine (onSession_composed (Composed.tableExists latest "stats") id).bind fun found => ?_
  split
  · refine (onSession_composed (.read (.stat _)) id).bind fun version => ?_
    refine (hsay _).bind fun _ => (onSession_composed (.read (.stat _)) id).bind fun last => ?_
    exact (hsay _).bind fun _ => (onSession_composed (.read .latest) id).bind fun blockId => hsay _
  · exact hsay _

theorem dropAll_maintains (id : SessionId) :
    Maintains (fun k => Orderly k.service) (Console.dropAll (σ := σ) id) :=
  (onSession_composed (Composed.applyEach latest.tableDrops) id).bind fun _ =>
    onSession_composed (Composed.applyEach latest.sequenceDrops) id

theorem perform_ends (c : Command) :
    Ends (fun k => Orderly k.service) (Console.perform (σ := σ) c) fun _ k =>
      Custody none k.service := by
  have hacquire : Ends (fun k : Console σ => Orderly k.service)
      (Console.onService (acquire none false)) fun r k =>
        k.service.Orderly ∧ ∀ f, r = .error f → Custody none k.service := by
    intro k h
    have hacquired := acquire_acquired h none false
    refine ⟨hacquired.orderly, fun f hf => ?_⟩
    have hf : ((acquire none false).runFrom k.service).1 = .error f := hf
    rw [hf] at hacquired
    cases hacquired with
    | unopened h => exact h
    | unreset hr => cases hr
  refine hacquire.bind (fun id k h => ?_) fun f k h => h.2 f rfl
  have hclosing : ∀ p : Program (Console σ) Unit, Maintains (fun k => Orderly k.service) p →
      Ends (fun k => Orderly k.service) (p.ensuring Console.closeService) fun _ k =>
        Custody none k.service :=
    fun p hp k h => (close_ends _ (hp k h)).2
  cases c with
  | status => exact hclosing _ (showStatus_maintains id) k h.1
  | reset => exact hclosing _ (dropAll_maintains id) k h.1

omit [Server σ] in
theorem outputOf_snd (p : Program (Console σ) Unit) (s : Service σ) :
    (Console.outputOf p s).2 = (p.runFrom ⟨s, ""⟩).2.service := by
  unfold Console.outputOf
  cases p.runFrom ⟨s, ""⟩
  rfl

theorem operate_orderly (args : List String) {s : Service σ} (h : s.Orderly) :
    (operate args s).2.Orderly := by
  unfold operate
  split
  · exact h
  · exact h
  · rename_i c _
    rw [outputOf_snd]
    have hsettings : Maintains (fun k : Console σ => Orderly k.service)
        (Console.onService (getSettings ".")) :=
      onService_maintains
        (getSettings_maintains (fun _ _ h => (h.custody.settings _).orderly) ".")
    exact Ends.bind (R := fun _ k => Orderly k.service) hsettings
      (fun _ k hk => (perform_ends c k hk).orderly) (fun _ _ hk => hk) ⟨s, ""⟩ h

/-- What can be asked of a service, and what can happen to its sessions from outside. -/
inductive Op where
  | acquire (url : Option String) (recreate : Bool)
  | getSession
  | openPipeline (earlier : Pipeline) (url : Option String) (recreate : Bool)
  | close
  | ensureDatabase (url : String) (maxTries : Int)
  | closeSession (id : SessionId)
  | severSession (id : SessionId)
  | perform (c : Command)
  | operate (args : List String)

def Op.apply (s : Service σ) : Op → Service σ
  | .acquire url recreate => ((Service.acquire url recreate).runFrom s).2
  | .getSession => (Service.getSession.runFrom s).2
  | .openPipeline earlier url recreate => ((Service.openPipeline earlier url recreate).runFrom s).2
  | .close => (Service.close.runFrom s).2
  | .ensureDatabase url maxTries => ((onLine (Database.ensureDatabase url maxTries)).runFrom s).2
  | .closeSession id => ((onSession id (modify Link.close)).runFrom s).2
  | .severSession id => ((onSession id sever).runFrom s).2
  | .perform c => ((Console.perform c).runFrom ⟨s, ""⟩).2.service
  | .operate args => (Command.operate args s).2

def start (server : σ) (files : Settings.Files) (settings : Option Settings.Table) : Service σ :=
  ⟨⟨server, []⟩, files, settings, [], none⟩

def after (ops : List Op) (s : Service σ) : Service σ := ops.foldl Op.apply s

theorem Orderly.apply {s : Service σ} (h : s.Orderly) (op : Op) : (op.apply s).Orderly := by
  cases op with
  | acquire url recreate => exact (acquire_acquired h url recreate).orderly
  | getSession => exact getSession_maintains s h
  | openPipeline earlier url recreate => exact openPipeline_maintains earlier url recreate s h
  | close => exact (close_ends s h).2.orderly
  | ensureDatabase url maxTries =>
    exact ensureDatabase_maintains (P := Orderly)
      (fun _ _ _ h hv hlog => (h.custody.visits hv hlog).orderly) url maxTries s h
  | closeSession id => exact (onSession_ends_shut .close id s h.custody).orderly
  | severSession id => exact (onSession_ends_shut .sever id s h.custody).orderly
  | perform c => exact (perform_ends c ⟨s, ""⟩ h).orderly
  | operate args => exact operate_orderly args h

theorem Orderly.after {s : Service σ} (h : s.Orderly) (ops : List Op) : (after ops s).Orderly := by
  induction ops generalizing s with
  | nil => exact h
  | cons op ops ih => exact ih (h.apply op)

omit [Server σ] in
theorem start_orderly (server : σ) (files : Settings.Files) (settings : Option Settings.Table) :
    (start server files settings).Orderly :=
  ⟨nofun, nofun, .nil⟩

omit [Server σ] in
/-- The log of an orderly service shows its session in use. -/
theorem Orderly.balanced {s : Service σ} (h : s.Orderly) :
    s.line.log.countP Entry.opens = s.line.log.countP Entry.closes +
      if s.heldSession?.any (!·.isClosed) then 1 else 0 := by
  have hopen : s.sessions.countP (!·.isClosed) =
      if s.heldSession?.any (!·.isClosed) then 1 else 0 := by
    cases hheld : s.held with
    | none =>
      have hnone : s.sessions.countP (!·.isClosed) = 0 := List.countP_eq_zero.mpr fun x hx hc => by
        obtain ⟨i, hi⟩ := List.mem_iff_getElem?.mp hx
        exact absurd (h.held_of_open i x hi (by simpa using hc)) (by simp [hheld])
      simp [hnone, heldSession?, hheld]
    | some id =>
      have hid : ∀ i x, s.sessions[i]? = some x → (!x.isClosed) = true → i = id :=
        fun i x hi hc => Option.some.inj
          ((h.held_of_open i x hi (by simpa using hc)).symm.trans hheld)
      simpa [heldSession?, hheld, session?] using countP_eq_ite hid
  have hlength := List.length_eq_countP_add_countP Session.isClosed (l := s.sessions)
  have hledger := h.ledger.countP_eq
  rw [← hopen]
  simp only [Bool.not_eq_true, Bool.decide_eq_false] at hlength
  omega

omit [Server σ] in
theorem any_heldSession? (s : Service σ) :
    s.heldSession?.any (!·.isClosed) = s.usable?.isSome := by
  unfold heldSession? usable?
  cases s.held with
  | none => rfl
  | some id =>
    cases hx : s.session? id with
    | none => simp [Option.filter_some, hx]
    | some x => cases hc : x.isClosed <;> simp [Option.filter_some, hx, hc]

/-- Connections never leak. Whatever a service was asked to do, the connections that were made and
not closed are the one of the session in use; every visit to a maintenance database closes its own;
and after a command none is left. -/
theorem connections_balanced (server : σ) (files : Settings.Files)
    (settings : Option Settings.Table) (ops : List Op) :
    let s := after ops (start server files settings)
    s.line.log.countP Entry.opens = s.line.log.countP Entry.closes +
        (if s.heldSession?.any (!·.isClosed) then 1 else 0) ∧
      Ledger s.line.log s.sessions.length (s.sessions.countP Session.isClosed) ∧
      ∀ (c : Command) (printed : String),
        let t := ((Console.perform c).runFrom ⟨s, printed⟩).2.service
        t.line.log.countP Entry.opens = t.line.log.countP Entry.closes := by
  intro s
  have h : s.Orderly := (start_orderly server files settings).after ops
  refine ⟨h.balanced, h.ledger, fun c printed => ?_⟩
  have ht := perform_ends c ⟨s, printed⟩ h
  simpa [any_heldSession?, ht.usable_eq] using ht.orderly.balanced

end Database.Service

end ChainArchive
