import ChainArchive.Proofs.Ingest.History
import ChainArchive.Proofs.Session.Composed

namespace ChainArchive

open ChainArchive.Link ChainArchive.Program ChainArchive.Record

namespace Program

variable {s α β : Type} {φ : s → s}

/-- From a changed state the program does the same, and the change stays as it is. -/
def Commutes (φ : s → s) (p : Program s α) : Prop :=
  ∀ a, p.runFrom (φ a) = ((p.runFrom a).1, φ (p.runFrom a).2)

namespace Commutes

theorem lift (r : Except Failure α) : Commutes φ (Program.lift r) := fun _ => rfl

theorem pure (x : α) : Commutes φ (Pure.pure x) := fun _ => rfl

theorem throw (f : Failure) : Commutes φ (MonadExcept.throw f : Program s α) := fun _ => rfl

theorem modify {f : s → s} (hf : ∀ a, f (φ a) = φ (f a)) :
    Commutes φ (modify f : Program s PUnit) :=
  fun a => congrArg (Prod.mk _) (hf a)

theorem bind {p : Program s α} {f : α → Program s β} (hp : Commutes φ p)
    (hf : ∀ x, Commutes φ (f x)) : Commutes φ (p >>= f) := by
  intro a
  rw [runFrom_bind, runFrom_bind, hp a]
  cases p.runFrom a with
  | mk r b =>
    cases r with
    | ok x => exact hf x b
    | error e => rfl

theorem get_bind {f : s → Program s β} (hf : ∀ a, Commutes φ (f a))
    (hφ : ∀ a, f (φ a) = f a) : Commutes φ (MonadState.get >>= f) := by
  intro a
  have hrun : ∀ b, (MonadState.get >>= f).runFrom b = (f b).runFrom b := fun b => by
    rw [runFrom_bind, runFrom_get]
  rw [hrun, hrun, hφ a]
  exact hf a a

theorem mapFailure {p : Program s α} (hp : Commutes φ p) (g : Failure → Failure) :
    Commutes φ (p.mapFailure g) := by
  intro a
  rw [runFrom_mapFailure, runFrom_mapFailure, hp a]
  cases p.runFrom a with
  | mk r b => cases r <;> rfl

end Commutes

end Program

variable {σ : Type} {α : Type}

def Link.behind (es : List Entry) (l : Link σ) : Link σ :=
  { l with line := { l.line with log := es ++ l.line.log } }

namespace Link

variable [Server σ] {es : List Entry}

theorem mark_behind (m : Mark) (l : Link σ) : (l.behind es).mark m = (l.mark m).behind es := by
  simp [Link.mark, Line.mark, behind]

theorem ask_behind (r : Request) : Commutes (behind (σ := σ) es) (ask r) := by
  intro l
  have hline : (l.behind es).line.ask r =
      ((l.line.ask r).1, ((⟨l.session, (l.line.ask r).2⟩ : Link σ).behind es).line) := by
    simp [Line.ask, behind]
  simp only [ask, runFrom_of, hline]
  simp only [show (l.behind es).session = l.session from rfl]
  cases l.session.connection <;> rfl

theorem passing_behind (r : Request) : Commutes (behind (σ := σ) es) (passing r) := by
  refine (ask_behind r).bind fun reply => ?_
  cases reply with
  | ok v => exact .pure v
  | error e => exact .throw _

theorem plan_behind (name : String) : Commutes (behind (σ := σ) es) (plan name) := by
  refine .get_bind (fun l => ?_) fun l => rfl
  split
  · exact .throw _
  · split
    · exact .pure _
    · refine (ask_behind _).bind fun reply => ?_
      cases reply with
      | ok v =>
        have hregister : Commutes (behind (σ := σ) es)
            (modify fun l => { l with session.registered := l.session.registered ++ [name] }) :=
          .modify fun _ => rfl
        exact hregister.bind fun _ => .pure _
      | error e => exact .throw _

theorem run_behind (name : String) (args : List Value) :
    Commutes (behind (σ := σ) es) (run name args) :=
  (plan_behind name).bind fun p => passing_behind (.run p args)

theorem planEach_behind (names : List String) :
    Commutes (behind (σ := σ) es) (planEach names) := by
  induction names with
  | nil => exact .pure _
  | cons name names ih => exact (plan_behind name).bind fun _ => ih

theorem inTransaction_behind {p : Program (Link σ) α} (hp : Commutes (behind es) p) :
    Commutes (behind es) (inTransaction p) := by
  intro l
  have hbody := hp (l.mark .start)
  simp only [inTransaction, runFrom_of, mark_behind, hbody]
  simp only [show (l.behind es).session = l.session from rfl]
  cases l.session.connection with
  | released => rfl
  | live | severed =>
    dsimp only
    cases p.runFrom (l.mark .start) with
    | mk r m => cases r <;> simp only [mark_behind]

end Link

theorem Composed.commutes [Server σ] {writes : String → List Value → Prop}
    {p : Program (Link σ) α} (h : Composed writes p) (es : List Entry) :
    Commutes (Link.behind es) p := by
  induction h with
  | lift => exact .lift _
  | bind _ _ ihp ihf => exact ihp.bind ihf
  | inTransaction _ ih => exact inTransaction_behind ih
  | fetchValue | fetchRow => exact passing_behind _
  | apply d =>
    refine (ask_behind _).bind fun reply => ?_
    cases reply with
    | ok v => exact .pure _
    | error e => exact .throw _
  | planAll => exact .get_bind (fun l => planEach_behind _) fun l => rfl
  | read => exact run_behind _ _
  | write => exact (run_behind _ _).mapFailure _
  | copy table columns data =>
    refine (ask_behind _).bind fun reply => ?_
    cases reply with
    | ok v => exact .pure _
    | error e => exact .throw _

namespace Ingest

def Intake.behind (es : List Entry) (s : Intake σ) : Intake σ := { s with link := s.link.behind es }

def Event.behind (es : List Entry) (e : Event σ) : Event σ :=
  ⟨e.op, e.before.behind es, e.result, e.after.behind es⟩

namespace Intake

variable {es : List Entry}

theorem onPipeline_behind (f : Pipeline → Except Failure α × Pipeline) :
    Commutes (behind (σ := σ) es) (onPipeline f) := fun _ => rfl

theorem update_behind (f : Pipeline → Pipeline) :
    Commutes (behind (σ := σ) es) (update f) := fun _ => rfl

theorem concluding_behind {p : Program (Intake σ) Unit} (hp : Commutes (behind es) p)
    (b : Block) : Commutes (behind es) (concluding b p) := by
  intro s
  rw [concluding_runFrom, concluding_runFrom, hp s]
  rfl

variable [Server σ]

theorem onLink_behind {p : Program (Link σ) α} (hp : Composed (fun _ _ => True) p) :
    Commutes (behind es) (onLink p) := by
  intro s
  rw [onLink_runFrom, onLink_runFrom]
  have hrun : p.runFrom (s.behind es).link = _ := hp.commutes es s.link
  rw [hrun]
  rfl

theorem batchCommit_behind (b : Batch) :
    Commutes (behind (σ := σ) es) (onLink (Batch.commit b)) :=
  onLink_behind (.commit fun c _ => c.within_any)

theorem send_behind (id : DraftId) (d : Draft) :
    Commutes (behind (σ := σ) es) (send id d) := by
  refine (Commutes.lift _).bind fun d => (update_behind _).bind fun _ => ?_
  refine (onLink_behind (.transfer _)).bind fun rows => (update_behind _).bind fun _ => ?_
  exact (batchCommit_behind _).bind fun _ => update_behind _

theorem commit_behind (id : DraftId) : Commutes (behind (σ := σ) es) (commit id) := by
  intro s
  by_cases hc : s.pipeline.current = some id
  · cases hd : s.pipeline.draft? id with
    | none => rw [commit_unknown hd, commit_unknown (s := s.behind es) hd]
    | some d =>
      rw [commit_eq hc hd, commit_eq (s := s.behind es) hc hd]
      exact concluding_behind (send_behind id d) d.block s
  · rw [commit_refused hc, commit_refused (s := s.behind es) hc]

theorem ingestBlock_behind (b : Block) : Commutes (behind (σ := σ) es) (ingestBlock b) := by
  refine .get_bind (fun s => ?_) fun s => rfl
  split
  · exact .pure false
  · refine (onLink_behind (.blockExists _)).bind fun found => ?_
    cases found with
    | true => exact .pure false
    | false =>
      refine (onPipeline_behind _).bind fun id => (onPipeline_behind _).bind fun _ => ?_
      exact (commit_behind id).bind fun _ => .pure true

theorem startup_behind : Commutes (behind (σ := σ) es) startup := by
  refine .get_bind (fun s => ?_) fun s => rfl
  refine (onLink_behind (.tableExists _ _)).bind fun found => ?_
  extract_lets register
  -- Both branches end with the registration of the statements.
  have hregister : ∀ u, Commutes (behind es) (register u) := by
    intro u
    refine (onLink_behind .planAll).bind fun _ => (update_behind _).bind fun _ => ?_
    exact .get_bind (fun s => .pure _) fun s => rfl
  split
  · refine (onLink_behind (.create _)).bind fun _ => ?_
    refine (onLink_behind (.checkVersion _)).bind fun _ => ?_
    exact (onLink_behind .checkSync).bind fun _ => (update_behind _).bind hregister
  · refine (onLink_behind (.create _)).bind fun _ => ?_
    refine (onLink_behind ?_).bind fun _ => (update_behind _).bind hregister
    exact (Composed.commit fun c _ => c.within_any).bind fun _ => .pure _

end Intake

variable [Server σ]

open Intake in
theorem Op.program_behind (op : Op) (es : List Entry) :
    Commutes (Intake.behind es) (op.program (σ := σ)) := by
  cases op with
  | startup => exact startup_behind.bind fun _ => .pure _
  | needsBootstrap =>
    have hprogram : Commutes (Intake.behind (σ := σ) es) Intake.needsBootstrap :=
      .get_bind (fun s => onLink_behind (.tableIsEmpty _ _)) fun s => rfl
    exact hprogram.bind fun _ => .pure _
  | beginBlock | addTransaction | addAction | flush | discard =>
    exact (onPipeline_behind _).bind fun _ => .pure _
  | abort => exact (update_behind _).bind fun _ => .pure _
  | commit id => exact (commit_behind id).bind fun _ => .pure _
  | ingestBlock b => exact (ingestBlock_behind b).bind fun _ => .pure _
  | markIrreversible =>
    exact ((batchCommit_behind _).bind fun _ => .pure ()).bind fun _ => .pure _

theorem Op.perform_behind (op : Op) (s : Intake σ) (es : List Entry) :
    op.perform (s.behind es) = (op.perform s).behind es := by
  simp only [Op.perform, Event.behind, op.program_behind es s]

def Intake.unlogged (s : Intake σ) : Intake σ := { s with link.line.log := [] }

omit [Server σ] in
theorem Intake.behind_unlogged (s : Intake σ) : s.unlogged.behind s.link.line.log = s := by
  simp [unlogged, behind, Link.behind]

omit [Server σ] in
theorem Event.entries_behind (e : Event σ) (es : List Entry) :
    (e.behind es).entries = e.entries := by
  change (es ++ _).drop (es ++ _).length = _
  rw [List.length_append, List.drop_length_add_append]
  rfl

/-- The events answer and send the same, from intakes to intakes that differ in their logs at
most. -/
structure Event.Matches (e f : Event σ) : Prop where
  op_eq : f.op = e.op
  before_eq : f.before.unlogged = e.before.unlogged
  result_eq : f.result = e.result
  entries_eq : f.entries = e.entries
  after_eq : f.after.unlogged = e.after.unlogged

/-- From intakes that differ in their logs at most, an operation does the same. -/
theorem Op.perform_matches (op : Op) {s t : Intake σ} (h : t.unlogged = s.unlogged) :
    (op.perform s).Matches (op.perform t) := by
  have hbehind : ∀ u : Intake σ,
      op.perform u = (op.perform u.unlogged).behind u.link.line.log := fun u => by
    rw [← op.perform_behind, u.behind_unlogged]
  rw [hbehind s, hbehind t, h]
  exact ⟨rfl, rfl, rfl, by rw [Event.entries_behind, Event.entries_behind], rfl⟩

end Ingest

end ChainArchive
