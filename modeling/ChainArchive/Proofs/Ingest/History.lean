import ChainArchive.Proofs.Ingest.Commit
import ChainArchive.Proofs.Ingest.Refusal
import ChainArchive.Proofs.Session.Quiet

namespace ChainArchive.Ingest

open ChainArchive.Record ChainArchive.Link ChainArchive.Schema

variable {σ : Type}

/-- An operation of an intake. -/
inductive Op where
  | startup
  | needsBootstrap
  | beginBlock (b : Block)
  | addTransaction (id : DraftId) (t : Transaction) (seqNum : Option Int)
  | addAction (id : DraftId) (trxId : String) (a : Action) (seqNum : Int)
  | flush (id : DraftId)
  | discard (id : DraftId)
  | abort (id : DraftId)
  | commit (id : DraftId)
  | ingestBlock (b : Block)
  | markIrreversible (blockId : String)

inductive Answer where
  | done
  | point (last : String)
  | flag (b : Bool)
  | opened (id : DraftId)

/-- An operation with its answer, and the intake before and after it. -/
structure Event (σ : Type) where
  op : Op
  before : Intake σ
  result : Except Failure Answer
  after : Intake σ

def Event.committed? (e : Event σ) : Option (DraftId × Block) :=
  match e.op, e.result with
  | .commit id, .ok _ => (e.before.pipeline.draft? id).map fun d => (id, d.block)
  | .ingestBlock b, .ok (.flag true) => some (e.before.pipeline.drafts.length, b)
  | _, _ => none

variable [Server σ]

def Op.program : Op → Program (Intake σ) Answer
  | .startup => do return .point (← Intake.startup)
  | .needsBootstrap => do return .flag (← Intake.needsBootstrap)
  | .beginBlock b => do return .opened (← Intake.onPipeline (·.beginBlock b))
  | .addTransaction id t seqNum => do
    Intake.onPipeline (·.addTransaction id t seqNum)
    return .done
  | .addAction id trxId a seqNum => do
    Intake.onPipeline (·.addAction id trxId a seqNum)
    return .done
  | .flush id => do
    Intake.onPipeline (·.flush id)
    return .done
  | .discard id => do
    Intake.onPipeline (·.discard id)
    return .done
  | .abort id => do
    Intake.update (·.abort id)
    return .done
  | .commit id => do
    Intake.commit id
    return .done
  | .ingestBlock b => do return .flag (← Intake.ingestBlock b)
  | .markIrreversible blockId => do
    Intake.markIrreversible blockId
    return .done

def Op.perform (op : Op) (s : Intake σ) : Event σ :=
  ⟨op, s, (op.program.runFrom s).1, (op.program.runFrom s).2⟩

def history : List Op → Intake σ → List (Event σ)
  | [], _ => []
  | op :: ops, s => op.perform s :: history ops (op.perform s).after

def after : List Op → Intake σ → Intake σ
  | [], s => s
  | op :: ops, s => after ops (op.perform s).after

def statsLayout : Layout := ⟨"1", [⟨"stats", [], [], []⟩]⟩

/-- A new intake on a scripted server, with the statements that store and move checkpoints. -/
def scripted (script : Script) : Intake Script :=
  ⟨.succeed (.ofLayout statsLayout "1") statsLayout "1",
    .ofStatements Statement.ofStats, script, []⟩

def failureClass? {α : Type} : Except Failure α → Option Failure.Class
  | .ok _ => none
  | .error f => some f.toClass

theorem exists_of_failureClass? {α : Type} {r : Except Failure α} {c : Failure.Class}
    (h : failureClass? r = some c) : ∃ f, r = .error f ∧ f.toClass = c := by
  cases r with
  | ok _ => cases h
  | error f => exact ⟨f, rfl, Option.some.inj h⟩

theorem isOk_map {α β : Type} (f : α → β) (r : Except Failure α) : (r.map f).isOk = r.isOk := by
  cases r <;> rfl

def Pipeline.restarted (p : Pipeline) (last : String) : Pipeline :=
  { p with lastSync := some last, halted := none, started := true }

/-- What a startup does to the pipeline: if it fails, at most the resume point has changed. -/
def Pipeline.Restarts (p : Pipeline) : Except Failure String → Pipeline → Prop
  | .ok last, q => q = p.restarted last
  | .error _, q => q = p ∨ ∃ last, q = { p with lastSync := some last }

/-- What an operation does to an intake. Everything about histories follows from it. -/
inductive Effect (s : Intake σ) : Op → Except Failure Answer → Intake σ → Prop
  | idle {op : Op} {r : Except Failure Answer} {s' : Intake σ} {es : List Entry} :
      s.pipeline.Kept s'.pipeline → s'.pipeline.Sound → Sends s.link es s'.link →
      es.any Entry.writesBlock = false → (⟨op, s, r, s'⟩ : Event σ).committed? = none →
      Effect s op r s'
  | opened {b : Block} {id : DraftId} {q : Pipeline} : s.pipeline.beginBlock b = (.ok id, q) →
      Effect s (.beginBlock b) (.ok (.opened id)) { s with pipeline := q }
  | started {r : Except Failure String} {s' : Intake σ} {es : List Entry} :
      Sends s.link es s'.link → es.any Entry.writesBlock = false →
      s.pipeline.Restarts r s'.pipeline → Effect s .startup (r.map .point) s'
  | committed {id : DraftId} {d : Draft} : s.pipeline.current = some id →
      s.pipeline.draft? id = some d → d.discarded = false →
      Effect s (.commit id) (((Intake.commit id).runFrom s).1.map fun _ => .done)
        ((Intake.commit id).runFrom s).2
  | ingested {b : Block} {id : DraftId} {q : Pipeline} {m : Intake σ} {es : List Entry} :
      Sends s.link es m.link → es.any Entry.writesBlock = false →
      s.pipeline.beginBlock b = (.ok id, q) → q.Kept m.pipeline →
      m.pipeline.Carries id b (listed b.transactions 0) →
      Effect s (.ingestBlock b) (((Intake.commit id).runFrom m).1.map fun _ => .flag true)
        ((Intake.commit id).runFrom m).2

namespace Intake

/-- A program that writes no part of a block and takes the pipeline as `P` says. -/
def Quietly {α : Type} (p : Program (Intake σ) α)
    (P : Pipeline → Except Failure α → Pipeline → Prop) : Prop :=
  ∀ s, ∃ es, Sends s.link es (p.runFrom s).2.link ∧ es.any Entry.writesBlock = false ∧
    P s.pipeline (p.runFrom s).1 (p.runFrom s).2.pipeline

namespace Quietly

variable {α β : Type}

theorem onLink {p : Program (Link σ) α} (h : Quiet p) :
    Quietly (Intake.onLink p) fun a _ b => b = a := by
  intro s
  obtain ⟨es, hs, hq⟩ := h s.link.terms s.link rfl
  exact ⟨es, hs, hq, rfl⟩

theorem bind {p : Program (Intake σ) α} {f : α → Program (Intake σ) β}
    {P : Pipeline → Except Failure α → Pipeline → Prop}
    {S : α → Pipeline → Except Failure β → Pipeline → Prop}
    {R : Pipeline → Except Failure β → Pipeline → Prop} (hp : Quietly p P)
    (hf : ∀ x, Quietly (f x) (S x)) (he : ∀ a e b, P a (.error e) b → R a (.error e) b)
    (hx : ∀ a x b r c, P a (.ok x) b → S x b r c → R a r c) : Quietly (p >>= f) R := by
  intro s
  obtain ⟨es, hs, hq, hP⟩ := hp s
  rw [Program.runFrom_bind]
  cases h : p.runFrom s with
  | mk r m =>
    rw [h] at hs hP
    cases r with
    | error e => exact ⟨es, hs, hq, he _ _ _ hP⟩
    | ok x =>
      obtain ⟨fs, hs', hq', hS⟩ := hf x m
      exact ⟨es ++ fs, hs.trans hs', by simp [hq, hq'], hx _ _ _ _ _ hP hS⟩

theorem get : Quietly (σ := σ) MonadState.get fun a r b =>
    b = a ∧ ∀ s, r = .ok s → s.pipeline = a := by
  refine fun s => ⟨[], .refl s.link, rfl, rfl, ?_⟩
  rintro _ ⟨⟩
  rfl

theorem onLink_bind {p : Program (Link σ) α} {f : α → Program (Intake σ) β}
    {R : Pipeline → Except Failure β → Pipeline → Prop} (hp : Quiet p)
    (hf : ∀ x, Quietly (f x) R) (he : ∀ a e, R a (.error e) a) :
    Quietly (Intake.onLink p >>= f) R := by
  refine (onLink hp).bind hf ?_ ?_
  · rintro a e b rfl
    exact he b e
  · rintro a x b r c rfl hR
    exact hR

end Quietly

theorem startup_quietly : Quietly (σ := σ) startup Pipeline.Restarts := by
  refine Quietly.get.bind (fun s => ?_) (fun _ _ _ h => .inl h.1) fun _ _ _ _ _ h hR => h.1 ▸ hR
  refine .onLink_bind (.tableExists _ _) (fun v => ?_) fun _ _ => .inl rfl
  extract_lets register
  -- Both branches end alike: the resume point is set before the statements are registered.
  have hreg : ∀ u, Quietly (register u) fun a r b => match r with
      | .ok last => last = a.lastSync.getD "" ∧ b = { a with halted := none, started := true }
      | .error _ => b = a := by
    intro u
    refine .onLink_bind .planAll (fun _ => ?_) fun _ _ => rfl
    exact fun s => ⟨[], .refl s.link, rfl, rfl, rfl⟩
  have hresume : ∀ last, Quietly (do
      update fun p => { p with lastSync := some last }
      register ()) Pipeline.Restarts := by
    intro last s
    obtain ⟨es, hs, hq, hr⟩ := hreg () { s with pipeline.lastSync := some last }
    refine ⟨es, hs, hq, ?_⟩
    rw [Program.runFrom_bind, update_runFrom]
    dsimp only
    cases h : (register ()).runFrom { s with pipeline.lastSync := some last } with
    | mk r m =>
      rw [h] at hr
      cases r with
      | ok x =>
        obtain ⟨rfl, hm⟩ := hr
        exact hm
      | error e => exact .inr ⟨last, hr⟩
  split
  · refine .onLink_bind (.create _) (fun _ => ?_) fun _ _ => .inl rfl
    refine .onLink_bind (.checkVersion _) (fun _ => ?_) fun _ _ => .inl rfl
    exact .onLink_bind .checkSync (fun last => hresume last) fun _ _ => .inl rfl
  · refine .onLink_bind (.create _) (fun _ => ?_) fun _ _ => .inl rfl
    exact .onLink_bind (.store _) (fun _ => hresume "") fun _ _ => .inl rfl

theorem needsBootstrap_quietly :
    Quietly (σ := σ) needsBootstrap fun a _ b => b = a :=
  Quietly.get.bind (fun _ => .onLink (.tableIsEmpty _ _)) (fun _ _ _ h => h.1)
    fun _ _ _ _ _ h h' => h'.trans h.1

theorem markIrreversible_quietly (blockId : String) :
    Quietly (σ := σ) (markIrreversible blockId) fun a _ b => b = a := by
  refine .onLink_bind (.commit ?_) (fun _ s => ⟨[], .refl s.link, rfl, rfl⟩) fun _ _ => rfl
  simp [Batch.add, quietPlans]

end Intake

theorem Effect.of_quietly {α : Type} {p : Program (Intake σ) α}
    (h : Intake.Quietly p fun a _ b => b = a) {s : Intake σ} (hs : s.pipeline.Sound) (op : Op)
    (r : Except Failure Answer)
    (hc : (⟨op, s, r, (p.runFrom s).2⟩ : Event σ).committed? = none) :
    Effect s op r (p.runFrom s).2 := by
  obtain ⟨es, hsend, hq, hp⟩ := h s
  exact .idle (hp ▸ .refl _) (hp ▸ hs) hsend hq hc

theorem Effect.of_kept {s : Intake σ} {q : Pipeline} (hk : s.pipeline.Kept q) (hq : q.Sound)
    (op : Op) (r : Except Failure Answer)
    (hc : (⟨op, s, r, { s with pipeline := q }⟩ : Event σ).committed? = none) :
    Effect s op r { s with pipeline := q } :=
  .idle hk hq (.refl s.link) rfl hc

theorem Effect.of_onDraft {s : Intake σ} (hs : s.pipeline.Sound) (id : DraftId)
    {f : Draft → Except Failure Unit × Draft} (hf : ∀ d, Draft.Leads d (f d).2) (op : Op)
    (r : Except Failure Answer)
    (hc : ∀ q, (⟨op, s, r, { s with pipeline := q }⟩ : Event σ).committed? = none) :
    Effect s op r { s with pipeline := (s.pipeline.onDraft id f).2 } :=
  .of_kept (s.pipeline.onDraft_kept id hf) (Pipeline.onDraft_sound hs id hf) op r (hc _)

/-- What the ingestion of a whole block does to an intake. Unless the block is the resume point,
the server is asked whether it is stored, and nothing else is asked before a commit. -/
inductive Ingests (s : Intake σ) (b : Block) : Except Failure Bool → Intake σ → Prop
  | reached : s.pipeline.lastSync = some b.blockId → Ingests s b (.ok false) s
  | stored {l : Link σ} : (Checkpoint.blockExists b.blockId).runFrom s.link = (.ok true, l) →
      Ingests s b (.ok false) { s with link := l }
  | refused {r : Except Failure Bool} {l : Link σ} {q : Pipeline} {f : Failure} :
      (Checkpoint.blockExists b.blockId).runFrom s.link = (r, l) → s.pipeline.Kept q → q.Sound →
      (r = .error f ∨ r = .ok false ∧ f.toClass ≠ .preparation) → Ingests s b (.error f) ⟨q, l⟩
  | written {l : Link σ} {id : DraftId} {p q : Pipeline} :
      (Checkpoint.blockExists b.blockId).runFrom s.link = (.ok false, l) →
      s.pipeline.beginBlock b = (.ok id, p) → p.Kept q → q.Carries id b (listed b.transactions 0) →
      Ingests s b (((Intake.commit id).runFrom ⟨q, l⟩).1.map fun _ => true)
        ((Intake.commit id).runFrom ⟨q, l⟩).2

theorem Intake.ingestBlock_cases {s : Intake σ} (hs : s.pipeline.Sound) (b : Block) :
    Ingests s b ((ingestBlock b).runFrom s).1 ((ingestBlock b).runFrom s).2 := by
  rw [ingestBlock, Program.runFrom_bind, Program.runFrom_get]
  dsimp only
  split
  · next h => exact .reached h
  -- Each step that fails ends the ingestion: the question, the opening, and the records.
  rw [Program.runFrom_bind, onLink_runFrom]
  cases hr : (Checkpoint.blockExists b.blockId).runFrom s.link with
  | mk r l =>
    cases r with
    | error e => exact .refused hr (.refl s.pipeline) hs (.inl rfl)
    | ok found =>
      cases found with
      | true => exact .stored hr
      | false =>
        simp only [Bool.false_eq_true, ↓reduceIte]
        cases hb : s.pipeline.beginBlock b with
        | mk r q =>
          cases r with
          | error f =>
            have hbegin : (onPipeline (·.beginBlock b)).runFrom (⟨s.pipeline, l⟩ : Intake σ) =
                (.error f, ⟨q, l⟩) := by simp [onPipeline, hb]
            rw [Program.runFrom_bind_error hbegin]
            obtain rfl := Pipeline.beginBlock_error hb
            have hordinary := s.pipeline.ordinary_beginBlock b f (congrArg Prod.fst hb)
            exact .refused hr (.refl _) hs (.inr ⟨rfl, hordinary⟩)
          | ok id =>
            obtain ⟨hst, hh, ho, -, rfl, rfl⟩ := Pipeline.beginBlock_eq_ok.mp hb
            have hbegin : (onPipeline (·.beginBlock b)).runFrom (⟨s.pipeline, l⟩ : Intake σ) =
                (.ok s.pipeline.drafts.length, ⟨s.pipeline.opened b, l⟩) := by simp [onPipeline, hb]
            rw [Program.runFrom_bind_ok hbegin]
            cases hf : (s.pipeline.opened b).onDraft s.pipeline.drafts.length
                (·.addTransactions b.transactions 0) with
            | mk r q =>
              have hfill : (onPipeline fun p => p.onDraft s.pipeline.drafts.length
                  (·.addTransactions b.transactions 0)).runFrom
                    (⟨s.pipeline.opened b, l⟩ : Intake σ) = (r, ⟨q, l⟩) := by
                simp [onPipeline, hf]
              cases r with
              | error f =>
                rw [Program.runFrom_bind_error hfill]
                obtain ⟨hk, hq⟩ := Pipeline.fill_error hst hh hf
                have hordinary := (s.pipeline.opened b).ordinary_onDraft s.pipeline.drafts.length
                  (fun d => d.ordinary_addTransactions b.transactions 0) f (congrArg Prod.fst hf)
                exact .refused hr hk hq (.inr ⟨rfl, hordinary⟩)
              | ok _ =>
                rw [Program.runFrom_bind_ok hfill,
                  Program.runFrom_bind_pure (commit _) fun _ => true]
                obtain ⟨hk, hc⟩ := Pipeline.fill_ok hf
                exact .written hr hb hk hc

theorem Intake.ingestBlock_effect {s : Intake σ} (hs : s.pipeline.Sound) (b : Block) :
    Effect s (.ingestBlock b) (((ingestBlock b).runFrom s).1.map .flag)
      ((ingestBlock b).runFrom s).2 := by
  have hquiet : ∀ {r l}, (Checkpoint.blockExists b.blockId).runFrom s.link = (r, l) →
      ∃ es, Sends s.link es l ∧ es.any Entry.writesBlock = false := by
    intro r l hr
    obtain ⟨es, hsend, hq⟩ := Quiet.blockExists b.blockId s.link.terms s.link rfl
    rw [hr] at hsend
    exact ⟨es, hsend, hq⟩
  have hcases := ingestBlock_cases hs b
  generalize ((ingestBlock b).runFrom s).1 = r, ((ingestBlock b).runFrom s).2 = s' at hcases ⊢
  cases hcases with
  | reached => exact .of_kept (.refl s.pipeline) hs _ _ rfl
  | stored hr =>
    obtain ⟨es, hsend, hq⟩ := hquiet hr
    exact .idle (.refl s.pipeline) hs hsend hq rfl
  | refused hr hk hs' =>
    obtain ⟨es, hsend, hq⟩ := hquiet hr
    exact .idle hk hs' hsend hq rfl
  | @written l id p q hr hb hk hc =>
    obtain ⟨es, hsend, hq⟩ := hquiet hr
    have hmap : ∀ r : Except Failure Unit,
        (r.map fun _ => true).map Answer.flag = r.map fun _ => Answer.flag true := by
      intro r
      cases r <;> rfl
    rw [hmap]
    exact .ingested (m := ⟨q, l⟩) hsend hq hb hk hc

theorem Op.perform_beginBlock (b : Block) (s : Intake σ) :
    (Op.beginBlock b).perform s = ⟨.beginBlock b, s, (s.pipeline.beginBlock b).1.map .opened,
      { s with pipeline := (s.pipeline.beginBlock b).2 }⟩ := by
  simp only [Op.perform, Op.program, Program.runFrom_bind_pure, Intake.onPipeline,
    Program.runFrom_of]

theorem Op.after_beginBlock {b : Block} {s : Intake σ} {id : DraftId} {q : Pipeline}
    (hb : s.pipeline.beginBlock b = (.ok id, q)) :
    ((Op.beginBlock b).perform s).after = { s with pipeline := q } := by
  rw [perform_beginBlock, hb]

theorem Op.perform_effect {s : Intake σ} (hs : s.pipeline.Sound) (op : Op) :
    Effect s op (op.perform s).result (op.perform s).after := by
  have hdone := fun p : Program (Intake σ) Unit =>
    Program.runFrom_bind_pure p (fun _ => Answer.done) s
  simp only [Op.perform]
  cases op with
  | startup =>
    obtain ⟨es, hsend, hq, hr⟩ := Intake.startup_quietly s
    simp only [Op.program, Program.runFrom_bind_pure]
    exact .started hsend hq hr
  | needsBootstrap =>
    simp only [Op.program, Program.runFrom_bind_pure]
    exact .of_quietly Intake.needsBootstrap_quietly hs _ _ rfl
  | beginBlock b =>
    change Effect s _ ((Op.beginBlock b).perform s).result ((Op.beginBlock b).perform s).after
    rw [Op.perform_beginBlock]
    cases hb : s.pipeline.beginBlock b with
    | mk r q =>
      cases r with
      | ok id => exact .opened hb
      | error f =>
        obtain rfl := Pipeline.beginBlock_error hb
        exact .of_kept (.refl _) hs _ _ rfl
  | addTransaction id t seqNum =>
    simp only [Op.program, hdone, Intake.onPipeline, Program.runFrom_of]
    exact .of_onDraft hs id (fun d => d.leads_addTransaction t seqNum) _ _ fun _ => rfl
  | addAction id trxId a seqNum =>
    simp only [Op.program, hdone, Intake.onPipeline, Program.runFrom_of]
    exact .of_onDraft hs id (fun d => d.leads_addAction trxId a seqNum) _ _ fun _ => rfl
  | flush id =>
    simp only [Op.program, hdone, Intake.onPipeline, Program.runFrom_of]
    refine .of_onDraft hs id (fun d => ?_) _ _ fun _ => rfl
    split
    · next d' h => exact Draft.leads_of_flush h
    · exact .refl
  | discard id =>
    simp only [Op.program, hdone, Intake.onPipeline, Program.runFrom_of]
    exact .of_onDraft hs id (fun d => d.leads_discard) _ _ fun _ => rfl
  | abort id =>
    simp only [Op.program, hdone, Intake.update_runFrom]
    exact .of_kept (s.pipeline.abort_kept id) (Pipeline.abort_sound hs id) _ _ rfl
  | commit id =>
    simp only [Op.program, hdone]
    -- A draft that is not the open one is refused before anything is sent.
    by_cases hc : s.pipeline.current = some id
    · obtain ⟨d, hd, hlive⟩ := hs.live id hc
      exact .committed hc hd hlive
    · rw [Intake.commit_refused hc]
      exact .of_kept (.refl _) hs _ _ rfl
  | ingestBlock b =>
    simp only [Op.program, Program.runFrom_bind_pure]
    exact Intake.ingestBlock_effect hs b
  | markIrreversible blockId =>
    simp only [Op.program, hdone]
    exact .of_quietly (Intake.markIrreversible_quietly blockId) hs _ _ rfl

theorem Intake.commit_sound {s : Intake σ} {id : DraftId} {d : Draft}
    (hst : s.pipeline.started = true) (hc : s.pipeline.current = some id)
    (hd : s.pipeline.draft? id = some d) (hlive : d.discarded = false) :
    ((commit id).runFrom s).2.pipeline.Sound := by
  obtain ⟨es, d', -, -, hp, -⟩ := commit_runFrom s hc hd hlive
  rw [hp]
  exact .of_closed (settled_current ..) fun _ => (settled_started ..).trans hst

theorem Effect.sound {s s' : Intake σ} {op : Op} {r : Except Failure Answer}
    (h : Effect s op r s') (hs : s.pipeline.Sound) : s'.pipeline.Sound := by
  cases h with
  | idle _ h => exact h
  | opened hb =>
    obtain ⟨hst, hh, -, -, -, rfl⟩ := Pipeline.beginBlock_eq_ok.mp hb
    exact Pipeline.opened_sound hst hh
  | @started r _ _ _ _ hr =>
    cases r with
    | ok last =>
      rw [show s'.pipeline = _ from hr]
      exact ⟨hs.live, fun _ => ⟨rfl, rfl⟩, fun _ => rfl⟩
    | error f =>
      obtain hr | ⟨last, hr⟩ := hr
      · exact hr ▸ hs
      · exact hr ▸ ⟨hs.live, hs.ready, hs.running⟩
  | committed hc hd hlive =>
    exact Intake.commit_sound (hs.ready (by simp [hc])).1 hc hd hlive
  | ingested _ _ hb hk hc =>
    obtain ⟨hc, d, hd, hh⟩ := hc
    obtain ⟨hst, -, -, -, -, rfl⟩ := Pipeline.beginBlock_eq_ok.mp hb
    exact Intake.commit_sound (hk.started_eq.trans hst) hc hd hh.discarded_eq

theorem Intake.startup_sound {s t : Intake σ} {r : Except Failure String}
    (hs : s.pipeline.Sound) (h : startup.runFrom s = (r, t)) : t.pipeline.Sound := by
  have hsound := (Op.perform_effect hs .startup).sound hs
  simp only [Op.perform, Op.program, Program.runFrom_bind_pure, h] at hsound
  exact hsound

theorem after_append (ops ops' : List Op) (s : Intake σ) :
    after (ops ++ ops') s = after ops' (after ops s) := by
  induction ops generalizing s with
  | nil => rfl
  | cons op ops ih => exact ih _

theorem after_sound (ops : List Op) {s : Intake σ} (hs : s.pipeline.Sound) :
    (after ops s).pipeline.Sound := by
  induction ops generalizing s with
  | nil => exact hs
  | cons op ops ih => exact ih ((op.perform_effect hs).sound hs)

def Event.entries (e : Event σ) : List Entry :=
  e.after.link.line.log.drop e.before.link.line.log.length

theorem Effect.sends {s s' : Intake σ} {op : Op} {r : Except Failure Answer}
    (h : Effect s op r s') : ∃ es, Sends s.link es s'.link := by
  cases h with
  | idle _ _ hsend => exact ⟨_, hsend⟩
  | opened => exact ⟨[], .refl s.link⟩
  | started hsend => exact ⟨_, hsend⟩
  | committed hc hd hlive =>
    obtain ⟨es, -, hsend, -⟩ := Intake.commit_runFrom s hc hd hlive
    exact ⟨es, hsend⟩
  | @ingested _ _ _ m _ hsend _ _ _ hc =>
    obtain ⟨hc, d, hd, hh⟩ := hc
    obtain ⟨es, -, hsend', -⟩ := Intake.commit_runFrom m hc hd hh.discarded_eq
    exact ⟨_, hsend.trans hsend'⟩

theorem Event.entries_eq {e : Event σ} {es : List Entry}
    (h : Sends e.before.link es e.after.link) : e.entries = es := by
  rw [entries, h.log_eq, List.drop_left]

theorem Op.perform_sends {s : Intake σ} (hs : s.pipeline.Sound) (op : Op) :
    Sends s.link (op.perform s).entries (op.perform s).after.link := by
  obtain ⟨es, hsend⟩ := (op.perform_effect hs).sends
  rwa [Event.entries_eq hsend]

theorem after_sends (ops : List Op) {s : Intake σ} (hs : s.pipeline.Sound) :
    ∃ es, Sends s.link es (after ops s).link := by
  induction ops generalizing s with
  | nil => exact ⟨[], .refl s.link⟩
  | cons op ops ih =>
    obtain ⟨es, hsend⟩ := ih ((op.perform_effect hs).sound hs)
    exact ⟨_, (op.perform_sends hs).trans hsend⟩

/-- The pipeline takes blocks: it was started and is not halted. -/
def Pipeline.Ready (p : Pipeline) : Prop := p.started = true ∧ p.halted = none

theorem Pipeline.ready_of_beginBlock {p q : Pipeline} {b : Block} {id : DraftId}
    (h : p.beginBlock b = (.ok id, q)) : p.Ready :=
  ⟨(beginBlock_eq_ok.mp h).1, (beginBlock_eq_ok.mp h).2.1⟩

/-- On a pipeline that takes no blocks, only a startup that succeeds changes that, and until then
nothing of a block is written. -/
theorem Effect.of_not_ready {s s' : Intake σ} {op : Op} {r : Except Failure Answer}
    (h : Effect s op r s') (hs : s.pipeline.Sound) (hr : ¬ s.pipeline.Ready)
    (hop : op = .startup → r.isOk = false) :
    (∃ es, Sends s.link es s'.link ∧ es.any Entry.writesBlock = false) ∧
      s'.pipeline.started = s.pipeline.started ∧ s'.pipeline.halted = s.pipeline.halted := by
  cases h with
  | idle hk _ hsend hq => exact ⟨⟨_, hsend, hq⟩, hk.started_eq, hk.halted_eq⟩
  | opened hb => exact absurd (Pipeline.ready_of_beginBlock hb) hr
  | @started r _ _ hsend hq hres =>
    refine ⟨⟨_, hsend, hq⟩, ?_⟩
    cases r with
    | ok last => cases hop rfl
    | error f =>
      obtain hres | ⟨last, hres⟩ := hres <;> exact hres ▸ ⟨rfl, rfl⟩
  | committed hc => exact absurd (hs.ready (by simp [hc])) hr
  | ingested _ _ hb => exact absurd (Pipeline.ready_of_beginBlock hb) hr

def Intake.UntilStartup (P : Event σ → Prop) (s : Intake σ) : Prop :=
  ∀ ops, (∀ e ∈ history ops s, e.op = .startup → e.result.isOk = false) →
    ∀ e ∈ history ops s, P e

theorem Intake.UntilStartup.now {P : Event σ → Prop} {s : Intake σ} (h : s.UntilStartup P)
    (op : Op) (hop : op ≠ .startup) : P (op.perform s) := by
  refine h [op] (fun e he hstart => ?_) _ List.mem_cons_self
  cases List.mem_singleton.mp he
  exact absurd hstart hop

theorem Intake.UntilStartup.next {P : Event σ → Prop} {s : Intake σ} (h : s.UntilStartup P)
    (op : Op) (hop : op ≠ .startup) : (op.perform s).after.UntilStartup P := by
  intro ops hops e he
  refine h (op :: ops) (fun e he hstart => ?_) e (List.mem_cons_of_mem _ he)
  obtain rfl | he := List.mem_cons.mp he
  · exact absurd hstart hop
  · exact hops e he hstart

/-- What every operation but a successful startup keeps, and what follows from it for its event. -/
theorem Intake.untilStartup {P : Event σ → Prop} {I : Intake σ → Prop} {s : Intake σ}
    (hstep : ∀ (s : Intake σ) (op : Op), I s →
      (op = .startup → (op.perform s).result.isOk = false) →
      P (op.perform s) ∧ I (op.perform s).after) (hs : I s) : s.UntilStartup P := by
  intro ops hops
  induction ops generalizing s with
  | nil =>
    intro e he
    cases he
  | cons op ops ih =>
    obtain ⟨hP, hI⟩ := hstep s op hs (hops _ List.mem_cons_self)
    intro e he
    obtain rfl | he := List.mem_cons.mp he
    · exact hP
    · exact ih hI (fun e he => hops e (List.mem_cons_of_mem _ he)) e he

theorem history_eq_append {ops : List Op} {s : Intake σ} {xs ys : List (Event σ)}
    (h : history ops s = xs ++ ys) :
    ∃ done rest, ops = done ++ rest ∧ xs = history done s ∧ ys = history rest (after done s) := by
  induction xs generalizing ops s with
  | nil => exact ⟨[], ops, rfl, rfl, h.symm⟩
  | cons e xs ih =>
    cases ops with
    | nil => cases h
    | cons op ops =>
      obtain ⟨he, h⟩ := List.cons.inj h
      obtain ⟨done, rest, rfl, rfl, rfl⟩ := ih h
      exact ⟨op :: done, rest, rfl, by rw [← he]; rfl, rfl⟩

theorem history_eq_append_cons {ops : List Op} {s : Intake σ} {xs ys : List (Event σ)} {e : Event σ}
    (h : history ops s = xs ++ e :: ys) : ∃ (done : List Op) (op : Op) (rest : List Op),
      ops = done ++ op :: rest ∧ xs = history done s ∧ e = op.perform (after done s) ∧
        ys = history rest e.after := by
  obtain ⟨done, rest, rfl, rfl, hrest⟩ := history_eq_append h
  cases rest with
  | nil => cases hrest
  | cons op rest =>
    obtain ⟨rfl, rfl⟩ := List.cons.inj hrest
    exact ⟨done, op, rest, rfl, rfl, rfl, rfl⟩

theorem exists_perform_of_mem {ops : List Op} {s : Intake σ} {e : Event σ}
    (he : e ∈ history ops s) : ∃ done, ∃ op : Op, e = op.perform (after done s) := by
  obtain ⟨xs, ys, hsplit⟩ := List.append_of_mem he
  obtain ⟨done, op, -, -, -, rfl, -⟩ := history_eq_append_cons hsplit
  exact ⟨done, op, rfl⟩

end ChainArchive.Ingest
