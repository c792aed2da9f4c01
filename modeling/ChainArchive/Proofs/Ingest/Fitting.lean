import ChainArchive.Proofs.Ingest.Operations
import ChainArchive.Proofs.Ingest.Registration
import ChainArchive.Proofs.Ingest.Rendering

namespace ChainArchive

open ChainArchive.Link ChainArchive.Program ChainArchive.Record ChainArchive.Schema

/-- A request of a session that has registered all statements: no registration, and no statement
with values that do not suit it. -/
def Request.Fits : Request → Prop
  | .prepare _ => False
  | .run p args => Suits p.name args
  | _ => True

/-- What a session sends that has registered all statements, and how its programs end. -/
structure Fit {α : Type} (r : Except Failure α) (es : List Entry) : Prop where
  ordinary : Ordinary r
  requests : ∀ q reply, Entry.asked q reply ∈ es → q.Fits

namespace Fit

variable {α β : Type} {r : Except Failure α} {es fs : List Entry} {q : Request}

theorem nil (hr : Ordinary r) : Fit r [] := ⟨hr, fun _ _ h => by cases h⟩

theorem single (hr : Ordinary r) (hq : q.Fits) (reply : Reply) : Fit r [.asked q reply] := by
  refine ⟨hr, fun q' reply' h => ?_⟩
  cases List.mem_singleton.mp h
  exact hq

theorem append {r' : Except Failure β} (h : Fit r es) (h' : Fit r' fs) : Fit r' (es ++ fs) :=
  ⟨h'.ordinary, fun q reply hmem => (List.mem_append.mp hmem).elim (h.requests q reply)
    (h'.requests q reply)⟩

theorem marked (h : Fit r es) (m m' : Mark) : Fit r (.marked m :: es ++ [.marked m']) :=
  ⟨h.ordinary, fun q reply hmem => h.requests q reply (by simpa using hmem)⟩

end Fit

variable {σ : Type} [Server σ] {α β : Type} {p : Program (Link σ) α}

def Fitting (p : Program (Link σ) α) : Prop :=
  ∀ l : Link σ, l.Equipped → ∃ es, Sends l es (p.runFrom l).2 ∧ Fit (p.runFrom l).1 es

namespace Fitting

theorem of_records (h : ∀ t, Records t p Fit) : Fitting p :=
  fun l _ => h l.terms l rfl

theorem bind {f : α → Program (Link σ) β} (hp : Fitting p) (hf : ∀ x, Fitting (f x)) :
    Fitting (p >>= f) := by
  intro l hl
  obtain ⟨es, hsend, hfit⟩ := hp l hl
  rw [runFrom_bind]
  cases h : p.runFrom l with
  | mk r m =>
    rw [h] at hsend hfit
    cases r with
    | error e => exact ⟨es, hsend, .error (hfit.ordinary e rfl), hfit.requests⟩
    | ok x =>
      obtain ⟨fs, hsend', hfit'⟩ := hf x m (hsend.equipped hl)
      exact ⟨es ++ fs, hsend.trans hsend', hfit.append hfit'⟩

theorem mapFailure (hp : Fitting p) {g : Failure → Failure}
    (hg : ∀ f, f.toClass ≠ .preparation → (g f).toClass ≠ .preparation) :
    Fitting (p.mapFailure g) := by
  intro l hl
  obtain ⟨es, hsend, hfit⟩ := hp l hl
  rw [runFrom_mapFailure]
  cases h : p.runFrom l with
  | mk r m =>
    rw [h] at hsend hfit
    cases r with
    | error e => exact ⟨es, hsend, .error (hg e (hfit.ordinary e rfl)), hfit.requests⟩
    | ok x => exact ⟨es, hsend, hfit⟩

theorem passing {q : Request} (hq : q.Fits) : Fitting (σ := σ) (passing q) := by
  refine of_records fun t => (passing_records t q).mono ?_
  rintro r es (⟨-, rfl, rfl⟩ | ⟨e, rfl, rfl⟩ | ⟨v, rfl, rfl⟩)
  · exact .nil (.error (by simp [Failure.toClass]))
  · exact .single (.error (by simp [Failure.toClass])) hq _
  · exact .single (.ok v) hq _

theorem run {name : String} {args : List Value} (h : Suits name args) :
    Fitting (σ := σ) (run name args) := by
  intro l hl
  obtain ⟨p, hp, hlength, hnull⟩ := h
  have hfind : Statement.find? l.session.statements name = some p := hl.statements_eq ▸ hp
  have hname := Statement.name_of_find? hp
  rw [Link.run, runFrom_bind_ok (hl.registered.plan_runFrom hfind)]
  refine passing ?_ l hl
  rw [Request.Fits, hname]
  exact ⟨p, hp, hlength, hnull⟩

theorem invoke {name : String} {args : List Value} (h : Suits name args) :
    Fitting (σ := σ) (Batch.invoke name args) := by
  refine (run h).mapFailure fun f hf => ?_
  split
  · split
    · simp [Failure.toClass]
    · exact hf
  · exact hf

theorem inTransaction (hp : Fitting p) : Fitting (inTransaction p) := by
  -- What is registered is no part of the terms, so `inTransaction_records` does not apply.
  intro l hl
  by_cases hc : l.session.connection = .released
  · have hrun : (Link.inTransaction p).runFrom l = (.error .noConnection, l) := by
      simp [Link.inTransaction, hc]
    rw [hrun]
    exact ⟨[], .refl l, .nil (.error (by simp [Failure.toClass]))⟩
  · have hstart : Sends l [.marked .start] (l.mark .start) := .mark .start (.refl l) hc
    obtain ⟨es, hsend, hfit⟩ := hp (l.mark .start) (hstart.equipped hl)
    have hall := hstart.trans hsend
    have hc' : (p.runFrom (l.mark .start)).2.session.connection ≠ .released :=
      fun h => hc ((congrArg Terms.connection hall.terms_eq).symm.trans h)
    simp only [Link.inTransaction, runFrom_of]
    cases hr : p.runFrom (l.mark .start) with
    | mk r m =>
      rw [hr] at hall hfit hc'
      cases r with
      | ok x => exact ⟨_, .mark .commit hall hc', hfit.marked .start .commit⟩
      | error f => exact ⟨_, .mark .rollback hall hc', hfit.marked .start .rollback⟩

end Fitting

theorem Schema.Ddl.apply_fits (d : Ddl) : Fitting (σ := σ) d.apply := by
  refine .of_records fun t => (asked_records t (.execute d.sql []) (fun _ => ()) _).mono ?_
  rintro r es (⟨-, rfl, rfl⟩ | ⟨e, rfl, rfl⟩ | ⟨v, rfl, rfl⟩)
  · exact .nil (.error (by simp [Failure.toClass]))
  · refine .single (q := .execute d.sql []) (.error ?_) trivial _
    split
    · cases d <;> simp [Ddl.failure, Failure.toClass]
    · simp [Failure.toClass]
  · exact .single (q := .execute d.sql []) (.ok ()) trivial _

/-- Programs put together from requests fit, if the statements that change something are run with
values that suit them. -/
theorem Composed.fitting (h : Composed Suits p) : Fitting p := by
  induction h with
  | @lift α r hr => exact fun l _ => ⟨[], .refl l, .nil hr⟩
  | bind _ _ ihp ihf => exact ihp.bind ihf
  | inTransaction _ ih => exact ih.inTransaction
  | fetchValue | fetchRow => exact .passing trivial
  | apply d => exact d.apply_fits
  | planAll =>
    intro l hl
    rw [hl.registered.planAll_runFrom]
    exact ⟨[], .refl l, .nil (.ok _)⟩
  | read hr => exact .run hr.suits
  | write hw => exact .invoke hw
  | copy table columns data =>
    refine .of_records fun t => (copyInto_records t table columns data).mono fun r es h => ?_
    cases h with
    | cutOff => exact .nil (.error (by simp [Failure.toClass]))
    | failed e =>
      refine .single (q := .copy table columns data) (.error ?_) trivial _
      unfold transferFailure
      split <;> simp [Failure.toClass]
    | done v => exact .single (q := .copy table columns data) (.ok _) trivial _

namespace Ingest

def FitsStatements (b : Batch) : Prop := ∀ c ∈ b, c.Within Suits

theorem vocabulary_suits : Vocabulary Suits where
  insertStat _ _ := .of_present (by rfl) rfl (by simp)
  updateStat _ _ := .of_present (by rfl) rfl (by simp)
  setIrreversible _ := .of_present (by rfl) rfl (by simp)
  callsOf a c hc := (callsOf_rendered a c hc).within_suits

theorem Op.perform_equipped {s : Intake σ} (hs : s.pipeline.Within Suits)
    (hl : s.link.Equipped) (op : Op) :
    (op.perform s).after.pipeline.Within Suits ∧ (op.perform s).after.link.Equipped := by
  have hwalk : s.pipeline.Walks (op.perform s).after.pipeline :=
    op.program_walks hs.sound s .refl
  exact ⟨hwalk.within vocabulary_suits hs, (op.perform_sends hs.sound).equipped hl⟩

theorem Op.perform_fits {s : Intake σ} (hs : s.pipeline.Within Suits) (hl : s.link.Equipped)
    (op : Op) : Fit (op.perform s).result (op.perform s).entries := by
  obtain ⟨q, hq, hfollows⟩ := op.perform_follows vocabulary_suits hs
  obtain ⟨es, hsend, hfit⟩ := hq.fitting s.link hl
  rw [show q.runFrom s.link = _ from hfollows] at hsend hfit
  rwa [Event.entries_eq hsend]

theorem history_fits (ops : List Op) {s : Intake σ} (hs : s.pipeline.Within Suits)
    (hl : s.link.Equipped) : ∀ e ∈ history ops s, Fit e.result e.entries := by
  induction ops generalizing s with
  | nil =>
    intro e he
    cases he
  | cons op ops ih =>
    obtain ⟨hs', hl'⟩ := op.perform_equipped hs hl
    intro e he
    obtain rfl | he := List.mem_cons.mp he
    · exact op.perform_fits hs hl
    · exact ih hs' hl' e he

/-- Every buffered call fits its statement: those of actions, the one that moves the checkpoint,
those that store the first checkpoint, and the one that marks a block. So once a startup has
succeeded with the standard statements, no operation registers a statement, fails at a registration
or runs a statement with values that do not suit it. -/
theorem calls_fit_statements :
    (∀ a calls, render a = .ok (some calls) → FitsStatements calls) ∧
    (∀ b blockId, ∃ c, Checkpoint.advance b blockId = b ++ [c] ∧ FitsStatements [c]) ∧
    (∀ version, ∃ b, FitsStatements b ∧
      Checkpoint.store (σ := σ) version = do let _ ← Batch.commit b) ∧
    (∀ blockId, ∃ b, FitsStatements b ∧
      Intake.markIrreversible (σ := σ) blockId = do let _ ← Intake.onLink (Batch.commit b)) ∧
    ∀ (p : Pipeline) (layout : Layout) (version : String) (l : Link σ) (ops : List Op)
      (xs : List (Event σ)) (e : Event σ) (ys : List (Event σ)),
      l.session.statements = Statement.standard →
      history ops ⟨p.succeed layout version, l⟩ = xs ++ e :: ys →
      e.op = .startup → e.result.isOk = true →
      ∀ f ∈ ys, Ordinary f.result ∧ ∀ q reply, Entry.asked q reply ∈ f.entries → q.Fits := by
  have hv := vocabulary_suits
  refine ⟨fun a calls h c hc => (rendered_of_render h c hc).within_suits, fun b blockId => ?_,
    fun version => ?_, fun blockId => ?_, ?_⟩
  · refine ⟨_, rfl, fun c hc => ?_⟩
    cases List.mem_singleton.mp hc
    exact ⟨hv.updateStat _ _, fun _ h => by cases h⟩
  · refine ⟨_, fun c hc => ?_, rfl⟩
    simp only [Checkpoint.addStat, Batch.add, List.nil_append, List.cons_append, List.mem_cons,
      List.not_mem_nil, or_false] at hc
    rcases hc with rfl | rfl <;> exact ⟨hv.insertStat _ _, fun _ h => by cases h⟩
  · refine ⟨_, fun c hc => ?_, rfl⟩
    cases List.mem_singleton.mp hc
    exact ⟨hv.setIrreversible _, fun _ h => by cases h⟩
  · intro p layout version l ops xs e ys hl hsplit hop hok
    obtain ⟨done, op, rest, -, -, rfl, rfl⟩ := history_eq_append_cons hsplit
    cases (hop : op = .startup)
    -- Up to the startup only the calls of the open draft matter, from then on the session too.
    have hs := after_within hv p layout version l done
    obtain ⟨_, hsend⟩ := after_sends done (s := ⟨_, l⟩) (p.succeed_sound layout version)
    have hstatements := hsend.statements_eq.trans hl
    have hwalk := Op.startup.program_walks hs.sound _ .refl
    have hequipped : (Op.startup.perform _).after.link.Equipped :=
      ⟨(Op.perform_sends hs.sound .startup).statements_eq.trans hstatements,
        Op.startup_registers hok⟩
    intro f hf
    have hfit := history_fits rest (hwalk.within hv hs) hequipped f hf
    exact ⟨hfit.ordinary, hfit.requests⟩

theorem calls_fit_destroyed_token :
    let a : Action :=
      ⟨"destroytoken", "cars", "t1", [("domain", .text "cars"), ("name", .text "t1")]⟩
    let b : Block := { bareBlock "b1" 1 "" with
      transactions := [{ bareTransaction "x1" with actions := [a] }] }
    let s : Intake Script := ⟨.succeed (.ofLayout statsLayout "1") statsLayout "1",
      .ofStatements Statement.standard, .empty, []⟩
    FitsStatements [ownershipCall "cars:t1" .burned] ∧
      (Op.startup.perform s).result.isOk = true ∧
      ∀ f ∈ history [.ingestBlock b, .markIrreversible "b1"] (Op.startup.perform s).after,
        Ordinary f.result ∧ ∀ q reply, Entry.asked q reply ∈ f.entries → q.Fits := by
  intro a b s
  obtain ⟨hrender, -, -, -, hrun⟩ := calls_fit_statements (σ := Script)
  have hcall : render a = .ok (some [ownershipCall "cars:t1" .burned]) := by rfl
  have hok : (Op.startup.perform s).result.isOk = true := by decide +kernel
  exact ⟨hrender a _ hcall, hok, hrun _ statsLayout "1" s.link
    [.startup, .ingestBlock b, .markIrreversible "b1"] [] _ _ rfl rfl rfl hok⟩

end Ingest

end ChainArchive
