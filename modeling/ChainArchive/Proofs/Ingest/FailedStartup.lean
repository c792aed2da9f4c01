import ChainArchive.Proofs.Ingest.Halting

namespace ChainArchive.Ingest

open ChainArchive.Record ChainArchive.Schema ChainArchive.Link

variable {σ : Type} [Server σ]

def Intake.Reports (s : Intake σ) (b : Block) : Prop :=
  s.pipeline.lastSync = some b.blockId ∨
    ((Checkpoint.blockExists b.blockId).runFrom s.link).1 = .ok true

/-- An event that lets no new block in: neither is one opened or ingested, nor is anything of a
block written. -/
structure Event.Closed (e : Event σ) : Prop where
  unopened : ∀ b, e.op = .beginBlock b → e.result.isOk = false
  unstored : ∀ b, e.op = .ingestBlock b → ¬ e.before.Reports b → e.result.isOk = false
  unwritten : e.entries.any Entry.writesBlock = false

theorem Op.perform_not_ready {s : Intake σ} (hs : s.pipeline.Sound) (hr : ¬ s.pipeline.Ready)
    (op : Op) (hop : op = .startup → (op.perform s).result.isOk = false) :
    (op.perform s).Closed ∧ ¬ (op.perform s).after.pipeline.Ready := by
  have hbegin : ∀ b id q, s.pipeline.beginBlock b ≠ (.ok id, q) :=
    fun b id q hb => hr (Pipeline.ready_of_beginBlock hb)
  obtain ⟨⟨es, hsend, hquiet⟩, hst, hh⟩ := (op.perform_effect hs).of_not_ready hs hr hop
  refine ⟨⟨?_, ?_, by rwa [Event.entries_eq hsend]⟩, ?_⟩
  · rintro b rfl
    rw [Op.perform_beginBlock]
    cases hb : s.pipeline.beginBlock b with
    | mk r q =>
      cases r with
      | ok id => exact absurd hb (hbegin _ _ _)
      | error f => rfl
  · rintro b rfl hnew
    have hcases := Intake.ingestBlock_cases hs b
    simp only [Op.perform, Op.program, Program.runFrom_bind_pure]
    generalize ((Intake.ingestBlock b).runFrom s).1 = r, ((Intake.ingestBlock b).runFrom s).2 = s'
      at hcases ⊢
    cases hcases with
    | reached h => exact absurd (.inl h) hnew
    | stored h => exact absurd (.inr (congrArg Prod.fst h)) hnew
    | refused => rfl
    | written _ hb => exact absurd hb (hbegin _ _ _)
  · rwa [Pipeline.Ready, hst, hh]

theorem closed_of_not_ready {s : Intake σ} (hs : s.pipeline.Sound) (hr : ¬ s.pipeline.Ready) :
    s.UntilStartup Event.Closed := by
  refine Intake.untilStartup (I := fun s => s.pipeline.Sound ∧ ¬ s.pipeline.Ready) ?_ ⟨hs, hr⟩
  rintro s op ⟨hs, hr⟩ hop
  obtain ⟨hclosed, hr'⟩ := op.perform_not_ready hs hr hop
  exact ⟨hclosed, (op.perform_effect hs).sound hs, hr'⟩

theorem not_closed_of_ready {s : Intake σ} (hs : s.pipeline.Sound) (hr : s.pipeline.Ready) :
    ¬ s.UntilStartup Event.Closed := by
  intro hclosed
  obtain ⟨t, ht, hr', hc⟩ : ∃ t : Intake σ, t.UntilStartup Event.Closed ∧ t.pipeline.Ready ∧
      t.pipeline.current = none := by
    cases hc : s.pipeline.current with
    | none => exact ⟨s, hclosed, hr, hc⟩
    | some id =>
      have hk := s.pipeline.abort_kept id
      refine ⟨_, hclosed.next (.abort id) nofun, ?_, hs.current_abort hc⟩
      exact ⟨hk.started_eq.trans hr.1, hk.halted_eq.trans hr.2⟩
  have hrefused : ∀ b, ((Op.beginBlock b).perform t).result.isOk = false :=
    fun b => (ht.now (.beginBlock b) nofun).unopened b rfl
  cases (hrefused _).symm.trans (congrArg Except.isOk (beginBlock_of_ready hr' hc))

/-- After a failed startup no block is let in until one succeeds, exactly unless the pipeline was
already running: it goes on then. -/
theorem closed_after_failed_startup {p : Pipeline} {layout : Layout} {version : String}
    {l : Link σ} {ops : List Op} {s s' : Intake σ} {f : Failure}
    (hs : s = after ops ⟨p.succeed layout version, l⟩)
    (hfail : Intake.startup.runFrom s = (.error f, s')) :
    s'.UntilStartup Event.Closed ↔ ¬ (s.pipeline.started = true ∧ s.pipeline.halted = none) := by
  have hsound : s.pipeline.Sound := hs ▸ after_sound ops (p.succeed_sound layout version)
  have hsound' : s'.pipeline.Sound := Intake.startup_sound hsound hfail
  -- The failed startup has changed nothing that decides whether blocks are taken.
  have hready : s'.pipeline.Ready ↔ s.pipeline.started = true ∧ s.pipeline.halted = none := by
    obtain ⟨-, -, -, hr⟩ := Intake.startup_quietly s
    rw [hfail] at hr
    obtain hr | ⟨last, hr⟩ := hr <;> rw [show s'.pipeline = _ from hr] <;> rfl
  rw [← hready]
  exact ⟨fun hclosed hr => not_closed_of_ready hsound' hr hclosed, closed_of_not_ready hsound'⟩

def outdated : Intake Script :=
  { scripted { Script.empty with
      fetchValue := .bool true
      results := [("read_stat", [.text "1", .text "", .text "0"]), ("latest_block_id", [.null])]
      failCopy := [("blocks", .database)] } with
    link.session := .ofStatements (Statement.ofStats ++ Statement.ofBlocks) }

theorem closed_after_outdated_version :
    let s := after [.startup, .beginBlock (bareBlock "b1" 1 "b0"), .commit 0] outdated
    ∃ f s', Intake.startup.runFrom s = (.error f, s') ∧ f.toClass = .version ∧
      s'.UntilStartup Event.Closed := by
  intro s
  have hversion : failureClass? (Intake.startup.runFrom s).1 = some .version := by
    decide +kernel
  have hhalted : ¬ (s.pipeline.started = true ∧ s.pipeline.halted = none) := by decide +kernel
  have hs : s = after [.startup, .beginBlock (bareBlock "b1" 1 "b0"), .commit 0]
      ⟨(Pipeline.ofLayout statsLayout "1").succeed statsLayout "1", outdated.link⟩ := rfl
  clear_value s
  obtain ⟨f, hf, hclass⟩ := exists_of_failureClass? hversion
  have hfail : Intake.startup.runFrom s = (.error f, (Intake.startup.runFrom s).2) :=
    Prod.ext hf rfl
  exact ⟨f, _, hfail, hclass, (closed_after_failed_startup hs hfail).mpr hhalted⟩

/-- The database of a running pipeline turns out to be outdated, and the next block is opened all
the same. -/
theorem not_closed_after_outdated_version :
    let s := after [.startup] outdated
    ∃ f s', Intake.startup.runFrom s = (.error f, s') ∧ f.toClass = .version ∧
      ((Op.beginBlock (bareBlock "b1" 1 "b0")).perform s').result.isOk = true ∧
      ¬ s'.UntilStartup Event.Closed := by
  intro s
  have hversion : failureClass? (Intake.startup.runFrom s).1 = some .version := by
    decide +kernel
  have hopened : ((Op.beginBlock (bareBlock "b1" 1 "b0")).perform
      (Intake.startup.runFrom s).2).result.isOk = true := by decide +kernel
  clear_value s
  obtain ⟨f, hf, hclass⟩ := exists_of_failureClass? hversion
  refine ⟨f, _, Prod.ext hf rfl, hclass, hopened, fun hclosed => ?_⟩
  have hrefused := (hclosed.now (.beginBlock (bareBlock "b1" 1 "b0")) nofun).unopened _ rfl
  cases hopened.symm.trans hrefused

end ChainArchive.Ingest
