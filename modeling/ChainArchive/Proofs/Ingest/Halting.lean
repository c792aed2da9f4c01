import ChainArchive.Proofs.Ingest.History
import ChainArchive.Proofs.Session.Escape

namespace ChainArchive.Ingest

open ChainArchive.Record ChainArchive.Schema ChainArchive.Link

variable {σ : Type} [Server σ]

/-- An event that lets no block in: an opening is refused as out of step with the database, and
nothing of a block is written. -/
structure Event.Barred (e : Event σ) : Prop where
  refused : ∀ b, e.op = .beginBlock b → ∃ f, e.result = .error f ∧ f.toClass = .sync
  quiet : ∃ es, e.after.link.line.log = e.before.link.line.log ++ es ∧
    es.any Entry.writesBlock = false

def Intake.Barred (s : Intake σ) : Prop :=
  ∀ ops, (∀ e ∈ history ops s, e.op = .startup → e.result.isOk = false) →
    ∀ e ∈ history ops s, e.Barred

theorem Op.perform_halted {s : Intake σ} (hs : s.pipeline.Sound) {reason : String}
    (hh : s.pipeline.halted = some reason) (op : Op)
    (hop : op = .startup → (op.perform s).result.isOk = false) :
    (op.perform s).Barred ∧ (op.perform s).after.pipeline.halted = some reason := by
  have hbegin : ∀ b, s.pipeline.beginBlock b = (.error (.halted reason), s.pipeline) := by
    intro b
    simp [Pipeline.beginBlock, hs.running (by simp [hh]), hh]
  have hrefused : ∀ b, op = .beginBlock b →
      ∃ f, (op.perform s).result = .error f ∧ f.toClass = .sync := by
    rintro b rfl
    rw [Op.perform_beginBlock, hbegin]
    exact ⟨_, rfl, rfl⟩
  have hr : ¬ s.pipeline.Ready := fun h => by cases hh.symm.trans h.2
  obtain ⟨⟨es, hsend, hq⟩, -, hh'⟩ := (op.perform_effect hs).of_not_ready hs hr hop
  exact ⟨⟨hrefused, es, hsend.log_eq, hq⟩, hh'.trans hh⟩

theorem barred_of_halted {s : Intake σ} (hs : s.pipeline.Sound) {reason : String}
    (hh : s.pipeline.halted = some reason) : s.Barred := by
  refine Intake.untilStartup (P := Event.Barred)
    (I := fun s => s.pipeline.Sound ∧ s.pipeline.halted = some reason) ?_ ⟨hs, hh⟩
  rintro s op ⟨hs, hh⟩ hop
  obtain ⟨hbar, hh'⟩ := op.perform_halted hs hh hop
  exact ⟨hbar, (op.perform_effect hs).sound hs, hh'⟩

theorem beginBlock_of_ready {s : Intake σ} (hr : s.pipeline.Ready)
    (hc : s.pipeline.current = none) :
    ((Op.beginBlock (bareBlock "" 0 (s.pipeline.lastSync.getD ""))).perform s).result =
      .ok (.opened s.pipeline.drafts.length) := by
  have hb := Pipeline.beginBlock_eq_ok.mpr ⟨hr.1, hr.2, Pipeline.openDraft?_of_closed hc,
    fun _ => (rfl : (bareBlock "" 0 (s.pipeline.lastSync.getD "")).prevBlockId = _), rfl, rfl⟩
  rw [Op.perform_beginBlock, hb]
  rfl

theorem not_barred {s : Intake σ} (hr : s.pipeline.Ready) (hc : s.pipeline.current = none) :
    ¬ s.Barred := by
  intro hbar
  have huntil : s.UntilStartup Event.Barred := hbar
  obtain ⟨f, hf, -⟩ := (huntil.now (.beginBlock _) nofun).refused _ rfl
  cases (beginBlock_of_ready hr hc).symm.trans hf

/-- A commit that fails after it sent something bars further blocks exactly if every error that
it met was turned into a failure of the write path's own. -/
theorem barred_after_failed_commit {p : Pipeline} {layout : Layout} {version : String}
    {l : Link σ} {ops : List Op} {s s' : Intake σ} {id : DraftId} {f : Failure} {es : List Entry}
    (hs : s = after ops ⟨p.succeed layout version, l⟩) (hopen : s.pipeline.current = some id)
    (hfail : (Intake.commit id).runFrom s = (.error f, s'))
    (hlog : s'.link.line.log = s.link.line.log ++ es) (hes : es ≠ []) :
    s'.Barred ↔ es.any Entry.escapes = false := by
  have hsound : s.pipeline.Sound := hs ▸ after_sound ops (p.succeed_sound layout version)
  obtain ⟨d, hd, hlive⟩ := hsound.live id hopen
  obtain ⟨hst, hh⟩ := hsound.ready (by simp [hopen])
  obtain ⟨es', d', hsend, hw, hp, -⟩ := Intake.commit_runFrom s hopen hd hlive
  rw [hfail] at hsend hw hp
  obtain rfl : es' = es := List.append_cancel_left (hsend.log_eq.symm.trans hlog)
  have hc : s.link.terms.connection ≠ .released := fun hc => hes (hsend.eq_nil hc)
  rw [hw.escapes_eq hc]
  have hcur : s'.pipeline.current = none := hp ▸ Intake.settled_current ..
  have hst' : s'.pipeline.started = true := hp ▸ (Intake.settled_started ..).trans hst
  cases hf : f.isDatabase with
  | true =>
    have hh' : s'.pipeline.halted = some (Intake.haltReason d'.block f) := by
      rw [hp]
      simp [Intake.settled, hf]
    simpa [escaped, hf] using barred_of_halted (.of_closed hcur fun _ => hst') hh'
  | false =>
    have hh' : s'.pipeline.halted = none := by
      rw [hp]
      simpa [Intake.settled, hf] using hh
    simpa [escaped, hf] using not_barred ⟨hst', hh'⟩ hcur

theorem barred_after_refused_rows :
    let s := after [.startup, .beginBlock (bareBlock "b1" 1 "")]
      (scripted { Script.empty with failCopy := [("blocks", .database)] })
    s.pipeline.current = some 0 ∧ ∃ f s' es, (Intake.commit 0).runFrom s = (.error f, s') ∧
      s'.link.line.log = s.link.line.log ++ es ∧ es ≠ [] ∧
      es.any Entry.escapes = false ∧ s'.Barred := by
  intro s
  have hc : s.pipeline.current = some 0 := by decide +kernel
  have hfail : ((Intake.commit 0).runFrom s).1.isOk = false := by decide +kernel
  have hnew : (((Intake.commit 0).runFrom s).2.link.line.log.drop
      s.link.line.log.length).isEmpty = false := by decide +kernel
  have hturned : (((Intake.commit 0).runFrom s).2.link.line.log.drop
      s.link.line.log.length).any Entry.escapes = false := by decide +kernel
  have hs : s = after [.startup, .beginBlock (bareBlock "b1" 1 "")]
      (scripted { Script.empty with failCopy := [("blocks", .database)] }) := rfl
  clear_value s
  have hsound : s.pipeline.Sound := hs ▸ after_sound _ (Pipeline.succeed_sound ..)
  obtain ⟨d, hd, hlive⟩ := hsound.live 0 hc
  obtain ⟨es, -, hsend, -⟩ := Intake.commit_runFrom s hc hd hlive
  cases hr : (Intake.commit 0).runFrom s with
  | mk r s' =>
    rw [hr] at hfail hnew hturned hsend
    -- What the log has gained is what was sent.
    rw [hsend.log_eq, List.drop_left] at hnew hturned
    cases r with
    | ok _ => cases hfail
    | error f =>
      have hes : es ≠ [] := List.isEmpty_eq_false_iff.mp hnew
      exact ⟨hc, f, s', es, rfl, hsend.log_eq, hes, hturned,
        (barred_after_failed_commit hs hc hr hsend.log_eq hes).mpr hturned⟩

/-- The driver reports its misuse when the checkpoint is moved: the rows of the block are stored,
its changes are not, and further blocks are let in. -/
theorem not_barred_after_interface_error :
    let s := after [.startup, .beginBlock (bareBlock "b1" 1 "")]
      (scripted { Script.empty with failPlans := [("update_stat", .interface)] })
    let s' := ((Intake.commit 0).runFrom s).2
    s.pipeline.current = some 0 ∧ ((Intake.commit 0).runFrom s).1.isOk = false ∧
      s.link.line.log.length < s'.link.line.log.length ∧ ¬ s'.Barred := by
  intro s s'
  have hst : s'.pipeline.started = true := by decide +kernel
  have hh : s'.pipeline.halted = none := by decide +kernel
  have hc : s'.pipeline.current = none := by decide +kernel
  exact ⟨by decide +kernel, by decide +kernel, by decide +kernel, not_barred ⟨hst, hh⟩ hc⟩

end ChainArchive.Ingest
