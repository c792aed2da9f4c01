import ChainArchive.Proofs.Ingest.Chain
import ChainArchive.Proofs.Recovery.Stored

namespace ChainArchive

open ChainArchive.Copy ChainArchive.Link ChainArchive.Program ChainArchive.Record
  ChainArchive.Schema

namespace Disk

variable {t : Terms} (fault : Nat → Option ServerError)

theorem copyInto_yields (ht : Standard t) (table : String) (columns : List String)
    {data : List Char} (hd : (readRows? data).isSome = true) (h : Holdings) :
    ∃ h', Yields t fault ⟨h, none⟩ (copyInto table columns data) (.ok ()) ⟨h', none⟩ := by
  refine ⟨h.apply (.copy table columns data), fun l hl hf hs => ?_⟩
  have hreply : ∀ o, (⟨h, none⟩ : Store).view.reply o (.copy table columns data) = .ok .null :=
    fun _ => if_pos hd
  obtain ⟨reply, m, hm, ht', -, hf', hs', hr⟩ := ask_runFrom hl ht.connected hf hs hreply
  simp only [copyInto, runFrom_bind, hm]
  obtain rfl | ⟨hn, e, rfl⟩ := hr
  · exact ⟨ht', hf', .inl ⟨rfl, hs'⟩⟩
  · exact ⟨ht', hf', .inr ⟨hn, rfl⟩⟩

theorem transfer_yields {b : RowBuffer} (ht : Standard t)
    (hb : ∀ u, b.rows u ≠ [] → (readRows? (b.payload u)).isSome = true) (h : Holdings) :
    ∃ h', Yields t fault ⟨h, none⟩ b.commit (.ok .empty) ⟨h', none⟩ := by
  have heach : ∀ us h, ∃ h', Yields t fault ⟨h, none⟩ (b.transferEach us) (.ok ()) ⟨h', none⟩ := by
    intro us
    induction us with
    | nil => exact fun h => ⟨h, .pure ()⟩
    | cons u us ih =>
      intro h
      cases hu : (b.rows u).isEmpty with
      | true =>
        simp only [RowBuffer.transferEach, hu]
        exact ih h
      | false =>
        simp only [RowBuffer.transferEach, hu]
        obtain ⟨h₁, hcopy⟩ := copyInto_yields fault ht u.name u.columns
          (hb u (by simpa using hu)) h
        obtain ⟨h₂, hrest⟩ := ih h₁
        exact ⟨h₂, hcopy.bind hrest⟩
  obtain ⟨h', heach⟩ := heach RowTable.all h
  exact ⟨h', heach.bind (.pure RowBuffer.empty)⟩

theorem advance_yields (ht : Standard t) (blockId : String) (h : Holdings) :
    ∃ h', Yields t fault ⟨h, none⟩ (Batch.commit (Checkpoint.advance [] blockId)) (.ok [])
      ⟨h', none⟩ := by
  obtain ⟨p, hp, hname⟩ := ht.find? "update_stat" (by decide +kernel)
  have hreply : ∀ o, (⟨h, some h⟩ : Store).view.reply o
      (.run p [.text Checkpoint.lastSyncKey, .text blockId]) = .ok .null := by
    intro o
    simp [Holdings.reply, hname]
  have hrun : Yields t fault ⟨h, some h⟩ (run "update_stat" [.text Checkpoint.lastSyncKey,
      .text blockId]) (.ok .null) _ := run_yields ht.connected hp hreply
  have hcalls : Yields t fault ⟨h, some h⟩ (Batch.runCalls (Checkpoint.advance [] blockId)) (.ok ())
      ⟨h, some (h.apply (.run p [.text Checkpoint.lastSyncKey, .text blockId]))⟩ :=
    ((hrun.mapFailure _).bind (.pure ())).bind (.pure ())
  exact ⟨_, (inTransaction_yields ht.connected hcalls).bind (.pure [])⟩

end Disk

namespace Ingest

/-- A commit of a block that failed, having sent something of the block. -/
structure Event.Breaks {σ : Type} (e : Event σ) (b : Block) : Prop where
  target_eq : e.target? = some b
  failed : e.result.isOk = false
  written : e.entries.any Entry.writesBlock = true

def Event.reported? {σ : Type} (e : Event σ) : Option Block :=
  match e.op, e.result with
  | .ingestBlock b, .ok (.flag false) => some b
  | _, _ => none

namespace Intake

/-- The block is the resume point, or its row is stored. -/
def Knows (s : Intake Disk) (blockId : String) : Prop :=
  s.pipeline.lastSync = some blockId ∨ s.Stored blockId

def meeting (fault : Nat → Option ServerError) (s : Intake Disk) : Intake Disk :=
  { s with link.line.server.fault := fault }

/-- Whichever requests fail from now on, a block with the id is not ingested, and not reported as
stored either, until a startup succeeds. -/
def Refuses (s : Intake Disk) (blockId : String) : Prop :=
  ∀ fault, (s.meeting fault).UntilStartup fun e =>
    ∀ b, e.op = .ingestBlock b → b.blockId = blockId → e.result.isOk = false

variable {s : Intake Disk} {blockId : String}

theorem Idle.meeting (hs : s.Idle) (fault : Nat → Option ServerError) :
    (s.meeting fault).Idle := by
  obtain ⟨v, hv⟩ := hs.synced
  exact ⟨⟨v, hv.standard, hv.shows⟩, hs.sound, hs.proper⟩

theorem Idle.blockExists (hs : s.Idle) (blockId : String) :
    let l := ((Checkpoint.blockExists blockId).runFrom s.link).2
    Disk.Standard l.terms ∧ l.line.server.fault = s.link.line.server.fault ∧
      (((Checkpoint.blockExists blockId).runFrom s.link).1 =
          .ok (s.link.line.server.store.durable.hasBlock blockId) ∧
        l.line.server.store = s.link.line.server.store ∨
      (∃ n, s.link.line.server.fault n ≠ none) ∧
        ((Checkpoint.blockExists blockId).runFrom s.link).1.isOk = false) := by
  have hstore : s.link.line.server.store = ⟨s.link.line.server.store.durable, none⟩ := by
    rw [← hs.bracket_eq]
  obtain ⟨ht, hf, h⟩ := Disk.blockExists_yields
    (h := s.link.line.server.store.durable) hs.standard blockId s.link rfl rfl hstore
  rw [← hstore] at h
  exact ⟨ht ▸ hs.standard, hf, h⟩

theorem Idle.reports (hs : s.Idle) (hf : s.link.line.server.fault = fun _ => none) {b : Block}
    (hk : s.Knows b.blockId) : ((ingestBlock b).runFrom s).1 = .ok false := by
  rw [ingestBlock, runFrom_bind, runFrom_get]
  dsimp only
  split
  · rfl
  · next hlast =>
    have hstored : s.link.line.server.store.durable.hasBlock b.blockId = true :=
      hk.resolve_left hlast
    obtain ⟨-, -, ⟨hfound, -⟩ | ⟨⟨n, hn⟩, -⟩⟩ := hs.blockExists b.blockId
    · rw [runFrom_bind, onLink_runFrom, hfound, hstored]
      rfl
    · rw [hf] at hn
      exact absurd rfl hn

theorem send_bare {l : Link Disk} {p : Pipeline} {id : DraftId} {h : Holdings} {b : Block}
    (hl : Disk.Standard l.terms) (hf : l.line.server.fault = fun _ => none)
    (hs : l.line.server.store = ⟨h, none⟩) :
    ((send id (.ofBlock b)).runFrom ⟨p, l⟩).1 = .ok () := by
  have hrows : ∀ u, (Draft.ofBlock b).flushed.advance.rows.rows u ≠ [] →
      (readRows? ((Draft.ofBlock b).flushed.advance.rows.payload u)).isSome = true := by
    intro u hu
    cases u with
    | blocks =>
      have hread := readRows?_encodeRow [blockRow b (some 0)] fun r hr => by
        cases List.mem_singleton.mp hr
        exact List.cons_ne_nil _ _
      exact Option.isSome_iff_exists.mpr ⟨_, hread⟩
    | transactions | actions => exact absurd rfl hu
  simp only [send, runFrom_bind, runFrom_lift, Draft.flush_eq (d := .ofBlock b) rfl, update_runFrom,
    onLink_runFrom]
  obtain ⟨h₁, hcopied⟩ := Disk.transfer_yields (fun _ => none) hl hrows h
  obtain ⟨ht, hf₁, ⟨hr, hs₁⟩ | ⟨⟨n, hn⟩, -⟩⟩ := hcopied l rfl hf hs
  · obtain ⟨h₂, hmoved⟩ := Disk.advance_yields (fun _ => none) hl b.blockId h₁
    obtain ⟨-, -, ⟨hr', -⟩ | ⟨⟨n, hn⟩, -⟩⟩ := hmoved _ ht hf₁ hs₁
    · rw [hr]
      dsimp only
      rw [show (Draft.ofBlock b).flushed.advance.batch = Checkpoint.advance [] b.blockId from rfl,
        hr']
    · exact absurd rfl hn
  · exact absurd rfl hn

theorem Idle.ingests (hs : s.Idle) (hr : s.pipeline.Ready) (hc : s.pipeline.current = none)
    (hf : s.link.line.server.fault = fun _ => none) (blockId : String) :
    ((ingestBlock (bareBlock blockId 0 (s.pipeline.lastSync.getD ""))).runFrom s).1.isOk =
      true := by
  -- The block follows the resume point and carries nothing, so only the server could refuse it.
  generalize hb : bareBlock blockId 0 (s.pipeline.lastSync.getD "") = b
  have hbegin := Pipeline.beginBlock_eq_ok.mpr ⟨hr.1, hr.2, Pipeline.openDraft?_of_closed hc,
    fun _ => (hb ▸ rfl : b.prevBlockId = s.pipeline.lastSync.getD ""), rfl, rfl⟩
  have hfill : (s.pipeline.opened b).onDraft s.pipeline.drafts.length
      (·.addTransactions b.transactions 0) = (.ok (), s.pipeline.opened b) := by
    have htrxs : b.transactions = [] := hb ▸ rfl
    have hself := Pipeline.setDraft_self (s.pipeline.draft?_opened b)
    simp only [Pipeline.onDraft, s.pipeline.draft?_opened b, htrxs, Draft.addTransactions, hself,
      Bool.and_not_self, Bool.false_eq_true, if_false]
  rw [ingestBlock, runFrom_bind, runFrom_get]
  dsimp only
  split
  · rfl
  obtain ⟨hstd, hfault, ⟨hfound, hstore⟩ | ⟨⟨n, hn⟩, -⟩⟩ := hs.blockExists b.blockId
  · rw [runFrom_bind, onLink_runFrom, hfound]
    dsimp only
    split
    · rfl
    · generalize ((Checkpoint.blockExists b.blockId).runFrom s.link).2 = l at hstd hfault hstore ⊢
      have hbracket : l.line.server.store = ⟨l.line.server.store.durable, none⟩ := by
        rw [← hs.bracket_eq, ← hstore]
      have hsent : ((commit s.pipeline.drafts.length).runFrom ⟨s.pipeline.opened b, l⟩).1 =
          .ok () := by
        rw [commit_eq rfl (s.pipeline.draft?_opened b), concluding_runFrom]
        exact send_bare hstd (hfault.trans hf) hbracket
      have hbegun : (onPipeline (·.beginBlock b)).runFrom (⟨s.pipeline, l⟩ : Intake Disk) =
          (.ok s.pipeline.drafts.length, ⟨s.pipeline.opened b, l⟩) := by simp [onPipeline, hbegin]
      have hfilled : (onPipeline fun p => p.onDraft s.pipeline.drafts.length
          (·.addTransactions b.transactions 0)).runFrom (⟨s.pipeline.opened b, l⟩ : Intake Disk) =
          (.ok (), ⟨s.pipeline.opened b, l⟩) := by simp [onPipeline, hfill]
      rw [runFrom_bind_ok hbegun, runFrom_bind_ok hfilled, runFrom_bind_pure _ fun _ => true, hsent]
      rfl
  · rw [hf] at hn
    exact absurd rfl hn

structure Denies (s : Intake Disk) (blockId : String) : Prop where
  idle : s.Idle
  prepared : s.Prepared
  started_eq : s.pipeline.started = true
  halted_ne : s.pipeline.halted ≠ none
  unknown : ¬ s.Knows blockId

theorem Denies.not_ready (hs : s.Denies blockId) : ¬ s.pipeline.Ready :=
  fun h => hs.halted_ne h.2

theorem Denies.ingestBlock (hs : s.Denies blockId) {b : Block} (hb : b.blockId = blockId) :
    ((ingestBlock b).runFrom s).1.isOk = false := by
  have hcases := ingestBlock_cases hs.idle.sound b
  obtain ⟨-, -, hfound⟩ := hs.idle.blockExists b.blockId
  generalize ((Intake.ingestBlock b).runFrom s).1 = r,
    ((Intake.ingestBlock b).runFrom s).2 = s' at hcases ⊢
  cases hcases with
  | reached hlast => exact absurd (.inl (hb ▸ hlast)) hs.unknown
  | stored hl =>
    rw [hl] at hfound
    obtain ⟨hstored, -⟩ | ⟨-, hok⟩ := hfound
    · exact absurd (.inr (hb ▸ (Except.ok.inj hstored).symm)) hs.unknown
    · cases hok
  | refused => rfl
  | written _ hbegin => exact absurd (Pipeline.ready_of_beginBlock hbegin) hs.not_ready

end Intake

theorem Op.perform_lastSync {σ : Type} [Server σ] {s : Intake σ} (hs : s.pipeline.Sound)
    (op : Op) :
    (op.perform s).after.pipeline.lastSync = s.pipeline.lastSync ∨ op = .startup ∨
      ∃ i b, (op.perform s).committed? = some (i, b) ∧
        (op.perform s).after.pipeline.lastSync = some b.blockId := by
  have heff := op.perform_effect hs
  cases hc : (op.perform s).committed? with
  | some ib =>
    obtain ⟨-, -, -, -, -, -, hlast⟩ := heff.of_committed hc
    exact .inr (.inr ⟨ib.1, ib.2, rfl, hlast⟩)
  | none =>
    obtain ⟨b, id, hb⟩ | ⟨p, hp, -, -, hlast⟩ := heff.of_uncommitted hc
    · obtain ⟨-, -, -, -, -, hq⟩ := Pipeline.beginBlock_eq_ok.mp hb
      exact .inl (hq ▸ rfl)
    · by_cases hop : op = .startup
      · exact .inr (.inl hop)
      · refine .inl ((hlast hop).trans ?_)
        obtain rfl | ⟨b, id, q, hb, hk⟩ := hp
        · rfl
        · obtain ⟨-, -, -, -, -, rfl⟩ := Pipeline.beginBlock_eq_ok.mp hb
          exact hk.lastSync_eq

theorem Op.perform_denies {s : Intake Disk} {blockId : String} (hs : s.Denies blockId) (op : Op)
    (hop : op = .startup → (op.perform s).result.isOk = false) :
    (op.perform s).after.Denies blockId := by
  have heff := op.perform_effect hs.idle.sound
  obtain ⟨⟨es, hsend, hq⟩, hst, hh⟩ := heff.of_not_ready hs.idle.sound hs.not_ready hop
  refine ⟨op.perform_idle hs.idle, op.perform_prepared hs.idle.sound hs.prepared,
    hst.trans hs.started_eq, fun h => hs.halted_ne (hh.symm.trans h), ?_⟩
  rintro (hlast | hstored)
  · obtain hkept | hstartup | ⟨i, b, hc, -⟩ := op.perform_lastSync hs.idle.sound
    · exact hs.unknown (.inl (hkept.symm.trans hlast))
    · subst hstartup
      have hkept := Op.perform_startup_error hs.prepared hs.started_eq (hop rfl)
      rw [hkept] at hlast
      exact hs.unknown (.inl hlast)
    · obtain ⟨p, rfl | ⟨q, hbegin, -⟩, hcur, -⟩ := heff.of_committed hc
      · exact hs.not_ready (hs.idle.sound.ready (by simp [hcur]))
      · exact hs.not_ready (Pipeline.ready_of_beginBlock hbegin)
  · obtain h | ⟨hstores, -⟩ := (op.perform_stored hs.idle blockId).mp hstored
    · exact hs.unknown (.inr h)
    · rw [Event.entries_eq hsend, Entry.storesBlock_of_quiet hq] at hstores
      cases hstores

theorem Intake.Denies.refuses {s : Intake Disk} {blockId : String} (hs : s.Denies blockId) :
    s.Refuses blockId := by
  intro fault
  refine Intake.untilStartup (I := fun s => s.Denies blockId) ?_
    ⟨hs.idle.meeting fault, hs.prepared, hs.started_eq, hs.halted_ne, hs.unknown⟩
  intro s op hs hop
  refine ⟨?_, op.perform_denies hs hop⟩
  rintro b rfl hb
  simp only [Op.perform, Op.program, runFrom_bind_pure]
  rw [isOk_map]
  exact hs.ingestBlock hb

theorem Event.Commits.breaks {e : Event Disk} {m : Intake Disk} {id : DraftId} {d : Draft}
    {es : List Entry} (h : e.Commits m id d es) (hfail : e.result.isOk = false) :
    e.Breaks d.block := by
  obtain ⟨fs, -, -, hentries, hw, -⟩ := h.writes
  rw [d.steps_flushed] at hw
  refine ⟨h.target_eq, hfail, ?_⟩
  rw [hentries, List.any_append, hw.writesBlock_of_copy h.idle.standard.connected, Bool.or_true]

theorem Event.Commits.failed {e : Event Disk} {m : Intake Disk} {id : DraftId} {d : Draft}
    {es : List Entry} (h : e.Commits m id d es) (hfail : e.result.isOk = false) :
    e.after.pipeline.lastSync = e.before.pipeline.lastSync ∧ e.after.pipeline.current = none ∧
      e.after.pipeline.started = true ∧
      (e.after.pipeline.halted = none ↔ e.entries.any Entry.escapes = true) := by
  obtain ⟨fs, d', -, hentries, hw, hp⟩ := h.writes
  obtain ⟨hst, hh⟩ := h.idle.sound.ready (by simp [h.current_eq])
  have hescapes := hw.escapes_eq h.idle.standard.connected
  rw [h.isOk_eq] at hfail
  rw [hentries, List.any_append, h.unescaped, Bool.false_or, hescapes, hp]
  cases hr : ((Intake.commit id).runFrom m).1 with
  | ok _ =>
    rw [hr] at hfail
    cases hfail
  | error f =>
    refine ⟨h.lastSync_eq, rfl, hst, ?_⟩
    cases hf : f.isDatabase <;> simp [Intake.settled, escaped, hf, hh]

theorem Intake.Refuses.result {s : Intake Disk} {blockId : String} (h : s.Refuses blockId)
    {b : Block} (hb : b.blockId = blockId) :
    ((Intake.ingestBlock b).runFrom (s.meeting fun _ => none)).1.isOk = false := by
  have hnow := (h fun _ => none).now (.ingestBlock b) nofun b rfl hb
  simp only [Op.perform, Op.program, runFrom_bind_pure] at hnow
  rwa [isOk_map] at hnow

theorem Op.perform_knows {s : Intake Disk} (hs : s.Idle) {op : Op} {b : Block}
    (hb : (op.perform s).Breaks b) : (op.perform s).after.Knows b.blockId ↔
      s.Knows b.blockId ∨ (op.perform s).entries.any Entry.storesBlock = true := by
  obtain hq | ⟨m, id, d, es, h⟩ := op.perform_commits hs
  · cases hq.symm.trans hb.written
  · have hlast := (h.failed hb.failed).1
    have hstored := op.perform_stored hs b.blockId
    simp only [hb.target_eq, Option.some.injEq, exists_eq_left', and_true] at hstored
    rw [Intake.Knows, hlast, hstored, ← or_assoc]
    rfl

/-- A block whose commit failed is refused from then on exactly if the failure halted the pipeline
before the row of the block was stored, and the block was not known before. -/
theorem Op.perform_refuses {s : Intake Disk} (hs : s.Idle) (hp : s.Prepared) {op : Op} {b : Block}
    (hb : (op.perform s).Breaks b) : (op.perform s).after.Refuses b.blockId ↔
      (op.perform s).entries.any Entry.escapes = false ∧
        (op.perform s).entries.any Entry.storesBlock = false ∧ ¬ s.Knows b.blockId := by
  have hafter := op.perform_idle hs
  have hknows := op.perform_knows hs hb
  obtain hq | ⟨m, id, d, es, h⟩ := op.perform_commits hs
  · cases hq.symm.trans hb.written
  obtain ⟨-, hc, hst, hhalted⟩ := h.failed hb.failed
  have hunknown : ¬ (op.perform s).after.Knows b.blockId ↔
      (op.perform s).entries.any Entry.storesBlock = false ∧ ¬ s.Knows b.blockId := by
    rw [hknows, not_or, Bool.not_eq_true, and_comm]
  rw [← hunknown]
  constructor
  · intro href
    -- Refusal is for any faults, so take none: then the block would be ingested or reported.
    have hidle := hafter.meeting fun _ => none
    refine ⟨?_, fun hk => ?_⟩
    · cases hescapes : (op.perform s).entries.any Entry.escapes with
      | false => rfl
      | true =>
        have hok := hidle.ingests ⟨hst, hhalted.mpr hescapes⟩ hc rfl b.blockId
        cases hok.symm.trans (href.result rfl)
    · have hreported := hidle.reports (b := b) rfl hk
      cases (href.result rfl).symm.trans (congrArg Except.isOk hreported)
  · rintro ⟨hescapes, hk⟩
    have hhalt : (op.perform s).after.pipeline.halted ≠ none := by
      rw [ne_eq, hhalted, hescapes]
      exact Bool.false_ne_true
    exact Intake.Denies.refuses ⟨hafter, op.perform_prepared hs.sound hp, hst, hhalt, hk⟩

theorem eq_perform_of_mem {ops : List Op} {s : Intake Disk} (hs : s.Idle) (hp : s.Prepared)
    {e : Event Disk} (he : e ∈ history ops s) :
    e = e.op.perform e.before ∧ e.before.Idle ∧ e.before.Prepared := by
  induction ops generalizing s with
  | nil => cases he
  | cons op ops ih =>
    obtain rfl | he := List.mem_cons.mp he
    · exact ⟨rfl, hs, hp⟩
    · exact ih (op.perform_idle hs) (op.perform_prepared hs.sound hp) he

def Event.Leaves (e : Event Disk) (blockId : String) : Prop :=
  ∃ b, b.blockId = blockId ∧ ((∃ i, e.committed? = some (i, b)) ∨
    e.Breaks b ∧ e.entries.any Entry.storesBlock = true)

theorem Op.perform_leaves {s : Intake Disk} (hs : s.Idle) (op : Op) {blockId : String}
    (h : (op.perform s).after.Stored blockId) :
    s.Stored blockId ∨ (op.perform s).Leaves blockId := by
  obtain h | ⟨hstores, b, htarget, hb⟩ := (op.perform_stored hs blockId).mp h
  · exact .inl h
  refine .inr ⟨b, hb, ?_⟩
  obtain hq | ⟨m, id, d, es, h⟩ := op.perform_commits hs
  · cases (Entry.storesBlock_of_quiet hq).symm.trans hstores
  cases htarget.symm.trans h.target_eq
  cases hok : (op.perform s).result.isOk with
  | true => exact .inl (h.committed hok)
  | false => exact .inr ⟨h.breaks hok, hstores⟩

/-- The known blocks after a history: those known before, the resume points that startups found,
and the blocks that events left. -/
theorem after_knows {ops : List Op} {s : Intake Disk} (hs : s.Idle) {blockId : String}
    (h : (after ops s).Knows blockId) : s.Knows blockId ∨ ∃ e ∈ history ops s,
      e.op = .startup ∧ e.after.pipeline.lastSync = some blockId ∨ e.Leaves blockId := by
  induction ops generalizing s with
  | nil => exact .inl h
  | cons op ops ih =>
    obtain h | ⟨e, he, hleft⟩ := ih (op.perform_idle hs) h
    · obtain hlast | hstored := h
      · obtain hkept | hop | ⟨i, b, hc, hb⟩ := op.perform_lastSync hs.sound
        · exact .inl (.inl (hkept.symm.trans hlast))
        · exact .inr ⟨_, List.mem_cons_self, .inl ⟨hop, hlast⟩⟩
        · refine .inr ⟨_, List.mem_cons_self, .inr ⟨b, ?_, .inl ⟨i, hc⟩⟩⟩
          exact Option.some.inj (hb.symm.trans hlast)
      · obtain h | hleft := op.perform_leaves hs hstored
        · exact .inl (.inr h)
        · exact .inr ⟨_, List.mem_cons_self, .inr hleft⟩
    · exact .inr ⟨e, List.mem_cons_of_mem _ he, hleft⟩

theorem Op.perform_reported {s : Intake Disk} (hs : s.Idle) {op : Op} {b : Block}
    (h : (op.perform s).reported? = some b) : s.Knows b.blockId := by
  cases op with
  | ingestBlock c =>
    have hcases := Intake.ingestBlock_cases hs.sound c
    obtain ⟨-, -, hfound⟩ := hs.blockExists c.blockId
    simp only [Op.perform, Op.program, runFrom_bind_pure] at h
    generalize ((Intake.ingestBlock c).runFrom s).1 = r,
      ((Intake.ingestBlock c).runFrom s).2 = s' at hcases h
    cases hcases with
    | reached hlast =>
      cases h
      exact .inl hlast
    | stored hl =>
      cases h
      rw [hl] at hfound
      obtain ⟨hstored, -⟩ | ⟨-, hok⟩ := hfound
      · exact .inr (Except.ok.inj hstored).symm
      · cases hok
    | refused => cases h
    | @written l id p q =>
      generalize ((Intake.commit id).runFrom ⟨q, l⟩).1 = r at h
      cases r <;> cases h
  | startup | needsBootstrap | beginBlock | addTransaction | addAction | flush | discard | abort
  | commit | markIrreversible => cases h

/-- An intake is made on a database, and works with requests failing anywhere. A block whose commit
fails is refused until a startup succeeds, exactly if the failure was one of the write path's own,
came before the row of the block was stored, and the block was not known before. And a block is
reported as stored only if it was stored from the start, is the point that a startup found, was
committed, or was left half written by a commit that failed. -/
theorem refuses_after_broken_commit (layout : Layout) (version : String) (h : Holdings)
    (fault : Nat → Option ServerError) (other : Nat → Value) (ops : List Op) :
    let s := (Disk.start h fault other).intake layout version
    (∀ e ∈ history ops s, ∀ b, e.Breaks b → (e.after.Refuses b.blockId ↔
      e.entries.any Entry.escapes = false ∧ e.entries.any Entry.storesBlock = false ∧
        ¬ e.before.Knows b.blockId)) ∧
    ∀ xs e ys b, history ops s = xs ++ e :: ys → e.reported? = some b →
      h.hasBlock b.blockId = true ∨ ∃ x ∈ xs,
        x.op = .startup ∧ x.after.pipeline.lastSync = some b.blockId ∨ x.Leaves b.blockId := by
  intro s
  have hidle : s.Idle := by
    refine ⟨⟨h.sync?, Disk.intake_standard _ _ _, rfl, rfl⟩, ?_, nofun⟩
    exact .of_closed rfl fun hne => absurd rfl hne
  have hprepared : s.Prepared := nofun
  refine ⟨fun e he b hb => ?_, fun xs e ys b hsplit hb => ?_⟩
  · obtain ⟨heq, hbefore, hp⟩ := eq_perform_of_mem hidle hprepared he
    rw [heq] at hb ⊢
    exact Op.perform_refuses hbefore hp hb
  · have he : e ∈ history ops s := hsplit ▸ by simp
    obtain ⟨-, hbefore, -⟩ := eq_perform_of_mem hidle hprepared he
    obtain ⟨done, rest, -, rfl, hrest⟩ := history_eq_append hsplit
    cases rest with
    | nil => cases hrest
    | cons op rest =>
      obtain ⟨rfl, -⟩ := List.cons.inj hrest
      obtain (hlast | hstored) | hleft := after_knows hidle (Op.perform_reported hbefore hb)
      · cases hlast
      · exact .inl hstored
      · exact .inr hleft

def losing (n : Nat) : Intake Disk :=
  after [.startup] ((Disk.start .empty
    (fun k => if k = n then some ⟨.connectionFailure, "connection lost"⟩ else none)
    fun _ => .null).intake statsLayout "1")

theorem refuses_after_lost_row :
    let b := bareBlock "b1" 1 ""
    let e := (Op.ingestBlock b).perform (losing 25)
    e.Breaks b ∧ e.after.Refuses "b1" := by
  intro b e
  obtain ⟨hfailed, hwritten, hescapes, hstores, hlast, hnone⟩ : e.result.isOk = false ∧
      e.entries.any Entry.writesBlock = true ∧ e.entries.any Entry.escapes = false ∧
      e.entries.any Entry.storesBlock = false ∧ e.before.pipeline.lastSync ≠ some "b1" ∧
      e.before.link.line.server.store.durable.hasBlock "b1" = false := by decide +kernel
  have hbreaks : e.Breaks b := ⟨rfl, hfailed, hwritten⟩
  refine ⟨hbreaks, ?_⟩
  have hunknown : ¬ e.before.Knows "b1" := by
    rintro (hlast' | hstored)
    · exact hlast hlast'
    · cases hnone.symm.trans hstored
  exact ((refuses_after_broken_commit statsLayout "1" .empty
    (fun k => if k = 25 then some ⟨.connectionFailure, "connection lost"⟩ else none)
    (fun _ => .null) [.startup, .ingestBlock b]).1 e (by simp [history, e, losing, after]) b
    hbreaks).mpr ⟨hescapes, hstores, hunknown⟩

/-- The connection is lost when the checkpoint is moved: the block is half written, the pipeline is
halted, and the block is reported as stored. -/
theorem not_refuses_half_written :
    let b := bareBlock "b1" 1 ""
    let e := (Op.ingestBlock b).perform (losing 26)
    e.Breaks b ∧ e.after.pipeline.halted.isSome = true ∧
      ((Op.ingestBlock b).perform e.after).reported?.isSome = true ∧ ¬ e.after.Refuses "b1" := by
  intro b e
  obtain ⟨hfailed, hwritten, hhalted, hreported, hok⟩ : e.result.isOk = false ∧
      e.entries.any Entry.writesBlock = true ∧ e.after.pipeline.halted.isSome = true ∧
      ((Op.ingestBlock b).perform e.after).reported?.isSome = true ∧
      ((Op.ingestBlock b).perform (e.after.meeting fun _ => none)).result.isOk = true := by
    decide +kernel
  refine ⟨⟨rfl, hfailed, hwritten⟩, hhalted, hreported, fun href => ?_⟩
  have hfail := (href fun _ => none).now (.ingestBlock b) nofun b rfl rfl
  cases hok.symm.trans hfail

end Ingest

end ChainArchive
