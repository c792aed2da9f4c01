import ChainArchive.Proofs.Ingest.Walk
import ChainArchive.Proofs.Recovery.Restart
import ChainArchive.Proofs.Recovery.Syncing

namespace ChainArchive.Ingest

open ChainArchive.Link ChainArchive.Program ChainArchive.Record

namespace Draft

structure Clean (d : Draft) : Prop where
  calls_sparing : ∀ c ∈ d.batch, c.Sparing
  id_eq : Text.strip d.block.blockId = d.block.blockId

theorem clean_ofBlock {b : Block} (hb : Text.strip b.blockId = b.blockId) : (ofBlock b).Clean :=
  ⟨by simp [ofBlock], hb⟩

theorem sparing_callsOf (a : Action) : ∀ c ∈ callsOf a, c.Sparing := by
  intro c hc
  obtain ⟨hp, hn⟩ := callsOf_onEntities a c hc
  exact ⟨mildPlan_of_mem hp, fun next he => mildPlan_of_mem (hn next he)⟩

theorem Change.calls_sparing {d e : Draft} (h : d.Change e) (hd : ∀ c ∈ d.batch, c.Sparing) :
    ∀ c ∈ e.batch, c.Sparing :=
  h.forall_calls sparing_callsOf hd

end Draft

namespace Pipeline

/-- The pipeline resumes from the stored checkpoint `v`, or does not know yet where to resume
from. -/
structure Level (v : Option String) (p : Pipeline) : Prop where
  resume : p.lastSync = none ∨ p.lastSync = v
  known : p.started = true → p.lastSync ≠ none
  sound : p.Sound
  clean : ∀ id d, p.current = some id → p.draft? id = some d → d.Clean

variable {v : Option String} {p q : Pipeline} {b : Block}

theorem Level.of_walks (h : p.Level v) (hw : p.Walks q) (hk : p.Kept q) : q.Level v := by
  have hcalls := hw.draft_open (P := fun d => ∀ c ∈ d.batch, c.Sparing) h.sound
    (fun b => by simp [Draft.ofBlock]) (fun _ _ hstep _ hd => hstep.calls_sparing hd)
    fun id d hc hd => (h.clean id d hc hd).calls_sparing
  refine ⟨?_, ?_, hw.sound h.sound, fun id e hc he => ⟨hcalls id e hc he, ?_⟩⟩
  · rw [hk.lastSync_eq]
    exact h.resume
  · rw [hk.started_eq, hk.lastSync_eq]
    exact h.known
  · -- The open draft was open before, and is still of the same block.
    have hcur : p.current = some id := by
      obtain hkept | hnone := hk.current_eq
      · exact hkept.symm.trans hc
      · cases hnone.symm.trans hc
    obtain ⟨d, hd, -⟩ := h.sound.live id hcur
    have hblock : q.blocks[id]? = some d.block :=
      block_of_prefix hk.blocks_grow (by rw [getElem?_blocks, hd]; rfl)
    rw [getElem?_blocks, he] at hblock
    rw [show e.block = d.block from Option.some.inj hblock]
    exact (h.clean id d hcur hd).id_eq

theorem Level.onDraft (h : p.Level v) (id : DraftId) {f : Draft → Except Failure Unit × Draft}
    (hf : ∀ d, Draft.Leads d (f d).2) : (p.onDraft id f).2.Level v :=
  h.of_walks (p.walks_onDraft id hf) (p.onDraft_kept id hf)

theorem Level.abort (h : p.Level v) (id : DraftId) : (p.abort id).Level v :=
  h.of_walks (h.sound.walks_abort id) (p.abort_kept id)

theorem Level.beginBlock (h : p.Level v) (hb : Text.strip b.blockId = b.blockId) :
    (p.beginBlock b).2.Level v := by
  cases hr : p.beginBlock b with
  | mk r q =>
    cases r with
    | error f =>
      cases beginBlock_error hr
      exact h
    | ok id =>
      obtain ⟨hst, hh, -, -, rfl, rfl⟩ := beginBlock_eq_ok.mp hr
      refine ⟨h.resume, h.known, opened_sound hst hh, fun j d hj hd => ?_⟩
      cases hj
      cases (p.draft?_opened b).symm.trans hd
      exact Draft.clean_ofBlock hb

theorem Level.resumeFrom (h : p.Level v) (last : String) :
    ({ p with lastSync := some last } : Pipeline).Level (some last) :=
  ⟨.inr rfl, fun _ => by simp, ⟨h.sound.live, h.sound.ready, h.sound.running⟩, h.clean⟩

theorem Level.ready (h : p.Level v) (hne : p.lastSync ≠ none) :
    ({ p with halted := none, started := true } : Pipeline).Level v :=
  ⟨h.resume, fun _ => hne, ⟨h.sound.live, fun _ => ⟨rfl, rfl⟩, fun _ => rfl⟩, h.clean⟩

theorem Level.settled_ok (hst : p.started = true) (id : DraftId) (d : Draft) :
    (Intake.settled p id d (.ok ())).Level (some d.block.blockId) :=
  ⟨.inr rfl, fun _ => by simp [Intake.settled], .of_closed rfl fun _ => hst, nofun⟩

theorem Level.settled_error (h : p.Level v) (hst : p.started = true) (id : DraftId) (d : Draft)
    (f : Failure) : (Intake.settled p id d (.error f)).Level v :=
  ⟨h.resume, h.known, .of_closed rfl fun _ => hst, nofun⟩

end Pipeline

namespace Intake

/-- No transaction is open, and the pipeline is level with what is stored. -/
def InStep (s : Intake Disk) : Prop :=
  ∃ v, Disk.Syncs v none s.link ∧ (∀ last, v = some last → Text.strip last = last) ∧
    s.pipeline.Level v

variable {α : Type}

theorem onLink_ends {p : Program (Link Disk) α}
    {Q : Option String → Except Failure α → Link Disk → Prop}
    (h : ∀ v, Ends (Disk.Syncs v none) p (Q v)) : Ends InStep (onLink p) fun r s =>
      ∃ v, Q v r s.link ∧ (∀ last, v = some last → Text.strip last = last) ∧
        s.pipeline.Level v := by
  rintro s ⟨v, hl, hv, hp⟩
  exact ⟨v, h v s.link hl, hv, hp⟩

theorem onLink_inStep {p : Program (Link Disk) α}
    (h : ∀ v, Maintains (Disk.Syncs v none) p) : Maintains InStep (onLink p) :=
  onLink_ends h

theorem onPipeline_inStep {f : Pipeline → Except Failure α × Pipeline}
    (h : ∀ v p, p.Level v → (f p).2.Level v) : Maintains InStep (onPipeline f) := by
  rintro s ⟨v, hl, hv, hp⟩
  exact ⟨v, hl, hv, h v s.pipeline hp⟩

theorem update_inStep {f : Pipeline → Pipeline} (h : ∀ v p, p.Level v → (f p).Level v) :
    Maintains InStep (update f) := by
  rintro s ⟨v, hl, hv, hp⟩
  exact ⟨v, hl, hv, h v s.pipeline hp⟩

def Found (last : String) (s : Intake Disk) : Prop :=
  Disk.Syncs (some last) none s.link ∧ Text.strip last = last ∧ ∃ v, s.pipeline.Level v

theorem checkSync_found : Ends InStep (onLink Checkpoint.checkSync) fun r s =>
    match r with
    | .ok last => s.Found last
    | .error _ => s.InStep := by
  refine (onLink_ends fun v => Disk.checkSync_ends).mono (fun _ h => h) ?_
  rintro r s ⟨v, ⟨hl, hr⟩, hv, hp⟩
  cases r with
  | error e => exact ⟨v, hl, hv, hp⟩
  | ok last =>
    obtain ⟨stored, rfl, rfl⟩ := hr last rfl
    have hstored := hv stored rfl
    rw [hstored]
    exact ⟨hl, hstored, _, hp⟩

theorem store_found (version : String) :
    Ends InStep (onLink (Checkpoint.store version)) fun r s =>
      match r with
      | .ok _ => s.Found ""
      | .error _ => s.InStep := by
  refine (onLink_ends fun v => Disk.store_moves v version).mono (fun _ h => h) ?_
  rintro r s ⟨v, hl, hv, hp⟩
  cases r with
  | error e => exact ⟨v, hl, hv, hp⟩
  | ok _ => exact ⟨hl, by decide, v, hp⟩

theorem startup_inStep : Maintains InStep startup := by
  refine Maintains.get_bind fun s => ?_
  refine (onLink_inStep fun _ => Disk.tableExists_maintains _ _).bind fun found => ?_
  extract_lets register
  have hregister : ∀ u, Ends (fun s => s.InStep ∧ s.pipeline.lastSync ≠ none) (register u)
      fun _ => InStep := by
    intro u
    have hplan : Maintains (fun s => s.InStep ∧ s.pipeline.lastSync ≠ none) (onLink planAll) :=
      fun s h => ⟨onLink_inStep (fun _ => Disk.planAll_maintains) s h.1, h.2⟩
    refine Ends.bind hplan (fun _ => ?_) fun _ _ h => h.1
    rintro s ⟨⟨v, hl, hv, hp⟩, hne⟩
    exact ⟨v, hl, hv, hp.ready hne⟩
  -- The resume point is set before the pipeline is made ready.
  have hresume : ∀ last, Ends (Found last) (do
      update fun p => { p with lastSync := some last }
      register ()) fun _ => InStep := by
    intro last
    refine Ends.bind (Q := fun _ s => s.InStep ∧ s.pipeline.lastSync ≠ none) ?_
      (fun _ => hregister ()) fun _ _ h => h.1
    rintro s ⟨hl, hlast, v, hp⟩
    refine ⟨⟨some last, hl, ?_, hp.resumeFrom last⟩, by simp [update_runFrom]⟩
    rintro _ ⟨⟩
    exact hlast
  split
  · refine (onLink_inStep fun _ => Disk.create_maintains _).bind fun _ => ?_
    refine (onLink_inStep fun _ => Disk.checkVersion_maintains _).bind fun _ => ?_
    exact checkSync_found.bind (fun last => hresume last) fun _ _ h => h
  · refine (onLink_inStep fun _ => Disk.create_maintains _).bind fun _ => ?_
    exact (store_found _).bind (fun _ => hresume "") fun _ _ h => h

/-- What is sent for a draft with calls about entities moves the stored checkpoint to its block, or
leaves it. -/
theorem send_moves {v : Option String} {d : Draft} (hd : d.discarded = false)
    (hc : ∀ c ∈ d.batch, c.Sparing) (id : DraftId) :
    Ends (fun s => Disk.Syncs v none s.link) (send id d) fun r s =>
      Disk.Syncs (if r.isOk then v.map fun _ => d.block.blockId else v) none s.link := by
  have hbatch : d.flushed.advance.batch = d.batch ++
      [⟨"update_stat", [.text Checkpoint.lastSyncKey, .text d.block.blockId], none⟩] := rfl
  have hmoves := Disk.commit_moves (v := v) hc d.block.blockId
  rw [← hbatch] at hmoves
  -- The rows go first and do not concern the checkpoint.
  have hrows : Maintains (Disk.Syncs v none) d.flushed.advance.rows.commit :=
    Disk.transfer_maintains _
  intro s h
  simp only [send, Program.runFrom_bind, Program.runFrom_lift, Draft.flush_eq hd, update_runFrom,
    onLink_runFrom]
  generalize d.flushed.advance = e at hmoves hrows
  have hcopied := hrows s.link h
  cases hr : e.rows.commit.runFrom s.link with
  | mk r l =>
    rw [hr] at hcopied
    cases r with
    | error f => exact hcopied
    | ok rows =>
      have hmoved := hmoves l hcopied
      cases hb : (Batch.commit e.batch).runFrom l with
      | mk r m =>
        rw [hb] at hmoved
        simp only [hb]
        cases r with
        | error f => exact hmoved
        | ok batch => exact hmoved

theorem commit_inStep (id : DraftId) : Maintains InStep (commit id) := by
  rintro s ⟨v, hl, hv, hp⟩
  by_cases hc : s.pipeline.current = some id
  · obtain ⟨d, hd, hlive⟩ := hp.sound.live id hc
    have hclean := hp.clean id d hc hd
    have hst : s.pipeline.started = true := (hp.sound.ready (by simp [hc])).1
    obtain ⟨-, d', -, -, hpipeline, hblock⟩ := commit_runFrom s hc hd hlive
    have hlink : Disk.Syncs (if ((commit id).runFrom s).1.isOk then v.map fun _ => d.block.blockId
        else v) none ((commit id).runFrom s).2.link := by
      rw [commit_eq hc hd, concluding_runFrom]
      exact send_moves hlive hclean.calls_sparing id s hl
    cases hr : ((commit id).runFrom s).1 with
    | error f =>
      rw [hr] at hlink hpipeline
      exact ⟨v, hlink, hv, hpipeline ▸ hp.settled_error hst id d' f⟩
    | ok _ =>
      rw [hr] at hlink hpipeline
      -- A started pipeline knows a checkpoint, so there is one to move.
      obtain ⟨last, rfl⟩ : ∃ last, v = some last := by
        obtain hnone | hsync := hp.resume
        · exact absurd hnone (hp.known hst)
        · exact Option.ne_none_iff_exists'.mp (hsync ▸ hp.known hst)
      refine ⟨some d.block.blockId, hlink, ?_, ?_⟩
      · rintro _ ⟨⟩
        exact hclean.id_eq
      · rw [hpipeline, ← hblock]
        exact Pipeline.Level.settled_ok hst id d'
  · rw [commit_refused hc]
    exact ⟨v, hl, hv, hp⟩

theorem ingestBlock_inStep {b : Block} (hb : Text.strip b.blockId = b.blockId) :
    Maintains InStep (ingestBlock b) := by
  refine Maintains.get_bind fun s => ?_
  split
  · exact Maintains.pure false
  · refine (onLink_inStep fun _ => Disk.blockExists_maintains _).bind fun found => ?_
    cases found with
    | true => exact .pure false
    | false =>
      have hbegin : Maintains InStep (onPipeline (·.beginBlock b)) :=
        onPipeline_inStep fun v p hp => hp.beginBlock hb
      have hfill : ∀ id, Maintains InStep (onPipeline fun p =>
          p.onDraft id (·.addTransactions b.transactions 0)) := by
        intro id
        apply onPipeline_inStep
        intro v p hp
        exact hp.onDraft id fun d => d.leads_addTransactions _ _
      refine hbegin.bind fun id => (hfill id).bind fun _ => ?_
      exact (commit_inStep id).bind fun _ => .pure true

theorem sparing_markIrreversible (blockId : String) :
    ∀ c ∈ Batch.add [] "set_block_irreversible" [.text blockId], c.Sparing := by
  intro c hc
  cases List.mem_singleton.mp hc
  have hplan : mildPlan "set_block_irreversible" := ⟨by decide, by decide⟩
  exact ⟨hplan, nofun⟩

theorem markIrreversible_inStep (blockId : String) :
    Maintains InStep (markIrreversible blockId) :=
  (onLink_inStep fun _ => Disk.commit_maintains (sparing_markIrreversible blockId)).bind
    fun _ => .pure ()

end Intake

def Op.block? : Op → Option Block
  | .beginBlock b | .ingestBlock b => some b
  | _ => none

open Intake in
theorem Op.program_inStep {op : Op}
    (hop : ∀ b, op.block? = some b → Text.strip b.blockId = b.blockId) :
    Maintains InStep (op.program (σ := Disk)) := by
  cases op with
  | startup => exact startup_inStep.bind fun _ => .pure _
  | needsBootstrap =>
    have hprogram : Maintains InStep Intake.needsBootstrap :=
      .get_bind fun s => onLink_inStep fun _ => Disk.tableIsEmpty_maintains _ _
    exact hprogram.bind fun _ => .pure _
  | beginBlock b =>
    have hprogram : Maintains InStep (onPipeline (·.beginBlock b)) :=
      onPipeline_inStep fun v p hp => hp.beginBlock (hop b rfl)
    exact hprogram.bind fun _ => .pure _
  | addTransaction id t seqNum =>
    have hprogram : Maintains InStep (onPipeline (·.addTransaction id t seqNum)) :=
      onPipeline_inStep fun v p hp => hp.onDraft id fun d => d.leads_addTransaction t seqNum
    exact hprogram.bind fun _ => .pure _
  | addAction id trxId a seqNum =>
    have hprogram : Maintains InStep (onPipeline (·.addAction id trxId a seqNum)) :=
      onPipeline_inStep fun v p hp => hp.onDraft id fun d => d.leads_addAction trxId a seqNum
    exact hprogram.bind fun _ => .pure _
  | flush id =>
    have hprogram : Maintains InStep (onPipeline (·.flush id)) := by
      apply onPipeline_inStep
      intro v p hp
      refine hp.onDraft id fun d => ?_
      split
      · next d' h => exact Draft.leads_of_flush h
      · exact .refl
    exact hprogram.bind fun _ => .pure _
  | discard id =>
    have hprogram : Maintains InStep (onPipeline (·.discard id)) :=
      onPipeline_inStep fun v p hp => hp.onDraft id fun d => d.leads_discard
    exact hprogram.bind fun _ => .pure _
  | abort id =>
    have hprogram : Maintains InStep (update (·.abort id)) :=
      update_inStep fun v p hp => hp.abort id
    exact hprogram.bind fun _ => .pure _
  | commit id => exact (commit_inStep id).bind fun _ => .pure _
  | ingestBlock b => exact (ingestBlock_inStep (hop b rfl)).bind fun _ => .pure _
  | markIrreversible blockId => exact (markIrreversible_inStep blockId).bind fun _ => .pure _

theorem after_inStep {ops : List Op} {s : Intake Disk} (hs : s.InStep)
    (hops : ∀ op ∈ ops, ∀ b, op.block? = some b → Text.strip b.blockId = b.blockId) :
    (after ops s).InStep := by
  induction ops generalizing s with
  | nil => exact hs
  | cons op ops ih =>
    obtain ⟨hop, hops⟩ := List.forall_mem_cons.mp hops
    exact ih (Op.program_inStep hop s hs) hops

/-- An intake on a database whose checkpoint has no blanks around it brings in blocks whose ids have
none. After any operations, whichever requests failed, it does not know yet where to resume from or
resumes from the stored checkpoint, and no transaction is open that could still move it. Once it was
started, it knows. -/
theorem lastSync_eq_stored (layout : Schema.Layout) (version : String)
    (fault : Nat → Option ServerError) (other : Nat → Value) {h : Holdings} {ops : List Op}
    (hsync : ∀ last, h.stat? Checkpoint.lastSyncKey = some last → Text.strip last = last)
    (hops : ∀ op ∈ ops, ∀ b, op.block? = some b → Text.strip b.blockId = b.blockId) :
    let s := after ops ((Disk.start h fault other).intake layout version)
    s.link.line.server.store.bracket = none ∧
      (s.pipeline.started = true → s.pipeline.lastSync ≠ none) ∧
      (s.pipeline.lastSync = none ∨
        s.pipeline.lastSync = s.link.line.server.store.durable.stat? Checkpoint.lastSyncKey) := by
  intro s
  have hstart : ((Disk.start h fault other).intake layout version).InStep := by
    refine ⟨h.sync?, ⟨Disk.intake_standard _ _ _, rfl, rfl⟩, hsync, .inl rfl, nofun, ?_, nofun⟩
    exact .of_closed rfl fun hne => absurd rfl hne
  obtain ⟨v, hl, -, hp⟩ := after_inStep hstart hops
  refine ⟨Option.map_eq_none_iff.mp hl.shows.bracket_eq, hp.known, ?_⟩
  have hdurable : s.link.line.server.store.durable.stat? Checkpoint.lastSyncKey = v :=
    hl.shows.durable_eq
  rw [hdurable]
  exact hp.resume

theorem lastSync_eq_stored_unmoved :
    let ops : List Op := [.startup, .ingestBlock (bareBlock "b1" 1 ""),
      .ingestBlock (bareBlock "b2" 2 "b1"), .startup]
    let fault := fun n =>
      if n = 29 then some ⟨.connectionFailure, "connection lost"⟩ else none
    let s := after ops ((Disk.start .empty fault fun _ => .null).intake statsLayout "1")
    s.pipeline.lastSync = some "b1" ∧
      s.link.line.server.store.durable.stat? Checkpoint.lastSyncKey = some "b1" := by
  intro ops fault s
  have hlast : s.pipeline.lastSync = some "b1" := by decide +kernel
  have hops : ∀ op ∈ ops, ∀ b, op.block? = some b → Text.strip b.blockId = b.blockId := by
    have hall : ops.all (fun op => op.block?.all fun b => Text.strip b.blockId == b.blockId) =
        true := by decide +kernel
    simpa [List.all_eq_true, Option.all_eq_true] using hall
  have hstored := lastSync_eq_stored statsLayout "1" fault (fun _ => .null) (h := .empty) nofun hops
  have hs : after ops ((Disk.start .empty fault fun _ => .null).intake statsLayout "1") = s := rfl
  rw [hs] at hstored
  clear_value s
  dsimp only at hstored
  rw [hlast] at hstored
  obtain ⟨-, -, hnone | hsync⟩ := hstored
  · cases hnone
  · exact ⟨hlast, hsync.symm⟩

end ChainArchive.Ingest
