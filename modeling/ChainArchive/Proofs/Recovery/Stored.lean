import ChainArchive.Proofs.Ingest.Registration
import ChainArchive.Proofs.Recovery.Resume
import ChainArchive.Proofs.Session.Escape

namespace ChainArchive

open ChainArchive.Copy ChainArchive.Link ChainArchive.Record ChainArchive.Schema
  ChainArchive.Program

theorem Entry.writesBlock_of_stores {es : List Entry} (h : es.any Entry.storesBlock = true) :
    es.any Entry.writesBlock = true := by
  obtain ⟨e, he, hstores⟩ := List.any_eq_true.mp h
  refine List.any_eq_true.mpr ⟨e, he, ?_⟩
  cases e with
  | marked => cases hstores
  | asked r reply =>
    cases r with
    | copy => rfl
    | connect | execute | fetchValue | fetchRow | fetchAll | prepare | run => cases hstores

theorem Entry.storesBlock_of_quiet {es : List Entry} (h : es.any Entry.writesBlock = false) :
    es.any Entry.storesBlock = false := by
  cases hstores : es.any Entry.storesBlock with
  | false => rfl
  | true => exact (writesBlock_of_stores hstores).symm.trans h

/-- Blocks with these ids and numbers are stored, and the open transaction, if there is one, stores
no others. -/
structure Store.Lists (keys : List (String × Int)) (s : Store) : Prop where
  durable_eq : s.durable.blockKeys = keys
  bracket_eq : ∀ w, s.bracket = some w → w.blockKeys = keys

namespace Store.Lists

variable {keys : List (String × Int)} {s : Store}

theorem of_closed (h : s.bracket = none) : s.Lists s.durable.blockKeys :=
  ⟨rfl, fun _ hw => by cases h.symm.trans hw⟩

theorem hasBlock_eq (h : s.Lists keys) (blockId : String) :
    s.durable.hasBlock blockId = keys.any (·.1 == blockId) := by
  rw [Holdings.hasBlock, h.durable_eq]

theorem take {e : Entry} (h : s.Lists keys) (he : e.storesBlock = false) :
    (s.take e).Lists keys := by
  cases e with
  | asked r reply =>
    cases reply with
    | error f => exact h
    | ok v =>
      simp only [Store.take]
      split
      · next w hw =>
        refine ⟨h.durable_eq, ?_⟩
        rintro _ ⟨⟩
        exact (Holdings.blockKeys_apply he).trans (h.bracket_eq w hw)
      · next hw =>
        refine ⟨(Holdings.blockKeys_apply he).trans h.durable_eq, fun w hw' => ?_⟩
        cases hw.symm.trans hw'
  | marked m =>
    cases m with
    | start =>
      refine ⟨h.durable_eq, ?_⟩
      rintro _ ⟨⟩
      exact h.durable_eq
    | commit =>
      refine ⟨?_, fun _ hw => by cases hw⟩
      simp only [Store.take, view]
      cases hw : s.bracket with
      | none => exact h.durable_eq
      | some w => exact h.bracket_eq w hw
    | rollback | close | closeAgain => exact ⟨h.durable_eq, fun _ hw => by cases hw⟩

theorem takeAll {es : List Entry} (h : s.Lists keys) (hes : es.any Entry.storesBlock = false) :
    (s.takeAll es).Lists keys := by
  induction es generalizing s with
  | nil => exact h
  | cons e es ih =>
    rw [List.any_cons, Bool.or_eq_false_iff] at hes
    exact ih (h.take hes.1) hes.2

end Store.Lists

variable {t : Terms} {r : Except Failure Unit} {es : List Entry}

theorem Link.Ran.storesBlock_eq {raise : ServerError → Failure} {plan : String}
    {args : List Value} {r : Except Failure Value} (h : Ran t raise plan args r es) :
    es.any Entry.storesBlock = false := by
  have hregistered : ∀ {p : Plan} {es : List Entry}, Registered t p es →
      es.any Entry.storesBlock = false := by
    intro p es h
    cases h <;> rfl
  cases h with
  | unknown | cutOff | refused => rfl
  | failed p es e hf hr => simp [hregistered hr, Entry.storesBlock]
  | answered p es v hf hr => simp [hregistered hr, Entry.storesBlock]

theorem Batch.Called.storesBlock_eq {c : Call} (h : Batch.Called t c r es) :
    es.any Entry.storesBlock = false := by
  cases h with
  | first h => exact h.storesBlock_eq
  | plain _ h => exact h.storesBlock_eq
  | absent _ _ h => exact h.storesBlock_eq
  | second _ _ h h' => rw [List.any_append, h.storesBlock_eq, h'.storesBlock_eq, Bool.or_false]
  | chained _ _ h h' => rw [List.any_append, h.storesBlock_eq, h'.storesBlock_eq, Bool.or_false]

theorem Step.Sent.storesBlock_eq {s : Step} (h : s.Sent t r es)
    (hs : ∀ rows, s ≠ .copy .blocks rows) : es.any Entry.storesBlock = false := by
  cases h with
  | call h => exact h.storesBlock_eq
  | mark | unmarked => rfl
  | @copy table rows _ _ h =>
    cases h with
    | cutOff | failed => rfl
    | done v =>
      cases table with
      | blocks => exact absurd rfl (hs rows)
      | transactions | actions => rfl

namespace Ingest

namespace Draft

/-- A draft whose calls are about entities and whose rows of blocks are those of its own block. -/
structure Proper (d : Draft) : Prop where
  calls_sparing : ∀ c ∈ d.batch, c.Sparing
  rows_eq : ∃ counts : List (Option Int),
    d.rows.rows .blocks = counts.map fun n => encodeRow (blockRow d.block n)

theorem proper_ofBlock (b : Block) : (ofBlock b).Proper := ⟨by simp [ofBlock], [], rfl⟩

theorem Holds.proper {d : Draft} {b : Block} {xs : List Addition} (h : d.Holds b xs) :
    d.Proper := by
  refine ⟨fun c hc => ?_, [], h.blocks_eq⟩
  rw [h.batch_eq] at hc
  obtain ⟨x, -, hx⟩ := List.mem_flatMap.mp hc
  exact sparing_callsOf x.action c hx

theorem Proper.flushed {d : Draft} (h : d.Proper) : d.flushed.Proper := by
  obtain ⟨counts, hrows⟩ := h.rows_eq
  refine ⟨h.calls_sparing, counts ++ [some (d.trxCount : Int)], ?_⟩
  rw [List.map_append, List.map_singleton]
  exact congrArg (· ++ _) hrows

theorem Proper.change {d e : Draft} (h : d.Proper) (hs : d.Change e) (he : e.discarded = false) :
    e.Proper := by
  refine ⟨hs.calls_sparing h.calls_sparing, ?_⟩
  cases hs with
  | enlist | extend => exact h.rows_eq
  | flush => exact h.flushed.rows_eq
  | discard => cases (discarded_discard d).symm.trans he

theorem storesBlock_of_rest {rows rows' : List (List Char)} {batch : Batch}
    (h : InTurn t (copyStep .transactions rows ++ (copyStep .actions rows' ++ bracketSteps batch))
      r es) : es.any Entry.storesBlock = false := by
  have hall : es.all (!Entry.storesBlock ·) = true := by
    refine h.all_entries fun s hs r es hsent => ?_
    have hother : ∀ rows, s ≠ .copy .blocks rows := by
      rintro rows rfl
      simp [copyStep, bracketSteps] at hs
    simpa using hsent.storesBlock_eq hother
  simpa using hall

theorem written_cases {d : Draft} (hw : Written t d.flushed.advance.steps r es) :
    es.any Entry.storesBlock = false ∨ ∃ v fs, es = .asked (.copy "blocks" RowTable.blocks.columns
      (d.flushed.rows.rows .blocks).flatten) (.ok v) :: fs ∧
        fs.any Entry.storesBlock = false := by
  have hclosing : ∀ sent, (closing r sent).any Entry.storesBlock = false := by
    intro sent
    cases r with
    | ok _ => rfl
    | error f =>
      simp only [closing]
      split <;> rfl
  obtain ⟨sent, hturn, rfl⟩ := hw
  rw [d.steps_flushed] at hturn
  cases hturn with
  | stop hsent =>
    cases hsent with
    | copy hsent => cases hsent <;> exact .inl (by rw [List.any_append, hclosing]; rfl)
  | @cons _ _ _ _ fs hsent hrest =>
    cases hsent with
    | copy hsent =>
      cases hsent with
      | done v =>
        have hfs : ∀ sent, (fs ++ closing r sent).any Entry.storesBlock = false := by
          intro sent
          rw [List.any_append, storesBlock_of_rest hrest, hclosing]
          rfl
        exact .inr ⟨v, _, rfl, hfs _⟩

theorem Proper.written {d : Draft} (h : d.Proper) (hw : Written t d.flushed.advance.steps r es)
    {s : Store} (hs : s.bracket = none) :
    ∃ keys, (s.takeAll es).Lists (s.durable.blockKeys ++ keys) ∧
      (∀ k ∈ keys, k = (d.block.blockId, d.block.blockNum)) ∧
      (keys = [] ↔ es.any Entry.storesBlock = false) := by
  obtain hnone | ⟨v, fs, rfl, hfs⟩ := written_cases hw
  · refine ⟨[], ?_, by simp, by simp [hnone]⟩
    rw [List.append_nil]
    exact (Store.Lists.of_closed hs).takeAll hnone
  · obtain ⟨counts, hrows⟩ := h.flushed.rows_eq
    have hcounts : counts ≠ [] := by
      rintro rfl
      have hnil : d.rows.rows .blocks ++ [_] = [] := hrows
      simp at hnil
    refine ⟨counts.map fun _ => (d.block.blockId, d.block.blockNum), ?_, by simp, ?_⟩
    · rw [Store.takeAll, List.foldl_cons]
      refine Store.Lists.takeAll ?_ hfs
      simp only [Store.take, hs]
      rw [hrows, show d.block = d.flushed.block from rfl, ← Holdings.blockKeys_copied]
      exact ⟨rfl, fun _ hw => by cases hw⟩
    · simp [hcounts, Entry.storesBlock]

end Draft

def Event.target? {σ : Type} (e : Event σ) : Option Block :=
  match e.op with
  | .commit id => (e.before.pipeline.draft? id).map (·.block)
  | .ingestBlock b => some b
  | _ => none

namespace Intake

structure Idle (s : Intake Disk) : Prop where
  synced : ∃ v, Disk.Syncs v none s.link
  sound : s.pipeline.Sound
  proper : ∀ id d, s.pipeline.current = some id → s.pipeline.draft? id = some d → d.Proper

theorem Idle.standard {s : Intake Disk} (hs : s.Idle) : Disk.Standard s.link.terms := by
  obtain ⟨v, hv⟩ := hs.synced
  exact hv.standard

theorem Idle.bracket_eq {s : Intake Disk} (hs : s.Idle) :
    s.link.line.server.store.bracket = none := by
  obtain ⟨v, hv⟩ := hs.synced
  exact Option.map_eq_none_iff.mp hv.shows.bracket_eq

theorem maintains_synced {α : Type} {p : Program (Link Disk) α}
    (h : ∀ v, Maintains (Disk.Syncs v none) p) :
    Maintains (fun l => ∃ v, Disk.Syncs v none l) p := by
  rintro l ⟨v, hv⟩
  exact ⟨v, h v l hv⟩

theorem prepare_synced (layout : Layout) (version : String) :
    Maintains (fun l => ∃ v, Disk.Syncs v none l) (Checkpoint.prepare layout version) := by
  have hsync : Maintains (fun l => ∃ v, Disk.Syncs v none l) Checkpoint.checkSync := by
    rintro l ⟨v, hv⟩
    exact ⟨v, (Disk.checkSync_ends l hv).1⟩
  have hstore : Maintains (fun l => ∃ v, Disk.Syncs v none l) (Checkpoint.store version) := by
    rintro l ⟨v, hv⟩
    exact ⟨_, Disk.store_moves v version l hv⟩
  have hcreate := maintains_synced fun _ => Disk.create_maintains layout
  refine (maintains_synced fun _ => Disk.tableExists_maintains _ _).bind fun found => ?_
  extract_lets finish
  have hfinish : ∀ last, Maintains (fun l => ∃ v, Disk.Syncs v none l) (finish last) := fun last =>
    (maintains_synced fun _ => Disk.planAll_maintains).bind fun _ => .pure last
  split
  · refine hcreate.bind fun _ => ?_
    exact (maintains_synced fun _ => Disk.checkVersion_maintains _).bind fun _ => hsync.bind hfinish
  · exact hcreate.bind fun _ => hstore.bind fun _ => (Maintains.pure "").bind hfinish

theorem commit_synced {s : Intake Disk} (hs : s.Idle) (id : DraftId) :
    ∃ v, Disk.Syncs v none ((commit id).runFrom s).2.link := by
  obtain ⟨v, hv⟩ := hs.synced
  by_cases hc : s.pipeline.current = some id
  · obtain ⟨d, hd, hlive⟩ := hs.sound.live id hc
    rw [commit_eq hc hd, concluding_runFrom]
    exact ⟨_, send_moves hlive (hs.proper id d hc hd).calls_sparing id s hv⟩
  · rw [commit_refused hc]
    exact ⟨v, hv⟩

theorem Idle.carries {s : Intake Disk} (hs : s.Idle) {b : Block} {id : DraftId} {p q : Pipeline}
    {l : Link Disk} (hl : (Checkpoint.blockExists b.blockId).runFrom s.link = (.ok false, l))
    (hb : s.pipeline.beginBlock b = (.ok id, p)) (hk : p.Kept q)
    (hq : q.Carries id b (listed b.transactions 0)) : Idle ⟨q, l⟩ := by
  obtain ⟨hc, d, hd, hh⟩ := hq
  obtain ⟨v, hv⟩ := hs.synced
  have hlink := Disk.blockExists_maintains b.blockId s.link hv
  rw [hl] at hlink
  obtain ⟨hst, hh', -, -, -, rfl⟩ := Pipeline.beginBlock_eq_ok.mp hb
  refine ⟨⟨v, hlink⟩, ?_, fun j e hj he => ?_⟩
  · refine (Pipeline.opened_sound hst hh').of_kept hk fun j hj => ?_
    cases hc.symm.trans hj
    exact ⟨d, hd, hh.discarded_eq⟩
  · cases hc.symm.trans hj
    cases hd.symm.trans he
    exact hh.proper

end Intake

open Intake in
theorem Op.perform_synced {s : Intake Disk} (hs : s.Idle) (op : Op) :
    ∃ v, Disk.Syncs v none (op.perform s).after.link := by
  have hdone := fun p : Program (Intake Disk) Unit =>
    runFrom_bind_pure p (fun _ => Answer.done) s
  obtain ⟨v, hv⟩ := hs.synced
  cases op with
  | startup =>
    simp only [Op.perform, Op.program, runFrom_bind_pure]
    rw [(startup_runFrom s).2]
    exact prepare_synced _ _ s.link hs.synced
  | needsBootstrap =>
    simp only [Op.perform, Op.program, runFrom_bind_pure]
    exact ⟨v, Disk.tableIsEmpty_maintains _ _ s.link hv⟩
  | beginBlock | addTransaction | addAction | flush | discard | abort =>
    simp only [Op.perform, Op.program, runFrom_bind_pure]
    exact ⟨v, hv⟩
  | commit id =>
    simp only [Op.perform, Op.program, hdone]
    exact commit_synced hs id
  | ingestBlock b =>
    simp only [Op.perform, Op.program, runFrom_bind_pure]
    have hcases := ingestBlock_cases hs.sound b
    generalize ((Intake.ingestBlock b).runFrom s).1 = r,
      ((Intake.ingestBlock b).runFrom s).2 = s' at hcases ⊢
    have hlink := Disk.blockExists_maintains b.blockId s.link hv
    cases hcases with
    | reached => exact ⟨v, hv⟩
    | stored hl =>
      rw [hl] at hlink
      exact ⟨v, hlink⟩
    | refused hl =>
      rw [hl] at hlink
      exact ⟨v, hlink⟩
    | written hl hb hk hq => exact commit_synced (hs.carries hl hb hk hq) _
  | markIrreversible blockId =>
    simp only [Op.perform, Op.program, hdone]
    rw [Intake.markIrreversible, runFrom_bind_pure _ fun _ => ()]
    exact ⟨v, Disk.commit_maintains (sparing_markIrreversible blockId) s.link hv⟩

theorem Op.perform_idle {s : Intake Disk} (hs : s.Idle) (op : Op) : (op.perform s).after.Idle := by
  have hwalk : s.pipeline.Walks (op.perform s).after.pipeline := op.program_walks hs.sound s .refl
  exact ⟨op.perform_synced hs, hwalk.sound hs.sound, hwalk.draft_open hs.sound
    Draft.proper_ofBlock (fun _ _ hd he h => h.change hd he) hs.proper⟩

/-- An event that went on to commit the draft `d`, from an intake `m` that it reached by sending
`es`. -/
structure Event.Commits (e : Event Disk) (m : Intake Disk) (id : DraftId) (d : Draft)
    (es : List Entry) : Prop where
  target_eq : e.target? = some d.block
  sends : Sends e.before.link es m.link
  quiet : es.any Entry.writesBlock = false
  unescaped : es.any Entry.escapes = false
  idle : m.Idle
  lastSync_eq : m.pipeline.lastSync = e.before.pipeline.lastSync
  current_eq : m.pipeline.current = some id
  draft_eq : m.pipeline.draft? id = some d
  live : d.discarded = false
  isOk_eq : e.result.isOk = ((Intake.commit id).runFrom m).1.isOk
  committed : e.result.isOk = true → ∃ j, e.committed? = some (j, d.block)
  after_eq : e.after = ((Intake.commit id).runFrom m).2

theorem Intake.blockExists_unescaped (blockId : String) (t : Terms) :
    Records (σ := Disk) t (Checkpoint.blockExists blockId) fun r es =>
      r.isOk = true → es.any Entry.escapes = false := by
  refine (run_records t "block_exists" [.text blockId]).bind
    (S := fun _ r fs => r.isOk = true ∧ fs = []) (fun v => .pure ⟨rfl, rfl⟩) ?_ ?_
  · intro e es _ h
    cases h
  · rintro v es r fs h ⟨-, rfl⟩ -
    rw [List.append_nil]
    exact h.escapes_of_ok

theorem Effect.quiet {s s' : Intake Disk} {op : Op} {r : Except Failure Answer}
    (h : Effect s op r s') (hcommit : ∀ id, op = .commit id → s.pipeline.current ≠ some id)
    (hingest : ∀ b, op ≠ .ingestBlock b) :
    ∃ es, Sends s.link es s'.link ∧ es.any Entry.writesBlock = false := by
  cases h with
  | idle _ _ hsend hq => exact ⟨_, hsend, hq⟩
  | opened => exact ⟨[], .refl s.link, rfl⟩
  | started hsend hq => exact ⟨_, hsend, hq⟩
  | committed hc => exact absurd hc (hcommit _ rfl)
  | ingested => exact absurd rfl (hingest _)

theorem Op.commit_commits {s : Intake Disk} (hs : s.Idle) {id : DraftId}
    (hc : s.pipeline.current = some id) : ∃ d, ((Op.commit id).perform s).Commits s id d [] := by
  obtain ⟨d, hd, hlive⟩ := hs.sound.live id hc
  refine ⟨d, ?_⟩
  simp only [Op.perform, Op.program, runFrom_bind_pure _ fun _ => Answer.done]
  refine ⟨?_, .refl s.link, rfl, rfl, hs, rfl, hc, hd, hlive, isOk_map _ _, fun hok => ?_, rfl⟩
  · simp [Event.target?, hd]
  · rw [isOk_map] at hok
    obtain ⟨_, hr⟩ := eq_ok_of_isOk hok
    exact ⟨id, by simp [Event.committed?, hr, Except.map, hd]⟩

theorem Op.ingestBlock_commits {s : Intake Disk} (hs : s.Idle) (b : Block) :
    ((Op.ingestBlock b).perform s).entries.any Entry.writesBlock = false ∨
      ∃ m id d es, ((Op.ingestBlock b).perform s).Commits m id d es := by
  have hquiet : ∀ {es}, Sends s.link es ((Op.ingestBlock b).perform s).after.link →
      es.any Entry.writesBlock = false →
        ((Op.ingestBlock b).perform s).entries.any Entry.writesBlock = false :=
    fun hsend hq => by rwa [Event.entries_eq hsend]
  have hcases := Intake.ingestBlock_cases hs.sound b
  simp only [Op.perform, Op.program, runFrom_bind_pure] at hquiet ⊢
  generalize ((Intake.ingestBlock b).runFrom s).1 = r,
    ((Intake.ingestBlock b).runFrom s).2 = s' at hcases hquiet ⊢
  obtain ⟨es, hsend, hq⟩ := Quiet.blockExists b.blockId s.link.terms s.link rfl
  obtain ⟨es', hsend', hun⟩ := Intake.blockExists_unescaped b.blockId s.link.terms s.link rfl
  -- Both facts are about the same entries, since the two links determine what was sent.
  obtain rfl := hsend.entries_unique hsend'
  cases hcases with
  | reached => exact .inl (hquiet (.refl s.link) rfl)
  | stored hl =>
    rw [hl] at hsend
    exact .inl (hquiet hsend hq)
  | refused hl =>
    rw [hl] at hsend
    exact .inl (hquiet hsend hq)
  | @written l id p q hl hb hk hcarries =>
    rw [hl] at hsend hun
    have hidle := hs.carries hl hb hk hcarries
    obtain ⟨hc, d, hd, hh⟩ := hcarries
    obtain ⟨-, -, -, -, -, rfl⟩ := Pipeline.beginBlock_eq_ok.mp hb
    refine .inr ⟨⟨q, l⟩, id, d, es, ?_, hsend, hq, hun rfl, hidle, hk.lastSync_eq, hc, hd,
      hh.discarded_eq, ?_, fun hok => ?_, rfl⟩
    · simp [Event.target?, hh.block_eq]
    · rw [isOk_map, isOk_map]
    · rw [isOk_map, isOk_map] at hok
      obtain ⟨_, hr⟩ := eq_ok_of_isOk hok
      exact ⟨s.pipeline.drafts.length, by simp [Event.committed?, hr, Except.map, hh.block_eq]⟩

theorem Op.perform_commits {s : Intake Disk} (hs : s.Idle) (op : Op) :
    (op.perform s).entries.any Entry.writesBlock = false ∨
      ∃ m id d es, (op.perform s).Commits m id d es := by
  by_cases hcommit : ∃ id, op = .commit id ∧ s.pipeline.current = some id
  · obtain ⟨id, rfl, hc⟩ := hcommit
    obtain ⟨d, h⟩ := Op.commit_commits hs hc
    exact .inr ⟨s, id, d, [], h⟩
  by_cases hingest : ∃ b, op = .ingestBlock b
  · obtain ⟨b, rfl⟩ := hingest
    exact Op.ingestBlock_commits hs b
  · obtain ⟨es, hsend, hq⟩ := (op.perform_effect hs.sound).quiet
      (fun id hop hc => hcommit ⟨id, hop, hc⟩) fun b hop => hingest ⟨b, hop⟩
    exact .inl (by rwa [Event.entries_eq hsend])

variable {e : Event Disk} {m : Intake Disk} {id : DraftId} {d : Draft} {es : List Entry}

theorem Event.Commits.writes (h : e.Commits m id d es) : ∃ fs d',
    Sends m.link fs e.after.link ∧ e.entries = es ++ fs ∧
      Written m.link.terms d.flushed.advance.steps ((Intake.commit id).runFrom m).1 fs ∧
      e.after.pipeline = Intake.settled m.pipeline id d' ((Intake.commit id).runFrom m).1 := by
  obtain ⟨fs, d', hsend, hw, hp, -⟩ := Intake.commit_runFrom m h.current_eq h.draft_eq h.live
  rw [← h.after_eq] at hsend hp
  exact ⟨fs, d', hsend, Event.entries_eq (h.sends.trans hsend), hw, hp⟩

def Intake.Stored (s : Intake Disk) (blockId : String) : Prop :=
  s.link.line.server.store.durable.hasBlock blockId = true

theorem Intake.Idle.lists_of_quiet {s : Intake Disk} (hs : s.Idle) {l : Link Disk}
    (hsend : Sends s.link es l) (hq : es.any Entry.writesBlock = false) :
    l.line.server.store.Lists s.link.line.server.store.durable.blockKeys := by
  rw [hsend.store_eq.1]
  exact (Store.Lists.of_closed hs.bracket_eq).takeAll (Entry.storesBlock_of_quiet hq)

/-- A commit stores its block if its log shows so, and no other. -/
theorem Event.Commits.stored (h : e.Commits m id d es) (hs : e.before.Idle) (blockId : String) :
    e.after.Stored blockId ↔ e.before.Stored blockId ∨
      e.entries.any Entry.storesBlock = true ∧ d.block.blockId = blockId := by
  obtain ⟨fs, d', hsend, hentries, hw, -⟩ := h.writes
  have hproper := h.idle.proper id d h.current_eq h.draft_eq
  obtain ⟨keys, hlists, hkeys, hnil⟩ := hproper.written hw h.idle.bracket_eq
  have hstores : e.entries.any Entry.storesBlock = true ↔ keys ≠ [] := by
    rw [hentries, List.any_append, Entry.storesBlock_of_quiet h.quiet, Bool.false_or, ne_eq, hnil,
      Bool.not_eq_false]
  have hm := (hs.lists_of_quiet h.sends h.quiet).durable_eq
  rw [← hsend.store_eq.1, hm] at hlists
  have hown : keys.any (·.1 == blockId) = true ↔ keys ≠ [] ∧ d.block.blockId = blockId := by
    cases keys with
    | nil => simp
    | cons k keys =>
      have hall : ∀ k' ∈ k :: keys, k'.1 = d.block.blockId := fun k' hk => by rw [hkeys k' hk]
      simp only [List.any_eq_true, beq_iff_eq, ne_eq, reduceCtorEq, not_false_eq_true, true_and]
      exact ⟨fun ⟨k', hk, he⟩ => (hall k' hk).symm.trans he,
        fun he => ⟨k, List.mem_cons_self, (hall k List.mem_cons_self).trans he⟩⟩
  unfold Intake.Stored
  rw [hlists.hasBlock_eq, List.any_append, Bool.or_eq_true, hown, hstores]
  rfl

/-- The stored blocks after an operation: those before it, and the one whose row it stored. -/
theorem Op.perform_stored {s : Intake Disk} (hs : s.Idle) (op : Op) (blockId : String) :
    (op.perform s).after.Stored blockId ↔ s.Stored blockId ∨
      (op.perform s).entries.any Entry.storesBlock = true ∧
        ∃ b, (op.perform s).target? = some b ∧ b.blockId = blockId := by
  obtain hq | ⟨m, id, d, es, h⟩ := op.perform_commits hs
  · have hlists := hs.lists_of_quiet (op.perform_sends hs.sound) hq
    rw [Entry.storesBlock_of_quiet hq]
    simp only [Bool.false_eq_true, false_and, or_false]
    unfold Intake.Stored
    rw [hlists.hasBlock_eq]
    rfl
  · rw [h.stored hs, h.target_eq]
    simp only [Option.some.injEq, exists_eq_left']
    rfl

end Ingest

end ChainArchive
