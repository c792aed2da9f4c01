import ChainArchive.Proofs.Ingest.Operations
import ChainArchive.Proofs.Recovery.Stored

namespace ChainArchive

open ChainArchive.Link ChainArchive.Program ChainArchive.Record ChainArchive.Schema

def Store.blockAnswer? (s : Store) : Request → Option Value
  | .run p args =>
    if p.name = "block_exists" then some (.bool ((textArg? args).any s.durable.hasBlock))
    else none
  | _ => none

/-- A server with a store that answers the questions about blocks. -/
structure Backed (σ : Type) where
  server : σ
  store : Store

variable {σ : Type} [Server σ] {α : Type} {blockId : String}

instance : Server (Backed σ) where
  answer b r :=
    match b.store.blockAnswer? r with
    | some v => (.ok v, b)
    | none =>
      let (reply, server) := Server.answer b.server r
      (reply, ⟨server, b.store.take (.asked r reply)⟩)
  notice b m := ⟨Server.notice b.server m, b.store.take (.marked m)⟩

theorem Store.take_of_blockAnswer? {s : Store} {r : Request} {v : Value}
    (h : s.blockAnswer? r = some v) (reply : Reply) : s.take (.asked r reply) = s := by
  cases r with
  | run p args =>
    have hp : p.name = "block_exists" := by
      simp only [blockAnswer?] at h
      split at h
      · next hp => exact hp
      · cases h
    have happly : ∀ h : Holdings, h.apply (.run p args) = h := by
      intro h
      simp only [Holdings.apply, hp]
      split <;> rfl
    obtain ⟨durable, bracket⟩ := s
    cases reply with
    | error e => rfl
    | ok v => cases bracket <;> simp only [take, happly]
  | connect | execute | fetchValue | fetchRow | fetchAll | prepare | copy => cases h

namespace Link

theorem ask_store {l : Link (Backed σ)} (r : Request) :
    (l.line.ask r).2.server.store = l.line.server.store.take (.asked r (l.line.ask r).1) := by
  simp only [Line.ask, Server.answer]
  cases h : l.line.server.store.blockAnswer? r with
  | some v => exact (Store.take_of_blockAnswer? h _).symm
  | none => rfl

theorem Sends.backed_store_eq {l m : Link (Backed σ)} {es : List Entry} (h : Sends l es m) :
    m.line.server.store = l.line.server.store.takeAll es := by
  induction h with
  | refl => rfl
  | ask r h hc ih =>
    rw [Store.takeAll_append, ← ih]
    exact ask_store r
  | mark k h hc ih =>
    rw [Store.takeAll_append, ← ih]
    rfl
  | register name h ih => exact ih

def Closed (l : Link (Backed σ)) : Prop := l.line.server.store.bracket = none

theorem ask_closed (r : Request) : Maintains (Closed (σ := σ)) (ask r) := by
  intro l hl
  have hasked : Closed { l with line := (l.line.ask r).2 } := by
    unfold Closed at hl ⊢
    rw [ask_store]
    cases (l.line.ask r).1 with
    | error e => exact hl
    | ok v => simp only [Store.take, hl]
  simp only [ask, runFrom_of]
  split
  · exact hl
  · exact hasked

theorem inTransaction_closed (p : Program (Link (Backed σ)) α) :
    Maintains Closed (inTransaction p) := by
  intro l hl
  simp only [inTransaction, runFrom_of]
  split
  · exact hl
  · -- Whatever `p` does with the transaction, the mark after it ends it.
    cases p.runFrom (l.mark .start) with
    | mk r m => cases r <;> rfl

end Link

theorem Composed.closed {writes : String → List Value → Prop} {p : Program (Link (Backed σ)) α}
    (h : Composed writes p) : Maintains Closed p :=
  h.maintains ask_closed (fun _ _ hl => hl) fun _ => inTransaction_closed _

namespace Holdings

theorem hasBlock_apply {h : Holdings} (hb : h.hasBlock blockId = true) (r : Request) :
    (h.apply r).hasBlock blockId = true := by
  cases r with
  | copy table columns data =>
    simp only [apply]
    split
    · simp only [hasBlock, blockKeys, List.filterMap_append, List.any_append, Bool.or_eq_true]
      exact .inl hb
    · exact hb
  | connect | execute | fetchValue | fetchRow | fetchAll | prepare | run =>
    unfold hasBlock
    rw [blockKeys_apply (v := .null) rfl]
    exact hb

end Holdings

/-- The row of a block is stored, for all to see and in the open transaction. -/
structure Store.Retains (s : Store) (blockId : String) : Prop where
  durable : s.durable.hasBlock blockId = true
  bracket : ∀ w, s.bracket = some w → w.hasBlock blockId = true

namespace Store.Retains

variable {s : Store}

theorem take (h : s.Retains blockId) (e : Entry) : (s.take e).Retains blockId := by
  cases e with
  | asked r reply =>
    cases reply with
    | error f => exact h
    | ok v =>
      simp only [Store.take]
      split
      · next w hw =>
        refine ⟨h.durable, ?_⟩
        rintro _ ⟨⟩
        exact Holdings.hasBlock_apply (h.bracket w hw) r
      · next hw =>
        refine ⟨Holdings.hasBlock_apply h.durable r, fun w hw' => ?_⟩
        cases hw.symm.trans hw'
  | marked m =>
    cases m with
    | start =>
      refine ⟨h.durable, ?_⟩
      rintro _ ⟨⟩
      exact h.durable
    | commit =>
      refine ⟨?_, fun _ hw => by cases hw⟩
      simp only [Store.take, view]
      cases hw : s.bracket with
      | none => exact h.durable
      | some w => exact h.bracket w hw
    | rollback | close | closeAgain => exact ⟨h.durable, fun _ hw => by cases hw⟩

theorem takeAll (h : s.Retains blockId) (es : List Entry) : (s.takeAll es).Retains blockId := by
  induction es generalizing s with
  | nil => exact h
  | cons e es ih => exact ih (h.take e)

end Store.Retains

namespace Ingest

theorem Draft.Proper.written_ok {t : Terms} {es : List Entry} {d : Draft} (h : d.Proper)
    (hw : Written t d.flushed.advance.steps (.ok ()) es) {s : Store} (hs : s.bracket = none) :
    es ≠ [] ∧ (s.takeAll es).Retains d.block.blockId := by
  have hstores : es.any Entry.storesBlock = true := by
    -- The first step transfers the row of the block, and no step that succeeds is left out.
    obtain ⟨sent, hturn, rfl⟩ := hw
    rw [d.steps_flushed] at hturn
    cases hturn with
    | cons hsent _ =>
      cases hsent with
      | copy hcopied =>
        cases hcopied with
        | done v => rfl
  refine ⟨fun hnil => (by rw [hnil] at hstores; cases hstores), ?_⟩
  obtain ⟨keys, hlists, hkeys, hnil⟩ := h.written hw hs
  have hhas : (s.durable.blockKeys ++ keys).any (·.1 == d.block.blockId) = true := by
    cases keys with
    | nil => cases hstores.symm.trans (hnil.mp rfl)
    | cons k keys =>
      rw [List.any_append, List.any_cons, hkeys k List.mem_cons_self, beq_self_eq_true,
        Bool.true_or, Bool.or_true]
  refine ⟨(hlists.hasBlock_eq _).trans hhas, fun w hw => ?_⟩
  rw [Holdings.hasBlock, hlists.bracket_eq w hw]
  exact hhas

namespace Intake

structure Steady (s : Intake (Backed σ)) : Prop where
  sound : s.pipeline.Sound
  prepared : s.Prepared
  statements_eq : s.link.session.statements = Statement.standard
  closed : s.link.Closed
  proper : ∀ id d, s.pipeline.current = some id → s.pipeline.draft? id = some d → d.Proper

omit [Server σ] in
theorem steady_succeed (p : Pipeline) (layout : Layout) (version : String)
    {l : Link (Backed σ)} (hl : l.session.statements = Statement.standard) (hc : l.Closed) :
    Steady ⟨p.succeed layout version, l⟩ :=
  ⟨p.succeed_sound layout version, (fun h => by cases h), hl, hc, fun _ _ h => by cases h⟩

/-- The block is stored, and the session is ready to be told so. -/
structure Recognizes (s : Intake (Backed σ)) (blockId : String) : Prop where
  equipped : s.link.Equipped
  connected : s.link.session.connection ≠ .released
  retained : s.link.line.server.store.Retains blockId

theorem Recognizes.sends {s : Intake (Backed σ)} (h : s.Recognizes blockId)
    {s' : Intake (Backed σ)} {es : List Entry} (hsend : Sends s.link es s'.link) :
    s'.Recognizes blockId := by
  refine ⟨hsend.equipped h.equipped, ?_, ?_⟩
  · rw [show s'.link.session.connection = _ from congrArg Terms.connection hsend.terms_eq]
    exact h.connected
  · rw [hsend.backed_store_eq]
    exact h.retained.takeAll es

theorem recognizes_of_commit {s : Intake (Backed σ)} (hl : s.link.Equipped) (hc : s.link.Closed)
    {id : DraftId} {d : Draft} (hid : s.pipeline.current = some id)
    (hd : s.pipeline.draft? id = some d) (hlive : d.discarded = false) (hproper : d.Proper)
    (hok : ((commit id).runFrom s).1 = .ok ()) :
    ((commit id).runFrom s).2.Recognizes d.block.blockId := by
  obtain ⟨es, d', hsend, hw, -⟩ := commit_runFrom s hid hd hlive
  rw [hok] at hw
  obtain ⟨hne, hretains⟩ := hproper.written_ok hw hc
  refine ⟨hsend.equipped hl, fun hreleased => hne (hsend.eq_nil ?_), ?_⟩
  · exact (congrArg Terms.connection hsend.terms_eq).symm.trans hreleased
  · rw [hsend.backed_store_eq]
    exact hretains

end Intake

variable {s : Intake (Backed σ)}

theorem Op.perform_steady (hs : s.Steady) (op : Op) : (op.perform s).after.Steady := by
  have hwalk : s.pipeline.Walks (op.perform s).after.pipeline := op.program_walks hs.sound s .refl
  refine ⟨hwalk.sound hs.sound, op.perform_prepared hs.sound hs.prepared,
    (op.perform_sends hs.sound).statements_eq.trans hs.statements_eq, ?_,
    hwalk.draft_open hs.sound Draft.proper_ofBlock (fun _ _ hd he h => h.change hd he) hs.proper⟩
  -- The operation is one program of the session, and such programs leave no transaction open.
  have hwithin : s.pipeline.Within fun _ _ => True :=
    ⟨hs.sound, fun _ _ _ _ c _ => c.within_any⟩
  obtain ⟨q, hq, hfollows⟩ := op.perform_follows vocabulary_any hwithin
  have hclosed := hq.closed s.link hs.closed
  rwa [show q.runFrom s.link = _ from hfollows] at hclosed

theorem Op.perform_recognizes (hs : s.Steady) (op : Op) {i : DraftId} {b : Block}
    (hc : (op.perform s).committed? = some (i, b)) :
    (op.perform s).after.Recognizes b.blockId := by
  have hequipped : s.pipeline.started = true → s.link.Equipped := fun hst =>
    ⟨hs.statements_eq, hs.prepared hst⟩
  cases op with
  | commit id =>
    simp only [Op.perform, Op.program, runFrom_bind_pure _ fun _ => Answer.done] at hc ⊢
    by_cases hid : s.pipeline.current = some id
    · obtain ⟨d, hd, hlive⟩ := hs.sound.live id hid
      cases hr : ((Intake.commit id).runFrom s).1 with
      | error f =>
        rw [hr] at hc
        cases hc
      | ok _ =>
        rw [hr] at hc
        have hb : (id, d.block) = (i, b) := by simpa [Event.committed?, Except.map, hd] using hc
        cases hb
        exact Intake.recognizes_of_commit (hequipped (hs.sound.ready (by simp [hid])).1) hs.closed
          hid hd hlive (hs.proper _ d hid hd) hr
    · rw [Intake.commit_refused hid] at hc
      cases hc
  | ingestBlock b' =>
    simp only [Op.perform, Op.program, runFrom_bind_pure] at hc ⊢
    have hcases := Intake.ingestBlock_cases hs.sound b'
    generalize ((Intake.ingestBlock b').runFrom s).1 = r,
      ((Intake.ingestBlock b').runFrom s).2 = s' at hcases hc ⊢
    cases hcases with
    | reached | stored | refused => cases hc
    | @written l id p q hl hbegin hk hcarries =>
      obtain ⟨hid, d, hd, hh⟩ := hcarries
      obtain ⟨es, hsend, -⟩ := Quiet.blockExists b'.blockId s.link.terms s.link rfl
      -- The question before the commit leaves no transaction open either.
      have hexists : Composed (σ := Backed σ) (fun _ _ => True)
        (Checkpoint.blockExists b'.blockId) := .blockExists _
      have hclosed := hexists.closed s.link hs.closed
      rw [hl] at hsend hclosed
      cases hr : ((Intake.commit id).runFrom ⟨q, l⟩).1 with
      | error f =>
        rw [hr] at hc
        cases hc
      | ok _ =>
        rw [hr] at hc
        cases hc
        rw [← hh.block_eq]
        exact Intake.recognizes_of_commit (s := ⟨q, l⟩)
          (hsend.equipped (hequipped (Pipeline.ready_of_beginBlock hbegin).1)) hclosed hid hd
          hh.discarded_eq hh.proper hr
  | startup | needsBootstrap | beginBlock | addTransaction | addAction | flush | discard | abort
  | markIrreversible => cases hc

/-- A block that was committed by one of the operations is recognized after all of them. -/
theorem recognizes_of_mem (ops : List Op) (hs : s.Steady) {e : Event (Backed σ)}
    (he : e ∈ history ops s) {i : DraftId} {b : Block} (hc : e.committed? = some (i, b)) :
    (after ops s).Recognizes b.blockId := by
  induction ops generalizing s with
  | nil => cases he
  | cons op ops ih =>
    have hs' := op.perform_steady hs
    obtain rfl | he := List.mem_cons.mp he
    · obtain ⟨es, hsend⟩ := after_sends ops hs'.sound
      exact (op.perform_recognizes hs hc).sends hsend
    · exact ih hs' he

end Ingest

end ChainArchive
