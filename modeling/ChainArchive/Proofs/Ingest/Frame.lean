import ChainArchive.Proofs.Ingest.Calls

namespace ChainArchive.Ingest

open ChainArchive.Record ChainArchive.Schema

namespace Draft

theorem discarded_addActions {d : Draft} (hd : d.discarded = false) (trxId : String)
    (as : List Action) (n : Nat) :
    (d.addActions trxId as n).2.discarded = !(d.addActions trxId as n).1.isOk := by
  induction as generalizing d n with
  | nil => exact hd
  | cons a as ih =>
    obtain ⟨ht, -⟩ | ⟨-, e, -, he⟩ | ⟨-, -, ho⟩ := addAction_cases d trxId a n
    · rw [hd] at ht
      cases ht
    · simp only [addActions, he]
      exact d.discarded_discard
    · simp only [addActions, ho]
      exact ih (d := d.extend ⟨trxId, a, n⟩) hd (n + 1)

theorem discarded_addTransactions {d : Draft} (hd : d.discarded = false) (ts : List Transaction)
    (n : Nat) : (d.addTransactions ts n).2.discarded = !(d.addTransactions ts n).1.isOk := by
  induction ts generalizing d n with
  | nil => exact hd
  | cons t ts ih =>
    have ht := discarded_addActions (d := d.enlist t (some n)) hd t.trxId t.actions 0
    rw [← addTransaction_eq hd] at ht
    rw [addTransactions]
    split
    · next d' h =>
      rw [h] at ht
      exact ih ht (n + 1)
    · next e d' h =>
      rw [h] at ht
      exact ht

end Draft

namespace Pipeline

def blocks (p : Pipeline) : List Block := p.drafts.map (·.block)

def resumingAt (layout : Layout) (version last : String) : Pipeline :=
  { ofLayout layout version with lastSync := some last, started := true }

/-- `q` differs from `p` at most in what its drafts collected, in new drafts, and in having no
open draft. -/
structure Kept (p q : Pipeline) : Prop where
  layout_eq : q.layout = p.layout
  version_eq : q.version = p.version
  lastSync_eq : q.lastSync = p.lastSync
  halted_eq : q.halted = p.halted
  started_eq : q.started = p.started
  blocks_grow : p.blocks <+: q.blocks
  current_eq : q.current = p.current ∨ q.current = none

/-- The open draft was not dropped, and the pipeline is ready for it; only a pipeline that was
started is halted. -/
structure Sound (p : Pipeline) : Prop where
  live : ∀ id, p.current = some id → ∃ d, p.draft? id = some d ∧ d.discarded = false
  ready : p.current ≠ none → p.started = true ∧ p.halted = none
  running : p.halted ≠ none → p.started = true

theorem Kept.refl (p : Pipeline) : p.Kept p :=
  ⟨rfl, rfl, rfl, rfl, rfl, List.prefix_rfl, .inl rfl⟩

theorem Kept.trans {p q r : Pipeline} (h : p.Kept q) (h' : q.Kept r) : p.Kept r where
  layout_eq := h'.layout_eq.trans h.layout_eq
  version_eq := h'.version_eq.trans h.version_eq
  lastSync_eq := h'.lastSync_eq.trans h.lastSync_eq
  halted_eq := h'.halted_eq.trans h.halted_eq
  started_eq := h'.started_eq.trans h.started_eq
  blocks_grow := h.blocks_grow.trans h'.blocks_grow
  current_eq := by
    obtain h₂ | h₂ := h'.current_eq
    · rw [h₂]
      exact h.current_eq
    · exact .inr h₂

theorem getElem?_blocks (p : Pipeline) (id : DraftId) :
    p.blocks[id]? = (p.draft? id).map (·.block) := by
  simp [blocks, draft?]

theorem block_of_prefix {p q : Pipeline} {id : DraftId} {b : Block} (h : p.blocks <+: q.blocks)
    (hb : p.blocks[id]? = some b) : q.blocks[id]? = some b := by
  obtain ⟨bs, hbs⟩ := h
  obtain ⟨hlt, -⟩ := List.getElem?_eq_some_iff.mp hb
  rw [← hbs, List.getElem?_append_left hlt, hb]

theorem draft?_setDraft_self {p : Pipeline} {id : DraftId} {d d' : Draft}
    (h : p.draft? id = some d) : (p.setDraft id d').draft? id = some d' := by
  obtain ⟨hlt, -⟩ := List.getElem?_eq_some_iff.mp h
  exact List.getElem?_set_self hlt

theorem draft?_setDraft_ne {p : Pipeline} {id j : DraftId} {d : Draft} (h : id ≠ j) :
    (p.setDraft id d).draft? j = p.draft? j :=
  List.getElem?_set_ne h

theorem setDraft_self {p : Pipeline} {id : DraftId} {d : Draft} (h : p.draft? id = some d) :
    p.setDraft id d = p := by
  obtain ⟨hlt, rfl⟩ := List.getElem?_eq_some_iff.mp h
  simp [setDraft]

theorem setDraft_kept {p : Pipeline} {id : DraftId} {d d' : Draft} (h : p.draft? id = some d)
    (hb : d'.block = d.block) : p.Kept (p.setDraft id d') := by
  have hbs : (p.setDraft id d').blocks = p.blocks := by
    have hid : p.blocks[id]? = some d'.block := by rw [getElem?_blocks, h, hb]; rfl
    obtain ⟨hlt, hid⟩ := List.getElem?_eq_some_iff.mp hid
    simp only [blocks, setDraft, List.map_set] at hid ⊢
    rw [← hid]
    exact List.set_getElem_self hlt
  exact ⟨rfl, rfl, rfl, rfl, rfl, hbs ▸ List.prefix_rfl, .inl rfl⟩

theorem release_kept (p : Pipeline) (id : DraftId) : p.Kept (p.release id) := by
  unfold release
  split
  · exact ⟨rfl, rfl, rfl, rfl, rfl, List.prefix_rfl, .inr rfl⟩
  · exact .refl p

theorem draft?_release (p : Pipeline) (id j : DraftId) : (p.release id).draft? j = p.draft? j := by
  unfold release
  split <;> rfl

theorem release_ne (p : Pipeline) (id : DraftId) : (p.release id).current ≠ some id := by
  unfold release
  split
  · simp
  · assumption

theorem Sound.of_kept {p q : Pipeline} (hp : p.Sound) (h : p.Kept q)
    (hl : ∀ id, q.current = some id → ∃ d, q.draft? id = some d ∧ d.discarded = false) :
    q.Sound := by
  have hr := hp.running
  rw [← h.halted_eq, ← h.started_eq] at hr
  refine ⟨hl, fun hc => ?_, hr⟩
  rw [h.started_eq, h.halted_eq]
  refine hp.ready fun hp => hc ?_
  obtain he | he := h.current_eq
  · exact he.trans hp
  · exact he

theorem Sound.of_closed {p : Pipeline} (h : p.current = none)
    (hr : p.halted ≠ none → p.started = true) : p.Sound :=
  ⟨fun id hid => by simp [h] at hid, fun hc => absurd h hc, hr⟩

theorem succeed_sound (p : Pipeline) (layout : Layout) (version : String) :
    (p.succeed layout version).Sound :=
  .of_closed rfl fun h => absurd rfl h

theorem onDraft_kept (p : Pipeline) (id : DraftId) {f : Draft → Except Failure Unit × Draft}
    (hf : ∀ d, Draft.Leads d (f d).2) : p.Kept (p.onDraft id f).2 := by
  unfold onDraft
  cases hd : p.draft? id with
  | none => exact .refl p
  | some d =>
    have hk := setDraft_kept hd (hf d).block_eq
    dsimp only
    split
    · exact hk.trans (release_kept _ id)
    · exact hk

theorem onDraft_sound {p : Pipeline} (hp : p.Sound) (id : DraftId)
    {f : Draft → Except Failure Unit × Draft} (hf : ∀ d, Draft.Leads d (f d).2) :
    (p.onDraft id f).2.Sound := by
  refine hp.of_kept (p.onDraft_kept id hf) fun j hj => ?_
  unfold onDraft at hj ⊢
  cases hd : p.draft? id with
  | none =>
    rw [hd] at hj
    exact hp.live j hj
  | some d =>
    simp only [hd] at hj ⊢
    -- The draft that changes may be the open one; if it is dropped, none is open.
    by_cases hij : id = j
    · subst hij
      split at hj
      · exact absurd hj (release_ne _ id)
      · next hs =>
        obtain ⟨d', hd', hlive⟩ := hp.live id hj
        cases hd.symm.trans hd'
        refine ⟨(f d).2, ?_, by simpa [hlive] using hs⟩
        rw [if_neg hs]
        exact draft?_setDraft_self hd
    · have hc : p.current = some j := by
        split at hj
        · unfold release at hj
          split at hj
          · cases hj
          · exact hj
        · exact hj
      obtain ⟨d', hd', hlive⟩ := hp.live j hc
      refine ⟨d', ?_, hlive⟩
      split
      · rw [draft?_release, draft?_setDraft_ne hij, hd']
      · rw [draft?_setDraft_ne hij, hd']

theorem abort_kept (p : Pipeline) (id : DraftId) : p.Kept (p.abort id) := by
  unfold abort
  cases hd : p.draft? id with
  | none => exact .refl p
  | some d =>
    refine (release_kept p id).trans (setDraft_kept ?_ d.block_discard)
    rw [draft?_release, hd]

theorem abort_sound {p : Pipeline} (hp : p.Sound) (id : DraftId) : (p.abort id).Sound := by
  refine hp.of_kept (p.abort_kept id) fun j hj => ?_
  unfold abort at hj ⊢
  cases hd : p.draft? id with
  | none =>
    rw [hd] at hj
    exact hp.live j hj
  | some d =>
    simp only [hd] at hj ⊢
    have hij : id ≠ j := by
      rintro rfl
      exact release_ne p id hj
    have hc : p.current = some j := by
      obtain he | he := (release_kept p id).current_eq
      · exact he ▸ hj
      · cases he.symm.trans hj
    obtain ⟨d', hd', hlive⟩ := hp.live j hc
    exact ⟨d', by rw [draft?_setDraft_ne hij, draft?_release, hd'], hlive⟩

theorem Sound.current_abort {p : Pipeline} {id : DraftId} (hp : p.Sound)
    (hc : p.current = some id) : (p.abort id).current = none := by
  obtain ⟨d, hd, -⟩ := hp.live id hc
  simp only [abort, hd, release, if_pos hc]
  rfl

def opened (p : Pipeline) (b : Block) : Pipeline :=
  { p with drafts := p.drafts ++ [.ofBlock b], current := some p.drafts.length }

theorem draft?_opened (p : Pipeline) (b : Block) :
    (p.opened b).draft? p.drafts.length = some (.ofBlock b) := by
  simp [opened, draft?]

theorem blocks_opened (p : Pipeline) (b : Block) : (p.opened b).blocks = p.blocks ++ [b] := by
  simp [opened, blocks, Draft.ofBlock]

/-- A draft is opened exactly on a pipeline that is started, not halted and without an open
draft, for a block that follows the resume point if there is one. -/
theorem openDraft?_of_closed {p : Pipeline} (h : p.current = none) : p.openDraft? = none := by
  rw [openDraft?, h]
  rfl

theorem Sound.closed_of_openDraft? {p : Pipeline} (hp : p.Sound) (h : p.openDraft? = none) :
    p.current = none := by
  cases hc : p.current with
  | none => rfl
  | some id =>
    obtain ⟨d, hd, -⟩ := hp.live id hc
    rw [openDraft?, hc, Option.bind_some, hd] at h
    cases h

theorem beginBlock_eq_ok {p q : Pipeline} {b : Block} {id : DraftId} :
    p.beginBlock b = (.ok id, q) ↔ p.started = true ∧ p.halted = none ∧ p.openDraft? = none ∧
      (p.lastSync.getD "" ≠ "" → b.prevBlockId = p.lastSync.getD "") ∧
      id = p.drafts.length ∧ q = p.opened b := by
  unfold beginBlock
  by_cases hs : p.started = true
  · cases hh : p.halted with
    | some reason => simp [hs]
    | none =>
      cases ho : p.openDraft? with
      | some d => simp [hs]
      | none =>
        by_cases hn : p.lastSync.getD "" ≠ "" ∧ b.prevBlockId ≠ p.lastSync.getD ""
        · simp [hs, hn]
        · have hf : p.lastSync.getD "" ≠ "" → b.prevBlockId = p.lastSync.getD "" :=
            fun h => Decidable.not_not.mp fun hb => hn ⟨h, hb⟩
          simp only [hs, Bool.not_true, Bool.false_eq_true, if_false, hn]
          constructor
          · rintro ⟨⟩
            exact ⟨trivial, trivial, trivial, hf, rfl, by simp [opened, hs, hh]⟩
          · rintro ⟨-, -, -, -, rfl, rfl⟩
            simp [opened, hs, hh]
  · simp [hs]

theorem beginBlock_error {p q : Pipeline} {b : Block} {f : Failure}
    (h : p.beginBlock b = (.error f, q)) : q = p := by
  unfold beginBlock at h
  split at h
  · cases h; rfl
  · split at h
    · cases h; rfl
    · split at h
      · cases h; rfl
      · dsimp only at h
        split at h
        · cases h; rfl
        · cases h

theorem opened_sound {p : Pipeline} {b : Block} (hs : p.started = true) (hh : p.halted = none) :
    (p.opened b).Sound := by
  refine ⟨fun id hid => ?_, fun _ => ⟨hs, hh⟩, fun _ => hs⟩
  cases hid
  exact ⟨_, p.draft?_opened b, rfl⟩

def takeUp (p : Pipeline) (id : DraftId) : Addition → Except Failure Unit × Pipeline
  | .transaction t seqNum => p.addTransaction id t seqNum
  | .action trxId a seqNum => p.addAction id trxId a seqNum

def takeUpAll (p : Pipeline) (id : DraftId) : List Addition → Except Failure Unit × Pipeline
  | [] => (.ok (), p)
  | x :: xs =>
    match p.takeUp id x with
    | (.ok (), q) => q.takeUpAll id xs
    | (.error f, q) => (.error f, q)

/-- The open draft is the one of a block and holds what additions delivered. -/
def Carries (p : Pipeline) (id : DraftId) (b : Block) (xs : List Addition) : Prop :=
  p.current = some id ∧ ∃ d, p.draft? id = some d ∧ d.Holds b xs

theorem carries_opened (p : Pipeline) (b : Block) :
    (p.opened b).Carries p.drafts.length b [] :=
  ⟨rfl, _, p.draft?_opened b, Draft.holds_ofBlock b⟩

theorem fill_error {p q : Pipeline} {b : Block} {f : Failure} (hs : p.started = true)
    (hh : p.halted = none) (h : (p.opened b).onDraft p.drafts.length
      (·.addTransactions b.transactions 0) = (.error f, q)) : p.Kept q ∧ q.Sound := by
  have hk := (p.opened b).onDraft_kept p.drafts.length
    (f := (·.addTransactions b.transactions 0)) fun d => d.leads_addTransactions b.transactions 0
  have hsound := onDraft_sound (opened_sound (p := p) (b := b) hs hh) p.drafts.length
    (f := (·.addTransactions b.transactions 0)) fun d => d.leads_addTransactions b.transactions 0
  rw [h] at hk hsound
  refine ⟨⟨hk.layout_eq, hk.version_eq, hk.lastSync_eq, hk.halted_eq, hk.started_eq, ?_, .inr ?_⟩,
    hsound⟩
  · refine List.IsPrefix.trans ?_ hk.blocks_grow
    rw [blocks_opened]
    exact List.prefix_append _ _
  · have hdisc := Draft.discarded_addTransactions (d := .ofBlock b) rfl b.transactions 0
    rw [onDraft, draft?_opened] at h
    dsimp only at h
    obtain ⟨hr, hq⟩ := Prod.mk.inj h
    rw [hr] at hdisc
    have hrel : (((Draft.ofBlock b).addTransactions b.transactions 0).2.discarded &&
        !(Draft.ofBlock b).discarded) = true := by
      rw [hdisc]
      rfl
    rw [if_pos hrel] at hq
    obtain hc | hc := hk.current_eq
    · exact absurd (hq ▸ hc) (release_ne _ _)
    · exact hc

theorem fill_ok {p q : Pipeline} {b : Block} (h : (p.opened b).onDraft p.drafts.length
      (·.addTransactions b.transactions 0) = (.ok (), q)) :
    (p.opened b).Kept q ∧ q.Carries p.drafts.length b (listed b.transactions 0) := by
  have hk := (p.opened b).onDraft_kept p.drafts.length
    (f := (·.addTransactions b.transactions 0)) fun d => d.leads_addTransactions b.transactions 0
  rw [h] at hk
  refine ⟨hk, ?_⟩
  rw [onDraft, draft?_opened] at h
  dsimp only at h
  obtain ⟨hr, hq⟩ := Prod.mk.inj h
  have hh := (Draft.holds_ofBlock b).append_listed (Prod.ext hr rfl)
  simp only [hh.discarded_eq, Bool.false_and, Bool.false_eq_true, if_false] at hq
  subst hq
  exact ⟨rfl, _, draft?_setDraft_self (p.draft?_opened b), hh⟩

theorem takeUp_eq (p : Pipeline) (id : DraftId) (x : Addition) :
    p.takeUp id x = p.onDraft id (·.takeUp x) := by
  cases x <;> rfl

theorem takeUpAll_kept (p : Pipeline) (id : DraftId) (xs : List Addition) :
    p.Kept (p.takeUpAll id xs).2 := by
  induction xs generalizing p with
  | nil => exact .refl p
  | cons x xs ih =>
    have hk : p.Kept (p.takeUp id x).2 := by
      rw [takeUp_eq]
      exact p.onDraft_kept id fun d => d.leads_takeUp x
    rw [takeUpAll]
    split
    · next q h =>
      rw [h] at hk
      exact hk.trans (ih q)
    · next f q h =>
      rw [h] at hk
      exact hk

theorem Carries.takeUp {p q : Pipeline} {id : DraftId} {b : Block} {xs : List Addition}
    {x : Addition} (h : p.Carries id b xs) (hx : p.takeUp id x = (.ok (), q)) :
    q.Carries id b (xs ++ [x]) := by
  obtain ⟨hc, d, hd, hh⟩ := h
  rw [takeUp_eq, onDraft, hd] at hx
  dsimp only at hx
  obtain ⟨hok, hq⟩ := Prod.mk.inj hx
  have hh' := hh.append (Prod.ext hok rfl)
  simp only [hh'.discarded_eq, Bool.false_and, Bool.false_eq_true, if_false] at hq
  subst hq
  exact ⟨hc, _, draft?_setDraft_self hd, hh'⟩

theorem Carries.takeUpAll {p q : Pipeline} {id : DraftId} {b : Block} {xs ys : List Addition}
    (h : p.Carries id b xs) (hy : p.takeUpAll id ys = (.ok (), q)) :
    q.Carries id b (xs ++ ys) := by
  induction ys generalizing p xs with
  | nil =>
    cases hy
    simpa using h
  | cons y ys ih =>
    simp only [Pipeline.takeUpAll] at hy
    split at hy
    · next p' hx => simpa using ih (h.takeUp hx) hy
    · cases hy

end Pipeline

end ChainArchive.Ingest
