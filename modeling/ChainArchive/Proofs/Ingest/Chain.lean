import ChainArchive.Proofs.Ingest.History

namespace ChainArchive.Ingest

open ChainArchive.Record ChainArchive.Schema

namespace Pipeline

/-- The pipeline resumes from `last`, and so does the block of its open draft. A block is compared
with the resume point when its draft is opened but is written later, so this has to be kept in
between. -/
structure Follows (p : Pipeline) (last : String) : Prop where
  lastSync_eq : p.lastSync = some last
  linked : ∀ id, p.current = some id → ∃ b, p.blocks[id]? = some b ∧ b.prevBlockId = last

/-- The drafts in a list were opened and are open no longer. -/
def Spent (p : Pipeline) (ids : List DraftId) : Prop :=
  ∀ i ∈ ids, i < p.blocks.length ∧ p.current ≠ some i

variable {p q : Pipeline} {last : String} {ids : List DraftId}

theorem Follows.mono (h : p.Follows last) (hb : p.blocks <+: q.blocks)
    (hc : q.current = p.current ∨ q.current = none) (hl : q.lastSync = p.lastSync) :
    q.Follows last := by
  refine ⟨hl.trans h.lastSync_eq, fun id hid => ?_⟩
  obtain hc | hc := hc
  · obtain ⟨b, hid, hprev⟩ := h.linked id (hc.symm.trans hid)
    exact ⟨b, block_of_prefix hb hid, hprev⟩
  · cases hc.symm.trans hid

theorem Follows.of_closed (hl : p.lastSync = some last) (hc : p.current = none) :
    p.Follows last :=
  ⟨hl, fun id hid => by simp [hc] at hid⟩

theorem Follows.opened {b : Block} {id : DraftId} (h : p.Follows last) (hne : last ≠ "")
    (hb : p.beginBlock b = (.ok id, q)) : b.prevBlockId = last ∧ q.Follows last := by
  obtain ⟨-, -, -, hprev, rfl, rfl⟩ := beginBlock_eq_ok.mp hb
  rw [h.lastSync_eq] at hprev
  have hprev := hprev hne
  refine ⟨hprev, h.lastSync_eq, fun id hid => ?_⟩
  cases hid
  refine ⟨b, ?_, hprev⟩
  rw [getElem?_blocks, draft?_opened]
  rfl

theorem Spent.mono (h : p.Spent ids) (hb : p.blocks <+: q.blocks)
    (hc : q.current = p.current ∨ q.current = none) : q.Spent ids := by
  intro i hi
  obtain ⟨hlt, hne⟩ := h i hi
  refine ⟨Nat.lt_of_lt_of_le hlt hb.length_le, ?_⟩
  obtain hc | hc := hc
  · rwa [hc]
  · simp [hc]

theorem Spent.opened {b : Block} {id : DraftId} (h : p.Spent ids)
    (hb : p.beginBlock b = (.ok id, q)) : id ∉ ids ∧ q.Spent ids := by
  obtain ⟨-, -, -, -, rfl, rfl⟩ := beginBlock_eq_ok.mp hb
  have hlen : p.blocks.length = p.drafts.length := List.length_map _
  refine ⟨fun hi => absurd (h _ hi).1 (by simp [hlen]), fun i hi => ?_⟩
  have hlt := (h i hi).1
  refine ⟨?_, ?_⟩
  · rw [blocks_opened, List.length_append]
    exact Nat.lt_add_right _ hlt
  · rintro ⟨⟩
    exact absurd hlt (by simp [hlen])

end Pipeline

variable {σ : Type} [Server σ] {s s' : Intake σ} {op : Op} {r : Except Failure Answer}

def committedDrafts (es : List (Event σ)) : List DraftId :=
  es.filterMap fun e => e.committed?.map (·.1)

/-- The pipeline after an attempt to write its open draft keeps the blocks of its drafts, and has
moved its resume point if the attempt succeeded. -/
theorem Intake.commit_settles {id : DraftId} {d : Draft} (hc : s.pipeline.current = some id)
    (hd : s.pipeline.draft? id = some d) (hlive : d.discarded = false) :
    let q := ((commit id).runFrom s).2.pipeline
    s.pipeline.blocks <+: q.blocks ∧ q.current = none ∧
      q.lastSync = match ((commit id).runFrom s).1 with
        | .ok _ => some d.block.blockId
        | .error _ => s.pipeline.lastSync := by
  obtain ⟨es, d', -, -, hp, hb⟩ := commit_runFrom s hc hd hlive
  have hk := (Pipeline.setDraft_kept hd hb).blocks_grow
  dsimp only
  rw [hp]
  cases ((commit id).runFrom s).1 with
  | ok _ => exact ⟨hk, rfl, by rw [← hb]; rfl⟩
  | error f => exact ⟨hk, rfl, rfl⟩

/-- A commit writes the open draft, which was open before or was opened by the operation, and
moves the resume point to its block. -/
theorem Effect.of_committed {i : DraftId} {b : Block} (h : Effect s op r s')
    (hc : (⟨op, s, r, s'⟩ : Event σ).committed? = some (i, b)) :
    ∃ p : Pipeline, (p = s.pipeline ∨ ∃ q, s.pipeline.beginBlock b = (.ok i, q) ∧ q.Kept p) ∧
      p.current = some i ∧ p.blocks[i]? = some b ∧ p.blocks <+: s'.pipeline.blocks ∧
      s'.pipeline.current = none ∧ s'.pipeline.lastSync = some b.blockId := by
  cases h with
  | idle _ _ _ _ hn =>
    rw [hn] at hc
    cases hc
  | opened => cases hc
  | started => cases hc
  | @committed id d hcur hd hlive =>
    obtain ⟨hk, hn, hl⟩ := Intake.commit_settles hcur hd hlive
    cases hr : ((Intake.commit id).runFrom s).1 with
    | error f =>
      rw [hr] at hc
      cases hc
    | ok _ =>
      rw [hr] at hc hl
      have hib : (id, d.block) = (i, b) := by
        simpa [Event.committed?, Except.map, hd] using hc
      cases hib
      exact ⟨s.pipeline, .inl rfl, hcur, by rw [Pipeline.getElem?_blocks, hd]; rfl, hk, hn, hl⟩
  -- The operation opened the draft itself, so the block was compared just before.
  | @ingested b' id q m es _ _ hb hk hcar =>
    obtain ⟨hcur, d, hd, hh⟩ := hcar
    obtain ⟨hk', hn, hl⟩ := Intake.commit_settles hcur hd hh.discarded_eq
    cases hr : ((Intake.commit id).runFrom m).1 with
    | error f =>
      rw [hr] at hc
      cases hc
    | ok _ =>
      rw [hr] at hc hl
      obtain ⟨-, -, -, -, rfl, -⟩ := Pipeline.beginBlock_eq_ok.mp hb
      cases hc
      refine ⟨m.pipeline, .inr ⟨q, hb, hk⟩, hcur, ?_, hk', hn, ?_⟩
      · rw [Pipeline.getElem?_blocks, hd, ← hh.block_eq]
        rfl
      · rw [hl, hh.block_eq]

theorem Effect.of_uncommitted (h : Effect s op r s')
    (hc : (⟨op, s, r, s'⟩ : Event σ).committed? = none) :
    (∃ b id, s.pipeline.beginBlock b = (.ok id, s'.pipeline)) ∨
    ∃ p : Pipeline, (p = s.pipeline ∨ ∃ b id q, s.pipeline.beginBlock b = (.ok id, q) ∧ q.Kept p) ∧
      p.blocks <+: s'.pipeline.blocks ∧
      (s'.pipeline.current = p.current ∨ s'.pipeline.current = none) ∧
      (op ≠ .startup → s'.pipeline.lastSync = p.lastSync) := by
  cases h with
  | idle hk => exact .inr ⟨_, .inl rfl, hk.blocks_grow, hk.current_eq, fun _ => hk.lastSync_eq⟩
  | opened hb => exact .inl ⟨_, _, hb⟩
  | @started r _ _ _ _ hr =>
    have hp : s'.pipeline.blocks = s.pipeline.blocks ∧
        s'.pipeline.current = s.pipeline.current := by
      cases r with
      | ok last => exact (show s'.pipeline = _ from hr) ▸ ⟨rfl, rfl⟩
      | error f => obtain hr | ⟨last, hr⟩ := hr <;> exact hr ▸ ⟨rfl, rfl⟩
    exact .inr ⟨_, .inl rfl, hp.1 ▸ List.prefix_rfl, .inl hp.2, fun h => absurd rfl h⟩
  | @committed id d hcur hd hlive =>
    obtain ⟨hk, hn, hl⟩ := Intake.commit_settles hcur hd hlive
    cases hr : ((Intake.commit id).runFrom s).1 with
    | error f =>
      rw [hr] at hl
      exact .inr ⟨_, .inl rfl, hk, .inr hn, fun _ => hl⟩
    | ok _ =>
      rw [hr] at hc
      simp [Event.committed?, Except.map, hd] at hc
  | @ingested b' id q m es _ _ hb hk hcar =>
    obtain ⟨hcur, d, hd, hh⟩ := hcar
    obtain ⟨hk', hn, hl⟩ := Intake.commit_settles hcur hd hh.discarded_eq
    cases hr : ((Intake.commit id).runFrom m).1 with
    | error f =>
      rw [hr] at hl
      exact .inr ⟨_, .inr ⟨_, _, _, hb, hk⟩, hk', .inr hn, fun _ => hl⟩
    | ok _ =>
      rw [hr] at hc
      cases hc

theorem Effect.spent {ids : List DraftId} (h : Effect s op r s') (hs : s.pipeline.Spent ids) :
    match (⟨op, s, r, s'⟩ : Event σ).committed? with
    | some (i, _) => i ∉ ids ∧ s'.pipeline.Spent (i :: ids)
    | none => s'.pipeline.Spent ids := by
  cases hc : (⟨op, s, r, s'⟩ : Event σ).committed? with
  | some c =>
    obtain ⟨i, b⟩ := c
    obtain ⟨p, hp, hcur, hb, hk, hn, -⟩ := h.of_committed hc
    have hsp : p.Spent ids := by
      obtain rfl | ⟨q, hbegin, hq⟩ := hp
      · exact hs
      · exact (hs.opened hbegin).2.mono hq.blocks_grow hq.current_eq
    refine ⟨fun hi => (hsp i hi).2 hcur, fun j hj => ?_⟩
    refine ⟨?_, by simp [hn]⟩
    obtain rfl | hj := List.mem_cons.mp hj
    · exact Nat.lt_of_lt_of_le (List.getElem?_eq_some_iff.mp hb).1 hk.length_le
    · exact Nat.lt_of_lt_of_le (hsp j hj).1 hk.length_le
  | none =>
    obtain ⟨b, id, hb⟩ | ⟨p, hp, hk, hcur, -⟩ := h.of_uncommitted hc
    · exact (hs.opened hb).2
    · obtain rfl | ⟨b, id, q, hb, hq⟩ := hp
      · exact hs.mono hk hcur
      · exact ((hs.opened hb).2.mono hq.blocks_grow hq.current_eq).mono hk hcur

theorem Effect.linked {last : String} {i : DraftId} {b : Block} (h : Effect s op r s')
    (hs : s.pipeline.Follows last) (hne : last ≠ "")
    (hc : (⟨op, s, r, s'⟩ : Event σ).committed? = some (i, b)) : b.prevBlockId = last := by
  obtain ⟨p, hp, hcur, hb, -⟩ := h.of_committed hc
  obtain rfl | ⟨q, hbegin, hq⟩ := hp
  · obtain ⟨b', hb', hprev⟩ := hs.linked i hcur
    rw [hb] at hb'
    cases hb'
    exact hprev
  · exact (hs.opened hne hbegin).1

theorem Effect.follows_committed {i : DraftId} {b : Block} (h : Effect s op r s')
    (hc : (⟨op, s, r, s'⟩ : Event σ).committed? = some (i, b)) :
    s'.pipeline.Follows b.blockId := by
  obtain ⟨p, -, -, -, -, hn, hl⟩ := h.of_committed hc
  exact .of_closed hl hn

theorem Effect.follows {last : String} (h : Effect s op r s') (hs : s.pipeline.Follows last)
    (hne : last ≠ "") (hop : op ≠ .startup)
    (hc : (⟨op, s, r, s'⟩ : Event σ).committed? = none) : s'.pipeline.Follows last := by
  obtain ⟨b, id, hb⟩ | ⟨p, hp, hk, hcur, hl⟩ := h.of_uncommitted hc
  · exact (hs.opened hne hb).2
  · obtain rfl | ⟨b, id, q, hb, hq⟩ := hp
    · exact hs.mono hk hcur (hl hop)
    · have hf := (hs.opened hne hb).2.mono hq.blocks_grow hq.current_eq hq.lastSync_eq
      exact hf.mono hk hcur (hl hop)

theorem nodup_committedDrafts (ops : List Op) {s : Intake σ} (ids : List DraftId)
    (hs : s.pipeline.Sound) (hi : s.pipeline.Spent ids) :
    (committedDrafts (history ops s)).Nodup ∧ ∀ i ∈ committedDrafts (history ops s), i ∉ ids := by
  -- Along the history `ids` collects the drafts that were committed and can be no more.
  induction ops generalizing s ids with
  | nil => exact ⟨.nil, by simp [committedDrafts, history]⟩
  | cons op ops ih =>
    have he := op.perform_effect hs
    have hsp := he.spent hi
    simp only [committedDrafts, history, List.filterMap_cons]
    change match (op.perform s).committed? with
      | some (i, _) => i ∉ ids ∧ (op.perform s).after.pipeline.Spent (i :: ids)
      | none => (op.perform s).after.pipeline.Spent ids at hsp
    cases hc : (op.perform s).committed? with
    | none =>
      rw [hc] at hsp
      exact ih _ (he.sound hs) hsp
    | some c =>
      rw [hc] at hsp
      obtain ⟨hfresh, hspent⟩ := hsp
      obtain ⟨hnd, hnot⟩ := ih _ (he.sound hs) hspent
      refine ⟨List.nodup_cons.mpr ⟨fun hm => hnot _ hm List.mem_cons_self, hnd⟩, ?_⟩
      intro i hi
      obtain rfl | hi := List.mem_cons.mp hi
      · exact hfresh
      · exact fun hm => hnot i hi (List.mem_cons_of_mem _ hm)

theorem follows_after {ops : List Op} {s : Intake σ} {last : String} (hs : s.pipeline.Sound)
    (hf : s.pipeline.Follows last) (hne : last ≠ "")
    (hq : ∀ e ∈ history ops s, e.committed? = none ∧ e.op ≠ .startup) :
    (after ops s).pipeline.Follows last := by
  induction ops generalizing s with
  | nil => exact hf
  | cons op ops ih =>
    have he := op.perform_effect hs
    obtain ⟨hc, hop⟩ := hq _ List.mem_cons_self
    exact ih (he.sound hs) (he.follows hf hne hop hc) fun e h => hq e (List.mem_cons_of_mem _ h)

/-- In every history of a new pipeline a draft is committed at most once, and of two commits
without a commit or startup between them, the later block follows the earlier one if that has an
id. -/
theorem committed_blocks_chain (p : Pipeline) (layout : Layout) (version : String) (l : Link σ)
    (ops : List Op) :
    let es := history ops ⟨p.succeed layout version, l⟩
    (committedDrafts es).Nodup ∧
      ∀ xs e ys f zs i b j c, es = xs ++ e :: (ys ++ f :: zs) → e.committed? = some (i, b) →
        f.committed? = some (j, c) → (∀ g ∈ ys, g.committed? = none ∧ g.op ≠ .startup) →
        b.blockId ≠ "" → c.prevBlockId = b.blockId := by
  have hs := p.succeed_sound layout version
  refine ⟨(nodup_committedDrafts ops [] hs (by simp [Pipeline.Spent])).1, ?_⟩
  intro xs e ys f zs i b j c hes he hf hys hb
  obtain ⟨done, rest, -, -, hrest⟩ := history_eq_append hes
  have hs₁ := after_sound done (s := ⟨p.succeed layout version, l⟩) hs
  generalize after done (⟨p.succeed layout version, l⟩ : Intake σ) = s₁ at hrest hs₁
  cases rest with
  | nil => cases hrest
  | cons op rest =>
    obtain ⟨rfl, htail⟩ := List.cons.inj hrest
    have heff := op.perform_effect hs₁
    obtain ⟨mid, rest, -, rfl, hlast⟩ := history_eq_append htail.symm
    have hs₂ := heff.sound hs₁
    have hfol := follows_after hs₂ (heff.follows_committed he) hb hys
    have hs₃ := after_sound mid hs₂
    cases rest with
    | nil => cases hlast
    | cons op' rest =>
      obtain ⟨rfl, -⟩ := List.cons.inj hlast
      exact (op'.perform_effect hs₃).linked hfol hb hf

theorem committed_blocks_chain_two :
    let ops : List Op := [.startup, .beginBlock (bareBlock "b1" 1 "b0"), .commit 0,
      .beginBlock (bareBlock "b2" 2 "b1"), .commit 1]
    (committedDrafts (history ops (scripted .empty))).Nodup ∧
      ∃ b c, (history ops (scripted .empty)).filterMap (·.committed?) = [(0, b), (1, c)] ∧
        b.blockId = "b1" ∧ c.blockId = "b2" ∧ c.prevBlockId = b.blockId := by
  intro ops
  obtain ⟨hnodup, hchain⟩ := committed_blocks_chain (.ofLayout statsLayout "1") statsLayout "1"
    (scripted .empty).link ops
  refine ⟨hnodup, ?_⟩
  let s₀ := scripted .empty
  let s₁ := (Op.startup.perform s₀).after
  let s₂ := ((Op.beginBlock (bareBlock "b1" 1 "b0")).perform s₁).after
  let s₃ := ((Op.commit 0).perform s₂).after
  let s₄ := ((Op.beginBlock (bareBlock "b2" 2 "b1")).perform s₃).after
  have hb : ((Op.commit 0).perform s₂).committed?.map (fun c => (c.1, c.2.blockId)) =
      some (0, "b1") := by decide +kernel
  have hc : ((Op.commit 1).perform s₄).committed?.map (fun c => (c.1, c.2.blockId)) =
      some (1, "b2") := by decide +kernel
  obtain ⟨⟨i, b⟩, hi, hib⟩ := Option.map_eq_some_iff.mp hb
  obtain ⟨⟨j, c⟩, hj, hjc⟩ := Option.map_eq_some_iff.mp hc
  simp only [Prod.mk.injEq] at hib hjc
  obtain ⟨rfl, hbid⟩ := hib
  obtain ⟨rfl, hcid⟩ := hjc
  refine ⟨b, c, ?_, hbid, hcid, ?_⟩
  · have hnone : (Op.startup.perform s₀).committed? = none := rfl
    have hnone₁ : ((Op.beginBlock (bareBlock "b1" 1 "b0")).perform s₁).committed? = none := rfl
    have hnone₃ : ((Op.beginBlock (bareBlock "b2" 2 "b1")).perform s₃).committed? = none := rfl
    have hes : history ops (scripted .empty) = [Op.startup.perform s₀,
        (Op.beginBlock (bareBlock "b1" 1 "b0")).perform s₁, (Op.commit 0).perform s₂,
        (Op.beginBlock (bareBlock "b2" 2 "b1")).perform s₃, (Op.commit 1).perform s₄] := rfl
    rw [hes]
    simp only [List.filterMap_cons, hnone, hi, hnone₁, hnone₃, hj, List.filterMap_nil]
  · refine hchain [_, _] _ [_] _ [] 0 b 1 c rfl hi hj ?_ (by simp [hbid])
    intro g hg
    cases List.mem_singleton.mp hg
    exact ⟨rfl, by rintro ⟨⟩⟩

end ChainArchive.Ingest
