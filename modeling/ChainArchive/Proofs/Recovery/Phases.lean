import ChainArchive.Proofs.Ingest.Rendering
import ChainArchive.Proofs.Recovery.Books

namespace ChainArchive

open ChainArchive.Copy ChainArchive.Ingest ChainArchive.Link ChainArchive.Record

/-- Whether an entry is a request that leaves checkpoint, version and stored blocks as they are:
anything but the transfer of a block's row and a change of a stored text. -/
def Entry.mild : Entry → Bool
  | .asked (.copy table _ _) (.ok _) => table != "blocks"
  | .asked (.run p _) (.ok _) => p.name != "insert_stat" && p.name != "update_stat"
  | .asked _ _ => true
  | .marked _ => false

def Entry.storesBlock : Entry → Bool
  | .asked (.copy table _ _) (.ok _) => table == "blocks"
  | _ => false

variable {version last : String} {stored done : List Block} {b : Block} {h w : Holdings}
  {x : Books} {e : Entry} {es : List Entry}

namespace Holdings

theorem blockKeys_apply {r : Request} {v : Value}
    (hr : (Entry.asked r (.ok v)).storesBlock = false) : (h.apply r).blockKeys = h.blockKeys := by
  cases r with
  | copy table columns data =>
    have ht : table ≠ "blocks" := by simpa [Entry.storesBlock] using hr
    simp only [apply]
    split
    · simp [blockKeys, List.filterMap_append, List.filterMap_map, ht]
    · rfl
  | execute sql args =>
    simp only [apply]
    split <;> rfl
  | run p args =>
    simp only [apply]
    split
    · split
      · rfl
      · split <;> rfl
    · rfl
  | connect | fetchValue | fetchRow | fetchAll | prepare => rfl

theorem apply_copy (h : Holdings) (table : String) (columns : List String) (data : List Char) :
    ∃ rows, h.apply (.copy table columns data) = { h with rows } := by
  simp only [apply]
  split
  · exact ⟨_, rfl⟩
  · exact ⟨_, rfl⟩

theorem blockKeys_copied (h : Holdings) (b : Block) (counts : List (Option Int)) :
    (h.apply (.copy "blocks" RowTable.blocks.columns
      (counts.map fun n => encodeRow (blockRow b n)).flatten)).blockKeys =
        h.blockKeys ++ counts.map fun _ => (b.blockId, b.blockNum) := by
  have hrows : readRows? (counts.map fun n => encodeRow (blockRow b n)).flatten =
      some (counts.map fun n => (blockRow b n).map fieldText) := by
    have hread := readRows?_encodeRow (counts.map (blockRow b)) fun r hr => by
      obtain ⟨n, -, rfl⟩ := List.mem_map.mp hr
      exact List.cons_ne_nil _ _
    rwa [List.map_map, List.map_map] at hread
  simp only [apply, hrows, blockKeys, List.filterMap_append, List.map_map, List.filterMap_map]
  simp [Function.comp_def, blockKey?_blockRow]

theorem Keeps.apply_mild {r : Request} {v : Value} (hk : h.Keeps version stored last)
    (hm : (Entry.asked r (.ok v)).mild = true) : (h.apply r).Keeps version stored last := by
  cases r with
  | execute sql args =>
    simp only [apply]
    split
    · refine ⟨?_, hk.version_eq, hk.sync_eq, hk.keys_eq⟩
      have hs := hk.stats_table
      simp only [List.contains_iff_mem, List.mem_append] at hs ⊢
      exact .inl hs
    · exact hk
  | run p args =>
    have hp : p.name ≠ "insert_stat" ∧ p.name ≠ "update_stat" := by
      simpa [Entry.mild] using hm
    simp only [apply]
    split
    · rw [if_neg hp.1, if_neg hp.2]
      exact hk
    · exact hk
  | copy table columns data =>
    have hkeys : (h.apply (.copy table columns data)).blockKeys = h.blockKeys :=
      blockKeys_apply (v := v) (by simpa [Entry.mild, Entry.storesBlock] using hm)
    obtain ⟨rows, heq⟩ := h.apply_copy table columns data
    rw [heq] at hkeys ⊢
    exact ⟨hk.stats_table, hk.version_eq, hk.sync_eq, hkeys.trans hk.keys_eq⟩
  | connect | fetchValue | fetchRow | fetchAll | prepare => exact hk

theorem Keeps.apply_blockRow (hk : h.Keeps version stored last) (b : Block)
    (counted : Option Int) :
    (h.apply (.copy "blocks" RowTable.blocks.columns
      [encodeRow (blockRow b counted)].flatten)).Keeps version (stored ++ [b]) last := by
  have hkeys := h.blockKeys_copied b [counted]
  rw [List.map_singleton, hk.keys_eq] at hkeys
  obtain ⟨rows, heq⟩ := h.apply_copy "blocks" RowTable.blocks.columns
    [encodeRow (blockRow b counted)].flatten
  rw [heq] at hkeys ⊢
  exact ⟨hk.stats_table, hk.version_eq, hk.sync_eq, hkeys.trans (by simp)⟩

theorem lookup_replaced (stats : List (String × String)) (key value key' : String) :
    (stats.map fun s => if s.1 = key then (key, value) else s).lookup key' =
      if key' = key then (stats.lookup key).map fun _ => value else stats.lookup key' := by
  induction stats with
  | nil => simp
  | cons s stats ih =>
    obtain ⟨k, v⟩ := s
    by_cases hk : k = key
    · subst hk
      by_cases hk' : key' = k
      · subst hk'
        simp
      · have hne : (key' == k) = false := by simpa using hk'
        simp only [List.map_cons, ↓reduceIte, List.lookup_cons, hne, ih, hk']
    · have hne : (key == k) = false := by simpa using Ne.symm hk
      by_cases hk' : key' = k
      · subst hk'
        simp [hk]
      · have hne' : (key' == k) = false := by simpa using hk'
        simp only [List.map_cons, hk, ↓reduceIte, List.lookup_cons, hne, hne', ih]

theorem Keeps.apply_moved {p : Plan} {last' : String} (hk : h.Keeps version stored last)
    (hp : p.name = "update_stat") :
    (h.apply (.run p [.text Checkpoint.lastSyncKey, .text last'])).Keeps version stored last' := by
  have hne : ¬ Checkpoint.versionKey = Checkpoint.lastSyncKey := by decide
  have hargs : statArgs? [.text Checkpoint.lastSyncKey, .text last'] =
      some (Checkpoint.lastSyncKey, last') := rfl
  have hinsert : ¬ "update_stat" = "insert_stat" := by decide
  simp only [apply, hargs, hp, hinsert, ↓reduceIte]
  refine ⟨hk.stats_table, ?_, ?_, hk.keys_eq⟩
  · rw [stat?, lookup_replaced, if_neg hne]
    exact hk.version_eq
  · have hsync := hk.sync_eq
    unfold stat? at hsync
    rw [stat?, lookup_replaced, if_pos rfl, hsync]
    rfl

end Holdings

theorem lastId_append (done : List Block) (b : Block) : lastId (done ++ [b]) = b.blockId := by
  simp [lastId]

namespace Books

structure Settled (version : String) (done : List Block) (x : Books) : Prop where
  durable_keeps : x.store.durable.Keeps version done (lastId done)
  bracket_eq : x.store.bracket = none
  committed_eq : x.committed = done.map (·.blockId)

/-- A block's row is stored, but its checkpoint is not moved, not even in an open transaction. -/
structure Torn (version : String) (done : List Block) (b : Block) (x : Books) : Prop where
  durable_keeps : x.store.durable.Keeps version (done ++ [b]) (lastId done)
  bracket_keeps : ∀ w, x.store.bracket = some w →
    w.Keeps version (done ++ [b]) (lastId done) ∧ x.pending = []
  committed_eq : x.committed = done.map (·.blockId)

/-- The open transaction has moved the checkpoint to the block. -/
structure Moved (version : String) (done : List Block) (b : Block) (x : Books) : Prop where
  durable_keeps : x.store.durable.Keeps version (done ++ [b]) (lastId done)
  bracket_keeps : ∃ w, x.store.bracket = some w ∧ w.Keeps version (done ++ [b]) b.blockId
  pending_eq : x.pending = [b.blockId]
  committed_eq : x.committed = done.map (·.blockId)

/-- What a later startup needs to know: of some blocks a first part was committed, and at most one
more is stored. -/
def Recoverable (version : String) (blocks : List Block) (x : Books) : Prop :=
  ∃ done torn rest, blocks = done ++ torn ++ rest ∧ torn.length ≤ 1 ∧
    x.store.durable.Keeps version (done ++ torn) (lastId done) ∧
    x.committed = done.map (·.blockId)

theorem Settled.recoverable (hx : x.Settled version done) (rest : List Block) :
    x.Recoverable version (done ++ rest) :=
  ⟨done, [], rest, by simp, by simp, by simpa using hx.durable_keeps, hx.committed_eq⟩

theorem Torn.recoverable (hx : x.Torn version done b) (rest : List Block) :
    x.Recoverable version (done ++ b :: rest) :=
  ⟨done, [b], rest, by simp, by simp, hx.durable_keeps, hx.committed_eq⟩

theorem Moved.recoverable (hx : x.Moved version done b) (rest : List Block) :
    x.Recoverable version (done ++ b :: rest) :=
  ⟨done, [b], rest, by simp, by simp, hx.durable_keeps, hx.committed_eq⟩

theorem Settled.take_mild (hx : x.Settled version done) (hm : e.mild = true) :
    (x.take e).Settled version done := by
  cases e with
  | marked m => cases hm
  | asked r reply =>
    cases reply with
    | error f => exact ⟨hx.durable_keeps, hx.bracket_eq, hx.committed_eq⟩
    | ok v =>
      have hstore : (x.take (.asked r (.ok v))).store = ⟨x.store.durable.apply r, none⟩ := by
        simp only [take, Store.take, hx.bracket_eq]
      refine ⟨?_, ?_, hx.committed_eq⟩
      · rw [hstore]
        exact hx.durable_keeps.apply_mild hm
      · rw [hstore]

theorem Settled.takeAll_mild (hx : x.Settled version done) (hm : es.all Entry.mild = true) :
    (x.takeAll es).Settled version done := by
  induction es generalizing x with
  | nil => exact hx
  | cons e es ih =>
    rw [List.all_cons, Bool.and_eq_true] at hm
    exact ih (hx.take_mild hm.1) hm.2

theorem Settled.take_rollback (hx : x.Settled version done) :
    (x.take (.marked .rollback)).Settled version done :=
  ⟨hx.durable_keeps, rfl, hx.committed_eq⟩

theorem Settled.take_blockRow {v : Value} (hx : x.Settled version done) (b : Block)
    (counted : Option Int) :
    (x.take (.asked (.copy "blocks" RowTable.blocks.columns
      [encodeRow (blockRow b counted)].flatten) (.ok v))).Torn version done b := by
  have hstore : (x.take (.asked (.copy "blocks" RowTable.blocks.columns
      [encodeRow (blockRow b counted)].flatten) (.ok v))).store =
      ⟨x.store.durable.apply (.copy "blocks" RowTable.blocks.columns
        [encodeRow (blockRow b counted)].flatten), none⟩ := by
    simp only [take, Store.take, hx.bracket_eq]
  refine ⟨?_, ?_, hx.committed_eq⟩
  · simpa only [hstore] using hx.durable_keeps.apply_blockRow b counted
  · rw [hstore]
    intro w hw
    cases hw

theorem checkpoint?_of_mild (hm : e.mild = true) : e.checkpoint? = none := by
  cases e with
  | marked => rfl
  | asked r reply =>
    cases r with
    | run p args =>
      cases reply with
      | error => rfl
      | ok v =>
        have hp : p.name ≠ "insert_stat" ∧ p.name ≠ "update_stat" := by
          simpa [Entry.mild] using hm
        simp only [Entry.checkpoint?, hp.2, false_and, ↓reduceIte]
        split <;> rfl
    | connect | execute | fetchValue | fetchRow | fetchAll | prepare | copy => rfl

theorem Torn.take_mild (hx : x.Torn version done b) (hm : e.mild = true) :
    (x.take e).Torn version done b := by
  have hcheck := checkpoint?_of_mild hm
  cases e with
  | asked r reply =>
    have hpending : (x.take (.asked r reply)).pending = x.pending := by
      simp only [take, hcheck, Option.toList_none, List.append_nil]
    cases reply with
    -- A request that failed has no effect on what is stored.
    | error f => exact ⟨hx.durable_keeps, hpending ▸ hx.bracket_keeps, hx.committed_eq⟩
    | ok v =>
      cases hb : x.store.bracket with
      | none =>
        have hstore : (x.take (.asked r (.ok v))).store = ⟨x.store.durable.apply r, none⟩ := by
          simp only [take, Store.take, hb]
        refine ⟨?_, ?_, hx.committed_eq⟩
        · rw [hstore]
          exact hx.durable_keeps.apply_mild hm
        · rw [hstore]
          intro w hw
          cases hw
      | some w =>
        have hstore : (x.take (.asked r (.ok v))).store = ⟨x.store.durable, some (w.apply r)⟩ := by
          simp only [take, Store.take, hb]
        obtain ⟨hw, hp⟩ := hx.bracket_keeps w hb
        refine ⟨?_, ?_, hx.committed_eq⟩
        · rw [hstore]
          exact hx.durable_keeps
        · rw [hstore, hpending]
          rintro _ ⟨⟩
          exact ⟨hw.apply_mild hm, hp⟩
  | marked m => cases hm

theorem Torn.take_mark {m : Mark} (hx : x.Torn version done b) (hm : m ≠ .commit) :
    (x.take (.marked m)).Torn version done b := by
  cases m with
  | commit => exact absurd rfl hm
  | start =>
    refine ⟨hx.durable_keeps, ?_, hx.committed_eq⟩
    rintro _ ⟨⟩
    exact ⟨hx.durable_keeps, rfl⟩
  | rollback | close | closeAgain =>
    refine ⟨hx.durable_keeps, ?_, hx.committed_eq⟩
    rintro _ ⟨⟩

theorem Torn.takeAll_mild (hx : x.Torn version done b) (hm : es.all Entry.mild = true) :
    (x.takeAll es).Torn version done b := by
  induction es generalizing x with
  | nil => exact hx
  | cons e es ih =>
    rw [List.all_cons, Bool.and_eq_true] at hm
    exact ih (hx.take_mild hm.1) hm.2

theorem isSome_bracket_takeAll (hb : x.store.bracket.isSome = true)
    (hm : es.all Entry.mild = true) : (x.takeAll es).store.bracket.isSome = true := by
  induction es generalizing x with
  | nil => exact hb
  | cons e es ih =>
    rw [List.all_cons, Bool.and_eq_true] at hm
    refine ih ?_ hm.2
    obtain ⟨w, hw⟩ := Option.isSome_iff_exists.mp hb
    cases e with
    | marked m => cases hm.1
    | asked r reply => cases reply <;> simp [take, Store.take, hw]

theorem Torn.take_moved {p : Plan} {v : Value} (hx : x.Torn version done b)
    (hb : x.store.bracket.isSome = true) (hp : p.name = "update_stat") :
    (x.take (.asked (.run p [.text Checkpoint.lastSyncKey, .text b.blockId]) (.ok v))).Moved
      version done b := by
  obtain ⟨w, hw⟩ := Option.isSome_iff_exists.mp hb
  obtain ⟨hk, hpending⟩ := hx.bracket_keeps w hw
  have hargs : statArgs? [.text Checkpoint.lastSyncKey, .text b.blockId] =
      some (Checkpoint.lastSyncKey, b.blockId) := rfl
  refine ⟨?_, ⟨_, ?_, hk.apply_moved hp⟩, ?_, hx.committed_eq⟩
  · simpa only [take, Store.take, hw] using hx.durable_keeps
  · simp only [take, Store.take, hw]
  · simp only [take, hpending, Entry.checkpoint?, hargs, hp, and_self, ↓reduceIte]
    rfl

theorem Moved.take_commit (hx : x.Moved version done b) :
    (x.take (.marked .commit)).Settled version (done ++ [b]) := by
  obtain ⟨w, hw, hk⟩ := hx.bracket_keeps
  refine ⟨?_, rfl, ?_⟩
  · rw [lastId_append]
    simpa only [take, Store.take, Store.view, hw, Option.getD_some] using hk
  · simp [take, hx.committed_eq, hx.pending_eq]

end Books

end ChainArchive
