import ChainArchive.Proofs.Ingest.History
import ChainArchive.Proofs.Recovery.Answers

namespace ChainArchive

open ChainArchive.Ingest ChainArchive.Link ChainArchive.Record ChainArchive.Schema

def lastId (bs : List Block) : String := (bs.map (·.blockId)).getLast?.getD ""

/-- The holdings of a database with a version, the rows of some blocks and a checkpoint. -/
structure Holdings.Keeps (h : Holdings) (version : String) (stored : List Block) (last : String) :
    Prop where
  stats_table : h.tables.contains "stats" = true
  version_eq : h.stat? Checkpoint.versionKey = some version
  sync_eq : h.stat? Checkpoint.lastSyncKey = some last
  keys_eq : h.blockKeys = stored.map fun b => (b.blockId, b.blockNum)

theorem createdTable?_stats {t : Table} (h : t.name = "stats") :
    createdTable? (Ddl.createTable t).sql = some "stats" := by
  have hsql : (Ddl.createTable t).sql = "CREATE TABLE IF NOT EXISTS public." ++ t.name ++
      " (\n    " ++ joined ",\n    " t.definitions ++ "\n)" := rfl
  have hopen : " (\n    " = " " ++ "(\n    " := by decide
  have hassoc : ∀ a b c d e f : String,
      a ++ b ++ (c ++ d) ++ e ++ f = a ++ b ++ c ++ (d ++ e ++ f) := by
    intro a b c d e f
    simp only [String.append_assoc]
  rw [hsql, h, hopen, hassoc]
  exact createdTable?_append _ _ (by decide)

namespace Holdings

theorem foldl_later {k : String × Int} {ks : List (String × Int)}
    (h : (k :: ks).Pairwise (·.2 < ·.2)) : ks.foldl later (some k) = (k :: ks).getLast? := by
  induction ks generalizing k with
  | nil => rfl
  | cons x ks ih =>
    have hkx : k.2 < x.2 := (List.pairwise_cons.mp h).1 x List.mem_cons_self
    rw [List.foldl_cons, later, if_pos hkx, ih (List.pairwise_cons.mp h).2, List.getLast?_cons_cons]

theorem latest?_eq {h : Holdings} (hn : h.blockKeys.Pairwise (·.2 < ·.2)) :
    h.latest? = h.blockKeys.getLast? := by
  unfold latest?
  generalize h.blockKeys = ks at hn
  cases ks with
  | nil => rfl
  | cons k ks => exact foldl_later hn

variable {h : Holdings} {version last : String} {stored : List Block}

theorem Keeps.latest?_eq (hk : h.Keeps version stored last)
    (hn : (stored.map (·.blockNum)).Pairwise (· < ·)) :
    h.latest?.map (·.1) = (stored.map (·.blockId)).getLast? := by
  have hp : h.blockKeys.Pairwise (·.2 < ·.2) := by
    rw [hk.keys_eq]
    exact List.pairwise_map.mpr (List.pairwise_map.mp hn)
  rw [Holdings.latest?_eq hp, hk.keys_eq, List.getLast?_map, List.getLast?_map, Option.map_map]
  rfl

theorem applyDdl_eq (h : Holdings) (ds : List Ddl) : ∃ names,
    Disk.applyDdl h ds = { h with tables := h.tables ++ names } ∧
      ∀ t, .createTable t ∈ ds → t.name = "stats" → "stats" ∈ names := by
  -- A creation adds the name of its table; any other statement leaves the holdings alone.
  induction ds generalizing h with
  | nil => exact ⟨[], by simp [Disk.applyDdl], by simp⟩
  | cons d ds ih =>
    obtain ⟨names, hn, ht⟩ := ih (h.apply (.execute d.sql []))
    have hcons : Disk.applyDdl h (d :: ds) = Disk.applyDdl (h.apply (.execute d.sql [])) ds := rfl
    cases hc : createdTable? d.sql with
    | none =>
      refine ⟨names, ?_, ?_⟩
      · rw [hcons, hn]
        simp [apply, hc]
      · intro t hm hname
        obtain rfl | hm := List.mem_cons.mp hm
        · rw [createdTable?_stats hname] at hc
          cases hc
        · exact ht t hm hname
    | some name =>
      refine ⟨name :: names, ?_, ?_⟩
      · rw [hcons, hn]
        simp [apply, hc]
      · intro t hm hname
        obtain rfl | hm := List.mem_cons.mp hm
        · rw [createdTable?_stats hname] at hc
          cases hc
          exact List.mem_cons_self
        · exact List.mem_cons_of_mem _ (ht t hm hname)

theorem stats_applyDdl (h : Holdings) (ds : List Ddl) : (Disk.applyDdl h ds).stats = h.stats := by
  obtain ⟨names, hn, -⟩ := applyDdl_eq h ds
  rw [hn]

theorem contains_applyDdl {layout : Layout} (h : Holdings)
    (hl : layout.tableNames.contains "stats" = true) :
    (Disk.applyDdl h layout.creation).tables.contains "stats" = true := by
  obtain ⟨names, hn, hstats⟩ := applyDdl_eq h layout.creation
  obtain ⟨table, ht, hname⟩ := List.mem_map.mp (List.contains_iff_mem.mp hl)
  have hmem : "stats" ∈ names := by
    refine hstats table ?_ hname
    exact List.mem_flatMap.mpr ⟨table, ht, by simp [Table.creation]⟩
  rw [hn, List.contains_iff_mem]
  exact List.mem_append_right _ hmem

def prepared (h : Holdings) (layout : Layout) (version : String) : Holdings :=
  { Disk.applyDdl h layout.creation with
    stats := [(Checkpoint.versionKey, version), (Checkpoint.lastSyncKey, "")] }

theorem version_prepared (h : Holdings) (layout : Layout) (version : String) :
    (h.prepared layout version).stat? Checkpoint.versionKey = some version := by
  simp [prepared, stat?]

theorem sync_prepared (h : Holdings) (layout : Layout) (version : String) :
    (h.prepared layout version).stat? Checkpoint.lastSyncKey = some "" := by
  have hkeys : (Checkpoint.lastSyncKey == Checkpoint.versionKey) = false := by decide
  simp [prepared, stat?, List.lookup_cons, hkeys]

theorem Keeps.applyDdl (hk : h.Keeps version stored last) (ds : List Ddl) :
    (Disk.applyDdl h ds).Keeps version stored last := by
  obtain ⟨names, hn, -⟩ := applyDdl_eq h ds
  rw [hn]
  refine ⟨?_, hk.version_eq, hk.sync_eq, hk.keys_eq⟩
  have hs := hk.stats_table
  simp only [List.contains_iff_mem, List.mem_append] at hs ⊢
  exact .inl hs

end Holdings

/-- The database part of a startup. -/
def Checkpoint.prepare {σ : Type} [Server σ] (layout : Layout) (version : String) :
    Program (Link σ) String := do
  let found ← layout.tableExists "stats"
  let last ← if found.isTruthy then do
      layout.create
      let _ ← checkVersion version
      checkSync
    else do
      layout.create
      store version
      pure ""
  planAll
  return last

namespace Disk

variable {t : Terms} {fault : Nat → Option ServerError} {h : Holdings} {version last : String}
  {stored : List Block} {layout : Layout}

structure Standard (t : Terms) : Prop where
  statements_eq : t.statements = Statement.standard
  connected : t.connection ≠ .released

theorem Standard.find? (ht : Standard t) (name : String)
    (hn : (Statement.find? Statement.standard name).isSome = true) :
    ∃ p, Statement.find? t.statements name = some p ∧ p.name = name := by
  obtain ⟨p, hp⟩ := Option.isSome_iff_exists.mp hn
  rw [ht.statements_eq]
  exact ⟨p, hp, Statement.name_of_find? hp⟩

theorem read_yields (ht : Standard t) {name : String} {args : List Value} {v : Value}
    (hn : (Statement.find? Statement.standard name).isSome = true)
    (hargs : statArgs? args = none)
    (hr : ∀ p o, p.name = name → h.reply o (.run p args) = .ok v) :
    Yields t fault ⟨h, none⟩ (run name args) (.ok v) ⟨h, none⟩ := by
  obtain ⟨p, hp, hname⟩ := ht.find? name hn
  have hy : Yields t fault ⟨h, none⟩ (run name args) (.ok v) _ :=
    run_yields ht.connected hp fun o => hr p o hname
  have hs : (⟨h, none⟩ : Store).take (.asked (.run p args) (.ok v)) = ⟨h, none⟩ := by
    simp [Store.take, Holdings.apply, hargs]
  rwa [hs] at hy

theorem readStat_yields (ht : Standard t) (key : String) :
    Yields t fault ⟨h, none⟩ (Checkpoint.readStat key) (.ok (.ofText? (h.stat? key))) ⟨h, none⟩ :=
  read_yields ht (by decide +kernel) rfl fun p o hp => by
    simp [Holdings.reply, hp, textArg?, Value.text]

theorem latestBlockId_yields (ht : Standard t) :
    Yields t fault ⟨h, none⟩ Checkpoint.latestBlockId (.ok (.ofText? (h.latest?.map (·.1))))
      ⟨h, none⟩ :=
  read_yields ht (by decide +kernel) rfl fun p o hp => by simp [Holdings.reply, hp]

theorem blockExists_yields (ht : Standard t) (blockId : String) :
    Yields t fault ⟨h, none⟩ (Checkpoint.blockExists blockId) (.ok (h.hasBlock blockId))
      ⟨h, none⟩ :=
  (read_yields ht (v := .bool (h.hasBlock blockId)) (by decide +kernel) rfl fun p o hp => by
    simp [Holdings.reply, hp, textArg?, Value.text]).bind (.pure _)

theorem tableExists_yields (fault : Nat → Option ServerError) (h : Holdings) (ht : Standard t)
    (hl : layout.tableNames.contains "stats" = true) :
    Yields t fault ⟨h, none⟩ (layout.tableExists "stats") (.ok (.bool (h.tables.contains "stats")))
      ⟨h, none⟩ := by
  have hcheck : Yields t fault ⟨h, none⟩ (layout.checkTable "stats") (.ok ()) ⟨h, none⟩ := by
    rw [Layout.checkTable, if_pos hl]
    exact .pure ()
  have hreply : ∀ o, h.reply o (.fetchValue Layout.existsSql [.text "stats"]) =
      .ok (.bool (h.tables.contains "stats")) := by
    intro o
    simp only [Holdings.reply, ↓reduceIte]
    rfl
  exact hcheck.bind (passing_yields ht.connected hreply)

theorem checkVersion_yields (ht : Standard t) (hv : h.stat? Checkpoint.versionKey = some version) :
    Yields t fault ⟨h, none⟩ (Checkpoint.checkVersion version) (.ok version) ⟨h, none⟩ := by
  refine (readStat_yields ht _).bind ?_
  rw [hv]
  have hlt : ¬ version < version := String.lt_irrefl version
  simp only [Value.ofText?, Value.text, hlt, ↓reduceIte]
  exact .pure version

theorem checkSync_yields (fault : Nat → Option ServerError) (ht : Standard t)
    (hk : h.Keeps version stored last)
    (hn : (stored.map (·.blockNum)).Pairwise (· < ·)) (hlast : Text.strip last = last)
    (hstored : Text.strip (lastId stored) = lastId stored) :
    Yields t fault ⟨h, none⟩ Checkpoint.checkSync
      (if last = lastId stored then .ok (lastId stored)
        else .error (.checkpointMismatch last (lastId stored))) ⟨h, none⟩ := by
  refine (readStat_yields ht _).bind ?_
  rw [hk.sync_eq]
  refine (latestBlockId_yields ht).bind ?_
  have htext : Checkpoint.blockIdText (.ofText? (h.latest?.map (·.1))) = .ok (lastId stored) := by
    rw [hk.latest?_eq hn]
    unfold lastId at hstored ⊢
    cases hl : (stored.map (·.blockId)).getLast? with
    | none => rfl
    | some id =>
      rw [hl] at hstored
      exact congrArg Except.ok hstored
  rw [htext]
  refine (Yields.lift (.ok (lastId stored))).bind ?_
  simp only [Value.ofText?, Value.text, hlast]
  split
  · exact .pure _
  · exact .throw _

theorem insertStat_yields (fault : Nat → Option ServerError) (ht : Standard t) (h w : Holdings)
    (key value : String) (hkey : w.stat? key = none) :
    Yields t fault ⟨h, some w⟩ (Batch.runCall ⟨"insert_stat", [.text key, .text value], none⟩)
      (.ok ()) ⟨h, some { w with stats := w.stats ++ [(key, value)] }⟩ := by
  obtain ⟨p, hp, hname⟩ := ht.find? "insert_stat" (by decide +kernel)
  have hargs : statArgs? [.text key, .text value] = some (key, value) := rfl
  have hreply : ∀ o, w.reply o (.run p [.text key, .text value]) = .ok .null := by
    intro o
    simp [Holdings.reply, hname, hargs, hkey]
  have hy : Yields t fault ⟨h, some w⟩ (run "insert_stat" [.text key, .text value]) (.ok .null) _ :=
    run_yields ht.connected hp hreply
  have hs : (⟨h, some w⟩ : Store).take (.asked (.run p [.text key, .text value]) (.ok .null)) =
      ⟨h, some { w with stats := w.stats ++ [(key, value)] }⟩ := by
    simp [Store.take, Holdings.apply, hname, hargs]
  rw [hs] at hy
  exact (hy.mapFailure _).bind (.pure ())

theorem store_yields (ht : Standard t) (hs : h.stats = []) :
    Yields t fault ⟨h, none⟩ (Checkpoint.store version) (.ok ())
      ⟨{ h with stats := [(Checkpoint.versionKey, version), (Checkpoint.lastSyncKey, "")] },
        none⟩ := by
  have hkeys : (Checkpoint.lastSyncKey == Checkpoint.versionKey) = false := by decide
  have hfirst := insertStat_yields fault ht h h Checkpoint.versionKey version
    (by simp [Holdings.stat?, hs])
  have hsecond := insertStat_yields fault ht h
    { h with stats := h.stats ++ [(Checkpoint.versionKey, version)] } Checkpoint.lastSyncKey ""
    (by simp [Holdings.stat?, hs, hkeys])
  have hcalls : Yields t fault ⟨h, some h⟩ (Batch.runCalls
      [⟨"insert_stat", [.text Checkpoint.versionKey, .text version], none⟩,
        ⟨"insert_stat", [.text Checkpoint.lastSyncKey, .text ""], none⟩]) (.ok ()) _ :=
    hfirst.bind (hsecond.bind (.pure ()))
  refine ((inTransaction_yields ht.connected hcalls).bind (.pure [])).bind ?_
  simpa only [hs, List.nil_append, List.cons_append] using Yields.pure ()

theorem prepare_absent_yields (fault : Nat → Option ServerError) (version : String)
    (ht : Standard t) (hl : layout.tableNames.contains "stats" = true)
    (hnew : h.tables.contains "stats" = false) (hs : h.stats = []) :
    Yields t fault ⟨h, none⟩ (Checkpoint.prepare layout version) (.ok "")
      ⟨h.prepared layout version, none⟩ := by
  have hexists := tableExists_yields fault h ht hl
  rw [hnew] at hexists
  refine hexists.bind ?_
  refine (create_yields layout h ht.connected).bind ?_
  refine (store_yields ht ((h.stats_applyDdl _).trans hs)).bind ((Yields.pure "").bind ?_)
  exact (planAll_yields ht.connected).bind (.pure "")

theorem prepare_new_yields (fault : Nat → Option ServerError) (version : String)
    (ht : Standard t) (hl : layout.tableNames.contains "stats" = true) :
    ∃ h', h'.Keeps version [] "" ∧
      Yields t fault ⟨.empty, none⟩ (Checkpoint.prepare layout version) (.ok "") ⟨h', none⟩ := by
  refine ⟨Holdings.empty.prepared layout version,
    ⟨Holdings.empty.contains_applyDdl hl, Holdings.empty.version_prepared layout version,
      Holdings.empty.sync_prepared layout version, ?_⟩,
    prepare_absent_yields fault version ht hl rfl rfl⟩
  obtain ⟨names, hn, -⟩ := Holdings.empty.applyDdl_eq layout.creation
  rw [Holdings.prepared, hn]
  rfl

/-- On an old database the checkpoint is compared with the latest stored block. -/
theorem prepare_old_yields (fault : Nat → Option ServerError) (ht : Standard t)
    (hl : layout.tableNames.contains "stats" = true)
    (hk : h.Keeps version stored last) (hn : (stored.map (·.blockNum)).Pairwise (· < ·))
    (hlast : Text.strip last = last) (hstored : Text.strip (lastId stored) = lastId stored) :
    ∃ s, Yields t fault ⟨h, none⟩ (Checkpoint.prepare layout version)
      (if last = lastId stored then .ok (lastId stored)
        else .error (.checkpointMismatch last (lastId stored))) s := by
  have hk' := hk.applyDdl layout.creation
  refine ⟨⟨Disk.applyDdl h layout.creation, none⟩, ?_⟩
  have hexists := tableExists_yields fault h ht hl
  rw [hk.stats_table] at hexists
  refine hexists.bind ?_
  have hsync := checkSync_yields fault ht hk' hn hlast hstored
  refine (create_yields layout h ht.connected).bind ?_
  refine (checkVersion_yields ht hk'.version_eq).bind ?_
  by_cases he : last = lastId stored
  · rw [if_pos he] at hsync ⊢
    exact hsync.bind ((planAll_yields ht.connected).bind (.pure _))
  · rw [if_neg he] at hsync ⊢
    exact hsync.bind_error

end Disk

namespace Ingest.Intake

variable {σ : Type} [Server σ] {α β : Type}

/-- A program of an intake that ends and sends as a program of its session does. -/
def Mirrors (p : Program (Intake σ) α) (q : Program (Link σ) α) : Prop :=
  ∀ s, (p.runFrom s).1 = (q.runFrom s.link).1 ∧ (p.runFrom s).2.link = (q.runFrom s.link).2

omit [Server σ] in
theorem Mirrors.bind {p : Program (Intake σ) α} {q : Program (Link σ) α}
    {f : α → Program (Intake σ) β} {g : α → Program (Link σ) β} (h : Mirrors p q)
    (hf : ∀ x, Mirrors (f x) (g x)) : Mirrors (p >>= f) (q >>= g) := by
  intro s
  obtain ⟨hr, hl⟩ := h s
  rw [Program.runFrom_bind, Program.runFrom_bind]
  cases hp : p.runFrom s with
  | mk r m =>
    cases hq : q.runFrom s.link with
    | mk r' l =>
      rw [hp, hq] at hr hl
      cases hr
      cases hl
      cases r with
      | ok x => exact hf x m
      | error e => exact ⟨rfl, rfl⟩

omit [Server σ] in
theorem Mirrors.onLink (q : Program (Link σ) α) : Mirrors (Intake.onLink q) q :=
  fun _ => ⟨rfl, rfl⟩

theorem startup_runFrom (s : Intake σ) :
    (startup.runFrom s).1 =
        ((Checkpoint.prepare s.pipeline.layout s.pipeline.version).runFrom s.link).1 ∧
      (startup.runFrom s).2.link =
        ((Checkpoint.prepare s.pipeline.layout s.pipeline.version).runFrom s.link).2 := by
  have hresume : ∀ last, Mirrors (σ := σ) (do
        update fun p => { p with lastSync := some last }
        Intake.onLink planAll
        update fun p => { p with halted := none, started := true }
        return (← get).pipeline.lastSync.getD "")
      (do planAll; return last) := by
    intro last s
    simp only [Program.runFrom_bind, onLink_runFrom, update_runFrom, Program.runFrom_get]
    cases planAll.runFrom s.link with
    | mk r l => cases r <;> exact ⟨rfl, rfl⟩
  rw [startup, Program.runFrom_bind, Program.runFrom_get]
  refine (Mirrors.onLink _).bind (fun found => ?_) s
  cases found.isTruthy with
  | true =>
    refine (Mirrors.onLink _).bind fun _ => (Mirrors.onLink _).bind fun _ => ?_
    exact (Mirrors.onLink _).bind fun last => hresume last
  | false =>
    refine (Mirrors.onLink _).bind fun _ => (Mirrors.onLink _).bind fun _ => ?_
    exact hresume ""

end Ingest.Intake

end ChainArchive
