import ChainArchive.Proofs.Recovery.Delivery

namespace ChainArchive

open ChainArchive.Ingest ChainArchive.Link ChainArchive.Record ChainArchive.Schema

def Disk.intake (d : Disk) (layout : Layout) (version : String) : Intake Disk :=
  ⟨.ofLayout layout version, .ofStatements Statement.standard, d, []⟩

variable {version last : String} {layout : Layout} {fault : Nat → Option ServerError}
  {other : Nat → Value} {s : Intake Disk}

theorem Disk.intake_standard (d : Disk) (layout : Layout) (version : String) :
    Disk.Standard (d.intake layout version).link.terms :=
  ⟨rfl, by rintro ⟨⟩⟩

theorem Entry.checkpoint?_eq_none {e : Entry} (h : e.writesBlock = false) :
    e.checkpoint? = none := by
  cases e with
  | marked => rfl
  | asked r reply =>
    cases r with
    | run p args =>
      cases reply with
      | error => rfl
      | ok v =>
        have hp : p.name ≠ "update_stat" := by
          intro hp
          rw [writesBlock, hp] at h
          cases h
        simp only [checkpoint?, hp, false_and, ↓reduceIte]
        split <;> rfl
    | connect | execute | fetchValue | fetchRow | fetchAll | prepare | copy => rfl

theorem Books.committed_takeAll {x : Books} {es : List Entry} (hp : x.pending = [])
    (h : es.any Entry.writesBlock = false) : (x.takeAll es).committed = x.committed := by
  induction es generalizing x with
  | nil => rfl
  | cons e es ih =>
    rw [List.any_cons, Bool.or_eq_false_iff] at h
    have hcheck := Entry.checkpoint?_eq_none h.1
    have hpending : (x.take e).pending = [] := by
      cases e with
      | marked => rfl
      | asked => simp [take, hp, hcheck]
    have hcommitted : (x.take e).committed = x.committed := by
      cases e with
      | asked => rfl
      | marked m => cases m <;> simp [take, hp]
    exact (ih hpending h.2).trans hcommitted

theorem Ingest.Intake.contains_of_startup
    (h : (Intake.startup.runFrom s).1 = .ok last) :
    s.pipeline.layout.tableNames.contains "stats" = true := by
  cases hl : s.pipeline.layout.tableNames.contains "stats" with
  | true => rfl
  | false =>
    have hcheck : (s.pipeline.layout.checkTable "stats" : Program (Link Disk) Unit).runFrom s.link =
        (.error (.unknownTable "stats"), s.link) := by
      rw [Layout.checkTable, hl]
      rfl
    rw [(Intake.startup_runFrom s).1, Checkpoint.prepare, Layout.tableExists, bind_assoc,
      Program.runFrom_bind_error hcheck] at h
    cases h

theorem Ingest.Intake.startup_of_yields {x : Except Failure String} {t : Store}
    (h : Disk.Yields s.link.terms s.link.line.server.fault s.link.line.server.store
      (Checkpoint.prepare s.pipeline.layout s.pipeline.version) x t) :
    (Intake.startup.runFrom s).1 = x ∧ (Intake.startup.runFrom s).2.link.line.server.store = t ∨
      (∃ n, s.link.line.server.fault n ≠ none) ∧ (Intake.startup.runFrom s).1.isOk = false := by
  obtain ⟨hresult, hlink⟩ := Intake.startup_runFrom s
  obtain ⟨-, -, hy⟩ := h s.link rfl rfl rfl
  rw [hresult, hlink]
  exact hy

theorem Disk.startup_rests
    (h : Intake.startup.runFrom ((Disk.start .empty fault other).intake layout version) =
      (.ok last, s)) : s.Rests version [] := by
  generalize hs₀ : (Disk.start .empty fault other).intake layout version = s₀ at h
  have hstandard : Standard s₀.link.terms := hs₀ ▸ intake_standard ..
  have hstore : s₀.link.line.server.store = ⟨.empty, none⟩ := hs₀ ▸ rfl
  have hversion : s₀.pipeline.version = version := hs₀ ▸ rfl
  have hlog : s₀.link.line.log = [] := hs₀ ▸ rfl
  have hpipeline : s₀.pipeline.Sound := hs₀ ▸ Pipeline.succeed_sound (.ofLayout layout version) _ _
  have hl := Intake.contains_of_startup (congrArg Prod.fst h)
  obtain ⟨h', hk, hy⟩ := prepare_new_yields s₀.link.line.server.fault version
    hstandard hl
  obtain ⟨es, hsend, hq, hr⟩ := Intake.startup_quietly s₀
  have hyields := Intake.startup_of_yields (s := s₀) (x := .ok "") (t := ⟨h', none⟩)
    (hstore ▸ hversion ▸ hy)
  rw [h] at hsend hr hyields
  obtain ⟨hlast, hdone⟩ | ⟨-, hdone⟩ := hyields
  · cases hlast
    have hbooks : s.link.books = Books.empty.takeAll es := by
      rw [Link.books, hsend.log_eq, hlog, List.nil_append]
    have hstored : s.link.line.server.store = s.link.books.store := by
      rw [hsend.store_eq.1, hstore, hbooks, Books.store_takeAll]
      rfl
    have hsettled : s.link.books.Settled version [] := by
      refine ⟨?_, ?_, ?_⟩
      · rw [← hstored, hdone]
        exact hk
      · rw [← hstored, hdone]
      · rw [hbooks]
        exact Books.committed_takeAll rfl hq
    have hrestarted : s.pipeline = s₀.pipeline.restarted "" := hr
    refine ⟨?_, ?_, hsend.terms_eq.symm ▸ hstandard, hsettled, hstored⟩
    · rw [hrestarted]
      exact ⟨hpipeline.live, fun _ => ⟨rfl, rfl⟩, fun _ => rfl⟩
    · rw [hrestarted]
      rfl
  · cases hdone

variable {blocks : List Block} {h : Holdings} {x : Books}

theorem strip_lastId (hblocks : ∀ b ∈ blocks, ∀ c ∈ b.blockId.toList, Text.isBlank c = false) :
    Text.strip (lastId blocks) = lastId blocks := by
  obtain he | hm := lastId_eq_or_mem blocks
  · rw [he]
    rfl
  · obtain ⟨b, hb, hid⟩ := List.mem_map.mp hm
    rw [← hid]
    exact Text.strip_eq_self (hblocks b hb)

theorem Disk.startup_stored {stored : List Block} (hl : layout.tableNames.contains "stats" = true)
    (hk : h.Keeps version stored last) (hn : (stored.map (·.blockNum)).Pairwise (· < ·))
    (hlast : Text.strip last = last) (hstored : Text.strip (lastId stored) = lastId stored) :
    (Intake.startup.runFrom ((Disk.start h (fun _ => none) other).intake layout version)).1 =
      if last = lastId stored then .ok (lastId stored)
      else .error (.checkpointMismatch last (lastId stored)) := by
  have hstandard := intake_standard (start h (fun _ => none) other) layout version
  obtain ⟨t, hy⟩ := prepare_old_yields (fun _ => none) hstandard hl hk hn hlast hstored
  obtain ⟨hr, -⟩ | ⟨⟨n, hnone⟩, -⟩ := Intake.startup_of_yields hy
  · exact hr
  · exact absurd rfl hnone

/-- What a startup on recoverable books makes of them. -/
theorem Books.Recoverable.startup (hx : x.Recoverable version blocks)
    (hids : (blocks.map (·.blockId)).Nodup) (hnums : (blocks.map (·.blockNum)).Pairwise (· < ·))
    (htext : ∀ b ∈ blocks, b.blockId ≠ "" ∧ ∀ c ∈ b.blockId.toList, Text.isBlank c = false)
    (hl : layout.tableNames.contains "stats" = true) :
    let r := (Intake.startup.runFrom
      ((Disk.start x.store.durable (fun _ => none) other).intake layout version)).1
    ∃ done rest, blocks = done ++ rest ∧ x.committed = done.map (·.blockId) ∧
      ((∀ b ∈ rest, x.store.durable.hasBlock b.blockId = false) → r = .ok (lastId done)) ∧
      ((∃ f, r = .error f ∧ f.toClass = .sync) ↔
        ∃ b ∈ rest, x.store.durable.hasBlock b.blockId = true) := by
  intro r
  obtain ⟨done, torn, rest, rfl, htorn, hk, hcommitted⟩ := hx
  have hnums' : ((done ++ torn).map (·.blockNum)).Pairwise (· < ·) := by
    rw [List.map_append] at hnums
    exact (List.pairwise_append.mp hnums).1
  have hr : r = _ := Disk.startup_stored hl hk hnums'
    (strip_lastId fun b hb => (htext b (by simp [hb])).2)
    (strip_lastId fun b hb => (htext b (List.mem_append_left _ hb)).2)
  refine ⟨done, torn ++ rest, by simp, hcommitted, ?_⟩
  cases torn with
  | nil =>
    -- The checkpoint is the last stored block.
    simp only [List.append_nil] at hids hk
    rw [List.append_nil, if_pos rfl] at hr
    have hnone : ∀ b ∈ rest, x.store.durable.hasBlock b.blockId = false := by
      intro b hb
      rw [hk.hasBlock_eq]
      simpa using not_mem_of_nodup_ids hids hb
    refine ⟨fun _ => hr, fun ⟨f, hf, _⟩ => ?_, fun ⟨b, hb, hstored⟩ => ?_⟩
    · cases hr.symm.trans hf
    · rw [hnone b hb] at hstored
      cases hstored
  | cons b torn =>
    -- One block is stored beyond the checkpoint, and its id is a new one.
    obtain rfl : torn = [] := List.length_eq_zero_iff.mp (by simpa using htorn)
    rw [List.append_assoc] at hids
    have hnew := not_mem_of_nodup_ids hids (b := b) (by simp)
    rw [lastId_append, if_neg (lastId_ne (htext b (by simp)).1 hnew)] at hr
    have hstored : x.store.durable.hasBlock b.blockId = true := by
      rw [hk.hasBlock_eq]
      simp
    refine ⟨fun h => ?_, fun _ => ⟨b, List.mem_cons_self, hstored⟩, fun _ => ⟨_, hr, rfl⟩⟩
    rw [h b List.mem_cons_self] at hstored
    cases hstored

/-- On a new database, blocks with ids of their own and rising numbers are delivered after a
startup, and the log is cut anywhere; requests may have failed before. A startup on what is stored
by then resumes from the last block whose transaction was committed if no later block is stored,
and finds a mismatch exactly if one is. -/
theorem startup_after_cut (other' : Nat → Value) {ds : List Delivery} {cut : List Entry}
    (hstart : Intake.startup.runFrom ((Disk.start .empty fault other).intake layout version) =
      (.ok last, s))
    (hids : (ds.map (·.block.blockId)).Nodup)
    (hnums : (ds.map (·.block.blockNum)).Pairwise (· < ·))
    (htext : ∀ d ∈ ds, d.block.blockId ≠ "" ∧ ∀ c ∈ d.block.blockId.toList, Text.isBlank c = false)
    (hcut : s.link.line.log <+: cut)
    (hrun : cut <+: ((Delivery.run ds).runFrom s).2.link.line.log) :
    let x := Books.empty.takeAll cut
    let r := (Intake.startup.runFrom
      ((Disk.start x.store.durable (fun _ => none) other').intake layout version)).1
    ∃ done rest, ds.map (·.block) = done ++ rest ∧ x.committed = done.map (·.blockId) ∧
      ((∀ b ∈ rest, x.store.durable.hasBlock b.blockId = false) → r = .ok (lastId done)) ∧
      ((∃ f, r = .error f ∧ f.toClass = .sync) ↔
        ∃ b ∈ rest, x.store.durable.hasBlock b.blockId = true) := by
  have hids' : ((ds.map Delivery.block).map (·.blockId)).Nodup := by
    rw [List.map_map]
    exact hids
  have hnums' : ((ds.map Delivery.block).map (·.blockNum)).Pairwise (· < ·) := by
    rw [List.map_map]
    exact hnums
  obtain ⟨es, hsend, hthrough⟩ := Delivery.run_throughout ds (Disk.startup_rests hstart) hids'
    fun d hd => (htext d hd).1
  -- The log is cut after the startup, so what is cut off belongs to the deliveries.
  obtain ⟨pre, rfl⟩ := hcut
  rw [hsend.log_eq, List.prefix_append_right_inj] at hrun
  have hx := hthrough pre hrun
  rw [Link.books, ← Books.takeAll_append] at hx
  refine hx.startup hids' hnums' ?_ ?_
  · intro b hb
    obtain ⟨d, hd, rfl⟩ := List.mem_map.mp hb
    exact htext d hd
  · exact Intake.contains_of_startup (s := (Disk.start .empty fault other).intake layout version)
      (congrArg Prod.fst hstart)

theorem startup_after_cut_half_written :
    let first := (Disk.start .empty
      (fun n => if n = 28 then some ⟨.connectionFailure, "connection lost"⟩ else none)
      fun _ => .null).intake statsLayout "1"
    let ds := [.whole (bareBlock "b1" 1 ""),
      .parts (bareBlock "b2" 2 "b1") [.transaction (bareTransaction "x1") none]]
    let x := Books.empty.takeAll
      ((Delivery.run ds).runFrom (Intake.startup.runFrom first).2).2.link.line.log
    let second := (Disk.start x.store.durable (fun _ => none) fun _ => .null).intake statsLayout "1"
    x.committed = ["b1"] ∧ x.store.durable.hasBlock "b2" = true ∧
      ∃ f, (Intake.startup.runFrom second).1 = .error f ∧ f.toClass = .sync := by
  intro first ds x second
  obtain ⟨hlast, hcommitted, hstored⟩ : (Intake.startup.runFrom first).1.toOption = some "" ∧
      x.committed = ["b1"] ∧ x.store.durable.hasBlock "b2" = true := by decide +kernel
  refine ⟨hcommitted, hstored, ?_⟩
  have hids : (ds.map (·.block.blockId)).Nodup := by decide +kernel
  have hnums : (ds.map (·.block.blockNum)).Pairwise (· < ·) := by decide +kernel
  have htext : ∀ d ∈ ds, d.block.blockId ≠ "" ∧
      ∀ c ∈ d.block.blockId.toList, Text.isBlank c = false := by
    have hall : ds.all (fun d => d.block.blockId != "" &&
        d.block.blockId.toList.all fun c => !Text.isBlank c) = true := by decide +kernel
    simpa using hall
  cases hstart : Intake.startup.runFrom first with
  | mk r s =>
    cases r with
    | error f =>
      rw [hstart] at hlast
      cases hlast
    | ok last =>
      obtain ⟨es, hsend, -⟩ := Delivery.run_throughout ds (Disk.startup_rests hstart)
        (by decide +kernel) fun d hd => (htext d hd).1
      have hxs : x = Books.empty.takeAll ((Delivery.run ds).runFrom s).2.link.line.log := by
        simp only [x, hstart]
      obtain ⟨done, rest, hblocks, hdone, -, hsync⟩ := startup_after_cut (fun _ => .null)
        hstart hids hnums htext ⟨es, hsend.log_eq.symm⟩ List.prefix_rfl
      rw [← hxs] at hdone hsync
      rw [hcommitted] at hdone
      refine hsync.mpr ?_
      -- One block was committed, so the other one is left.
      obtain ⟨b, rfl⟩ : ∃ b, done = [b] :=
        List.length_eq_one_iff.mp (by simpa using (congrArg List.length hdone).symm)
      have hrest : [bareBlock "b2" 2 "b1"] = rest := (List.cons.inj hblocks).2
      exact ⟨bareBlock "b2" 2 "b1", hrest ▸ List.mem_cons_self, hstored⟩

end ChainArchive
