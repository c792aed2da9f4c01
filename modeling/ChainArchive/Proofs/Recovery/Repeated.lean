import ChainArchive.Proofs.Recovery.Restart

namespace ChainArchive

open ChainArchive.Ingest ChainArchive.Link ChainArchive.Program ChainArchive.Schema

def Entry.isAsked : Entry → Bool
  | .asked _ _ => true
  | .marked _ => false

variable {t : Terms} {r : Except Failure Unit} {es : List Entry}

theorem Link.Registered.isAsked {p : Plan} (h : Registered t p es) :
    es.all Entry.isAsked = true := by
  cases h <;> rfl

theorem Link.Ran.isAsked {raise : ServerError → Failure} {plan : String} {args : List Value}
    {r : Except Failure Value} (h : Ran t raise plan args r es) :
    es.all Entry.isAsked = true := by
  cases h with
  | unknown | cutOff | refused => rfl
  | failed _ _ _ _ h | answered _ _ _ _ h =>
    rw [List.all_append, h.isAsked]
    rfl

theorem Batch.Called.isAsked {c : Call} (h : Called t c r es) : es.all Entry.isAsked = true := by
  cases h with
  | first h | plain _ h | absent _ _ h => exact h.isAsked
  | second _ _ h h' | chained _ _ h h' => rw [List.all_append, h.isAsked, h'.isAsked]; rfl

namespace Store

theorem takeAll_rollback {h w : Holdings} (hes : es.all Entry.isAsked = true) :
    (⟨h, some w⟩ : Store).takeAll (es ++ [.marked .rollback]) = ⟨h, none⟩ := by
  induction es generalizing w with
  | nil => rfl
  | cons e es ih =>
    rw [List.all_cons, Bool.and_eq_true] at hes
    cases e with
    | marked => cases hes.1
    | asked q reply =>
      cases reply with
      | error => exact ih hes.2
      | ok => exact ih hes.2

theorem takeAll_applied {ds : List Ddl} (h : Holdings) (ha : Applied t ds r es) :
    ∃ done, done <+: ds ∧ (⟨h, none⟩ : Store).takeAll es = ⟨Disk.applyDdl h done, none⟩ := by
  induction ha generalizing h with
  | nil => exact ⟨[], List.prefix_rfl, rfl⟩
  | cutOff | failed => exact ⟨[], List.nil_prefix, rfl⟩
  | @cons d ds e r es he _ ih =>
    obtain ⟨v, rfl⟩ := he
    obtain ⟨done, hdone, htake⟩ := ih (h.apply (.execute d.sql []))
    exact ⟨d :: done, List.prefix_cons_inj d |>.mpr hdone, htake⟩

end Store

theorem Batch.commit_failed (t : Terms) (b : Batch) (h : Holdings) :
    Records (σ := Disk) t (Batch.commit b) fun r es =>
      r.isOk = false → (⟨h, none⟩ : Store).takeAll es = ⟨h, none⟩ := by
  unfold Batch.commit
  split
  · exact .pure nofun
  · refine (inTransaction_records (runCalls_records t b)).bind
      (S := fun _ r fs => r.isOk = true) (fun _ => .pure rfl) ?_ ?_
    · rintro f es (⟨-, -, rfl⟩ | ⟨fs, x, hx, -, -⟩ | ⟨fs, f', -, hq, rfl⟩) -
      · rfl
      · cases hx
      · refine Store.takeAll_rollback (h := h) (w := h) (hq.all_entries fun s hs r es hsent => ?_)
        obtain ⟨c, -, rfl⟩ := List.mem_map.mp hs
        cases hsent with
        | call hsent => exact hsent.isAsked
    · intro _ _ r _ _ hr hf
      cases hf.symm.trans hr

/-- What a startup that failed can have left of holdings without stored texts: objects that it
created, or all of them with version and checkpoint. -/
inductive Holdings.Begun (layout : Layout) (version : String) (h : Holdings) : Holdings → Prop
  | created {done : List Ddl} : done <+: layout.creation →
      Begun layout version h (Disk.applyDdl h done)
  | prepared : Begun layout version h (h.prepared layout version)

def Holdings.latestId (h : Holdings) : String := ((h.latest?.map (·.1)).map Text.strip).getD ""

theorem Holdings.latestId_applyDdl (h : Holdings) (ds : List Ddl) :
    (Disk.applyDdl h ds).latestId = h.latestId := by
  obtain ⟨names, hn, -⟩ := applyDdl_eq h ds
  rw [hn]
  rfl

namespace Disk

variable {α β : Type} {layout : Layout} {version : String} {h : Holdings} {s s₁ s₂ : Store}
  {F : Store → Prop}

/-- From a disk with store `s` the program ends with `x` and leaves the store `s₁`, or it fails and
leaves a store as `F` says. -/
def Tries (t : Terms) (s : Store) (p : Program (Link Disk) α) (x : α) (s₁ : Store)
    (F : Store → Prop) : Prop :=
  Ends (fun l => l.terms = t ∧ l.line.server.store = s) p fun r l => l.terms = t ∧
    (r = .ok x ∧ l.line.server.store = s₁ ∨ r.isOk = false ∧ F l.line.server.store)

namespace Tries

variable {p : Program (Link Disk) α} {f : α → Program (Link Disk) β} {x : α} {y : β}

theorem of_yields (hy : ∀ fault, Yields t fault s p (.ok x) s₁)
    (hr : Records t p fun r es => r.isOk = false → F (s.takeAll es)) : Tries t s p x s₁ F := by
  rintro l ⟨ht, rfl⟩
  obtain ⟨ht', -, hyields⟩ := hy _ l ht rfl rfl
  obtain ⟨es, hsend, hfailed⟩ := hr l ht
  refine ⟨ht', hyields.imp_right ?_⟩
  rintro ⟨-, hok⟩
  rw [hsend.store_eq.1]
  exact ⟨hok, hfailed hok⟩

theorem bind (hp : Tries t s p x s₁ F) (hf : Tries t s₁ (f x) y s₂ F) :
    Tries t s (p >>= f) y s₂ F := by
  refine Ends.bind hp (fun x' l h => ?_) fun e l h => ?_
  · obtain ⟨ht, ⟨hx, hs⟩ | ⟨hok, -⟩⟩ := h
    · cases hx
      exact hf l ⟨ht, hs⟩
    · cases hok
  · obtain ⟨ht, ⟨hx, -⟩ | ⟨hok, hs⟩⟩ := h
    · cases hx
    · exact ⟨ht, .inr ⟨rfl, hs⟩⟩

theorem mono {F' : Store → Prop} (h : Tries t s p x s₁ F) (hF : ∀ u, F u → F' u) :
    Tries t s p x s₁ F' :=
  Ends.mono h (fun _ h => h) fun _ _ h => ⟨h.1, h.2.imp_right fun h => ⟨h.1, hF _ h.2⟩⟩

theorem pure (x : α) : Tries t s (Pure.pure x) x s F := fun _ h => ⟨h.1, .inl ⟨rfl, h.2⟩⟩

end Tries

theorem takeAll_prepares {es : List Entry}
    (h : ∀ e ∈ es, ∃ q reply, e = .asked (.prepare q) reply) (w : Holdings) :
    (⟨w, none⟩ : Store).takeAll es = ⟨w, none⟩ := by
  induction es with
  | nil => rfl
  | cons e es ih =>
    obtain ⟨⟨q, reply, rfl⟩, hes⟩ := List.forall_mem_cons.mp h
    cases reply <;> exact ih hes

theorem planAll_tries (ht : Standard t) (h : Holdings) :
    Tries t ⟨h, none⟩ planAll () ⟨h, none⟩ (· = ⟨h, none⟩) :=
  .of_yields (fun _ => planAll_yields ht.connected)
    ((planAll_records t).mono fun _ _ hes _ => takeAll_prepares hes h)

theorem tableExists_tries (ht : Standard t) (hl : layout.tableNames.contains "stats" = true)
    (h : Holdings) : Tries t ⟨h, none⟩ (layout.tableExists "stats")
      (.bool (h.tables.contains "stats")) ⟨h, none⟩ (· = ⟨h, none⟩) := by
  refine .of_yields (fun fault => tableExists_yields fault h ht hl) ?_
  have hcheck : (layout.checkTable "stats" : Program (Link Disk) Unit) = Pure.pure () := by
    rw [Layout.checkTable, if_pos hl]
  rw [Layout.tableExists, hcheck, pure_bind]
  refine (passing_records t _).mono ?_
  rintro r es (⟨-, -, rfl⟩ | ⟨e, -, rfl⟩ | ⟨v, rfl, rfl⟩) hr
  · rfl
  · rfl
  · cases hr

theorem create_tries (ht : Standard t) (layout : Layout) (h : Holdings) :
    Tries t ⟨h, none⟩ layout.create () ⟨applyDdl h layout.creation, none⟩ fun s =>
      ∃ done, done <+: layout.creation ∧ s = ⟨applyDdl h done, none⟩ :=
  .of_yields (fun _ => create_yields layout h ht.connected)
    ((applyEach_records t layout.creation).mono fun _ _ ha _ => Store.takeAll_applied h ha)

theorem store_tries (ht : Standard t) (version : String) (hs : h.stats = []) :
    Tries t ⟨h, none⟩ (Checkpoint.store version) ()
      ⟨{ h with stats := [(Checkpoint.versionKey, version), (Checkpoint.lastSyncKey, "")] }, none⟩
      (· = ⟨h, none⟩) := by
  refine .of_yields (fun _ => store_yields ht hs) ?_
  refine (Batch.commit_failed t _ h).bind (S := fun _ r _ => r.isOk = true)
    (fun _ => .pure rfl) (fun _ _ hq => hq) fun _ _ r _ _ hr hf => ?_
  cases hf.symm.trans hr

theorem prepare_tries (version : String) (ht : Standard t)
    (hl : layout.tableNames.contains "stats" = true)
    (hnew : h.tables.contains "stats" = false) (hs : h.stats = []) :
    Tries t ⟨h, none⟩ (Checkpoint.prepare layout version) "" ⟨h.prepared layout version, none⟩
      fun s => ∃ d, s = ⟨d, none⟩ ∧ h.Begun layout version d := by
  have hexists := tableExists_tries ht hl h
  rw [hnew] at hexists
  refine (hexists.mono ?_).bind (((create_tries ht layout h).mono ?_).bind
    (((store_tries ht version ((h.stats_applyDdl _).trans hs)).mono ?_).bind
      ((Tries.pure "").bind (((planAll_tries ht _).mono ?_).bind (.pure "")))))
  · rintro _ rfl
    exact ⟨_, rfl, .created List.nil_prefix⟩
  · rintro _ ⟨done, hdone, rfl⟩
    exact ⟨_, rfl, .created hdone⟩
  · rintro _ rfl
    exact ⟨_, rfl, .created List.prefix_rfl⟩
  · rintro _ rfl
    exact ⟨_, rfl, .prepared⟩

variable {fault : Nat → Option ServerError}

theorem prepare_versionless_yields (version : String) (ht : Standard t)
    (hl : layout.tableNames.contains "stats" = true) (htable : h.tables.contains "stats" = true)
    (hs : h.stats = []) : ∃ u, Yields t fault ⟨h, none⟩ (Checkpoint.prepare layout version)
      (.error .versionMissing) u := by
  have hexists := tableExists_yields fault h ht hl
  rw [htable] at hexists
  have hread : Yields t fault ⟨applyDdl h layout.creation, none⟩
      (Checkpoint.readStat Checkpoint.versionKey) (.ok .null)
      ⟨applyDdl h layout.creation, none⟩ := by
    have hnone : (applyDdl h layout.creation).stat? Checkpoint.versionKey = none := by
      rw [Holdings.stat?, h.stats_applyDdl, hs]
      rfl
    have hread : Yields t fault _ (Checkpoint.readStat Checkpoint.versionKey) _ _ :=
      readStat_yields (h := applyDdl h layout.creation) ht Checkpoint.versionKey
    rwa [hnone] at hread
  have hversion : Yields t fault ⟨applyDdl h layout.creation, none⟩
      (Checkpoint.checkVersion version) (.error .versionMissing)
      ⟨applyDdl h layout.creation, none⟩ := hread.bind (.throw _)
  exact ⟨_, hexists.bind ((create_yields layout h ht.connected).bind hversion.bind_error)⟩

theorem checkSync_empty_yields (ht : Standard t) (hs : h.stat? Checkpoint.lastSyncKey = some "") :
    Yields t fault ⟨h, none⟩ Checkpoint.checkSync
      (if h.latestId = "" then .ok "" else .error (.checkpointMismatch "" h.latestId))
      ⟨h, none⟩ := by
  have htext : Checkpoint.blockIdText (.ofText? (h.latest?.map (·.1))) = .ok h.latestId := by
    unfold Holdings.latestId
    cases h.latest?.map (·.1) <;> rfl
  refine (readStat_yields ht _).bind ?_
  rw [hs]
  refine (latestBlockId_yields ht).bind ?_
  rw [htext]
  refine (Yields.lift (.ok h.latestId)).bind ?_
  have hstrip : Text.strip "" = "" := rfl
  simp only [Value.ofText?, Value.text, hstrip, eq_comm (a := "")]
  split
  · rename_i he
    rw [he]
    exact .pure _
  · exact .throw _

/-- A startup on a database that was prepared resumes from the start unless a block is stored. -/
theorem prepare_prepared_yields (h : Holdings) (version : String) (ht : Standard t)
    (hl : layout.tableNames.contains "stats" = true) : let d := h.prepared layout version
    ∃ u, Yields t fault ⟨d, none⟩ (Checkpoint.prepare layout version)
      (if d.latestId = "" then .ok "" else .error (.checkpointMismatch "" d.latestId)) u := by
  intro d
  have htable : d.tables.contains "stats" = true := h.contains_applyDdl hl
  have hstat : ∀ key, (applyDdl d layout.creation).stat? key = d.stat? key := by
    intro key
    rw [Holdings.stat?, d.stats_applyDdl, Holdings.stat?]
  have hexists := tableExists_yields fault d ht hl
  rw [htable] at hexists
  have hversion : Yields t fault ⟨applyDdl d layout.creation, none⟩
      (Checkpoint.checkVersion version) (.ok version) ⟨applyDdl d layout.creation, none⟩ :=
    checkVersion_yields ht ((hstat _).trans (h.version_prepared layout version))
  have hsync : Yields t fault ⟨applyDdl d layout.creation, none⟩ Checkpoint.checkSync _
      ⟨applyDdl d layout.creation, none⟩ :=
    checkSync_empty_yields ht ((hstat _).trans (h.sync_prepared layout version))
  rw [d.latestId_applyDdl] at hsync
  refine ⟨⟨applyDdl d layout.creation, none⟩, hexists.bind ?_⟩
  refine (create_yields layout d ht.connected).bind (hversion.bind ?_)
  by_cases he : d.latestId = ""
  · rw [if_pos he] at hsync ⊢
    exact hsync.bind ((planAll_yields ht.connected).bind (.pure _))
  · rw [if_neg he] at hsync ⊢
    exact hsync.bind_error

end Disk

namespace Ingest.Intake

variable {layout : Layout} {version : String} {h d : Holdings} {s s' : Intake Disk} {f : Failure}

structure On (s : Intake Disk) (layout : Layout) (version : String) (h : Holdings) : Prop where
  layout_eq : s.pipeline.layout = layout
  version_eq : s.pipeline.version = version
  standard : Disk.Standard s.link.terms
  store_eq : s.link.line.server.store = ⟨h, none⟩

theorem on_intake (h : Holdings) (fault : Nat → Option ServerError) (other : Nat → Value)
    (layout : Layout) (version : String) :
    ((Disk.start h fault other).intake layout version).On layout version h :=
  ⟨rfl, rfl, Disk.intake_standard _ layout version, rfl⟩

theorem On.startup_eq {x : Except Failure String} {u : Store} (hs : s.On layout version h)
    (hfault : ∀ n, s.link.line.server.fault n = none)
    (hy : Disk.Yields s.link.terms s.link.line.server.fault ⟨h, none⟩
      (Checkpoint.prepare layout version) x u) : (startup.runFrom s).1 = x := by
  rw [← hs.layout_eq, ← hs.version_eq, ← hs.store_eq] at hy
  obtain ⟨hx, -⟩ | ⟨⟨n, hn⟩, -⟩ := startup_of_yields hy
  · exact hx
  · exact absurd (hfault n) hn

theorem On.startup_begun (hs : s.On layout version h)
    (hl : layout.tableNames.contains "stats" = true) (hnew : h.tables.contains "stats" = false)
    (hstats : h.stats = []) (hfail : (startup.runFrom s).1 = .error f) :
    ∃ d, (startup.runFrom s).2.link.line.server.store = ⟨d, none⟩ ∧ h.Begun layout version d := by
  obtain ⟨hr, hlink⟩ := startup_runFrom s
  rw [hs.layout_eq, hs.version_eq] at hr hlink
  rw [hlink]
  obtain ⟨-, ⟨hok, -⟩ | ⟨-, hd⟩⟩ :=
    Disk.prepare_tries version hs.standard hl hnew hstats s.link ⟨rfl, hs.store_eq⟩
  · cases hfail.symm.trans (hr.trans hok)
  · exact hd

/-- A startup fails on a database without stored texts. A second one on what it left, where nothing
fails, succeeds exactly if the table of stored texts was not created, or they were stored and no
block is; if the table was left empty, the second one finds no version. -/
theorem startup_repeated (hl : layout.tableNames.contains "stats" = true)
    (hnew : h.tables.contains "stats" = false) (hstats : h.stats = []) (hs : s.On layout version h)
    (hfail : (startup.runFrom s).1 = .error f)
    (hd : (startup.runFrom s).2.link.line.server.store.durable = d)
    (hs' : s'.On layout version d) (hfault : ∀ n, s'.link.line.server.fault n = none) :
    h.Begun layout version d ∧
      ((startup.runFrom s').1 = .ok "" ↔
        d.tables.contains "stats" = false ∨ d.stats ≠ [] ∧ d.latestId = "") ∧
      (d.tables.contains "stats" = true → d.stats = [] →
        (startup.runFrom s').1 = .error .versionMissing) := by
  obtain ⟨d', hstore, hbegun⟩ := hs.startup_begun hl hnew hstats hfail
  obtain rfl : d' = d := by rw [← hd, hstore]
  refine ⟨hbegun, ?_⟩
  -- The first startup stopped among the statements of the layout, or after them.
  cases hbegun with
  | @created done =>
    have hnone : (Disk.applyDdl h done).stats = [] := (h.stats_applyDdl done).trans hstats
    cases htable : (Disk.applyDdl h done).tables.contains "stats" with
    | false =>
      have hr := hs'.startup_eq hfault
        (Disk.prepare_absent_yields _ version hs'.standard hl htable hnone)
      exact ⟨by simp [hr], nofun⟩
    | true =>
      obtain ⟨u, hy⟩ := Disk.prepare_versionless_yields version hs'.standard hl htable hnone
      have hr := hs'.startup_eq hfault hy
      exact ⟨by simp [hr, hnone], fun _ _ => hr⟩
  | prepared =>
    obtain ⟨u, hy⟩ := Disk.prepare_prepared_yields h version hs'.standard hl
    have hr := hs'.startup_eq hfault hy
    have htable : (h.prepared layout version).tables.contains "stats" = true :=
      h.contains_applyDdl hl
    have hsome : (h.prepared layout version).stats ≠ [] := by simp [Holdings.prepared]
    refine ⟨?_, fun _ hnone => absurd hnone hsome⟩
    rw [hr]
    split <;> simp_all

theorem startup_repeated_after_registration :
    let first := (Disk.start .empty
      (fun n => if n = 5 then some ⟨.syntaxOrAccess, "permission denied"⟩ else none)
      fun _ => .null).intake statsLayout "1"
    let d := (startup.runFrom first).2.link.line.server.store.durable
    let second := (Disk.start d (fun _ => none) fun _ => .null).intake statsLayout "1"
    (startup.runFrom first).1.isOk = false ∧ (startup.runFrom second).1 = .ok "" := by
  intro first d second
  have hclass : failureClass? (startup.runFrom first).1 = some .preparation := by decide +kernel
  have hstored : d.stats ≠ [] ∧ d.latestId = "" := by decide +kernel
  have hfirst : first.On statsLayout "1" .empty := on_intake ..
  have hsecond : second.On statsLayout "1" d := on_intake ..
  clear_value first
  obtain ⟨f, hf, -⟩ := exists_of_failureClass? hclass
  refine ⟨congrArg Except.isOk hf, ?_⟩
  have hrepeated := startup_repeated (by decide) rfl rfl hfirst hf rfl hsecond fun _ => rfl
  exact hrepeated.2.1.mpr (.inr hstored)

/-- The table of stored texts is created and the next statement fails; the second startup takes the
empty table for that of a database without a version. -/
theorem not_repeated_after_failed_ddl :
    let layout : Layout := ⟨"1", [⟨"stats", [], [], []⟩, ⟨"blocks", [], [], []⟩]⟩
    let first := (Disk.start .empty
      (fun n => if n = 2 then some ⟨.syntaxOrAccess, "permission denied"⟩ else none)
      fun _ => .null).intake layout "1"
    let d := (startup.runFrom first).2.link.line.server.store.durable
    let second := (Disk.start d (fun _ => none) fun _ => .null).intake layout "1"
    failureClass? (startup.runFrom first).1 = some .schema ∧
      failureClass? (startup.runFrom second).1 = some .version := by
  decide +kernel

end Ingest.Intake

end ChainArchive
