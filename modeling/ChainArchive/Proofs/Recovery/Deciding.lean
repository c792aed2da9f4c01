import ChainArchive.Proofs.Ingest.Operations
import ChainArchive.Proofs.Ingest.Registration
import ChainArchive.Proofs.Session.Bracket
import ChainArchive.Proofs.Session.Plans

namespace ChainArchive

open ChainArchive.Ingest ChainArchive.Link ChainArchive.Program ChainArchive.Schema

inductive Outgoing where
  | request (r : Request)
  | mark (m : Mark)

def Entry.outgoing : Entry → Outgoing
  | .asked r _ => .request r
  | .marked m => .mark m

/-- What was sent, apart from registrations. -/
def outgoing (es : List Entry) : List Outgoing := (beyondRegistrations es).map Entry.outgoing

@[simp] theorem outgoing_append (es fs : List Entry) :
    outgoing (es ++ fs) = outgoing es ++ outgoing fs := by
  simp [outgoing]

theorem outgoing_of_prepares {es : List Entry}
    (h : ∀ e ∈ es, ∃ p reply, e = .asked (.prepare p) reply) : outgoing es = [] := by
  have hnone : beyondRegistrations es = [] := by
    refine List.filter_eq_nil_iff.mpr fun e he => ?_
    obtain ⟨p, reply, rfl⟩ := h e he
    simp [Entry.isRegistration]
  rw [outgoing, hnone, List.map_nil]

/-- What a startup looks at in a database. -/
structure Facts where
  prepared : Bool
  version : Option String
  checkpoint : Option String
  latest : Option String

namespace Facts

def Allows (f : Facts) : Entry → Prop
  | .asked _ (.error _) => False
  | .asked (.fetchValue sql args) (.ok v) =>
    sql = Layout.existsSql → args = [.text "stats"] → v = .bool f.prepared
  | .asked (.run p args) (.ok v) =>
    (p.name = "read_stat" → args = [.text Checkpoint.versionKey] → v = .ofText? f.version) ∧
    (p.name = "read_stat" → args = [.text Checkpoint.lastSyncKey] → v = .ofText? f.checkpoint) ∧
    (p.name = "latest_block_id" → args = [] → v = .ofText? f.latest)
  | _ => True

/-- The entries may come from a database with these facts, and none is a failure. -/
def Behind (f : Facts) (es : List Entry) : Prop := ∀ e ∈ es, f.Allows e

theorem behind_append {f : Facts} {es fs : List Entry} :
    f.Behind (es ++ fs) ↔ f.Behind es ∧ f.Behind fs :=
  List.forall_mem_append

/-- The stored version is absent or smaller than the running one. -/
def Stale (f : Facts) (running : String) : Prop := ∀ v, f.version = some v → v < running

def resumePoint (f : Facts) : String := Text.strip (f.latest.getD "")

def Unsynced (f : Facts) : Prop :=
  ∀ c, f.checkpoint = some c → Text.strip c ≠ f.resumePoint

def checkedVersion (f : Facts) (running : String) : Except Failure String :=
  match f.version with
  | none => .error .versionMissing
  | some v => if v < running then .error (.versionObsolete v running) else .ok v

def checkedSync (f : Facts) : Except Failure String :=
  match f.checkpoint with
  | none => .error .checkpointMissing
  | some c =>
    if Text.strip c = f.resumePoint then .ok f.resumePoint
    else .error (.checkpointMismatch (Text.strip c) f.resumePoint)

def decision (f : Facts) (running : String) : Except Failure String :=
  if f.prepared then do
    let _ ← f.checkedVersion running
    f.checkedSync
  else .ok ""

end Facts

structure Readers (ps : List Plan) where
  insert : Plan
  read : Plan
  latest : Plan
  insert_eq : Statement.find? ps "insert_stat" = some insert
  read_eq : Statement.find? ps "read_stat" = some read
  latest_eq : Statement.find? ps "latest_block_id" = some latest

namespace Readers

variable {ps : List Plan}

def stores (u : Readers ps) (version : String) : List Outgoing :=
  [.mark .start, .request (.run u.insert [.text Checkpoint.versionKey, .text version]),
    .request (.run u.insert [.text Checkpoint.lastSyncKey, .text ""]), .mark .commit]

/-- The version is read, then the checkpoint, then the latest block, each only if the one before
has not ended the startup. -/
def reads (u : Readers ps) (f : Facts) (running : String) : List Outgoing :=
  .request (.run u.read [.text Checkpoint.versionKey]) ::
    if (f.checkedVersion running).isOk then
      .request (.run u.read [.text Checkpoint.lastSyncKey]) ::
        if f.checkpoint.isSome then [.request (.run u.latest [])] else []
    else []

end Readers

def statsQuestion : Outgoing := .request (.fetchValue Layout.existsSql [.text "stats"])

def executions (ds : List Ddl) : List Outgoing := ds.map fun d => .request (.execute d.sql [])

/-- What a startup sends. -/
def Readers.traffic {ps : List Plan} (u : Readers ps) (f : Facts) (layout : Layout)
    (running : String) : List Outgoing :=
  statsQuestion :: executions layout.creation ++
    if f.prepared then u.reads f running else u.stores running

variable {σ : Type} [Server σ] {α β : Type}

/-- Where the answers are those of a database with these facts, the program ends so and sends this. -/
structure Settles (f : Facts) (t : Terms) (p : Program (Link σ) α) (r : Except Failure α)
    (out : List Outgoing) : Prop where
  composed : Composed (fun _ _ => True) p
  settles : ∀ l : Link σ, l.terms = t → ∀ es, Sends l es (p.runFrom l).2 → f.Behind es →
    (p.runFrom l).1 = r ∧ outgoing es = out

namespace Settles

variable {f : Facts} {t : Terms} {p : Program (Link σ) α} {q : α → Program (Link σ) β} {x : α}
  {r : Except Failure β} {e : Failure} {a b : List Outgoing}

theorem of_records {r : Except Failure α} {Q : Except Failure α → List Entry → Prop}
    (hp : Composed (fun _ _ => True) p) (h : Records t p Q)
    (hQ : ∀ r' es, Q r' es → f.Behind es → r' = r ∧ outgoing es = a) : Settles f t p r a := by
  refine ⟨hp, fun l hl es hs hb => ?_⟩
  obtain ⟨es', hs', hq⟩ := h l hl
  cases hs.entries_unique hs'
  exact hQ _ _ hq hb

theorem lift {r : Except Failure α} (hr : Ordinary r) : Settles (σ := σ) f t (.lift r) r [] :=
  of_records (Q := fun r' es => r' = r ∧ es = []) (.lift hr) (fun l _ => ⟨[], .refl l, rfl, rfl⟩)
    (by rintro _ _ ⟨rfl, rfl⟩ _; exact ⟨rfl, rfl⟩)

theorem split {l : Link σ} {es : List Entry} (hp : Composed (fun _ _ => True) p)
    (hc : ∀ y, Composed (fun _ _ => True) (q y)) (hs : Sends l es ((p >>= q).runFrom l).2) :
    (∃ e m, p.runFrom l = (.error e, m) ∧ Sends l es m) ∨
      ∃ y m fs gs, p.runFrom l = (.ok y, m) ∧ es = fs ++ gs ∧ Sends l fs m ∧
        Sends m gs ((q y).runFrom m).2 := by
  obtain ⟨fs, hfs⟩ := traced_of_composed hp l
  rw [runFrom_bind] at hs
  cases hrun : p.runFrom l with
  | mk r m =>
    rw [hrun] at hs hfs
    cases r with
    | error e => exact .inl ⟨e, m, rfl, hs⟩
    | ok y =>
      obtain ⟨gs, hgs⟩ := traced_of_composed (hc y) m
      cases hs.entries_unique (hfs.sends.trans hgs.sends)
      exact .inr ⟨y, m, fs, gs, rfl, rfl, hfs.sends, hgs.sends⟩

theorem run_eq {r : Except Failure α} {l m : Link σ} {r' : Except Failure α} {es : List Entry}
    (hp : Settles f t p r a) (hl : l.terms = t) (hrun : p.runFrom l = (r', m)) (hs : Sends l es m)
    (hb : f.Behind es) : r' = r ∧ outgoing es = a := by
  have h := hp.settles l hl es (by rw [hrun]; exact hs) hb
  rwa [hrun] at h

theorem bind (hp : Settles f t p (.ok x) a) (hc : ∀ y, Composed (fun _ _ => True) (q y))
    (hq : Settles f t (q x) r b) : Settles f t (p >>= q) r (a ++ b) := by
  refine ⟨hp.composed.bind hc, fun l hl es hs hb => ?_⟩
  obtain ⟨e, m, hrun, hs⟩ | ⟨y, m, fs, gs, hrun, rfl, hfs, hgs⟩ := split hp.composed hc hs
  · cases (hp.run_eq hl hrun hs hb).1
  · obtain ⟨hbf, hbg⟩ := Facts.behind_append.mp hb
    obtain ⟨hx, ha⟩ := hp.run_eq hl hrun hfs hbf
    cases hx
    obtain ⟨hr, hb⟩ := hq.settles m (hfs.terms_eq.trans hl) gs hgs hbg
    rw [runFrom_bind_ok hrun]
    exact ⟨hr, by rw [outgoing_append, ha, hb]⟩

theorem bind_error (hp : Settles f t p (.error e) a)
    (hc : ∀ y, Composed (fun _ _ => True) (q y)) : Settles f t (p >>= q) (.error e) a := by
  refine ⟨hp.composed.bind hc, fun l hl es hs hb => ?_⟩
  obtain ⟨e', m, hrun, hs⟩ | ⟨y, m, fs, gs, hrun, rfl, hfs, -⟩ := split hp.composed hc hs
  · obtain ⟨he, ha⟩ := hp.run_eq hl hrun hs hb
    cases he
    rw [runFrom_bind_error hrun]
    exact ⟨rfl, ha⟩
  · cases (hp.run_eq hl hrun hfs (Facts.behind_append.mp hb).1).1

end Settles

section Parts

variable {f : Facts} {t : Terms} {layout : Layout} {version : String}

theorem Facts.Behind.answered {es : List Entry} (hb : f.Behind es) {r : Request} {e : ServerError}
    (he : Entry.asked r (.error e) ∈ es) : False := by
  have h := hb _ he
  cases r <;> exact h

theorem Facts.Behind.ran {es : List Entry} (hb : f.Behind es) (hc : t.connection ≠ .released)
    {raise : ServerError → Failure} {name : String} {args : List Value} {p : Plan}
    (hp : Statement.find? t.statements name = some p) {r : Except Failure Value}
    (h : Ran t raise name args r es) :
    ∃ v, r = .ok v ∧ f.Allows (.asked (.run p args) (.ok v)) ∧
      outgoing es = [.request (.run p args)] := by
  cases h with
  | unknown hf =>
    rw [hp] at hf
    cases hf
  | cutOff h => exact absurd h hc
  | refused p' e hf => exact (hb.answered List.mem_cons_self).elim
  | failed p' es e hf hr => exact (hb.answered (List.mem_append_right _ List.mem_cons_self)).elim
  | answered p' es v hf hr =>
    rw [hp] at hf
    cases hf
    refine ⟨v, rfl, hb _ (List.mem_append_right _ List.mem_cons_self), ?_⟩
    rw [outgoing_append, outgoing, hr.beyond]
    rfl

theorem read_settles (hc : t.connection ≠ .released) {name : String} {args : List Value}
    {p : Plan} {v : Value} (hp : Statement.find? t.statements name = some p)
    (hr : Reads name args)
    (hv : ∀ w, f.Allows (.asked (.run p args) (.ok w)) → w = v) :
    Settles (σ := σ) f t (run name args) (.ok v) [.request (.run p args)] := by
  refine .of_records (.read hr) (run_records t name args) fun r es h hb => ?_
  obtain ⟨w, rfl, hw, ho⟩ := hb.ran hc hp h
  exact ⟨congrArg Except.ok (hv w hw), ho⟩

theorem tableExists_settles (hl : layout.tableNames.contains "stats" = true)
    (hc : t.connection ≠ .released) : Settles (σ := σ) f t (layout.tableExists "stats")
      (.ok (.bool f.prepared)) [statsQuestion] := by
  have hcheck : Settles (σ := σ) f t (layout.checkTable "stats") (.ok ()) [] := by
    rw [Layout.checkTable, if_pos hl]
    exact .lift (.ok ())
  refine hcheck.bind (fun _ => .fetchValue _ _) ?_
  refine .of_records (.fetchValue _ _) (passing_records t _) fun r es h hb => ?_
  obtain ⟨h, -, -⟩ | ⟨e, -, rfl⟩ | ⟨v, rfl, rfl⟩ := h
  · exact absurd h hc
  · exact (hb.answered List.mem_cons_self).elim
  · have hv : v = .bool f.prepared := hb _ List.mem_cons_self rfl rfl
    exact ⟨congrArg Except.ok hv, rfl⟩

theorem applyEach_settles (ds : List Ddl) (hc : t.connection ≠ .released) :
    Settles (σ := σ) f t (applyEach ds) (.ok ()) (executions ds) := by
  refine .of_records (.applyEach ds) (applyEach_records t ds) fun r es h hb => ?_
  induction h with
  | nil => exact ⟨rfl, rfl⟩
  | cutOff h => exact absurd h hc
  | failed e => exact (hb.answered List.mem_cons_self).elim
  | @cons d ds e r es he _ ih =>
    obtain ⟨v, rfl⟩ := he
    obtain ⟨hr, ho⟩ := ih fun e he => hb e (List.mem_cons_of_mem _ he)
    refine ⟨hr, ?_⟩
    rw [← List.singleton_append, outgoing_append, ho]
    rfl

variable (u : Readers t.statements)

theorem checkVersion_settles (version : String) (hc : t.connection ≠ .released) :
    Settles (σ := σ) f t (Checkpoint.checkVersion version) (f.checkedVersion version)
      [.request (.run u.read [.text Checkpoint.versionKey])] := by
  have hread := read_settles (σ := σ) (f := f) hc u.read_eq (.stat Checkpoint.versionKey)
    fun w hw => hw.1 (Statement.name_of_find? u.read_eq) rfl
  have hresult : Checkpoint.checkedVersion version (.ofText? f.version) =
      f.checkedVersion version := by
    unfold Facts.checkedVersion
    cases f.version <;> rfl
  rw [Checkpoint.checkVersion_eq, ← hresult]
  have hordinary := Checkpoint.ordinary_checkedVersion version
  exact hread.bind (fun v => .lift (hordinary v)) (.lift (hordinary _))

theorem checkSync_settles (hc : t.connection ≠ .released) :
    Settles (σ := σ) f t Checkpoint.checkSync f.checkedSync
      (.request (.run u.read [.text Checkpoint.lastSyncKey]) ::
        if f.checkpoint.isSome then [.request (.run u.latest [])] else []) := by
  have hread := read_settles (σ := σ) (f := f) hc u.read_eq (.stat Checkpoint.lastSyncKey)
    fun w hw => hw.2.1 (Statement.name_of_find? u.read_eq) rfl
  have hlatest := read_settles (σ := σ) (f := f) hc u.latest_eq .latest
    fun w hw => hw.2.2 (Statement.name_of_find? u.latest_eq) rfl
  have hid : Checkpoint.blockIdText (.ofText? f.latest) = .ok f.resumePoint := by
    unfold Facts.resumePoint
    cases f.latest <;> rfl
  rw [Checkpoint.checkSync_eq]
  refine hread.bind (fun checkpoint => ?_) ?_
  · split
    · exact .throw (by simp [Failure.toClass])
    · exact .compare checkpoint
  · unfold Facts.checkedSync
    cases f.checkpoint with
    | none => exact .lift (.error (by simp [Failure.toClass]))
    | some c =>
      have hordinary (latest : String) (v : Value) := Checkpoint.ordinary_comparison latest v
      refine hlatest.bind (fun v => (Composed.lift (Checkpoint.ordinary_blockIdText v)).bind
        fun latest => .lift (hordinary latest _)) ?_
      rw [hid]
      have hcompared : Settles (σ := σ) f t
          (.lift (Checkpoint.comparison f.resumePoint (.ofText? (some c)))) _ [] :=
        .lift (hordinary _ _)
      exact (Settles.lift (.ok f.resumePoint)).bind (fun latest => .lift (hordinary latest _))
        hcompared

theorem Facts.Behind.called {es : List Entry} (hb : f.Behind es) (hc : t.connection ≠ .released)
    {c : Call} {p : Plan} (hn : c.next = none) (hp : Statement.find? t.statements c.plan = some p)
    {r : Except Failure Unit} (h : Batch.Called t c r es) :
    r = .ok () ∧ outgoing es = [.request (.run p c.args)] := by
  cases h with
  | first hr =>
    obtain ⟨v, hv, -⟩ := hb.ran hc hp hr
    cases hv
  | plain _ hr =>
    obtain ⟨v, -, -, ho⟩ := hb.ran hc hp hr
    exact ⟨rfl, ho⟩
  | absent h | second h | chained h =>
    rw [hn] at h
    cases h

theorem Facts.Behind.calledEach {es : List Entry} (hb : f.Behind es)
    (hc : t.connection ≠ .released) {cs : List Call} {p : Plan}
    (hcs : ∀ c ∈ cs, c.next = none ∧ Statement.find? t.statements c.plan = some p)
    {r : Except Failure Unit} (h : InTurn t (cs.map .call) r es) :
    r = .ok () ∧ outgoing es = cs.map fun c => .request (.run p c.args) := by
  -- No entry is a failure, so every call is made.
  induction cs generalizing es with
  | nil =>
    cases h
    exact ⟨rfl, rfl⟩
  | cons c cs ih =>
    obtain ⟨⟨hn, hp⟩, hcs⟩ := List.forall_mem_cons.mp hcs
    cases h with
    | stop hs =>
      cases hs with
      | call hcall => cases (hb.called hc hn hp hcall).1
    | cons hs h =>
      obtain ⟨hbc, hbs⟩ := Facts.behind_append.mp hb
      cases hs with
      | call hcall =>
        obtain ⟨hr, ho⟩ := ih hbs hcs h
        refine ⟨hr, ?_⟩
        rw [outgoing_append, (hbc.called hc hn hp hcall).2, ho, List.map_cons, List.singleton_append]

theorem store_settles (version : String) (hc : t.connection ≠ .released) :
    Settles (σ := σ) f t (Checkpoint.store version) (.ok ()) (u.stores version) := by
  let b : Batch := [⟨"insert_stat", [.text Checkpoint.versionKey, .text version], none⟩,
    ⟨"insert_stat", [.text Checkpoint.lastSyncKey, .text ""], none⟩]
  have hrecords : Records (σ := σ) t (Checkpoint.store version) (Written t (bracketSteps b)) := by
    refine (Batch.commit_records t b (List.cons_ne_nil _ _)).bind
      (S := fun _ r fs => r = .ok () ∧ fs = []) (fun _ => .pure ⟨rfl, rfl⟩) (fun e es h => h) ?_
    rintro x es r fs h ⟨rfl, rfl⟩
    rw [List.append_nil]
    exact h
  refine .of_records (.store vocabulary_any version) hrecords fun r es h hb => ?_
  obtain ⟨fs, hcalls, rfl⟩ := h.calls hc
  have hbf : f.Behind fs := fun e he => hb e (by simp [he])
  have hplans : ∀ c ∈ b, c.next = none ∧ Statement.find? t.statements c.plan = some u.insert := by
    simp [b, u.insert_eq]
  obtain ⟨rfl, ho⟩ := hbf.calledEach hc hplans hcalls
  have hmarks : outgoing (.marked .start :: fs ++ [.marked .commit]) =
      .mark .start :: outgoing fs ++ [.mark .commit] := by
    rw [List.cons_append, ← List.singleton_append, outgoing_append, outgoing_append]
    rfl
  exact ⟨rfl, by rw [endingMark, hmarks, ho]; rfl⟩

theorem planEach_fails (t : Terms) (names : List String) :
    Records (σ := σ) t (planEach names) fun r es =>
      (∀ e ∈ es, ∃ q reply, e = .asked (.prepare q) reply) ∧
      (r = .ok () ∨ t.connection = .released ∨
        (∃ n ∈ names, Statement.find? t.statements n = none) ∨ ∃ q e, .asked q (.error e) ∈ es) := by
  induction names with
  | nil => exact .pure ⟨List.forall_mem_nil _, .inl rfl⟩
  | cons name names ih =>
    refine (plan_records t name).bind (fun _ => ih) ?_ ?_
    · intro e es h
      refine ⟨h.prepares, .inr ?_⟩
      cases h with
      | unknown h => exact .inr (.inl ⟨name, List.mem_cons_self, h⟩)
      | cutOff h => exact .inl h
      | refused p e h => exact .inr (.inr ⟨.prepare p, e, List.mem_cons_self⟩)
    · rintro p es r fs h ⟨hprepares, hr⟩
      refine ⟨List.forall_mem_append.mpr ⟨h.prepares, hprepares⟩, ?_⟩
      obtain rfl | hr | ⟨n, hn, hf⟩ | ⟨q, e, hm⟩ := hr
      · exact .inl rfl
      · exact .inr (.inl hr)
      · exact .inr (.inr (.inl ⟨n, List.mem_cons_of_mem _ hn, hf⟩))
      · exact .inr (.inr (.inr ⟨q, e, List.mem_append_right _ hm⟩))

theorem planAll_settles (hc : t.connection ≠ .released) :
    Settles (σ := σ) f t planAll (.ok ()) [] := by
  have hrecords : Records (σ := σ) t planAll fun r es =>
      (∀ e ∈ es, ∃ q reply, e = .asked (.prepare q) reply) ∧
      (r = .ok () ∨ ∃ q e, .asked q (.error e) ∈ es) := by
    intro l hl
    obtain ⟨es, hs, hprepares, hr⟩ := planEach_fails t (l.session.statements.map (·.name)) l hl
    refine ⟨es, hs, hprepares, ?_⟩
    obtain hr | hr | ⟨n, hn, hf⟩ | hr := hr
    · exact .inl hr
    · exact absurd hr hc
    · obtain ⟨p, hp, rfl⟩ := List.mem_map.mp hn
      obtain ⟨q, hq⟩ := Statement.exists_find?_of_mem hp
      rw [← hl, terms, hq] at hf
      cases hf
    · exact .inr hr
  refine .of_records .planAll hrecords fun r es ⟨hprepares, hr⟩ hb => ?_
  obtain rfl | ⟨q, e, hm⟩ := hr
  · exact ⟨rfl, outgoing_of_prepares hprepares⟩
  · exact (hb.answered hm).elim

theorem checks_settle (version : String) (hc : t.connection ≠ .released)
    {q : String → Program (Link σ) String} (hq : ∀ last, Settles f t (q last) (.ok last) []) :
    Settles (σ := σ) f t (do
      let _ ← Checkpoint.checkVersion version
      let last ← Checkpoint.checkSync
      q last) (do
      let _ ← f.checkedVersion version
      f.checkedSync) (u.reads f version) := by
  have hversion := checkVersion_settles (σ := σ) (f := f) u version hc
  have hsync := checkSync_settles (σ := σ) (f := f) u hc
  have hcomposed : Composed (σ := σ) (fun _ _ => True) (Checkpoint.checkSync >>= q) :=
    .bind .checkSync fun last => (hq last).composed
  unfold Readers.reads
  cases hv : f.checkedVersion version with
  | error e =>
    rw [hv] at hversion
    exact hversion.bind_error fun _ => hcomposed
  | ok v =>
    rw [hv] at hversion
    cases hs : f.checkedSync with
    | error e =>
      rw [hs] at hsync
      exact hversion.bind (fun _ => hcomposed) (hsync.bind_error fun last => (hq last).composed)
    | ok last =>
      rw [hs] at hsync
      have hlast := hsync.bind (fun last => (hq last).composed) (hq last)
      rw [List.append_nil] at hlast
      exact hversion.bind (fun _ => hcomposed) hlast

theorem prepare_settles (version : String) (hl : layout.tableNames.contains "stats" = true)
    (hc : t.connection ≠ .released) : Settles (σ := σ) f t (Checkpoint.prepare layout version)
      (f.decision version) (u.traffic f layout version) := by
  have hfinish (last : String) : Settles (σ := σ) f t (do
      planAll
      return last) (.ok last) [] :=
    (planAll_settles hc).bind (fun _ => .pure last) (.lift (.ok last))
  have hcreate : Settles (σ := σ) f t layout.create (.ok ()) (executions layout.creation) :=
    applyEach_settles layout.creation hc
  have hchecks := checks_settle (σ := σ) u version hc hfinish
  have hstores := (store_settles (σ := σ) (f := f) u version hc).bind
    (fun _ => (hfinish "").composed) (hfinish "")
  rw [List.append_nil] at hstores
  have hold := hcreate.bind (fun _ => hchecks.composed) hchecks
  have hnew := hcreate.bind (fun _ => hstores.composed) hstores
  refine (tableExists_settles hl hc).bind (fun found => ?_) ?_
  · cases found.isTruthy with
    | true => exact hold.composed
    | false => exact hnew.composed
  · unfold Facts.decision
    cases f.prepared with
    | true => exact hold
    | false => exact hnew

end Parts

namespace Facts

variable {f : Facts} {running : String}

theorem checkedVersion_cases (f : Facts) (running : String) :
    (f.Stale running ∧ ∃ e, f.checkedVersion running = .error e ∧ e.toClass = .version) ∨
      (¬ f.Stale running ∧ ∃ v, f.checkedVersion running = .ok v) := by
  unfold Stale checkedVersion
  cases f.version with
  | none => exact .inl ⟨nofun, _, rfl, rfl⟩
  | some v =>
    by_cases hv : v < running
    · refine .inl ⟨by rintro _ ⟨⟩; exact hv, .versionObsolete v running, ?_, rfl⟩
      simp only [hv, ↓reduceIte]
    · refine .inr ⟨fun h => hv (h v rfl), v, ?_⟩
      simp only [hv, ↓reduceIte]

theorem checkedSync_cases (f : Facts) :
    (f.Unsynced ∧ ∃ e, f.checkedSync = .error e ∧ e.toClass = .sync) ∨
      (¬ f.Unsynced ∧ f.checkedSync = .ok f.resumePoint) := by
  unfold Unsynced checkedSync
  cases f.checkpoint with
  | none => exact .inl ⟨nofun, _, rfl, rfl⟩
  | some c =>
    by_cases hc : Text.strip c = f.resumePoint
    · refine .inr ⟨fun h => h c rfl hc, ?_⟩
      simp only [hc, ↓reduceIte]
    · refine .inl ⟨by rintro _ ⟨⟩; exact hc,
        .checkpointMismatch (Text.strip c) f.resumePoint, ?_, rfl⟩
      simp only [hc, ↓reduceIte]

/-- A database that was prepared is refused for its version, else for its checkpoint, or not at
all. -/
theorem decision_cases (running : String) (hp : f.prepared = true) :
    (f.Stale running ∧ ∃ e, f.decision running = .error e ∧ e.toClass = .version) ∨
    (¬ f.Stale running ∧ f.Unsynced ∧ ∃ e, f.decision running = .error e ∧ e.toClass = .sync) ∨
    (¬ f.Stale running ∧ ¬ f.Unsynced ∧ f.decision running = .ok f.resumePoint) := by
  rw [decision, if_pos hp]
  obtain ⟨hs, e, hv, he⟩ | ⟨hs, v, hv⟩ := f.checkedVersion_cases running
  · rw [hv]
    exact .inl ⟨hs, e, rfl, he⟩
  · rw [hv]
    obtain ⟨hu, e, hc, he⟩ | ⟨hu, hc⟩ := f.checkedSync_cases
    · exact .inr (.inl ⟨hs, hu, e, hc, he⟩)
    · exact .inr (.inr ⟨hs, hu, hc⟩)

theorem decision_iff (hp : f.prepared = true) :
    ((∃ e, f.decision running = .error e ∧ e.toClass = .version) ↔ f.Stale running) ∧
    ((∃ e, f.decision running = .error e ∧ e.toClass = .sync) ↔
      ¬ f.Stale running ∧ f.Unsynced) ∧
    (¬ f.Stale running → ¬ f.Unsynced → f.decision running = .ok f.resumePoint) := by
  obtain ⟨hs, e, he, hclass⟩ | ⟨hs, hu, e, he, hclass⟩ | ⟨hs, hu, he⟩ :=
    decision_cases running hp
  · simp [he, hs, hclass]
  · simp [he, hs, hu, hclass]
  · simp [he, hs, hu]

def reply (f : Facts) : Request → Value
  | .fetchValue _ _ => .bool f.prepared
  | .run p [] => if p.name = "latest_block_id" then .ofText? f.latest else .null
  | .run _ [.plain (.text key)] =>
    if key = Checkpoint.versionKey then .ofText? f.version
    else if key = Checkpoint.lastSyncKey then .ofText? f.checkpoint
    else .null
  | _ => .null

instance : Server Facts where
  answer f r := (.ok (f.reply r), f)
  notice f _ := f

theorem allows_reply (f : Facts) (r : Request) : f.Allows (.asked r (.ok (f.reply r))) := by
  cases r with
  | fetchValue sql args => exact fun _ _ => rfl
  | run p args =>
    have hkeys : Checkpoint.lastSyncKey ≠ Checkpoint.versionKey := by decide
    refine ⟨?_, ?_, ?_⟩
    · rintro _ rfl
      simp [reply, Value.text]
    · rintro _ rfl
      simp [reply, Value.text, hkeys]
    · rintro hname rfl
      simp [reply, hname]
  | connect | execute | fetchRow | fetchAll | prepare | copy => trivial

/-- Whatever is sent to such a database, the answers are as its facts say. -/
theorem behind_of_sends {l m : Link Facts} {es : List Entry} (h : Sends l es m) :
    m.line.server = l.line.server ∧ l.line.server.Behind es := by
  induction h with
  | refl => exact ⟨rfl, List.forall_mem_nil _⟩
  | @ask m es r _ _ ih =>
    refine ⟨ih.1, behind_append.mpr ⟨ih.2, List.forall_mem_singleton.mpr ?_⟩⟩
    rw [← ih.1]
    exact m.line.server.allows_reply r
  | mark k _ _ ih =>
    exact ⟨ih.1, behind_append.mpr ⟨ih.2, List.forall_mem_singleton.mpr trivial⟩⟩
  | register name _ ih => exact ih

end Facts

namespace Ingest.Intake

/-- A startup on a database that was not prepared stores the version and an empty checkpoint in one
transaction, after the statements on the layout, and resumes from the start. On one that was, it only
reads: it is refused for the version exactly if that is absent or smaller than the running one, else
for the checkpoint exactly if that is absent or differs from the latest block, and resumes from that
block otherwise. A startup that succeeds has registered just the statements that were left to be, and
the pipeline is started and not halted; one that fails, for whatever reason, leaves both as they
were. -/
theorem startup_decides (s : Intake σ) :
    let r := (startup.runFrom s).1
    let s' := (startup.runFrom s).2
    (∀ e, r = .error e → s'.pipeline.halted = s.pipeline.halted ∧
      s'.pipeline.started = s.pipeline.started) ∧
    ∃ es, s'.link.line.log = s.link.line.log ++ es ∧
      (∀ (f : Facts) (u : Readers s.link.session.statements), f.Behind es →
        s.pipeline.layout.tableNames.contains "stats" = true →
        s.link.session.connection ≠ .released →
        outgoing es = u.traffic f s.pipeline.layout s.pipeline.version ∧
        (f.prepared = false → r = .ok "") ∧
        (f.prepared = true →
          ((∃ e, r = .error e ∧ e.toClass = .version) ↔ f.Stale s.pipeline.version) ∧
          ((∃ e, r = .error e ∧ e.toClass = .sync) ↔
            ¬ f.Stale s.pipeline.version ∧ f.Unsynced) ∧
          (¬ f.Stale s.pipeline.version → ¬ f.Unsynced → r = .ok f.resumePoint))) ∧
      ∀ last, r = .ok last →
        s'.pipeline =
          { s.pipeline with lastSync := some last, halted := none, started := true } ∧
        s'.link.session.registered = s.link.session.registered ++ registrations es ∧
        (registrations es).Nodup ∧
        ∀ name, name ∈ registrations es ↔
          name ∉ s.link.session.registered ∧ ∃ p ∈ s.link.session.statements, p.name = name := by
  intro r s'
  have hquiet := startup_quietly s
  obtain ⟨hresult, hlink⟩ := startup_runFrom s
  have hcomposed := Composed.prepare (σ := σ) vocabulary_any s.pipeline.layout s.pipeline.version
  obtain ⟨es, htraced⟩ := traced_of_composed hcomposed s.link
  rw [← hlink] at htraced
  obtain ⟨-, -, -, hrestarts⟩ := hquiet
  -- In turn: a startup that fails, the decision, and one that succeeds.
  refine ⟨fun e he => ?_, es, htraced.sends.log_eq, fun f u hb hl hc => ?_, fun last hlast => ?_⟩
  · rw [show (startup.runFrom s).1 = .error e from he] at hrestarts
    obtain hsame | ⟨last, hsame⟩ := hrestarts
    · simp only [s', hsame, and_self]
    · simp only [s', hsame, and_self]
  · have hsettles := prepare_settles (σ := σ) (t := s.link.terms) (f := f) u
      s.pipeline.version hl hc
    obtain ⟨hdecision, hout⟩ := hsettles.settles s.link rfl es (hlink ▸ htraced.sends) hb
    have hr : r = f.decision s.pipeline.version := hresult.trans hdecision
    rw [hr]
    refine ⟨hout, fun hp => ?_, Facts.decision_iff⟩
    rw [Facts.decision, hp]
    rfl
  · rw [show (startup.runFrom s).1 = .ok last from hlast] at hrestarts
    have hall : s'.link.AllRegistered :=
      allRegistered_of_startup s trivial (congrArg Except.isOk hlast)
    exact ⟨hrestarts, htraced.registered_eq, htraced.inOrder.nodup.1,
      htraced.mem_registrations_iff hall⟩

theorem startup_decides_moved_checkpoint :
    let f : Facts := ⟨true, some "2", some " b1\n", some "b2"⟩
    let s : Intake Facts :=
      ⟨.ofLayout statsLayout "1", .ofStatements Statement.standard, ⟨f, []⟩⟩
    ∃ e, (startup.runFrom s).1 = .error e ∧ e.toClass = .sync ∧
      (startup.runFrom s).2.pipeline.started = false := by
  intro f s
  obtain ⟨hkept, es, hlog, hdecides, -⟩ := startup_decides s
  have hbehind : f.Behind es := by
    obtain ⟨fs, hsends, -⟩ := startup_quietly s
    have hes : es = fs := List.append_cancel_left (hlog.symm.trans hsends.log_eq)
    exact hes ▸ (Facts.behind_of_sends hsends).2
  have u : Readers s.link.session.statements := ⟨_, _, _, rfl, rfl, rfl⟩
  have hfresh : ¬ f.Stale "1" := fun h => absurd (h "2" rfl) (by decide)
  have hmoved : f.Unsynced := by
    rintro _ ⟨⟩
    decide +kernel
  obtain ⟨-, -, hold⟩ := hdecides f u hbehind (by decide) (by decide)
  obtain ⟨e, he, hclass⟩ := (hold rfl).2.1.mpr ⟨hfresh, hmoved⟩
  exact ⟨e, he, hclass, (hkept e he).2⟩

end Ingest.Intake

end ChainArchive
