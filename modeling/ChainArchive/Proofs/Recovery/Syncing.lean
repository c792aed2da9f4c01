import ChainArchive.Proofs.Recovery.Cut
import ChainArchive.Proofs.Session.Outcome

namespace ChainArchive

open ChainArchive.Copy ChainArchive.Ingest ChainArchive.Link ChainArchive.Program
  ChainArchive.Schema

def Request.Sparing : Request → Prop
  | .run p _ => mildPlan p.name
  | _ => True

def Call.Sparing (c : Call) : Prop :=
  mildPlan c.plan ∧ ∀ next, c.next = some next → mildPlan next.plan

namespace Holdings

theorem stats_apply {h : Holdings} {r : Request} (hr : r.Sparing) :
    (h.apply r).stats = h.stats := by
  cases r with
  | execute sql args | copy table columns data =>
    simp only [apply]
    split <;> rfl
  | run p args =>
    obtain ⟨hi, hu⟩ := hr
    simp only [apply]
    split
    · rw [if_neg hi, if_neg hu]
    · rfl
  | connect | fetchValue | fetchRow | fetchAll | prepare => rfl

def sync? (h : Holdings) : Option String := h.stat? Checkpoint.lastSyncKey

theorem sync?_apply {h : Holdings} {r : Request} (hr : r.Sparing) :
    (h.apply r).sync? = h.sync? := by
  rw [sync?, sync?, stat?, stat?, stats_apply hr]

theorem sync?_moved {p : Plan} (h : Holdings) (hp : p.name = "update_stat") (last : String) :
    (h.apply (.run p [.text Checkpoint.lastSyncKey, .text last])).sync? =
      h.sync?.map fun _ => last := by
  have hargs : statArgs? [.text Checkpoint.lastSyncKey, .text last] =
      some (Checkpoint.lastSyncKey, last) := rfl
  have hinsert : ¬ "update_stat" = "insert_stat" := by decide
  simp only [apply, hargs, hp, hinsert, ↓reduceIte]
  rw [sync?, stat?, lookup_replaced, if_pos rfl]
  rfl

theorem sync?_inserted {p : Plan} (h : Holdings) (hp : p.name = "insert_stat")
    (key value : String) :
    (h.apply (.run p [.text key, .text value])).sync? =
      h.sync?.or (if key = Checkpoint.lastSyncKey then some value else none) := by
  have hargs : statArgs? [.text key, .text value] = some (key, value) := rfl
  simp only [apply, hargs, hp, ↓reduceIte]
  rw [sync?, stat?, List.lookup_append]
  by_cases hk : key = Checkpoint.lastSyncKey
  · simp [hk, sync?, stat?]
  · have hne : (Checkpoint.lastSyncKey == key) = false := by simpa using Ne.symm hk
    simp [hk, hne, sync?, stat?, List.lookup_cons]

end Holdings

/-- The checkpoint `v` is stored, and the open transaction, if there is one, would leave `w`. -/
structure Store.Shows (v : Option String) (w : Option (Option String)) (s : Store) : Prop where
  durable_eq : s.durable.sync? = v
  bracket_eq : s.bracket.map Holdings.sync? = w

namespace Store.Shows

variable {v v' : Option String} {w : Option (Option String)} {s : Store} {r : Request}

theorem take_sparing (h : s.Shows v w) (hr : r.Sparing) (reply : Reply) :
    (s.take (.asked r reply)).Shows v w := by
  cases reply with
  | error e => exact h
  | ok x =>
    cases hb : s.bracket with
    | none =>
      simp only [take, hb]
      exact ⟨(Holdings.sync?_apply hr).trans h.durable_eq, h.bracket_eq ▸ hb ▸ rfl⟩
    | some b =>
      simp only [take, hb]
      refine ⟨h.durable_eq, ?_⟩
      rw [← h.bracket_eq, hb, Option.map_some, Option.map_some, Holdings.sync?_apply hr]

theorem take_within {b : Holdings} (h : s.Shows v w) (hb : s.bracket = some b) (x : Value) :
    (s.take (.asked r (.ok x))).Shows v (some (b.apply r).sync?) := by
  simp only [take, hb]
  exact ⟨h.durable_eq, rfl⟩

theorem take_start (h : s.Shows v w) : (s.take (.marked .start)).Shows v (some v) :=
  ⟨h.durable_eq, congrArg some h.durable_eq⟩

theorem take_commit (h : s.Shows v (some v')) : (s.take (.marked .commit)).Shows v' none := by
  obtain ⟨b, hb, hv⟩ := Option.map_eq_some_iff.mp h.bracket_eq
  refine ⟨?_, rfl⟩
  simp only [take, view, hb]
  exact hv

theorem take_rollback (h : s.Shows v w) : (s.take (.marked .rollback)).Shows v none :=
  ⟨h.durable_eq, rfl⟩

end Store.Shows

namespace Disk

/-- A server answers from its store, or fails. -/
theorem reply_cases (d : Disk) (r : Request) :
    (∃ e, d.reply r = .error e) ∨ ∃ o, d.reply r = d.store.view.reply o r := by
  unfold reply
  split
  · next e h => exact .inl ⟨e, rfl⟩
  · exact .inr ⟨_, rfl⟩

/-- A session of the write path on a disk that shows these checkpoints. -/
structure Syncs (v : Option String) (w : Option (Option String)) (l : Link Disk) : Prop where
  standard : Standard l.terms
  shows : l.line.server.store.Shows v w

variable {v v' : Option String} {w : Option (Option String)} {α β : Type}

theorem ask_standard {l : Link Disk} (h : Standard l.terms) (r : Request) : ∃ m,
    (ask r).runFrom l = (.ok (l.line.server.reply r), m) ∧ m.terms = l.terms ∧
      m.line.server.store = l.line.server.store.take (.asked r (l.line.server.reply r)) := by
  have hc : l.session.connection ≠ .released := h.connected
  refine ⟨{ l with line := (l.line.ask r).2 }, ?_, rfl, rfl⟩
  simp only [ask, Program.runFrom_of]
  rfl

theorem ask_maintains {r : Request} (hr : r.Sparing) :
    Maintains (Syncs v w) (ask r) := by
  intro l h
  obtain ⟨m, hm, ht, hs⟩ := ask_standard h.standard r
  rw [hm]
  refine ⟨ht.symm ▸ h.standard, ?_⟩
  rw [hs]
  exact h.shows.take_sparing hr _

theorem passing_standard {l : Link Disk} (h : Standard l.terms) (r : Request) : ∃ res m,
    (passing r).runFrom l = (res, m) ∧ Standard m.terms ∧
      ((∃ e, res = .error e ∧ m.line.server.store = l.line.server.store) ∨
        ∃ o x, res = .ok x ∧ l.line.server.store.view.reply o r = .ok x ∧
          m.line.server.store = l.line.server.store.take (.asked r (.ok x))) := by
  obtain ⟨m, hm, ht, hs⟩ := ask_standard h r
  have hstandard : Standard m.terms := ht.symm ▸ h
  rw [passing, Program.runFrom_bind, hm]
  cases hreply : l.line.server.reply r with
  | error e =>
    rw [hreply] at hs
    exact ⟨_, m, rfl, hstandard, .inl ⟨_, rfl, hs⟩⟩
  | ok x =>
    rw [hreply] at hs
    obtain ⟨e, he⟩ | ⟨o, ho⟩ := l.line.server.reply_cases r
    · cases hreply.symm.trans he
    · exact ⟨_, m, rfl, hstandard, .inr ⟨o, x, rfl, ho.symm.trans hreply, hs⟩⟩

theorem passing_maintains {r : Request} (hr : r.Sparing) :
    Maintains (Syncs v w) (passing r) := by
  intro l h
  obtain ⟨res, m, hrun, ht, ⟨e, -, hs⟩ | ⟨o, x, -, -, hs⟩⟩ := passing_standard h.standard r
  · rw [hrun]
    exact ⟨ht, hs.symm ▸ h.shows⟩
  · rw [hrun]
    exact ⟨ht, hs.symm ▸ h.shows.take_sparing hr (.ok x)⟩

theorem plan_ends (name : String) : Ends (Syncs v w) (plan name) fun r l =>
    Syncs v w l ∧ ∀ p, r = .ok p → p.name = name := by
  intro l h
  simp only [plan, Program.runFrom_bind, Program.runFrom_get]
  cases hp : Statement.find? l.session.statements name with
  | none => exact ⟨h, fun _ hr => by cases hr⟩
  | some p =>
    have hname : p.name = name := Statement.name_of_find? hp
    by_cases hr : l.session.isRegistered name
    · simp only [hr, ↓reduceIte]
      refine ⟨h, ?_⟩
      rintro _ ⟨⟩
      exact hname
    · have hask := ask_maintains (r := .prepare p) trivial l h
      simp only [hr, Bool.false_eq_true, ↓reduceIte, Program.runFrom_bind]
      cases ha : (ask (.prepare p)).runFrom l with
      | mk reply m =>
        rw [ha] at hask
        obtain e | e | x := reply
        · exact ⟨hask, fun _ hr => by cases hr⟩
        · exact ⟨hask, fun _ hr => by cases hr⟩
        · refine ⟨⟨hask.standard, hask.shows⟩, ?_⟩
          rintro _ ⟨⟩
          exact hname

theorem run_maintains {name : String} (hn : mildPlan name) (args : List Value) :
    Maintains (Syncs v w) (run name args) := by
  refine (plan_ends name).bind (R := fun _ => Syncs v w) ?_ fun _ _ h => h.1
  intro p l h
  have hp : mildPlan p.name := h.2 p rfl ▸ hn
  exact passing_maintains (r := .run p args) hp l h.1

theorem planAll_maintains : Maintains (Syncs v w) planAll := by
  have heach : ∀ names, Maintains (Syncs v w) (planEach names) := by
    intro names
    induction names with
    | nil => exact .pure ()
    | cons name names ih =>
      have hplan : Maintains (Syncs v w) (plan name) :=
        (plan_ends name).mono (fun _ h => h) fun _ _ h => h.1
      exact hplan.bind fun _ => ih
  exact fun l h => heach _ l h

theorem create_maintains (layout : Layout) : Maintains (Syncs v w) layout.create := by
  unfold Layout.create
  induction layout.creation with
  | nil => exact .pure ()
  | cons d ds ih =>
    refine Maintains.bind ?_ fun _ => ih
    apply (ask_maintains (r := .execute d.sql []) trivial).bind
    intro reply
    cases reply with
    | ok x => exact .pure ()
    | error e => exact .throw _

theorem checkTable_maintains (layout : Layout) (table : String) :
    Maintains (Syncs v w) (layout.checkTable table) := by
  unfold Layout.checkTable
  split
  · exact .pure ()
  · exact .throw _

theorem tableExists_maintains (layout : Layout) (table : String) :
    Maintains (Syncs v w) (layout.tableExists table) :=
  (checkTable_maintains layout table).bind fun _ => passing_maintains trivial

theorem tableIsEmpty_maintains (layout : Layout) (table : String) :
    Maintains (Syncs v w) (layout.tableIsEmpty table) := by
  apply (checkTable_maintains layout table).bind
  intro _
  exact (passing_maintains (r := .fetchRow _ _) trivial).bind fun _ => .pure _

theorem blockExists_maintains (blockId : String) :
    Maintains (Syncs v w) (Checkpoint.blockExists blockId) :=
  (run_maintains ⟨by decide, by decide⟩ _).bind fun _ => .pure _

theorem checkVersion_maintains (version : String) :
    Maintains (Syncs v w) (Checkpoint.checkVersion version) := by
  apply (run_maintains ⟨by decide, by decide⟩ _).bind
  intro x
  split
  · exact .throw _
  · split
    · exact .throw _
    · exact .pure _
  · exact .throw _

theorem transfer_maintains (b : RowBuffer) : Maintains (Syncs v w) b.commit := by
  have heach : ∀ us, Maintains (Syncs v w) (b.transferEach us) := by
    intro us
    induction us with
    | nil => exact .pure ()
    | cons u us ih =>
      unfold RowBuffer.transferEach
      split
      · refine Maintains.bind ?_ fun _ => ih
        apply (ask_maintains (r := .copy u.name u.columns (b.payload u)) trivial).bind
        intro reply
        cases reply with
        | ok x => exact .pure ()
        | error e => exact .throw _
      · exact ih
  exact (heach _).bind fun _ => .pure _

theorem invoke_maintains {plan : String} (hn : mildPlan plan) (args : List Value) :
    Maintains (Syncs v w) (Batch.invoke plan args) :=
  (run_maintains hn args).mapFailure _ fun _ _ h => h

theorem runCall_maintains {c : Call} (hc : c.Sparing) :
    Maintains (Syncs v w) (Batch.runCall c) := by
  apply (invoke_maintains hc.1 c.args).bind
  intro x
  cases hn : c.next with
  | none => exact .pure ()
  | some next =>
    have hnext : Maintains (Syncs v w) (do
        let _ ← Batch.invoke next.plan (x :: next.args)) :=
      (invoke_maintains (hc.2 next hn) _).bind fun _ => .pure ()
    dsimp only
    split
    · exact (Maintains.throw _).bind fun _ => hnext
    · exact hnext

/-- From the stored checkpoint `v` the program leads to `v'` if it succeeds, and back to `v` if it
fails. -/
def Moves (v v' : Option String) (p : Program (Link Disk) α) : Prop :=
  Ends (Syncs v none) p fun r => Syncs (if r.isOk then v' else v) none

/-- In a transaction that would leave `w`, the program makes it leave `w'` if it succeeds. -/
def MovesWithin (v w w' : Option String) (p : Program (Link Disk) α) : Prop :=
  Ends (Syncs v (some w)) p fun r l =>
    ∃ u, Syncs v (some u) l ∧ (r.isOk = true → u = w')

theorem MovesWithin.of_maintains {v w : Option String} {p : Program (Link Disk) α}
    (h : Maintains (Syncs v (some w)) p) : MovesWithin v w w p :=
  fun l hl => ⟨w, h l hl, fun _ => rfl⟩

theorem MovesWithin.bind {v w w' w'' : Option String} {p : Program (Link Disk) α}
    {f : α → Program (Link Disk) β} (hp : MovesWithin v w w' p)
    (hf : ∀ x, MovesWithin v w' w'' (f x)) : MovesWithin v w w'' (p >>= f) := by
  refine Ends.bind hp ?_ ?_
  · rintro x l ⟨u, hl, hu⟩
    obtain rfl := hu rfl
    exact hf x l hl
  · rintro e l ⟨u, hl, -⟩
    exact ⟨u, hl, fun hr => by cases hr⟩

theorem MovesWithin.inTransaction {v w : Option String} {p : Program (Link Disk) α}
    (hp : MovesWithin v v w p) : Moves v w (inTransaction p) := by
  intro l h
  have hc : l.session.connection ≠ .released := h.standard.connected
  have hstart : Syncs v (some v) (l.mark .start) := ⟨h.standard, h.shows.take_start⟩
  obtain ⟨u, hu, hok⟩ := hp _ hstart
  simp only [Link.inTransaction, Program.runFrom_of]
  cases hr : p.runFrom (l.mark .start) with
  | mk r m =>
    rw [hr] at hu hok
    cases r with
    | ok x =>
      obtain rfl := hok rfl
      exact ⟨hu.standard, hu.shows.take_commit⟩
    | error e => exact ⟨hu.standard, hu.shows.take_rollback⟩

theorem Moves.commit {v w : Option String} {b : Batch} (hb : b ≠ [])
    (h : MovesWithin v v w (Batch.runCalls b)) : Moves v w (Batch.commit b) := by
  have he : b.isEmpty = false := by simpa using hb
  unfold Batch.commit
  simp only [he, Bool.false_eq_true, ↓reduceIte]
  refine Ends.bind h.inTransaction (fun _ => ?_) fun _ _ h => h
  exact fun _ h => h

theorem runCalls_within {v w w' : Option String} {cs ds : List Call}
    (hcs : ∀ c ∈ cs, c.Sparing) (hds : MovesWithin v w w' (Batch.runCalls ds)) :
    MovesWithin v w w' (Batch.runCalls (cs ++ ds)) := by
  induction cs with
  | nil => exact hds
  | cons c cs ih =>
    obtain ⟨hc, hcs⟩ := List.forall_mem_cons.mp hcs
    exact (MovesWithin.of_maintains (runCall_maintains hc)).bind fun _ => ih hcs

theorem commit_maintains {v : Option String} {b : Batch} (hb : ∀ c ∈ b, c.Sparing) :
    Maintains (Syncs v none) (Batch.commit b) := by
  by_cases he : b = []
  · subst he
    exact .pure []
  · have hnone : MovesWithin v v v (Batch.runCalls []) := .of_maintains (.pure ())
    have hcalls := runCalls_within hb hnone
    rw [List.append_nil] at hcalls
    refine (Moves.commit he hcalls).mono (fun _ h => h) fun r l h => ?_
    rwa [ite_self] at h

theorem runCall_within {v w w' : Option String} {plan : String} {args : List Value}
    (h : ∀ (b : Holdings) (p : Plan) o x, b.sync? = w → p.name = plan →
      b.reply o (.run p args) = .ok x → (b.apply (.run p args)).sync? = w') :
    MovesWithin v w w' (Batch.runCall ⟨plan, args, none⟩) := by
  have hpassing : ∀ p : Plan, p.name = plan → MovesWithin v w w' (passing (.run p args)) := by
    intro p hp l hl
    obtain ⟨b, hb, hw⟩ := Option.map_eq_some_iff.mp hl.shows.bracket_eq
    have hview : l.line.server.store.view = b := by
      rw [Store.view, hb]
      rfl
    obtain ⟨res, m, hm, ht, ⟨e, rfl, hs⟩ | ⟨o, x, rfl, hreply, hs⟩⟩ :=
      passing_standard hl.standard (.run p args)
    · rw [hm]
      exact ⟨w, ⟨ht, hs.symm ▸ hl.shows⟩, fun hr => by cases hr⟩
    · rw [hm]
      refine ⟨_, ⟨ht, hs.symm ▸ hl.shows.take_within hb x⟩, fun _ => ?_⟩
      exact h b p o x hw hp (hview ▸ hreply)
  have hrun : MovesWithin v w w' (run plan args) := by
    refine Ends.bind (plan_ends plan) (fun p l hl => hpassing p (hl.2 p rfl) l hl.1) ?_
    rintro e l ⟨hl, -⟩
    exact ⟨w, hl, fun hr => by cases hr⟩
  have hinvoke : MovesWithin v w w' (Batch.invoke plan args) := by
    refine hrun.mapFailure _ ?_
    rintro e l ⟨u, hu, -⟩
    exact ⟨u, hu, fun hr => by cases hr⟩
  exact hinvoke.bind fun _ => .of_maintains (.pure ())

/-- A commit of calls of a block moves the stored checkpoint, if there is one. -/
theorem commit_moves {v : Option String} {cs : List Call} (hcs : ∀ c ∈ cs, c.Sparing)
    (last : String) : Moves v (v.map fun _ => last) (Batch.commit
      (cs ++ [⟨"update_stat", [.text Checkpoint.lastSyncKey, .text last], none⟩])) := by
  apply Moves.commit (by simp)
  apply runCalls_within hcs
  have hmove : MovesWithin v v (v.map fun _ => last)
      (Batch.runCall ⟨"update_stat", [.text Checkpoint.lastSyncKey, .text last], none⟩) := by
    apply runCall_within
    intro b p o x hb hp _
    rw [b.sync?_moved hp, hb]
  exact hmove.bind fun _ => .of_maintains (.pure ())

theorem store_moves (v : Option String) (version : String) :
    Moves v (some "") (Checkpoint.store version) := by
  have hversion : MovesWithin v v v
      (Batch.runCall ⟨"insert_stat", [.text Checkpoint.versionKey, .text version], none⟩) := by
    apply runCall_within
    intro b p o x hb hp _
    have hkey : ¬ Checkpoint.versionKey = Checkpoint.lastSyncKey := by decide
    rw [b.sync?_inserted hp, if_neg hkey, hb, Option.or_none]
  have hsync : MovesWithin v v (some "")
      (Batch.runCall ⟨"insert_stat", [.text Checkpoint.lastSyncKey, .text ""], none⟩) := by
    apply runCall_within
    intro b p o x hb hp hx
    -- A second text under the key is refused.
    have hnone : b.sync? = none := by
      cases hs : b.sync? with
      | none => rfl
      | some s =>
        have hargs : statArgs? [.text Checkpoint.lastSyncKey, .text ""] =
            some (Checkpoint.lastSyncKey, "") := rfl
        have hstored : b.stat? Checkpoint.lastSyncKey = some s := hs
        simp [Holdings.reply, hp, hargs, hstored] at hx
    rw [b.sync?_inserted hp, hnone, if_pos rfl]
    rfl
  have hcommit : Moves v (some "") (Batch.commit (Checkpoint.addStat (Checkpoint.addStat []
      Checkpoint.versionKey version) Checkpoint.lastSyncKey "")) := by
    apply Moves.commit (by simp [Checkpoint.addStat, Batch.add])
    exact hversion.bind fun _ => hsync.bind fun _ => .of_maintains (.pure ())
  exact Ends.bind hcommit (fun _ _ h => h) fun _ _ h => h

theorem readStat_ends : Ends (Syncs v none) (Checkpoint.readStat Checkpoint.lastSyncKey)
    fun r l => Syncs v none l ∧ ∀ x, r = .ok x → x = .ofText? v := by
  refine (plan_ends _).bind (fun p l h => ?_) fun e l h => ⟨h.1, fun _ hr => by cases hr⟩
  obtain ⟨hl, hp⟩ := h
  have hname : p.name = "read_stat" := hp p rfl
  have hmild : mildPlan p.name := by
    rw [hname]
    exact ⟨by decide, by decide⟩
  refine ⟨passing_maintains (r := .run p _) hmild l hl, ?_⟩
  obtain ⟨res, m, hm, -, ⟨e, rfl, -⟩ | ⟨o, x, rfl, hreply, -⟩⟩ :=
    passing_standard hl.standard (.run p [.text Checkpoint.lastSyncKey])
  · rw [hm]
    exact fun _ hr => by cases hr
  · have hview : l.line.server.store.view.stat? Checkpoint.lastSyncKey = v := by
      have hb : l.line.server.store.bracket = none := Option.map_eq_none_iff.mp hl.shows.bracket_eq
      rw [Store.view, hb]
      exact hl.shows.durable_eq
    rw [hm]
    rintro _ ⟨⟩
    simp only [Holdings.reply, hname, ↓reduceIte] at hreply
    exact (Except.ok.inj hreply).symm.trans (congrArg Value.ofText? hview)

theorem checkSync_ends : Ends (Syncs v none) Checkpoint.checkSync fun r l =>
    Syncs v none l ∧ ∀ last, r = .ok last → ∃ s, v = some s ∧ last = Text.strip s := by
  refine readStat_ends.bind (fun x l h => ?_) fun e l h => ⟨h.1, fun _ hr => by cases hr⟩
  obtain ⟨hl, hx⟩ := h
  obtain rfl := hx x rfl
  cases v with
  | none => exact ⟨hl, fun _ hr => by cases hr⟩
  | some s =>
    have hread : Maintains (Syncs (some s) none) Checkpoint.latestBlockId :=
      run_maintains ⟨by decide, by decide⟩ _
    have hcompare : Ends (Syncs (some s) none) (do
          let latest ← Program.lift (Checkpoint.blockIdText (← Checkpoint.latestBlockId))
          if Text.strip s = latest then return latest
            else throw (.checkpointMismatch (Text.strip s) latest))
        fun r l => Syncs (some s) none l ∧ ∀ last, r = .ok last → last = Text.strip s := by
      refine Ends.bind hread (fun latest => ?_) fun e l h => ⟨h, fun _ hr => by cases hr⟩
      refine Ends.bind (Maintains.lift _) (fun last l hl => ?_)
        fun e l h => ⟨h, fun _ hr => by cases hr⟩
      by_cases heq : Text.strip s = last
      · rw [if_pos heq]
        refine ⟨hl, ?_⟩
        rintro _ ⟨⟩
        exact heq.symm
      · rw [if_neg heq]
        exact ⟨hl, fun _ hr => by cases hr⟩
    obtain ⟨hm, hlast⟩ := hcompare l hl
    exact ⟨hm, fun last h => ⟨s, rfl, hlast last h⟩⟩

end Disk

end ChainArchive
