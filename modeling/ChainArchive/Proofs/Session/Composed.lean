import ChainArchive.Checkpoint
import ChainArchive.Copy.Transfer
import ChainArchive.Proofs.Session.Outcome
import ChainArchive.Schema.Apply

namespace ChainArchive

open ChainArchive.Copy ChainArchive.Link ChainArchive.Program ChainArchive.Schema

namespace Checkpoint

def checkedVersion (version : String) : Value → Except Failure String
  | .plain .null => .error .versionMissing
  | .plain (.text stored) =>
    if stored < version then .error (.versionObsolete stored version) else .ok stored
  | _ => .error .storedVersion

def comparison (latest : String) : Value → Except Failure String
  | .plain (.text s) =>
    if Text.strip s = latest then .ok latest
    else .error (.checkpointMismatch (Text.strip s) latest)
  | _ => .error .storedValue

theorem ordinary_checkedVersion (version : String) (v : Value) :
    Ordinary (checkedVersion version v) := by
  unfold checkedVersion
  split
  · exact .error (by simp [Failure.toClass])
  · split
    · exact .error (by simp [Failure.toClass])
    · exact .ok _
  · exact .error (by simp [Failure.toClass])

theorem ordinary_comparison (latest : String) (v : Value) : Ordinary (comparison latest v) := by
  unfold comparison
  split
  · split
    · exact .ok _
    · exact .error (by simp [Failure.toClass])
  · exact .error (by simp [Failure.toClass])

theorem ordinary_blockIdText (v : Value) : Ordinary (blockIdText v) := by
  unfold blockIdText
  split
  · exact .ok _
  · split
    · exact .error (by simp [Failure.toClass])
    · exact .ok _

variable {σ : Type} [Server σ]

theorem checkVersion_eq (version : String) : checkVersion (σ := σ) version =
    readStat versionKey >>= fun v => .lift (checkedVersion version v) := by
  unfold checkVersion
  congr 1
  funext v
  split
  · rfl
  · next stored => by_cases h : stored < version <;> simp only [checkedVersion, h, ↓reduceIte] <;> rfl
  · next hnull htext =>
    rw [checkedVersion.eq_3 version v hnull htext]
    rfl

theorem checkSync_eq : checkSync (σ := σ) =
    readStat lastSyncKey >>= fun checkpoint =>
      if checkpoint.isNull then throw .checkpointMissing
      else latestBlockId >>= fun v => .lift (blockIdText v) >>= fun latest =>
        .lift (comparison latest checkpoint) := by
  unfold checkSync
  congr 1
  funext checkpoint
  extract_lets compare
  have hcompare : compare () = latestBlockId >>= fun v => .lift (blockIdText v) >>= fun latest =>
      .lift (comparison latest checkpoint) := by
    refine bind_congr fun v => bind_congr fun latest => ?_
    split
    · next s =>
      by_cases h : Text.strip s = latest <;> simp only [comparison, h, ↓reduceIte] <;> rfl
    · next htext =>
      rw [comparison.eq_2 latest checkpoint htext]
      rfl
  split
  · rfl
  · exact hcompare

end Checkpoint

inductive Reads : String → List Value → Prop
  | stat (key : String) : Reads "read_stat" [.text key]
  | latest : Reads "latest_block_id" []
  | block (blockId : String) : Reads "block_exists" [.text blockId]

/-- A call whose statements are run with parameters as `writes` says, the second one with any
result that the first one returns. -/
def Call.Within (writes : String → List Value → Prop) (c : Call) : Prop :=
  writes c.plan c.args ∧
    ∀ next, c.next = some next → ∀ v : Value, v.isNull = false → writes next.plan (v :: next.args)

theorem Call.within_any (c : Call) : c.Within fun _ _ => True :=
  ⟨trivial, fun _ _ _ _ => trivial⟩

variable {σ : Type} [Server σ] {α β : Type} {writes : String → List Value → Prop}

/-- Programs put together from requests, as everything is that a pipeline sends. Statements that
change what is stored are run as `writes` says. A step without a request may fail, but not as a
registration does. -/
inductive Composed (writes : String → List Value → Prop) :
    {α : Type} → Program (Link σ) α → Prop
  | lift {α : Type} {r : Except Failure α} : Ordinary r → Composed writes (Program.lift r)
  | bind {α β : Type} {p : Program (Link σ) α} {f : α → Program (Link σ) β} :
      Composed writes p → (∀ x, Composed writes (f x)) → Composed writes (p >>= f)
  | inTransaction {α : Type} {p : Program (Link σ) α} : Composed writes p →
      Composed writes (inTransaction p)
  | fetchValue (sql : String) (args : List Value) : Composed writes (passing (.fetchValue sql args))
  | fetchRow (sql : String) (args : List Value) : Composed writes (passing (.fetchRow sql args))
  | apply (d : Ddl) : Composed writes d.apply
  | planAll : Composed writes planAll
  | read {name : String} {args : List Value} : Reads name args → Composed writes (run name args)
  | write {name : String} {args : List Value} : writes name args →
      Composed writes (Batch.invoke name args)
  | copy (table : String) (columns : List String) (data : List Char) :
      Composed writes (copyInto table columns data)

namespace Composed

theorem pure (x : α) : Composed writes (Pure.pure x : Program (Link σ) α) :=
  lift (.ok x)

theorem throw {f : Failure} (hf : f.toClass ≠ .preparation) :
    Composed writes (MonadExcept.throw f : Program (Link σ) α) :=
  lift (.error hf)

theorem applyEach (ds : List Ddl) : Composed (σ := σ) writes (applyEach ds) := by
  induction ds with
  | nil => exact pure _
  | cons d ds ih => exact (apply d).bind fun _ => ih

theorem create (l : Layout) : Composed (σ := σ) writes l.create := applyEach l.creation

theorem checkTable (l : Layout) (table : String) :
    Composed (σ := σ) writes (l.checkTable table) := by
  unfold Layout.checkTable
  split
  · exact pure _
  · exact throw (by simp [Failure.toClass])

theorem tableExists (l : Layout) (table : String) :
    Composed (σ := σ) writes (l.tableExists table) :=
  (checkTable l table).bind fun _ => fetchValue _ _

theorem tableIsEmpty (l : Layout) (table : String) :
    Composed (σ := σ) writes (l.tableIsEmpty table) :=
  (checkTable l table).bind fun _ => (fetchRow _ _).bind fun _ => pure _

theorem blockExists (blockId : String) :
    Composed (σ := σ) writes (Checkpoint.blockExists blockId) :=
  (read (.block blockId)).bind fun _ => pure _

theorem checkVersion (version : String) :
    Composed (σ := σ) writes (Checkpoint.checkVersion version) := by
  rw [Checkpoint.checkVersion_eq]
  exact (read (.stat _)).bind fun v => lift (Checkpoint.ordinary_checkedVersion version v)

/-- The latest block is read and compared with a checkpoint. -/
theorem compare (checkpoint : Value) : Composed (σ := σ) writes
    (Checkpoint.latestBlockId >>= fun v => .lift (Checkpoint.blockIdText v) >>= fun latest =>
      .lift (Checkpoint.comparison latest checkpoint)) :=
  (read .latest).bind fun v => (lift (Checkpoint.ordinary_blockIdText v)).bind fun latest =>
    lift (Checkpoint.ordinary_comparison latest checkpoint)

theorem checkSync : Composed (σ := σ) writes Checkpoint.checkSync := by
  rw [Checkpoint.checkSync_eq]
  refine (read (.stat _)).bind fun checkpoint => ?_
  split
  · exact throw (by simp [Failure.toClass])
  · exact compare checkpoint

theorem runCall {c : Call} (hc : c.Within writes) : Composed (σ := σ) writes (Batch.runCall c) := by
  refine (write hc.1).bind fun v => ?_
  cases hn : c.next with
  | none => exact pure _
  | some next =>
    cases hv : v.isNull with
    | true => exact throw (f := .noResult c.plan) (by simp [Failure.toClass])
    | false => exact (write (hc.2 next hn v hv)).bind fun _ => pure _

theorem runCalls {cs : List Call} (h : ∀ c ∈ cs, c.Within writes) :
    Composed (σ := σ) writes (Batch.runCalls cs) := by
  induction cs with
  | nil => exact pure _
  | cons c cs ih =>
    exact (runCall (h c List.mem_cons_self)).bind fun _ =>
      ih fun c hc => h c (List.mem_cons_of_mem _ hc)

theorem commit {b : Batch} (h : ∀ c ∈ b, c.Within writes) :
    Composed (σ := σ) writes (Batch.commit b) := by
  unfold Batch.commit
  split
  · exact pure _
  · exact (inTransaction (runCalls h)).bind fun _ => pure _

theorem transfer (b : RowBuffer) : Composed (σ := σ) writes b.commit := by
  have heach : ∀ ts, Composed (σ := σ) writes (b.transferEach ts) := by
    intro ts
    induction ts with
    | nil => exact pure _
    | cons t ts ih =>
      unfold RowBuffer.transferEach
      split
      · exact (copy _ _ _).bind fun _ => ih
      · exact ih
  exact (heach _).bind fun _ => pure _

theorem maintains_of_uses {P : Link σ → Prop} {p : Program (Link σ) α} (h : Composed writes p)
    (hask : ∀ r, (∀ q, r ≠ .prepare q) → (∀ q args, r ≠ .run q args) → Maintains P (ask r))
    (hplan : ∀ name, Maintains P (plan name))
    (hrun : ∀ name args, Maintains P (run name args))
    (htransaction : ∀ {γ : Type} {q : Program (Link σ) γ}, Maintains P q →
      Maintains P (Link.inTransaction q)) : Maintains P p := by
  have hpassing : ∀ r, (∀ q, r ≠ .prepare q) → (∀ q args, r ≠ .run q args) →
      Maintains P (passing r) := by
    intro r hp hr
    refine (hask r hp hr).bind fun reply => ?_
    cases reply with
    | ok v => exact .pure v
    | error e => exact .throw _
  -- Besides registrations and runs a program has requests that do not concern the session.
  induction h with
  | lift => exact .lift _
  | bind _ _ ihp ihf => exact ihp.bind ihf
  | inTransaction _ ih => exact htransaction ih
  | fetchValue | fetchRow =>
    exact hpassing _ (fun _ h => by cases h) fun _ _ h => by cases h
  | apply d =>
    refine (hask _ (fun _ h => by cases h) fun _ _ h => by cases h).bind fun reply => ?_
    cases reply with
    | ok v => exact .pure _
    | error e => exact .throw _
  | planAll =>
    refine .get_bind fun l => ?_
    induction l.session.statements.map (·.name) with
    | nil => exact .pure _
    | cons name names ih => exact (hplan name).bind fun _ => ih
  | read => exact hrun _ _
  | write => exact Ends.mapFailure (hrun _ _) _ fun _ _ h => h
  | copy table columns data =>
    refine (hask _ (fun _ h => by cases h) fun _ _ h => by cases h).bind fun reply => ?_
    cases reply with
    | ok v => exact .pure _
    | error e => exact .throw _

/-- What requests, registrations and transactions keep, every program keeps. -/
theorem maintains {P : Link σ → Prop} {p : Program (Link σ) α} (h : Composed writes p)
    (hask : ∀ r, Maintains P (ask r))
    (hregister : ∀ name l, P l →
      P { l with session.registered := l.session.registered ++ [name] })
    (htransaction : ∀ {γ : Type} {q : Program (Link σ) γ}, Maintains P q →
      Maintains P (Link.inTransaction q)) : Maintains P p := by
  have hplan : ∀ name, Maintains P (plan name) := by
    intro name
    refine .get_bind fun l => ?_
    split
    · exact .throw _
    · split
      · exact .pure _
      · refine (hask _).bind fun reply => ?_
        cases reply with
        | ok v => exact Maintains.bind (hregister name) fun _ => .pure _
        | error e => exact .throw _
  have hrun : ∀ name args, Maintains P (run name args) := by
    refine fun name args => (hplan name).bind fun p => (hask (.run p args)).bind fun reply => ?_
    cases reply with
    | ok v => exact .pure v
    | error e => exact .throw _
  exact h.maintains_of_uses (fun r _ _ => hask r) hplan hrun htransaction

end Composed

end ChainArchive
