import ChainArchive.Checkpoint
import ChainArchive.Proofs.Session.Steps
import ChainArchive.Schema.Apply

namespace ChainArchive

open ChainArchive.Copy ChainArchive.Link

def quietPlans : List String :=
  ["insert_stat", "read_stat", "latest_block_id", "block_exists", "set_block_irreversible"]

/-- Whether an entry writes a part of a block: a transfer of rows, or a statement of its changes,
which the move of the checkpoint belongs to. -/
def Entry.writesBlock : Entry → Bool
  | .asked (.copy _ _ _) _ => true
  | .asked (.run p _) _ => !quietPlans.contains p.name
  | _ => false

theorem Statement.name_of_find? {ps : List Plan} {name : String} {p : Plan}
    (h : Statement.find? ps name = some p) : p.name = name := by
  have hp := List.find?_some h
  simpa using hp

/-- Steps that begin with a transfer write a part of a block, even if it fails. -/
theorem Written.writesBlock_of_copy {t : Terms} {table : RowTable} {rows : List (List Char)}
    {ss : List Step} {r : Except Failure Unit} {es : List Entry}
    (hc : t.connection ≠ .released) (h : Written t (.copy table rows :: ss) r es) :
    es.any Entry.writesBlock = true := by
  obtain ⟨sent, h, rfl⟩ := h
  suffices hs : sent.any Entry.writesBlock = true by rw [List.any_append, hs, Bool.true_or]
  have hcopied : ∀ {r es}, Copied t table.name table.columns rows.flatten r es →
      es.any Entry.writesBlock = true := by
    intro r es h
    cases h with
    | cutOff h => exact absurd h hc
    | failed | done => rfl
  cases h with
  | stop h =>
    cases h with
    | copy h => exact hcopied h
  | cons h _ =>
    cases h with
    | copy h => rw [List.any_append, hcopied h, Bool.true_or]

variable {σ : Type} [Server σ] {α β : Type}

/-- A program that writes no part of a block. -/
def Quiet (p : Program (Link σ) α) : Prop :=
  ∀ t, Records t p fun _ es => es.any Entry.writesBlock = false

namespace Quiet

theorem pure (x : α) : Quiet (Pure.pure x : Program (Link σ) α) := fun _ => .pure rfl

theorem throw (e : Failure) : Quiet (MonadExcept.throw e : Program (Link σ) α) :=
  fun _ => .throw rfl

theorem lift (r : Except Failure α) : Quiet (Program.lift r : Program (Link σ) α) := by
  cases r with
  | ok x => exact pure x
  | error e => exact throw e

theorem bind {p : Program (Link σ) α} {f : α → Program (Link σ) β} (hp : Quiet p)
    (hf : ∀ x, Quiet (f x)) : Quiet (p >>= f) := by
  intro t
  refine (hp t).bind (fun x => hf x t) (fun _ _ h => h) ?_
  intro x es r fs h h'
  rw [List.any_append, h, h']
  rfl

theorem ask {r : Request} (h : ∀ reply, (Entry.asked r reply).writesBlock = false) :
    Quiet (σ := σ) (Link.ask r) := by
  intro t
  refine (ask_records t r).mono ?_
  rintro res es (⟨-, -, rfl⟩ | ⟨-, reply, -, rfl⟩)
  · rfl
  · simp [h]

theorem passing {r : Request} (h : ∀ reply, (Entry.asked r reply).writesBlock = false) :
    Quiet (σ := σ) (Link.passing r) := by
  refine (ask h).bind fun reply => ?_
  cases reply with
  | ok v => exact pure v
  | error e => exact throw _

theorem plan (name : String) : Quiet (σ := σ) (Link.plan name) := by
  intro t
  refine (plan_records t name).mono ?_
  intro r es h
  cases h with
  | unknown | cutOff | refused => rfl
  | ready p es hf hr => cases hr <;> rfl

theorem ran {t : Terms} {raise : ServerError → Failure} {name : String} {args : List Value}
    {r : Except Failure Value} {es : List Entry} (hn : quietPlans.contains name = true)
    (h : Ran t raise name args r es) : es.any Entry.writesBlock = false := by
  have hrun : ∀ {p : Plan} {es : List Entry} (reply : Reply),
      Statement.find? t.statements name = some p → Registered t p es →
      (es ++ [Entry.asked (.run p args) reply]).any Entry.writesBlock = false := by
    intro p es reply hf hr
    have hp : p.name = name := Statement.name_of_find? hf
    cases hr <;> simpa [Entry.writesBlock, hp] using hn
  cases h with
  | unknown | cutOff | refused => rfl
  | failed p es e hf hr => exact hrun _ hf hr
  | answered p es v hf hr => exact hrun _ hf hr

theorem run {name : String} (args : List Value) (hn : quietPlans.contains name = true) :
    Quiet (σ := σ) (Link.run name args) :=
  fun t => (run_records t name args).mono fun _ _ => ran hn

theorem planEach (names : List String) : Quiet (σ := σ) (Link.planEach names) := by
  induction names with
  | nil => exact pure _
  | cons name names ih => exact (plan name).bind fun _ => ih

theorem planAll : Quiet (σ := σ) Link.planAll := by
  intro t l hl
  exact planEach (l.session.statements.map (·.name)) t l hl

theorem mapFailure {p : Program (Link σ) α} (h : Quiet p) (g : Failure → Failure) :
    Quiet (p.mapFailure g) :=
  fun t => (h t).mapFailure (fun _ _ h => h) fun _ _ h => h

theorem inTransaction {p : Program (Link σ) α} (h : Quiet p) : Quiet (Link.inTransaction p) := by
  intro t
  refine (inTransaction_records (h t)).mono ?_
  rintro r es (⟨-, -, rfl⟩ | ⟨fs, x, -, hq, rfl⟩ | ⟨fs, f, -, hq, rfl⟩)
  · rfl
  · simp [Entry.writesBlock, hq]
  · simp [Entry.writesBlock, hq]

theorem runCalls {cs : List Call}
    (h : ∀ c ∈ cs, c.next = none ∧ quietPlans.contains c.plan = true) :
    Quiet (σ := σ) (Batch.runCalls cs) := by
  induction cs with
  | nil => exact pure _
  | cons c cs ih =>
    obtain ⟨hn, hq⟩ := h c List.mem_cons_self
    refine Quiet.bind ?_ fun _ => ih fun c hc => h c (List.mem_cons_of_mem _ hc)
    refine ((run c.args hq).mapFailure _).bind fun v => ?_
    rw [hn]
    exact pure _

theorem commit {b : Batch} (h : ∀ c ∈ b, c.next = none ∧ quietPlans.contains c.plan = true) :
    Quiet (σ := σ) (Batch.commit b) := by
  unfold Batch.commit
  split
  · exact pure _
  · exact (inTransaction (runCalls h)).bind fun _ => pure _

theorem create (l : Schema.Layout) : Quiet (σ := σ) l.create := by
  unfold Schema.Layout.create
  induction l.creation with
  | nil => exact pure _
  | cons d ds ih =>
    refine Quiet.bind ?_ fun _ => ih
    refine (ask fun _ => rfl).bind fun reply => ?_
    cases reply with
    | ok v => exact pure _
    | error e => exact throw _

theorem checkTable (l : Schema.Layout) (table : String) : Quiet (σ := σ) (l.checkTable table) := by
  unfold Schema.Layout.checkTable
  split
  · exact pure _
  · exact throw _

theorem tableExists (l : Schema.Layout) (table : String) :
    Quiet (σ := σ) (l.tableExists table) :=
  (checkTable l table).bind fun _ => passing fun _ => rfl

theorem tableIsEmpty (l : Schema.Layout) (table : String) :
    Quiet (σ := σ) (l.tableIsEmpty table) :=
  (checkTable l table).bind fun _ => (passing fun _ => rfl).bind fun _ => pure _

theorem blockExists (blockId : String) : Quiet (σ := σ) (Checkpoint.blockExists blockId) :=
  (run _ rfl).bind fun _ => pure _

theorem store (version : String) : Quiet (σ := σ) (Checkpoint.store version) := by
  refine (commit ?_).bind fun _ => pure _
  simp [Checkpoint.addStat, Batch.add, quietPlans]

theorem checkVersion (version : String) : Quiet (σ := σ) (Checkpoint.checkVersion version) := by
  refine (run _ rfl).bind fun v => ?_
  split
  · exact throw _
  · split
    · exact throw _
    · exact pure _
  · exact throw _

theorem checkSync : Quiet (σ := σ) Checkpoint.checkSync := by
  refine (run _ rfl).bind fun v => ?_
  extract_lets compare
  have hc : ∀ u, Quiet (compare u) := by
    intro u
    refine (run _ rfl).bind fun v => (lift _).bind fun last => ?_
    split
    · dsimp only
      split
      · exact pure _
      · exact throw _
    · exact throw _
  split
  · exact (throw _).bind hc
  · exact hc ()

end Quiet

end ChainArchive
