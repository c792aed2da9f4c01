import ChainArchive.Proofs.Ingest.Operations
import ChainArchive.Proofs.Ingest.Rendering

namespace ChainArchive

open ChainArchive.Link ChainArchive.Schema

def readPlans : List String := ["read_stat", "latest_block_id", "block_exists"]

/-- Whether an error that a request meets is turned into a failure of the write path's own. -/
def Request.wraps (e : ServerError) : Request → Bool
  | .execute _ _ | .prepare _ => e.isDatabase
  | .run p _ => e.isDatabase && !readPlans.contains p.name
  | .copy _ _ _ => e.isDatabase || e.isInterface
  | .connect _ _ | .fetchValue _ _ | .fetchRow _ _ | .fetchAll _ _ => false

/-- A request that meets the error `e` is seen to fail with `f`: a failure of the write path's own,
or the error itself. -/
def Request.Raises (q : Request) (e : ServerError) (f : Failure) : Prop :=
  if q.wraps e then f.isDatabase = true else f = .server e

theorem Request.Raises.isDatabase_eq {q : Request} {e : ServerError} {f : Failure}
    (h : q.Raises e f) : f.isDatabase = q.wraps e := by
  unfold Raises at h
  cases hw : q.wraps e with
  | true => simpa [hw] using h
  | false =>
    rw [hw] at h
    cases h
    rfl

def Entry.isDatabaseError : Entry → Bool
  | .asked _ (.error e) => e.isDatabase
  | _ => false

def Surfaces {α : Type} (r : Except Failure α) (es : List Entry) : Prop :=
  ∀ q e, Entry.asked q (.error e) ∈ es → ∃ f, r = .error f ∧ q.Raises e f

namespace Surfaces

variable {α β : Type} {r : Except Failure α} {es fs : List Entry} {q : Request}

theorem nil : Surfaces r [] := fun _ _ h => by cases h

theorem answered (v : Value) : Surfaces r [.asked q (.ok v)] := by
  intro q' e h
  cases List.mem_singleton.mp h

theorem failed {e : ServerError} {f : Failure} (h : q.Raises e f) :
    Surfaces (.error f : Except Failure α) [.asked q (.error e)] := by
  intro q' e' h'
  cases List.mem_singleton.mp h'
  exact ⟨f, rfl, h⟩

theorem not_mem {x : α} (h : Surfaces (.ok x) es) {e : ServerError} :
    Entry.asked q (.error e) ∉ es := by
  intro hmem
  obtain ⟨f, hf, -⟩ := h q e hmem
  cases hf

theorem error {f : Failure} (h : Surfaces (.error f : Except Failure α) es) :
    Surfaces (.error f : Except Failure β) es := by
  intro q e hmem
  obtain ⟨f', hf, hraises⟩ := h q e hmem
  cases hf
  exact ⟨f, rfl, hraises⟩

theorem append {x : β} (h : Surfaces (.ok x) es) (h' : Surfaces r fs) :
    Surfaces r (es ++ fs) := by
  intro q e hmem
  obtain hmem | hmem := List.mem_append.mp hmem
  · exact absurd hmem h.not_mem
  · exact h' q e hmem

theorem marked (m : Mark) (h : Surfaces r es) (m' : Mark) :
    Surfaces r (.marked m :: es ++ [.marked m']) := by
  intro q e hmem
  exact h q e (by simpa using hmem)

end Surfaces

variable {t : Terms} {name : String} {args : List Value} {es : List Entry}

theorem Link.Registered.surfaces {p : Plan} (h : Registered t p es) (p' : Plan) :
    Surfaces (.ok p') es := by
  cases h with
  | before => exact .nil
  | now v => exact .answered v

theorem raises_registrationFailure (p : Plan) (name : String) (e : ServerError) :
    (Request.prepare p).Raises e (registrationFailure name e) := by
  unfold Request.Raises registrationFailure Request.wraps
  cases e.isDatabase <;> rfl

theorem Link.Planned.surfaces {r : Except Failure Plan} (h : Planned t name r es) :
    Surfaces r es := by
  cases h with
  | unknown | cutOff => exact .nil
  | refused p e => exact .failed (raises_registrationFailure p name e)
  | ready p _ _ hr => exact hr.surfaces p

theorem Link.Ran.surfaces {raise : ServerError → Failure} {r : Except Failure Value}
    (hraise : ∀ p e, p.name = name → (Request.run p args).Raises e (raise e))
    (h : Ran t raise name args r es) : Surfaces r es := by
  cases h with
  | unknown | cutOff => exact .nil
  | refused p e => exact .failed (raises_registrationFailure p name e)
  | failed p es e hf hr =>
    exact (hr.surfaces p).append (.failed (hraise p e (Statement.name_of_find? hf)))
  | answered p es v hf hr => exact (hr.surfaces p).append (.answered v)

theorem Link.Copied.surfaces {table : String} {columns : List String} {data : List Char}
    {r : Except Failure Unit} (h : Copied t table columns data r es) : Surfaces r es := by
  cases h with
  | cutOff => exact .nil
  | failed e =>
    refine .failed ?_
    unfold Request.Raises transferFailure Request.wraps
    cases e.isDatabase || e.isInterface <;> rfl
  | done v => exact .answered v

variable {σ : Type} [Server σ] {α : Type} {writes : String → List Value → Prop}

theorem Schema.Ddl.apply_surfaces (t : Terms) (d : Ddl) :
    Records (σ := σ) t d.apply Surfaces := by
  refine (asked_records t (.execute d.sql []) (fun _ => ()) _).mono ?_
  rintro r es (⟨-, -, rfl⟩ | ⟨e, rfl, rfl⟩ | ⟨v, rfl, rfl⟩)
  · exact .nil
  · refine .failed ?_
    unfold Request.Raises Request.wraps
    cases e.isDatabase with
    | true => cases d <;> rfl
    | false => rfl
  · exact .answered v

theorem Composed.surfaces {p : Program (Link σ) α} (h : Composed writes p)
    (hwrites : ∀ {name args}, writes name args → name ∉ readPlans) (t : Terms) :
    Records t p Surfaces := by
  have hfetch : ∀ {q : Request}, (∀ e, q.wraps e = false) →
      Records (σ := σ) t (passing q) Surfaces := by
    intro q hq
    refine (passing_records t q).mono ?_
    rintro r es (⟨-, -, rfl⟩ | ⟨e, rfl, rfl⟩ | ⟨v, rfl, rfl⟩)
    · exact .nil
    · refine .failed ?_
      simp [Request.Raises, hq]
    · exact .answered v
  -- Only what a single request does has to be looked at; what follows a success decides.
  induction h with
  | @lift α r hr =>
    cases r with
    | ok x => exact .pure .nil
    | error f => exact .throw .nil
  | bind _ _ ihp ihf =>
    exact ihp.bind ihf (fun _ _ h => h.error) fun _ _ _ _ h h' => h.append h'
  | inTransaction _ ih =>
    refine (inTransaction_records ih).mono ?_
    rintro r es (⟨-, -, rfl⟩ | ⟨fs, x, -, h, rfl⟩ | ⟨fs, f, -, h, rfl⟩)
    · exact .nil
    · exact h.marked _ _
    · exact h.marked _ _
  | fetchValue => exact hfetch fun _ => rfl
  | fetchRow => exact hfetch fun _ => rfl
  | apply d => exact d.apply_surfaces t
  | planAll =>
    have heach : ∀ names, Records (σ := σ) t (planEach names) Surfaces := by
      intro names
      induction names with
      | nil => exact .pure .nil
      | cons name names ih =>
        exact ((plan_records t name).mono fun _ _ h => h.surfaces).bind (fun _ => ih)
          (fun _ _ h => h.error) fun _ _ _ _ h h' => h.append h'
    exact fun l hl => heach _ l hl
  | @read name args hr =>
    refine (run_records t name args).mono fun _ _ h => h.surfaces fun p e hp => ?_
    -- `readPlans` holds every question, so its errors are passed on as they came.
    have hread : p.name ∈ readPlans := by
      rw [hp]
      cases hr <;> decide
    simp [Request.Raises, Request.wraps, hread]
  | @write name args hw =>
    refine (Batch.invoke_records t name args).mono fun _ _ h => h.surfaces fun p e hp => ?_
    have hchange : p.name ∉ readPlans := hp ▸ hwrites hw
    unfold Request.Raises Request.wraps Batch.statementFailure
    cases e.isDatabase <;> simp [hchange, Failure.isDatabase, Failure.toClass]
  | copy table columns data =>
    exact (copyInto_records t table columns data).mono fun _ _ h => h.surfaces

namespace Ingest

theorem vocabulary_changes : Vocabulary fun name _ => name ∉ readPlans where
  insertStat _ _ := by decide
  updateStat _ _ := by decide
  setIrreversible _ := by decide
  callsOf a c hc := by
    have hentity : ∀ name ∈ entityPlans, name ∉ readPlans := by decide
    obtain ⟨hplan, hnext⟩ := callsOf_onEntities a c hc
    exact ⟨hentity _ hplan, fun next hn _ _ => hentity _ (hnext next hn)⟩

/-- Every error that the server answers with reaches the caller. It does so as a failure of the
write path's own exactly if the request is one that turns such errors into them, and as it came
otherwise. -/
theorem server_error_surfaces {p : Pipeline} {layout : Layout} {version : String} {l : Link σ}
    {ops : List Op} {e : Event σ} (he : e ∈ history ops ⟨p.succeed layout version, l⟩)
    {q : Request} {err : ServerError} (hq : Entry.asked q (.error err) ∈ e.entries) :
    ∃ f, e.result = .error f ∧ f.isDatabase = q.wraps err ∧
      (q.wraps err = false → f = .server err) := by
  obtain ⟨done, op, rfl⟩ := exists_perform_of_mem he
  obtain ⟨program, hprogram, hfollows⟩ := op.perform_follows vocabulary_changes
    (after_within vocabulary_changes p layout version l done)
  have hsurfaces : Surfaces _ _ := hfollows.records (hprogram.surfaces (fun h => h) _)
  obtain ⟨f, hf, hraises⟩ := hsurfaces q err hq
  refine ⟨f, hf, hraises.isDatabase_eq, fun hw => ?_⟩
  simpa [Request.Raises, hw] using hraises

theorem surfaces_at_refused_checkpoint :
    let s := scripted { Script.empty with failPlans := [("update_stat", .database)] }
    ∃ e ∈ history [.startup, .beginBlock (bareBlock "b1" 1 "b0"), .commit 0] s, ∃ q err,
      Entry.asked q (.error err) ∈ e.entries ∧ err.isDatabase = true ∧ q.wraps err = true ∧
        ∃ f, e.result = .error f ∧ f.isDatabase = true := by
  intro s
  have hany : ∃ e ∈ history [.startup, .beginBlock (bareBlock "b1" 1 "b0"), .commit 0] s,
      e.entries.any Entry.isDatabaseError = true ∧ failureClass? e.result = some .statement := by
    decide +kernel
  obtain ⟨e, he, hentries, hclass⟩ := hany
  obtain ⟨entry, hentry, herr⟩ := List.any_eq_true.mp hentries
  match entry, hentry, herr with
  | .asked q (.error err), hentry, herr =>
    obtain ⟨f, hf, hwraps, -⟩ := server_error_surfaces he hentry
    have hdatabase : f.isDatabase = true := by
      have hstatement : f.toClass = .statement := by simpa [hf, failureClass?] using hclass
      simp [Failure.isDatabase, hstatement]
    exact ⟨e, he, q, err, hentry, herr, hwraps.symm.trans hdatabase, f, hf, hdatabase⟩

/-- The database fails at the question whether a block is stored, and the caller gets its error as
it came. -/
theorem not_surfaces_at_failed_question :
    let s := after [.startup] ⟨.succeed (.ofLayout statsLayout "1") statsLayout "1",
      .ofStatements Statement.standard,
      { Script.empty with failPlans := [("block_exists", .database)] }, []⟩
    let e := (Op.ingestBlock (bareBlock "b1" 1 "b0")).perform s
    e.entries.any Entry.isDatabaseError = true ∧
      ∃ f, e.result = .error f ∧ f.isDatabase = false := by
  intro s e
  have hclass : failureClass? e.result = some (.server .uniqueViolation) := by decide +kernel
  obtain ⟨f, hf, hserver⟩ := exists_of_failureClass? hclass
  exact ⟨by decide +kernel, f, hf, by simp [Failure.isDatabase, hserver]⟩

end Ingest

end ChainArchive
