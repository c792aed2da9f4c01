import ChainArchive.Ingest.Pipeline
import ChainArchive.Proofs.Session.Outcome

namespace ChainArchive.Ingest

open ChainArchive.Record

theorem ordinary_payload {α : Type} (name : String) (check : Check α) (a : Action) :
    Ordinary (payload name check a) := by
  unfold payload
  split
  · exact .ok _
  · exact .error (by simp [Failure.toClass])

theorem ordinary_numeral (s : String) : Ordinary (numeral s) := by
  unfold numeral
  split
  · exact .ok _
  · exact .error (by simp [Failure.toClass])

theorem ordinary_symbolId (sym : String) : Ordinary (symbolId sym) := by
  unfold symbolId
  split
  · exact ordinary_numeral _
  · exact .error (by simp [Failure.toClass])

theorem ordinary_metaTarget (domain key : String) : Ordinary (metaTarget domain key) := by
  unfold metaTarget
  split
  · exact (ordinary_numeral key).map _
  · split
    · exact .ok _
    · split <;> exact .ok _

theorem ordinary_of_mem_rules {name : String} {rule : Action → Except Failure (List Call)}
    (hr : (name, rule) ∈ rules) (a : Action) : Ordinary (rule a) := by
  simp only [rules, List.mem_cons, Prod.mk.injEq, List.not_mem_nil, or_false] at hr
  rcases hr with ⟨-, rfl⟩ | ⟨-, rfl⟩ | ⟨-, rfl⟩ | ⟨-, rfl⟩ | ⟨-, rfl⟩ | ⟨-, rfl⟩ | ⟨-, rfl⟩ |
    ⟨-, rfl⟩ | ⟨-, rfl⟩ | ⟨-, rfl⟩
  case inr.inr.inr.inr.inr.inr.inr.inl =>
    exact (ordinary_payload _ _ _).bind fun f => (ordinary_symbolId f.sym).bind fun _ => .ok _
  case inr.inr.inr.inr.inr.inr.inr.inr.inr =>
    exact (ordinary_payload _ _ _).bind fun _ =>
      (ordinary_metaTarget a.domain a.key).bind fun _ => .ok _
  all_goals exact (ordinary_payload _ _ _).bind fun _ => .ok _

theorem ordinary_render (a : Action) : Ordinary (render a) := by
  unfold render
  cases hr : rule? a.name with
  | none => exact .ok _
  | some rule =>
    obtain ⟨⟨name, rule'⟩, hf, rfl⟩ := Option.map_eq_some_iff.mp hr
    exact (ordinary_of_mem_rules (List.mem_of_find?_eq_some hf) a).map _

namespace Draft

theorem ordinary_checkOpen (d : Draft) : Ordinary d.checkOpen := by
  unfold checkOpen
  split
  · exact .error (by simp [Failure.toClass])
  · exact .ok _

theorem ordinary_addRow (d : Draft) (t : Copy.RowTable) (fields : List Value) :
    Ordinary (d.addRow t fields) := by
  unfold addRow
  split
  · exact .ok _
  · exact .error (by simp [Failure.toClass])

theorem ordinary_takeAction (d : Draft) (trxId : String) (a : Action) (n : Int) :
    Ordinary (d.takeAction trxId a n) :=
  ((ordinary_render a).map _).bind fun _ => (ordinary_addRow _ _ _).bind fun _ => .ok _

theorem ordinary_addAction (d : Draft) (trxId : String) (a : Action) (n : Int) :
    Ordinary (d.addAction trxId a n).1 := by
  have hopen := d.ordinary_checkOpen
  have htake := d.ordinary_takeAction trxId a n
  unfold addAction
  split
  · next e h => exact .error (hopen e h)
  · split
    · exact .ok _
    · next e h => exact .error (htake e h)

theorem ordinary_addActions (d : Draft) (trxId : String) (as : List Action) (n : Nat) :
    Ordinary (d.addActions trxId as n).1 := by
  induction as generalizing d n with
  | nil => exact .ok _
  | cons a as ih =>
    have ha := d.ordinary_addAction trxId a n
    unfold addActions
    split
    · exact ih _ _
    · next e d' h => exact .error (ha e (congrArg Prod.fst h))

theorem ordinary_addTransaction (d : Draft) (t : Transaction) (seqNum : Option Int) :
    Ordinary (d.addTransaction t seqNum).1 := by
  have hopen := d.ordinary_checkOpen
  unfold addTransaction
  split
  · next e h => exact .error (hopen e h)
  · exact ordinary_addActions _ _ _ _

theorem ordinary_addTransactions (d : Draft) (ts : List Transaction) (n : Nat) :
    Ordinary (d.addTransactions ts n).1 := by
  induction ts generalizing d n with
  | nil => exact .ok _
  | cons t ts ih =>
    have ht := d.ordinary_addTransaction t (some n)
    unfold addTransactions
    split
    · exact ih _ _
    · next e d' h => exact .error (ht e (congrArg Prod.fst h))

theorem ordinary_addPending (d : Draft) (ps : List (Transaction × Int)) :
    Ordinary (d.addPending ps) := by
  induction ps generalizing d with
  | nil => exact .ok _
  | cons p ps ih => exact (d.ordinary_addRow _ _).bind fun d => ih d

theorem ordinary_flush (d : Draft) : Ordinary d.flush :=
  d.ordinary_checkOpen.bind fun _ => (d.ordinary_addRow _ _).bind fun d =>
    (d.ordinary_addPending d.pending).bind fun _ => .ok _

end Draft

namespace Pipeline

/-- A call fails for its handle or as its draft does, never at the registration of a statement. -/
theorem ordinary_onDraft (p : Pipeline) (id : DraftId) {f : Draft → Except Failure Unit × Draft}
    (hf : ∀ d, Ordinary (f d).1) : Ordinary (p.onDraft id f).1 := by
  unfold onDraft
  split
  · exact .error (by simp [Failure.toClass])
  · exact hf _

theorem ordinary_flush (p : Pipeline) (id : DraftId) : Ordinary (p.flush id).1 := by
  refine p.ordinary_onDraft id fun d => ?_
  have hflush := d.ordinary_flush
  split
  · exact .ok _
  · next e h => exact .error (hflush e h)

theorem ordinary_beginBlock (p : Pipeline) (b : Block) : Ordinary (p.beginBlock b).1 := by
  unfold beginBlock
  split
  · exact .error (by simp [Failure.toClass])
  · split
    · exact .error (by simp [Failure.toClass])
    · split
      · exact .error (by simp [Failure.toClass])
      · dsimp only
        split
        · exact .error (by simp [Failure.toClass])
        · exact .ok _

end Pipeline

end ChainArchive.Ingest
