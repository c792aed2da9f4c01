import ChainArchive.Proofs.Recovery.Startup

namespace ChainArchive

open ChainArchive.Copy ChainArchive.Record

def Entry.checkpoint? : Entry → Option String
  | .asked (.run p args) (.ok _) =>
    match statArgs? args with
    | some (key, value) =>
      if p.name = "update_stat" ∧ key = Checkpoint.lastSyncKey then some value else none
    | none => none
  | _ => none

/-- The books of a log, kept entry by entry: what is stored, and the checkpoints that transactions
moved to. -/
structure Books where
  store : Store
  pending : List String
  committed : List String

namespace Books

def empty : Books := ⟨⟨.empty, none⟩, [], []⟩

def take (x : Books) (e : Entry) : Books where
  store := x.store.take e
  pending :=
    match e with
    | .marked _ => []
    | .asked _ _ => x.pending ++ e.checkpoint?.toList
  committed :=
    match e with
    | .marked .commit => x.committed ++ x.pending
    | _ => x.committed

def takeAll (x : Books) (es : List Entry) : Books := es.foldl take x

theorem takeAll_append (x : Books) (es fs : List Entry) :
    x.takeAll (es ++ fs) = (x.takeAll es).takeAll fs :=
  List.foldl_append

theorem store_takeAll (x : Books) (es : List Entry) :
    (x.takeAll es).store = x.store.takeAll es := by
  induction es generalizing x with
  | nil => rfl
  | cons e es ih => exact ih (x.take e)

end Books

theorem storedInt_toString (n : Int) : storedInt (toString n).toList = n := by
  -- A numeral starts with a digit, so no sign is read.
  have hdigits : ∀ m : Nat, Numeral.readMinus (Nat.toDigits 10 m) = (false, Nat.toDigits 10 m) := by
    intro m
    cases hd : Nat.toDigits 10 m with
    | nil => rfl
    | cons c cs =>
      have hc : c.isDigit = true :=
        Nat.isDigit_of_mem_toDigits (by decide) (by decide) (hd ▸ List.mem_cons_self)
      have hne : c ≠ '-' := by
        rintro rfl
        exact absurd hc (by decide)
      unfold Numeral.readMinus
      split
      · next h => exact absurd (List.cons.inj h).1 hne
      · rfl
  rw [Int.toString_eq_repr, Int.repr_eq_if]
  split
  · next hn =>
    rw [Nat.toList_repr, storedInt, hdigits]
    simp only [Numeral.signed, Bool.false_eq_true, ↓reduceIte, Nat.ofDigitChars_ten_toDigits]
    omega
  · next hn =>
    have hminus : ("-" ++ (-n).toNat.repr).toList = '-' :: Nat.toDigits 10 (-n).toNat := by
      rw [String.toList_append, Nat.toList_repr]
      rfl
    rw [hminus, storedInt]
    simp only [Numeral.readMinus, Numeral.signed, ↓reduceIte, Nat.ofDigitChars_ten_toDigits]
    omega

theorem blockKey?_blockRow (b : Block) (counted : Option Int) :
    StoredRow.blockKey? (RowTable.blocks.columns.zip ((blockRow b counted).map fieldText)) =
      some (b.blockId, b.blockNum) := by
  have hid : fieldText (.text b.blockId) = some b.blockId.toList := rfl
  have hnum : fieldText (.int b.blockNum) = some (toString b.blockNum).toList := by
    simp [fieldText, jsonText, Value.int, Json.plainText, Json.inner]
  have hcols : (RowTable.blocks.columns.zip ((blockRow b counted).map fieldText)) =
      ("block_id", some b.blockId.toList) :: ("block_num", some (toString b.blockNum).toList) ::
        ["prev_block_id", "timestamp", "trx_merkle_root", "trx_count", "producer", "pending"].zip
          (((blockRow b counted).map fieldText).drop 2) := by
    simp only [blockRow, List.map_cons, hid, hnum]
    rfl
  have hne : ("block_num" == "block_id") = false := by decide
  rw [hcols]
  simp only [StoredRow.blockKey?, List.lookup_cons, beq_self_eq_true, hne, String.ofList_toList,
    storedInt_toString]

end ChainArchive
