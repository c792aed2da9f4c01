import ChainArchive.Proofs.Copy.Payload

namespace ChainArchive.Copy

/-- Reads the text of an array field as the texts it holds. -/
def readTexts? (cs : List Char) : Option (List String) :=
  (readArray? cs).map (·.map String.ofList)

theorem readElement?_quoteChar (c : Char) (cs : List Char) :
    readElement? (quoteChar c ++ cs) = (readElement? cs).map fun (ds, rest) => (c :: ds, rest) := by
  by_cases hb : c = '\\'
  · subst hb
    rfl
  by_cases hq : c = '"'
  · subst hq
    rfl
  have hc : quoteChar c = [c] := by simp [quoteChar, hb, hq]
  rw [hc, List.singleton_append, readElement?.eq_4 c cs hq fun _ _ h _ => hb h]

theorem readElement?_quoted (cs rest : List Char) :
    readElement? (cs.flatMap quoteChar ++ '"' :: rest) = some (cs, rest) := by
  induction cs with
  | nil => rfl
  | cons c cs ih =>
    rw [List.flatMap_cons, List.append_assoc, readElement?_quoteChar, ih]
    rfl

theorem writeElement_append (cs rest : List Char) :
    writeElement cs ++ rest = '"' :: (cs.flatMap quoteChar ++ '"' :: rest) := by
  simp [writeElement]

theorem readElements?_joinElements {es : List (List Char)} (hes : es ≠ []) {fuel : Nat}
    (hf : es.length ≤ fuel) : readElements? fuel (joinElements es ++ ['}']) = some es := by
  induction es generalizing fuel with
  | nil => exact absurd rfl hes
  | cons e es ih =>
    obtain ⟨fuel, rfl⟩ : ∃ n, fuel = n + 1 := Nat.exists_eq_add_one.mpr (by simp at hf; omega)
    have hf : es.length ≤ fuel := by simpa using hf
    cases es with
    | nil => simp [joinElements, writeElement_append, readElements?, readElement?_quoted]
    | cons e' es =>
      have ih := ih (List.cons_ne_nil e' es) hf
      rw [joinElements.eq_3 e (e' :: es) (List.cons_ne_nil e' es), List.append_assoc,
        writeElement_append, readElements?, List.cons_append, readElement?_quoted]
      simp [ih]

theorem length_le_joinElements (es : List (List Char)) : es.length ≤ (joinElements es).length := by
  induction es with
  | nil => exact Nat.le_refl 0
  | cons e es ih =>
    cases es with
    | nil => simp [joinElements, writeElement]
    | cons e' es =>
      simp only [joinElements, List.length_append, List.length_cons] at ih ⊢
      omega

theorem readArray?_arrayLiteral (es : List (List Char)) :
    readArray? (arrayLiteral es) = some es := by
  cases es with
  | nil => rfl
  | cons e es =>
    have hlen := length_le_joinElements (e :: es)
    have hread : readElements? (joinElements (e :: es) ++ ['}']).length
        (joinElements (e :: es) ++ ['}']) = some (e :: es) :=
      readElements?_joinElements (List.cons_ne_nil e es) (by simp at hlen ⊢; omega)
    -- The literal starts with a quote after the brace, so it is not the empty one.
    obtain ⟨cs, hcs⟩ : ∃ cs, joinElements (e :: es) ++ ['}'] = '"' :: cs := by
      cases es <;> exact ⟨_, rfl⟩
    rw [hcs] at hread
    rw [arrayLiteral, List.cons_append, hcs]
    exact hread

theorem fieldText_texts (ss : List String) :
    fieldText (.texts ss) = some (arrayLiteral (ss.map String.toList)) := by
  simp [fieldText, Value.texts, jsonText, plainItems, Function.comp_def, Json.plainText]

theorem readTexts?_arrayLiteral (ss : List String) :
    readTexts? (arrayLiteral (ss.map String.toList)) = some ss := by
  simp [readTexts?, readArray?_arrayLiteral, Function.comp_def]

theorem unescape?_encodeField_texts (ss : List String) :
    unescape? (encodeField (.texts ss)) = some (arrayLiteral (ss.map String.toList)) := by
  rw [encodeField, fieldText_texts, writeField, unescape?_escape]

namespace RowBuffer

theorem accepted_append (t : RowTable) (xs ys : List (RowTable × List Value)) :
    accepted t (xs ++ ys) = accepted t xs ++ accepted t ys := by
  simp [accepted]

theorem readRows?_payload_at (before after : List (RowTable × List Value)) {t : RowTable}
    {fields : List Value} (hw : fields.length = t.columns.length) :
    (readRows? ((empty.offerAll (before ++ (t, fields) :: after)).payload t)).bind
      (·[(accepted t before).length]?) = some (fields.map fieldText) := by
  have hhere : accepted t ((t, fields) :: after) = fields :: accepted t after := by
    simp [accepted, hw]
  have hne : ∀ row ∈ accepted t (before ++ (t, fields) :: after), row ≠ [] := by
    rintro row hrow rfl
    have hzero : 0 = t.columns.length := length_of_accepted hrow
    cases t <;> exact absurd hzero (by decide)
  rw [payload_offerAll, readRows?_encodeRow _ hne, accepted_append, hhere]
  simp

/-- A list of texts is read back from its field as it was, whatever the texts hold: first the
escapes of the field are undone, then the array literal is read. So the signatures and keys of a
transaction are read back from its row, wherever it stands among the rows of a transfer, and
different lists are written differently. -/
theorem readTexts?_encodeField :
    (∀ ss : List String, (unescape? (encodeField (.texts ss))).bind readTexts? = some ss) ∧
    (∀ (before after : List (RowTable × List Value)) (b : Record.Block) (t : Record.Transaction)
      (n : Int) (counted : Option Int),
      let offers := before ++ (.transactions, transactionRow b t n counted) :: after
      ∃ row, (readRows? ((empty.offerAll offers).payload .transactions)).bind
          (·[(accepted .transactions before).length]?) = some row ∧
        (RowTable.transactions.column? "signatures" row).join.bind readTexts? =
          some t.signatures ∧
        (RowTable.transactions.column? "keys" row).join.bind readTexts? = some t.keys) ∧
    Function.Injective fun ss : List String => encodeField (.texts ss) := by
  have hread (ss : List String) :
      (unescape? (encodeField (.texts ss))).bind readTexts? = some ss := by
    rw [unescape?_encodeField_texts, Option.bind_some, readTexts?_arrayLiteral]
  refine ⟨hread, fun before after b t n counted => ?_, fun ss ss' h => ?_⟩
  · refine ⟨_, readRows?_payload_at before after (length_transactionRow b t n counted), ?_, ?_⟩
    · rw [← readTexts?_arrayLiteral t.signatures]
      exact congrArg (·.bind readTexts?) (fieldText_texts t.signatures)
    · rw [← readTexts?_arrayLiteral t.keys]
      exact congrArg (·.bind readTexts?) (fieldText_texts t.keys)
  · have hsome : some ss = some ss' := by
      rw [← hread ss, ← hread ss']
      exact congrArg (fun cs => (unescape? cs).bind readTexts?) h
    exact Option.some.inj hsome

example : encodeField (.texts ["a\"b\\", ""]) = "\x7b\"a\\\\\"b\\\\\\\\\",\"\"\x7d".toList := by
  decide

end RowBuffer

end ChainArchive.Copy
