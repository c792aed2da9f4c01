import ChainArchive.Failure
import ChainArchive.Proofs.Copy.Decode

namespace ChainArchive.Copy

open ChainArchive.Text

namespace RowBuffer

/-- Offers a row. The buffer stays as it is if the row is refused. -/
def offer (b : RowBuffer) (t : RowTable) (fields : List Value) : Except Failure Unit × RowBuffer :=
  match b.add t fields with
  | .ok b' => (.ok (), b')
  | .error e => (.error (.rowWidth e), b)

def offerAll (b : RowBuffer) : List (RowTable × List Value) → RowBuffer
  | [] => b
  | (t, fields) :: rest => (b.offer t fields).2.offerAll rest

def accepted (t : RowTable) (offers : List (RowTable × List Value)) : List (List Value) :=
  (offers.filter fun x => x.1 = t ∧ x.2.length = t.columns.length).map (·.2)

theorem offer_fits (b : RowBuffer) {t : RowTable} {fields : List Value}
    (h : fields.length = t.columns.length) :
    b.offer t fields = (.ok (), b.push t (encodeRow fields)) := by
  simp [offer, add, h]

theorem offer_refused (b : RowBuffer) {t : RowTable} {fields : List Value}
    (h : fields.length ≠ t.columns.length) :
    b.offer t fields = (.error (.rowWidth ⟨t, fields.length⟩), b) := by
  simp [offer, add, h]

theorem rows_offer (b : RowBuffer) (t u : RowTable) (fields : List Value) :
    (b.offer u fields).2.rows t = b.rows t ++ (accepted t [(u, fields)]).map encodeRow := by
  by_cases hw : fields.length = u.columns.length
  · rw [offer_fits b hw, rows_push]
    by_cases ht : t = u
    · subst ht
      simp [accepted, hw]
    · simp [accepted, ht, Ne.symm ht]
  · rw [offer_refused b hw]
    have hnone : accepted t [(u, fields)] = [] := by
      simp only [accepted, List.map_eq_nil_iff, List.filter_eq_nil_iff, List.mem_singleton]
      rintro _ rfl
      simp only [decide_eq_true_eq, not_and]
      rintro rfl
      exact hw
    rw [hnone, List.map_nil, List.append_nil]

theorem rows_offerAll (b : RowBuffer) (offers : List (RowTable × List Value)) (t : RowTable) :
    (b.offerAll offers).rows t = b.rows t ++ (accepted t offers).map encodeRow := by
  induction offers generalizing b with
  | nil => simp [offerAll, accepted]
  | cons x rest ih =>
    obtain ⟨u, fields⟩ := x
    have hsplit : accepted t ((u, fields) :: rest) =
        accepted t [(u, fields)] ++ accepted t rest := by
      unfold accepted
      rw [← List.map_append, ← List.filter_append, List.singleton_append]
    rw [offerAll, ih, rows_offer, hsplit, List.map_append, List.append_assoc]

end RowBuffer

theorem fieldText_eq_none_iff (v : Value) : fieldText v = none ↔ v.isNull = true := by
  cases v with
  | plain j => cases j <;> simp [fieldText, jsonText, Value.isNull, Json.isNull]
  | moment t => simp [fieldText, Value.isNull]
  | tuple items => simp [fieldText, Value.isNull]

theorem endMark_not_mem_splitOn (rows : List (List Value)) :
    endMark ∉ splitOn '\n' (rows.map encodeRow).flatten := by
  have hsplit := splitOn_writeRow (rows.map (·.map fieldText))
  rw [List.map_map] at hsplit
  intro hm
  rw [show encodeRow = writeRow ∘ (·.map fieldText) from rfl, hsplit, List.mem_append] at hm
  obtain hm | hm := hm
  · obtain ⟨r, -, hr⟩ := List.mem_map.mp hm
    exact joinFields_ne_endMark r hr
  · exact absurd hm (by decide)

namespace RowBuffer

theorem payload_offerAll (offers : List (RowTable × List Value)) (t : RowTable) :
    (empty.offerAll offers).payload t = ((accepted t offers).map encodeRow).flatten := by
  rw [payload, rows_offerAll]
  rfl

theorem length_of_accepted {t : RowTable} {offers : List (RowTable × List Value)}
    {row : List Value} (h : row ∈ accepted t offers) : row.length = t.columns.length := by
  obtain ⟨x, hx, rfl⟩ := List.mem_map.mp h
  have hp := (List.mem_filter.mp hx).2
  simp only [decide_eq_true_eq] at hp
  exact hp.2

/-- Whatever was offered, the data of a table is read back as the rows that were accepted for it,
an absent value as absent and any other value as its text, and no line of it is the end mark. A
row of another width is refused and changes nothing. -/
theorem readRows?_payload (offers : List (RowTable × List Value)) (t : RowTable) :
    let b := empty.offerAll offers
    readRows? (b.payload t) = some ((accepted t offers).map (·.map fieldText)) ∧
      (∀ row ∈ accepted t offers, row.length = t.columns.length) ∧
      (∀ v, fieldText v = none ↔ v.isNull = true) ∧
      (∀ s, fieldText (.text s) = some s.toList) ∧
      endMark ∉ splitOn '\n' (b.payload t) ∧
      ∀ u fields, fields.length ≠ u.columns.length →
        ∃ f, b.offer u fields = (.error f, b) ∧ f.toClass = .value := by
  intro b
  have hpayload : b.payload t = ((accepted t offers).map encodeRow).flatten :=
    payload_offerAll offers t
  have hwidth : ∀ row ∈ accepted t offers, row.length = t.columns.length :=
    fun row h => length_of_accepted h
  have hne : ∀ row ∈ accepted t offers, row ≠ [] := by
    rintro row h rfl
    have hzero : 0 = t.columns.length := hwidth [] h
    cases t <;> exact absurd hzero (by decide)
  refine ⟨?_, hwidth, fieldText_eq_none_iff, fun s => rfl, ?_, ?_⟩
  · rw [hpayload]
    exact readRows?_encodeRow _ hne
  · rw [hpayload]
    exact endMark_not_mem_splitOn _
  · intro u fields hw
    exact ⟨_, offer_refused b hw, rfl⟩

theorem readRows?_payload_marks :
    let row : List Value := [.text "\\N", .null, .text "\\.", .text "a\tb\nc\rd\\", .text "",
      .int (-7), .texts ["\"", "\\"], .plain (.object [])]
    let b := empty.offerAll [(.actions, row), (.actions, [.null])]
    readRows? (b.payload .actions) = some [[some ['\\', 'N'], none, some ['\\', '.'],
        some ['a', '\t', 'b', '\n', 'c', '\r', 'd', '\\'], some [], some ['-', '7'],
        some ['{', '"', '\\', '"', '"', ',', '"', '\\', '\\', '"', '}'], some ['{', '}']]] ∧
      endMark ∉ splitOn '\n' (b.payload .actions) ∧
      ([.null] : List Value).length ≠ RowTable.actions.columns.length ∧
      ∃ f, b.offer .actions [.null] = (.error f, b) ∧ f.toClass = .value := by
  intro row b
  obtain ⟨hread, -, -, -, hmark, hrefused⟩ :=
    readRows?_payload [(.actions, row), (.actions, [.null])] .actions
  have haccepted : accepted .actions [(.actions, row), (.actions, [.null])] = [row] := rfl
  have hw : ([.null] : List Value).length ≠ RowTable.actions.columns.length := by decide
  refine ⟨?_, hmark, hw, hrefused _ _ hw⟩
  rw [hread, haccepted]
  rfl

end RowBuffer

end ChainArchive.Copy
