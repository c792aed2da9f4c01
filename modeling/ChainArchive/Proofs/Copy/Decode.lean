import ChainArchive.Copy.Row
import ChainArchive.Text.Split

namespace ChainArchive.Copy

open ChainArchive.Text

def readLine? (line : List Char) : Option (List (Option (List Char))) :=
  (splitOn '\t' line).mapM readField?

/-- Reads the data of a transfer as rows: it is cut at newlines, and its lines at tabs. Every row
ends with a newline, and a line that is the end mark ends the data. -/
def readRows? (data : List Char) : Option (List (List (Option (List Char)))) :=
  (((splitOn '\n' data).dropLast).takeWhile (· ≠ endMark)).mapM readLine?

def RowTable.column? {α : Type} (t : RowTable) (name : String) (row : List α) : Option α :=
  (t.columns.zip row).lookup name

theorem splitOn_of_not_mem {mark : Char} {cs : List Char} (h : mark ∉ cs) :
    splitOn mark cs = [cs] := by
  induction cs with
  | nil => rfl
  | cons c cs ih =>
    have hc : (c == mark) = false := by
      simpa using fun hcm : c = mark => h (hcm ▸ List.mem_cons_self)
    have ih := ih fun hm => h (List.mem_cons_of_mem _ hm)
    simp [splitOn, hc, ih]

theorem splitOn_append {mark : Char} {cs : List Char} (h : mark ∉ cs) (ds : List Char) :
    splitOn mark (cs ++ mark :: ds) = cs :: splitOn mark ds := by
  induction cs with
  | nil => simp [splitOn]
  | cons c cs ih =>
    have hc : (c == mark) = false := by
      simpa using fun hcm : c = mark => h (hcm ▸ List.mem_cons_self)
    have ih := ih fun hm => h (List.mem_cons_of_mem _ hm)
    simp [splitOn, hc, ih]

theorem escapeChar_cases (c : Char) :
    (c ∈ ['\\', '\t', '\n', '\r'] ∧ ∃ d ∈ ['\\', 't', 'n', 'r'],
      escapeChar c = ['\\', d] ∧ unescapeChar d = c) ∨
    (c ∉ ['\\', '\t', '\n', '\r'] ∧ escapeChar c = [c]) := by
  unfold escapeChar
  by_cases h₁ : c = '\\'
  · subst h₁
    exact .inl ⟨by decide, '\\', by decide, rfl, rfl⟩
  by_cases h₂ : c = '\t'
  · subst h₂
    exact .inl ⟨by decide, 't', by decide, rfl, rfl⟩
  by_cases h₃ : c = '\n'
  · subst h₃
    exact .inl ⟨by decide, 'n', by decide, rfl, rfl⟩
  by_cases h₄ : c = '\r'
  · subst h₄
    exact .inl ⟨by decide, 'r', by decide, rfl, rfl⟩
  · exact .inr ⟨by simp [h₁, h₂, h₃, h₄], by simp [h₁, h₂, h₃, h₄]⟩

theorem unescape?_escape (cs : List Char) : unescape? (escape cs) = some cs := by
  induction cs with
  | nil => rfl
  | cons c cs ih =>
    rw [escape_cons]
    obtain ⟨-, d, -, he, hd⟩ | ⟨hc, he⟩ := escapeChar_cases c
    · simp [he, unescape?, ih, hd]
    · have hne : c ≠ '\\' := fun h => hc (h ▸ List.mem_cons_self)
      rw [he, List.singleton_append]
      rw [unescape?.eq_4 _ _ (fun _ _ h _ => hne h) (fun h _ => hne h), ih]
      rfl

theorem not_mem_writeField {c : Char} (hc : c = '\t' ∨ c = '\n') (f : Option (List Char)) :
    c ∉ writeField f := by
  cases f with
  | none => obtain rfl | rfl := hc <;> decide
  | some cs =>
    intro hm
    obtain ⟨d, -, hd⟩ := List.mem_flatMap.mp hm
    obtain ⟨-, e, he, hesc, -⟩ | ⟨hn, hesc⟩ := escapeChar_cases d
    · rw [hesc] at hd
      obtain rfl | rfl := hc <;> · simp at hd he; simp [← hd] at he
    · rw [hesc, List.mem_singleton] at hd
      subst hd
      obtain rfl | rfl := hc <;> exact hn (by decide)

theorem escape_ne_mark {c : Char} (hc : c ∉ ['\\', 't', 'n', 'r']) (cs : List Char) :
    escape cs ≠ ['\\', c] := by
  intro h
  cases cs with
  | nil => cases h
  | cons d cs =>
    rw [escape_cons] at h
    obtain ⟨-, e, he, hesc, -⟩ | ⟨hn, hesc⟩ := escapeChar_cases d
    · rw [hesc] at h
      obtain ⟨rfl, -⟩ : e = c ∧ _ := by simpa using h
      exact hc he
    · rw [hesc] at h
      obtain ⟨rfl, -⟩ : d = '\\' ∧ _ := by simpa using h
      exact hn (by decide)

theorem readField?_writeField (f : Option (List Char)) : readField? (writeField f) = some f := by
  cases f with
  | none => rfl
  | some cs =>
    have hne : escape cs ≠ nullMark := escape_ne_mark (by decide) cs
    simp [readField?, writeField, hne, unescape?_escape]

theorem not_mem_joinFields (fs : List (Option (List Char))) :
    '\n' ∉ joinFields (fs.map writeField) := by
  induction fs with
  | nil => decide
  | cons f fs ih =>
    cases fs with
    | nil => exact not_mem_writeField (.inr rfl) f
    | cons g gs =>
      simp only [List.map_cons, joinFields, List.mem_append, List.mem_cons]
      rintro (h | h | h)
      · exact not_mem_writeField (.inr rfl) f h
      · cases h
      · exact ih h

theorem readLine?_joinFields {fs : List (Option (List Char))} (hfs : fs ≠ []) :
    readLine? (joinFields (fs.map writeField)) = some fs := by
  induction fs with
  | nil => exact absurd rfl hfs
  | cons f fs ih =>
    have ht := not_mem_writeField (.inl rfl) f
    cases fs with
    | nil => simp [readLine?, joinFields, splitOn_of_not_mem ht, readField?_writeField]
    | cons g gs =>
      have ih := ih (List.cons_ne_nil g gs)
      unfold readLine? at ih ⊢
      simp only [List.map_cons, joinFields] at ih ⊢
      rw [splitOn_append ht, List.mapM_cons, ih, readField?_writeField]
      rfl

theorem joinFields_ne_endMark (fs : List (Option (List Char))) :
    joinFields (fs.map writeField) ≠ endMark := by
  cases fs with
  | nil => decide
  | cons f fs =>
    cases fs with
    | nil =>
      cases f with
      | none => decide
      | some cs => exact escape_ne_mark (by decide) cs
    | cons g gs =>
      intro h
      have ht : '\t' ∈ endMark := by
        rw [← h]
        simp [joinFields]
      exact absurd ht (by decide)

theorem splitOn_writeRow (rows : List (List (Option (List Char)))) :
    splitOn '\n' (rows.map writeRow).flatten =
      rows.map (fun r => joinFields (r.map writeField)) ++ [[]] := by
  induction rows with
  | nil => rfl
  | cons r rows ih =>
    simp only [List.map_cons, List.flatten_cons, writeRow, List.append_assoc,
      List.singleton_append] at ih ⊢
    rw [splitOn_append (not_mem_joinFields r), ih]
    rfl

/-- The data of written rows is read back as these rows. -/
theorem readRows?_writeRow (rows : List (List (Option (List Char)))) (h : ∀ r ∈ rows, r ≠ []) :
    readRows? (rows.map writeRow).flatten = some rows := by
  have hsplit := splitOn_writeRow rows
  have hlines : (rows.map fun r => joinFields (r.map writeField)).takeWhile (· ≠ endMark) =
      rows.map fun r => joinFields (r.map writeField) := by
    have hall : ∀ line ∈ rows.map fun r => joinFields (r.map writeField),
        decide (line ≠ endMark) = true := by
      intro line hl
      obtain ⟨r, -, rfl⟩ := List.mem_map.mp hl
      simpa using joinFields_ne_endMark r
    rw [← List.append_nil (rows.map _), List.takeWhile_append_of_pos hall, List.takeWhile_nil]
  rw [readRows?, hsplit, List.dropLast_concat, hlines]
  clear hsplit hlines
  induction rows with
  | nil => rfl
  | cons r rows ih =>
    rw [List.map_cons, List.mapM_cons, readLine?_joinFields (h r List.mem_cons_self),
      ih fun r hr => h r (List.mem_cons_of_mem _ hr)]
    rfl

theorem readRows?_encodeRow (rows : List (List Value)) (h : ∀ r ∈ rows, r ≠ []) :
    readRows? (rows.map encodeRow).flatten = some (rows.map (·.map fieldText)) := by
  have hr := readRows?_writeRow (rows.map (·.map fieldText)) (by simpa using h)
  rwa [List.map_map] at hr

end ChainArchive.Copy
