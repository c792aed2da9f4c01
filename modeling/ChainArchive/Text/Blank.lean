namespace ChainArchive.Text

/-- The characters with the Unicode property `White_Space`. -/
def isWhite (c : Char) : Bool :=
  let n := c.toNat
  (9 ≤ n && n ≤ 13) || n == 0x20 || n == 0x85 || n == 0xa0 || n == 0x1680 ||
    (0x2000 ≤ n && n ≤ 0x200a) || n == 0x2028 || n == 0x2029 || n == 0x202f ||
    n == 0x205f || n == 0x3000

/-- White space together with the information separators U+001C to U+001F. -/
def isBlank (c : Char) : Bool :=
  isWhite c || (0x1c ≤ c.toNat && c.toNat ≤ 0x1f)

def trimBoth (p : Char → Bool) (cs : List Char) : List Char :=
  ((cs.dropWhile p).reverse.dropWhile p).reverse

def strip (s : String) : String :=
  String.ofList (trimBoth isBlank s.toList)

section Trim

variable {p : Char → Bool} {c : Char} {cs tail : List Char}

theorem trimBoth_cons (hc : p c = true) : trimBoth p (c :: cs) = trimBoth p cs := by
  rw [trimBoth, List.dropWhile_cons_of_pos hc, trimBoth]

theorem trimBoth_append (hne : cs ≠ []) (hfirst : ∀ c ∈ cs.head?, p c = false)
    (hlast : ∀ c ∈ cs.getLast?, p c = false) (htail : ∀ c ∈ tail, p c = true) :
    trimBoth p (cs ++ tail) = cs := by
  have hkeep : ∀ ds rest : List Char, ds ≠ [] → (∀ c ∈ ds.head?, p c = false) →
      (ds ++ rest).dropWhile p = ds ++ rest := by
    intro ds rest hds hd
    cases ds with
    | nil => exact absurd rfl hds
    | cons d ds => simp [hd d rfl]
  have hback := hkeep cs.reverse [] (by simpa using hne) (by simpa using hlast)
  rw [List.append_nil] at hback
  rw [trimBoth, hkeep cs tail hne hfirst, List.reverse_append,
    List.dropWhile_append_of_pos (by simpa using htail), hback, List.reverse_reverse]

theorem trimBoth_eq_self (h : ∀ c ∈ cs, p c = false) : trimBoth p cs = cs := by
  cases cs with
  | nil => rfl
  | cons c cs =>
    have hall := trimBoth_append (List.cons_ne_nil c cs)
      (fun d hd => h d (List.mem_of_mem_head? hd)) (fun d hd => h d (List.mem_of_getLast? hd))
      (fun d hd => absurd hd List.not_mem_nil)
    rwa [List.append_nil] at hall

end Trim

theorem strip_eq_self {s : String} (h : ∀ c ∈ s.toList, isBlank c = false) : strip s = s := by
  rw [strip, trimBoth_eq_self h, String.ofList_toList]

end ChainArchive.Text
