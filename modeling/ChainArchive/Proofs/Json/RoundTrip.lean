import ChainArchive.Json.Reader
import ChainArchive.Json.Writer

namespace ChainArchive.Json

open ChainArchive.Numeral ChainArchive.Text

inductive Exact : Json → Prop
  | null : Exact .null
  | bool (b : Bool) : Exact (.bool b)
  | int (n : Int) : Exact (.int n)
  | text (s : String) : Exact (.text s)
  | array {items : List Json} : (∀ j ∈ items, Exact j) → Exact (.array items)
  | object {members : List (String × Json)} : (∀ m ∈ members, Exact m.2) → Exact (.object members)

theorem hexQuad?_control : ∀ n < 32, hexQuad? '0' '0' (Nat.digitChar (n / 16))
    (Nat.digitChar (n % 16)) = some n ∧ isHighHalf n = false ∧ isLowHalf n = false := by
  decide

theorem hexDigits_control {n : Nat} (hn : n < 32) :
    hexDigits 4 n = ['0', '0', Nat.digitChar (n / 16), Nat.digitChar (n % 16)] := by
  have hhigh : n / 16 / 16 = 0 := by omega
  have hmod : n / 16 % 16 = n / 16 := by omega
  simp [hexDigits, hhigh, hmod]

theorem readString_control {c : Char} (hc : c.toNat < 32) (cs : List Char) :
    readString ('\\' :: 'u' :: hexDigits 4 c.toNat ++ cs) =
      (readString cs).map fun (ds, rest) => (c :: ds, rest) := by
  obtain ⟨hquad, hhigh, hlow⟩ := hexQuad?_control c.toNat hc
  rw [hexDigits_control hc]
  simp only [List.cons_append, List.nil_append]
  -- Another escape of four digits after this one could be the second half of a pair.
  by_cases h : ∃ a b d e rest, cs = '\\' :: 'u' :: a :: b :: d :: e :: rest
  · obtain ⟨a, b, d, e, rest, rfl⟩ := h
    rw [readString.eq_3, hquad]
    simp only [Option.bind_eq_bind, Option.bind_some, hhigh, hlow, Bool.false_eq_true, ↓reduceIte,
      Char.ofNat_toNat]
    cases readString ('\\' :: 'u' :: a :: b :: d :: e :: rest) <;> rfl
  · rw [readString.eq_4 _ _ _ _ _ fun a b d e rest hcs => h ⟨a, b, d, e, rest, hcs⟩, hquad]
    simp only [Option.bind_eq_bind, Option.bind_some, hhigh, hlow, Bool.or_self, Bool.false_eq_true,
      ↓reduceIte, Char.ofNat_toNat]
    cases readString cs <;> rfl

theorem readString_letter {c d : Char} (hd : unescape? d = some c) (hu : d ≠ 'u')
    (cs : List Char) :
    readString ('\\' :: d :: cs) = (readString cs).map fun (ds, rest) => (c :: ds, rest) := by
  rw [readString.eq_5 d cs (fun _ _ _ _ _ _ _ _ _ h _ => hu h) (fun _ _ _ _ _ h _ => hu h), hd]
  simp only [Option.bind_eq_bind, Option.bind_some]
  cases readString cs <;> rfl

theorem readString_plain {c : Char} (hq : c ≠ '"') (hb : c ≠ '\\') (hc : ¬ c.toNat < 32)
    (cs : List Char) :
    readString (c :: cs) = (readString cs).map fun (ds, rest) => (c :: ds, rest) := by
  rw [readString.eq_6 c cs hq (fun _ _ _ _ _ _ _ _ _ h _ => hb h) (fun _ _ _ _ _ h _ => hb h)
    (fun _ _ h _ => hb h)]
  simp only [beq_eq_false_iff_ne.mpr hb, hc, decide_false, Bool.or_self, Bool.false_eq_true,
    ↓reduceIte, Option.bind_eq_bind]
  cases readString cs <;> rfl

def letters : List (Char × Char) := [('"', '"'), ('\\', '\\'), ('\n', 'n'), ('\r', 'r'),
  ('\t', 't'), (Char.ofNat 8, 'b'), (Char.ofNat 12, 'f')]

theorem escapeChar_letter : ∀ p ∈ letters,
    escapeChar p.1 = ['\\', p.2] ∧ unescape? p.2 = some p.1 ∧ p.2 ≠ 'u' := by
  decide

theorem escapeChar_other {c : Char} (h : ∀ p ∈ letters, p.1 ≠ c) :
    escapeChar c = if c.toNat < 32 then '\\' :: 'u' :: hexDigits 4 c.toNat else [c] := by
  simp only [letters, List.forall_mem_cons] at h
  obtain ⟨hquote, hslash, hn, hr, ht, hb, hf, -⟩ := h
  have hb' : c.toNat ≠ 8 := fun e => hb (by rw [← e, Char.ofNat_toNat])
  have hf' : c.toNat ≠ 12 := fun e => hf (by rw [← e, Char.ofNat_toNat])
  simp [escapeChar, hquote.symm, hslash.symm, hn.symm, hr.symm, ht.symm, hb', hf']

theorem readString_escapeChar (c : Char) (cs : List Char) :
    readString (escapeChar c ++ cs) =
      (readString cs).map fun (ds, rest) => (c :: ds, rest) := by
  by_cases h : ∀ p ∈ letters, p.1 ≠ c
  · rw [escapeChar_other h]
    split
    · next hc => exact readString_control hc cs
    · next hc =>
      have hquote : '"' ≠ c := h ('"', '"') (by decide)
      have hslash : '\\' ≠ c := h ('\\', '\\') (by decide)
      exact readString_plain hquote.symm hslash.symm hc cs
  · obtain ⟨p, hp, rfl⟩ : ∃ p ∈ letters, p.1 = c := by simpa using h
    obtain ⟨he, hread, hu⟩ := escapeChar_letter p hp
    rw [he]
    exact readString_letter hread hu cs

theorem readString_writeText (s : String) (rest : List Char) :
    readString (s.toList.flatMap escapeChar ++ '"' :: rest) = some (s.toList, rest) := by
  induction s.toList with
  | nil => simp [readString]
  | cons c cs ih =>
    rw [List.flatMap_cons, List.append_assoc, readString_escapeChar, ih]
    rfl

/-- A text that does not go on with a number, as it has to be after one that is to be read back. -/
def EndsNumber (rest : List Char) : Prop :=
  ∀ c cs, rest = c :: cs → c.isDigit = false ∧ c ≠ '.' ∧ c ≠ 'e' ∧ c ≠ 'E'

theorem natOfDigits_toDigits (n : Nat) : natOfDigits (Nat.toDigits 10 n) = n := by
  have h : natOfDigits (Nat.toDigits 10 n) = Nat.ofDigitChars 10 (Nat.toDigits 10 n) 0 := by
    simp [natOfDigits, ofDigits, Nat.ofDigitChars, List.foldl_map]
  rw [h, Nat.ofDigitChars_ten_toDigits]

theorem spanDigits_append {ds rest : List Char} (hds : ∀ c ∈ ds, c.isDigit = true)
    (hrest : EndsNumber rest) : spanDigits (ds ++ rest) = (ds, rest) := by
  have hstop : rest.takeWhile Char.isDigit = [] ∧ rest.dropWhile Char.isDigit = rest := by
    cases rest with
    | nil => exact ⟨rfl, rfl⟩
    | cons c cs => simp [(hrest c cs rfl).1]
  rw [spanDigits, List.takeWhile_append_of_pos hds, List.dropWhile_append_of_pos hds, hstop.1,
    hstop.2, List.append_nil]

theorem head?_toDigits {n : Nat} (hn : 0 < n) : (Nat.toDigits 10 n).head? ≠ some '0' := by
  induction n using Nat.strongRecOn with
  | _ n ih =>
    rw [Nat.toDigits_eq_if (by decide)]
    split
    · next hlt =>
      have hchar : ∀ d < 10, 0 < d → Nat.digitChar d ≠ '0' := by decide
      simpa using hchar n hlt hn
    · next hge =>
      have hrec := ih (n / 10) (by omega) (by omega)
      rwa [List.head?_append, Option.or_of_isSome
        (List.isSome_head?.mpr Nat.toDigits_ne_nil)]

/-- The numeral of a number has no leading zero: it is read whatever its length. -/
theorem readMagnitude?_toDigits (negative : Bool) (n : Nat) {rest : List Char}
    (hrest : EndsNumber rest) :
    readMagnitude? negative (Nat.toDigits 10 n ++ rest) = some (.int (signed negative n), rest) := by
  have hdigits : ∀ c ∈ Nat.toDigits 10 n, c.isDigit = true :=
    fun c => Nat.isDigit_of_mem_toDigits (by decide) (by decide)
  have hzero : (1 < (Nat.toDigits 10 n).length && (Nat.toDigits 10 n).head? == some '0') =
      false := by
    rcases Nat.eq_zero_or_pos n with rfl | hn
    · rfl
    · simp [head?_toDigits hn]
  have hfraction : readFraction? rest = some (none, rest) := by
    cases rest with
    | nil => rfl
    | cons c cs => exact readFraction?.eq_2 _ fun _ h => (hrest c cs rfl).2.1 (List.cons.inj h).1
  have hexponent : readExponent? rest = some (none, rest) := by
    cases rest with
    | nil => rfl
    | cons c cs => simp [readExponent?, hrest c cs rfl]
  simp [readMagnitude?, spanDigits_append hdigits hrest, hzero, hfraction, hexponent,
    Nat.toDigits_ne_nil, natOfDigits_toDigits]

theorem toDigits_eq_cons (n : Nat) : ∃ c cs, Nat.toDigits 10 n = c :: cs ∧ c.isDigit = true := by
  obtain ⟨c, cs, hc⟩ := List.exists_cons_of_ne_nil (Nat.toDigits_ne_nil (n := n) (b := 10))
  have hmem : c ∈ Nat.toDigits 10 n := hc ▸ List.mem_cons_self
  exact ⟨c, cs, hc, Nat.isDigit_of_mem_toDigits (by decide) (by decide) hmem⟩

theorem toString_eq_cons (n : Int) :
    ∃ c cs, (toString n).toList = c :: cs ∧ (c.isDigit = true ∨ c = '-') := by
  rw [Int.toString_eq_repr, Int.repr_eq_if]
  split
  · obtain ⟨c, cs, hc, hdigit⟩ := toDigits_eq_cons n.toNat
    exact ⟨c, cs, by rw [Nat.toList_repr, hc], .inl hdigit⟩
  · exact ⟨'-', (-n).toNat.repr.toList, by rw [String.toList_append]; rfl, .inr rfl⟩

theorem readNumber?_toString (n : Int) {rest : List Char} (hrest : EndsNumber rest) :
    readNumber? ((toString n).toList ++ rest) = some (.int n, rest) := by
  rw [Int.toString_eq_repr, Int.repr_eq_if]
  split
  · next hn =>
    have hminus : ∀ cs, Nat.toDigits 10 n.toNat ++ rest ≠ '-' :: cs := by
      intro cs h
      obtain ⟨c, ds, hc, hdigit⟩ := toDigits_eq_cons n.toNat
      rw [hc, List.cons_append] at h
      rw [(List.cons.inj h).1] at hdigit
      exact absurd hdigit (by decide)
    rw [Nat.toList_repr, readNumber?.eq_2 _ hminus, readMagnitude?_toDigits false _ hrest]
    simp [signed, Int.toNat_of_nonneg hn]
  · next hn =>
    have hminus : ("-" ++ (-n).toNat.repr).toList = '-' :: Nat.toDigits 10 (-n).toNat := by
      rw [String.toList_append, Nat.toList_repr]
      rfl
    have hvalue : signed true (-n).toNat = n := by
      simp only [signed, ↓reduceIte]
      omega
    rw [hminus, List.cons_append, readNumber?, readMagnitude?_toDigits true _ hrest, hvalue]

theorem not_number : ∀ c ∈ [' ', '\t', '\n', '\r', '"', '[', ']', '{', 'n', 't', 'f'],
    ¬ (c.isDigit = true ∨ c = '-') := by
  simp [Char.isDigit]

theorem endsNumber_cons {c : Char} (hc : c ∈ [',', ']', '}']) (cs : List Char) :
    EndsNumber (c :: cs) := by
  have hall : ∀ c ∈ [',', ']', '}'], c.isDigit = false ∧ c ≠ '.' ∧ c ≠ 'e' ∧ c ≠ 'E' := by
    simp [Char.isDigit]
  rintro d ds h
  cases h
  exact hall c hc

theorem Exact.write_eq_cons {j : Json} (h : Exact j) :
    ∃ c cs, write j = c :: cs ∧ c ∉ [' ', '\t', '\n', '\r', ']'] := by
  cases h with
  | null => exact ⟨'n', _, rfl, by decide⟩
  | bool b => cases b <;> exact ⟨_, _, rfl, by decide⟩
  | int n =>
    obtain ⟨c, cs, hc, hn⟩ := toString_eq_cons n
    have hsub : [' ', '\t', '\n', '\r', ']'] ⊆
        [' ', '\t', '\n', '\r', '"', '[', ']', '{', 'n', 't', 'f'] := by decide
    exact ⟨c, cs, by rw [write, hc], fun hm => not_number c (hsub hm) hn⟩
  | text s => exact ⟨'"', _, rfl, by decide⟩
  | array h => exact ⟨'[', _, rfl, by decide⟩
  | object h => exact ⟨'\x7b', _, rfl, by decide⟩

theorem skipBlanks_cons {c : Char} (hc : c ∉ [' ', '\t', '\n', '\r']) (cs : List Char) :
    skipBlanks (c :: cs) = c :: cs := by
  simp only [List.mem_cons, List.not_mem_nil, or_false, not_or] at hc
  simp [skipBlanks, hc]

/-- A value is read from its text and from any longer text, with fuel for its length. -/
def Readable (j : Json) : Prop :=
  ∀ fuel rest, (write j).length ≤ fuel → EndsNumber rest →
    readValue fuel (write j ++ rest) = some (j, rest)

theorem writeItems_cons (j k : Json) (items : List Json) :
    writeItems (j :: k :: items) = write j ++ ',' :: writeItems (k :: items) := by
  rw [writeItems.eq_3 _ _ (List.cons_ne_nil k items)]

theorem writeMembers_cons (key : String) (j : Json) (m : String × Json)
    (members : List (String × Json)) : writeMembers ((key, j) :: m :: members) =
      writeText key ++ ':' :: write j ++ ',' :: writeMembers (m :: members) := by
  rw [writeMembers.eq_3 _ _ _ (List.cons_ne_nil m members)]

theorem Exact.writeItems_eq_cons {j : Json} (h : Exact j) (items : List Json) :
    ∃ c cs, writeItems (j :: items) = c :: cs ∧ c ∉ [' ', '\t', '\n', '\r', ']'] := by
  obtain ⟨c, cs, hc, hmem⟩ := h.write_eq_cons
  cases items with
  | nil => exact ⟨c, cs, by rw [writeItems, hc], hmem⟩
  | cons k items => exact ⟨c, _, by rw [writeItems_cons, hc, List.cons_append], hmem⟩

theorem writeMembers_eq_cons (m : String × Json) (members : List (String × Json)) :
    ∃ cs, writeMembers (m :: members) = '"' :: cs := by
  cases members with
  | nil => exact ⟨_, by rw [writeMembers, writeText, List.cons_append]; rfl⟩
  | cons m' members => exact ⟨_, by rw [writeMembers_cons, writeText, List.cons_append]; rfl⟩

theorem readItems_writeItems {items : List Json} (hne : items ≠ [])
    (h : ∀ j ∈ items, Readable j) (fuel : Nat) (hf : (writeItems items).length < fuel)
    (rest : List Char) :
    readItems fuel (writeItems items ++ ']' :: rest) = some (items, rest) := by
  induction items generalizing fuel with
  | nil => exact absurd rfl hne
  | cons j items ih =>
    obtain ⟨fuel, rfl⟩ : ∃ n, fuel = n + 1 := Nat.exists_eq_add_one.mpr (by omega)
    have hj := h j List.mem_cons_self
    cases items with
    | nil =>
      rw [writeItems] at hf ⊢
      have hread := hj fuel (']' :: rest) (by omega) (endsNumber_cons (by decide) _)
      simp [readItems, hread, skipBlanks]
    | cons k items =>
      rw [writeItems_cons] at hf ⊢
      simp only [List.length_append, List.length_cons] at hf
      have hread := hj fuel (',' :: (writeItems (k :: items) ++ ']' :: rest)) (by omega)
        (endsNumber_cons (by decide) _)
      have htail := ih (List.cons_ne_nil k items) (fun i hi => h i (List.mem_cons_of_mem _ hi))
        fuel (by omega)
      rw [List.append_assoc, List.cons_append, readItems, hread]
      simp [skipBlanks, htail]

theorem readMembers_writeMembers {members : List (String × Json)} (hne : members ≠ [])
    (h : ∀ m ∈ members, Readable m.2) (fuel : Nat) (hf : (writeMembers members).length < fuel)
    (rest : List Char) :
    readMembers fuel (writeMembers members ++ '\x7d' :: rest) = some (members, rest) := by
  induction members generalizing fuel with
  | nil => exact absurd rfl hne
  | cons m members ih =>
    obtain ⟨key, j⟩ := m
    obtain ⟨fuel, rfl⟩ : ∃ n, fuel = n + 1 := Nat.exists_eq_add_one.mpr (by omega)
    have hj : Readable j := h (key, j) List.mem_cons_self
    cases members with
    | nil =>
      rw [writeMembers] at hf ⊢
      simp only [List.length_append, List.length_cons] at hf
      have hread := hj fuel ('\x7d' :: rest) (by omega) (endsNumber_cons (by decide) _)
      simp [readMembers, writeText, readString_writeText, hread, skipBlanks]
    | cons m members =>
      rw [writeMembers_cons] at hf ⊢
      simp only [List.length_append, List.length_cons] at hf
      have hread := hj fuel (',' :: (writeMembers (m :: members) ++ '\x7d' :: rest)) (by omega)
        (endsNumber_cons (by decide) _)
      -- The comma has used up some of the text, and of the fuel with it.
      have htail := ih (List.cons_ne_nil m members) (fun i hi => h i (List.mem_cons_of_mem _ hi))
        fuel (by omega)
      simp [readMembers, writeText, readString_writeText, hread, htail, skipBlanks]

theorem Readable.of_succ {j : Json} (hj : Exact j) (h : ∀ fuel rest, (write j).length ≤ fuel + 1 →
    EndsNumber rest → readValue (fuel + 1) (write j ++ rest) = some (j, rest)) : Readable j := by
  intro fuel rest hf hrest
  obtain ⟨c, cs, hc, -⟩ := hj.write_eq_cons
  obtain ⟨fuel, rfl⟩ : ∃ n, fuel = n + 1 :=
    Nat.exists_eq_add_one.mpr (by rw [hc, List.length_cons] at hf; omega)
  exact h fuel rest hf hrest

theorem readable_int (n : Int) : Readable (.int n) := by
  refine .of_succ (.int n) fun fuel rest _ hrest => ?_
  obtain ⟨c, cs, hc, hn⟩ := toString_eq_cons n
  have hread := readNumber?_toString n hrest
  have hne : ∀ d ∈ [' ', '\t', '\n', '\r', '"', '[', ']', '\x7b', 'n', 't', 'f'], c ≠ d :=
    fun d hd e => not_number d hd (e ▸ hn)
  simp only [List.forall_mem_cons] at hne
  rw [hc, List.cons_append] at hread
  rw [write, hc, List.cons_append, readValue, skipBlanks_cons (by simp [hne])]
  simp [hne, hread]

theorem readable_text (s : String) : Readable (.text s) := by
  refine .of_succ (.text s) fun fuel rest _ _ => ?_
  rw [write, writeText, List.cons_append, List.cons_append, List.append_assoc,
    List.singleton_append, readValue, skipBlanks_cons (by decide)]
  simp [readString_writeText]

theorem readable_array {items : List Json} (hitems : ∀ j ∈ items, Exact j)
    (h : ∀ j ∈ items, Readable j) : Readable (.array items) := by
  refine .of_succ (.array hitems) fun fuel rest hf _ => ?_
  rw [write] at hf ⊢
  simp only [List.cons_append, List.length_cons, List.length_append, List.append_assoc,
    List.nil_append] at hf ⊢
  rw [readValue, skipBlanks_cons (by decide)]
  cases items with
  | nil => simp [writeItems, skipBlanks]
  | cons j items =>
    have hread := readItems_writeItems (List.cons_ne_nil j items) h fuel (by omega) rest
    obtain ⟨c, cs, hc, hmem⟩ := (hitems j List.mem_cons_self).writeItems_eq_cons items
    simp only [List.mem_cons, List.not_mem_nil, or_false, not_or] at hmem
    rw [hc, List.cons_append] at hread ⊢
    have hskip := skipBlanks_cons (c := c) (by simp [hmem]) (cs ++ ']' :: rest)
    simp [hskip, hread, hmem]

theorem readable_object {members : List (String × Json)} (hmembers : ∀ m ∈ members, Exact m.2)
    (h : ∀ m ∈ members, Readable m.2) : Readable (.object members) := by
  refine .of_succ (.object hmembers) fun fuel rest hf _ => ?_
  rw [write] at hf ⊢
  simp only [List.cons_append, List.length_cons, List.length_append, List.append_assoc,
    List.nil_append] at hf ⊢
  rw [readValue, skipBlanks_cons (by decide)]
  cases members with
  | nil => simp [writeMembers, skipBlanks]
  | cons m members =>
    have hread := readMembers_writeMembers (List.cons_ne_nil m members) h fuel (by omega)
      rest
    obtain ⟨cs, hc⟩ := writeMembers_eq_cons m members
    rw [hc, List.cons_append] at hread ⊢
    have hskip := skipBlanks_cons (c := '"') (by decide) (cs ++ '\x7d' :: rest)
    simp [hskip, hread]

theorem Exact.readable {j : Json} (h : Exact j) : Readable j := by
  induction h with
  | null => exact .of_succ .null fun _ _ _ _ => rfl
  | bool b => exact .of_succ (.bool b) fun _ _ _ _ => by cases b <;> rfl
  | int n => exact readable_int n
  | text s => exact readable_text s
  | array h ih => exact readable_array h ih
  | object h ih => exact readable_object h ih

/-- The compact text of a value without floats is read as that value. -/
theorem read?_render {j : Json} (h : Exact j) : read? (render j) = some j := by
  have hread : readValue (2 * (write j).length + 2) (write j) = some (j, []) := by
    have hj := h.readable (2 * (write j).length + 2) [] (by omega) (fun _ _ h => by cases h)
    rwa [List.append_nil] at hj
  simp [read?, render, hread, skipBlanks]

end ChainArchive.Json
