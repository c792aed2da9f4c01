import ChainArchive.Numeral.Lenient
import ChainArchive.Proofs.Json.RoundTrip
import ChainArchive.Proofs.Url.RoundTrip
import Mathlib.Data.List.TakeWhile

namespace ChainArchive.Numeral

open ChainArchive.Json ChainArchive.Text

theorem digitValue?_of_isDigit {c : Char} (h : c.isDigit = true) :
    digitValue? c = some (c.toNat - 48) := by
  have hrange : 48 ≤ c.toNat ∧ c.toNat < 58 := by
    simp only [Char.isDigit, Bool.and_eq_true, decide_eq_true_eq] at h
    exact ⟨h.1, Nat.lt_succ_of_le h.2⟩
  have hfind : digitZeros.find? (fun z => z ≤ c.toNat && c.toNat < z + 10) = some 0x30 := by
    simp [digitZeros, hrange.1, hrange.2]
  rw [digitValue?, hfind]
  rfl

theorem isWhite_of_digitValue? {c : Char} {d : Nat} (h : digitValue? c = some d) :
    isWhite c = false := by
  have hnone : ∀ z ∈ digitZeros, ∀ k < 10, isWhite (Char.ofNat (z + k)) = false := by
    decide +kernel
  obtain ⟨z, hz, -⟩ := Option.map_eq_some_iff.mp h
  have hrange := List.find?_some hz
  simp only [Bool.and_eq_true, decide_eq_true_eq] at hrange
  have hc := hnone z (List.mem_of_find?_eq_some hz) (c.toNat - z) (by omega)
  rwa [Nat.add_sub_cancel' hrange.1, Char.ofNat_toNat] at hc

def inRun (c : Char) : Bool := c == '_' || (digitValue? c).isSome

theorem isWhite_of_inRun {c : Char} (h : inRun c = true) : isWhite c = false := by
  simp only [inRun, Bool.or_eq_true, beq_iff_eq, Option.isSome_iff_exists] at h
  obtain rfl | ⟨d, hd⟩ := h
  · decide
  · exact isWhite_of_digitValue? hd

theorem inRun_of_isDigit {c : Char} (h : c.isDigit = true) : inRun c = true := by
  simp [inRun, digitValue?_of_isDigit h]

def digitValues (cs : List Char) : List Nat := cs.filterMap digitValue?

theorem natOfDigits_eq {cs : List Char} (h : ∀ c ∈ cs, c.isDigit = true) :
    natOfDigits cs = ofDigits (digitValues cs) := by
  rw [natOfDigits, digitValues]
  congr 1
  induction cs with
  | nil => rfl
  | cons c cs ih =>
    obtain ⟨hc, hcs⟩ := List.forall_mem_cons.mp h
    rw [List.map_cons, List.filterMap_cons_some (digitValue?_of_isDigit hc), ih hcs]

theorem ofDigits_zero_cons (ds : List Nat) : ofDigits (0 :: ds) = ofDigits ds := rfl

inductive AfterSign : List Char → Bool → List Char → Prop
  | minus (cs : List Char) : AfterSign ('-' :: cs) true cs
  | plus (cs : List Char) : AfterSign ('+' :: cs) false cs
  | bare {cs : List Char} : cs.head? ≠ some '-' → cs.head? ≠ some '+' → AfterSign cs false cs

theorem afterSign_readSign (cs : List Char) : AfterSign cs (readSign cs).1 (readSign cs).2 := by
  unfold readSign
  split
  · exact .minus _
  · exact .plus _
  · next hminus hplus =>
    refine .bare (fun h => ?_) fun h => ?_
    · obtain ⟨rest, rfl⟩ := List.head?_eq_some_iff.mp h
      exact hminus rest rfl
    · obtain ⟨rest, rfl⟩ := List.head?_eq_some_iff.mp h
      exact hplus rest rfl

theorem AfterSign.readSign_eq {cs body : List Char} {negative : Bool}
    (h : AfterSign cs negative body) : readSign cs = (negative, body) := by
  cases h with
  | minus | plus => rfl
  | bare hminus hplus =>
    unfold readSign
    split
    · exact absurd rfl hminus
    · exact absurd rfl hplus
    · rfl

/-- A run of digits and underscores that starts and ends with a digit: what both readers of numerals
have in common. -/
structure Run (run : List Char) : Prop where
  inRun_of_mem : ∀ c ∈ run, inRun c = true
  grouped : groupedAfter false run = true

theorem Run.exists_cons {run : List Char} (h : Run run) :
    ∃ c rest, run = c :: rest ∧ c ≠ '_' := by
  cases run with
  | nil => exact absurd h.grouped (by decide)
  | cons c rest =>
    refine ⟨c, rest, rfl, ?_⟩
    rintro rfl
    exact absurd h.grouped (by simp [groupedAfter])

theorem Run.not_mem {run : List Char} (h : Run run) {c : Char} (hc : inRun c = false) :
    c ∉ run := fun hm => by
  rw [h.inRun_of_mem c hm] at hc
  cases hc

theorem readDigits_eq_some {cs rest : List Char} {ds : List Nat}
    (h : readDigits cs = some (ds, rest)) :
    ∃ run, cs = run ++ rest ∧ Run run ∧ ds = digitValues run := by
  simp only [readDigits, Option.ite_none_right_eq_some, Option.some.injEq, Prod.mk.injEq] at h
  obtain ⟨hgrouped, rfl, rfl⟩ := h
  refine ⟨cs.takeWhile inRun, List.takeWhile_append_dropWhile.symm, ⟨fun c hc => ?_, hgrouped⟩, rfl⟩
  exact List.all_eq_true.mp List.all_takeWhile c hc

theorem Run.isWhite_getLast? {run : List Char} (h : Run run) :
    ∀ c ∈ run.getLast?, isWhite c = false := fun c hc =>
  isWhite_of_inRun (h.inRun_of_mem c (List.mem_of_getLast? hc))

theorem AfterSign.trim {cs run tail : List Char} {negative : Bool}
    (h : AfterSign cs negative (run ++ tail)) (hrun : Run run)
    (htail : ∀ c ∈ tail, isWhite c = true) : AfterSign (trimBoth isWhite cs) negative run := by
  obtain ⟨c, rest, rfl, -⟩ := hrun.exists_cons
  have hc : inRun c = true := hrun.inRun_of_mem c List.mem_cons_self
  have hlast := hrun.isWhite_getLast?
  have hsigned : ∀ sign, isWhite sign = false →
      trimBoth isWhite (sign :: (c :: rest ++ tail)) = sign :: c :: rest := by
    intro sign hsign
    rw [← List.cons_append]
    refine trimBoth_append (by simp) ?_ ?_ htail
    · simpa using hsign
    · simpa [List.getLast?_cons_cons] using hlast
  cases h with
  | minus =>
    rw [hsigned '-' (by decide)]
    exact .minus _
  | plus =>
    rw [hsigned '+' (by decide)]
    exact .plus _
  | bare hminus hplus =>
    rw [trimBoth_append (by simp) (by simpa using isWhite_of_inRun hc) hlast htail]
    exact .bare (by simpa using hminus) (by simpa using hplus)

theorem trimBoth_dropWhile (p : Char → Bool) (cs : List Char) :
    trimBoth p (cs.dropWhile p) = trimBoth p cs := by
  induction cs with
  | nil => rfl
  | cons c cs ih =>
    by_cases hc : p c = true
    · rw [List.dropWhile_cons_of_pos hc, trimBoth_cons hc, ih]
    · rw [List.dropWhile_cons_of_neg hc]

/-- Without the white space at its ends a numeral in free form is a run behind at most a sign. -/
theorem exists_run_of_readInteger {s : String} {n : Int} (h : readInteger s = .ok n) :
    ∃ negative run, AfterSign (trimBoth isWhite s.toList) negative run ∧ Run run ∧
      n = signed negative (ofDigits (digitValues run)) := by
  simp only [readInteger] at h
  have hsign := afterSign_readSign (s.toList.dropWhile isWhite)
  generalize (readSign (s.toList.dropWhile isWhite)).1 = negative,
    (readSign (s.toList.dropWhile isWhite)).2 = body at h hsign
  split at h
  · cases h
  · next ds tail hread =>
    obtain ⟨run, rfl, hrun, rfl⟩ := readDigits_eq_some hread
    split at h
    · cases h
    split at h
    · next htail =>
      cases h
      rw [List.all_eq_true] at htail
      refine ⟨negative, run, ?_, hrun, rfl⟩
      rw [← trimBoth_dropWhile]
      exact hsign.trim hrun htail
    · cases h

theorem mem_of_afterZeros? {last : Char} {cs ds : List Char} (h : afterZeros? last cs = some ds) :
    ∀ c ∈ ds, c = last ∨ c ∈ cs := by
  fun_induction afterZeros? last cs with
  | case1 last =>
    cases h
    simp
  | case2 last c rest hc ih =>
    intro d hd
    obtain rfl | hd := ih h d hd
    · exact .inr List.mem_cons_self
    · exact .inr (List.mem_cons_of_mem _ hd)
  | case3 last c rest hc hstop =>
    cases h
    exact fun d hd => .inr hd
  | case4 last c rest hc hstop hpoint =>
    cases h
    simp
  | case5 => cases h

/-- Zeros and underscores in front do not count. -/
theorem digitValues_afterZeros? {last : Char} {cs ds : List Char}
    (hlast : last = '0' ∨ last = '_') (h : afterZeros? last cs = some ds) :
    ofDigits (digitValues ds) = ofDigits (digitValues cs) := by
  have hfront : ∀ c, c = '0' ∨ c = '_' → ∀ rest,
      ofDigits (digitValues (c :: rest)) = ofDigits (digitValues rest) := by
    rintro c (rfl | rfl) rest
    · exact ofDigits_zero_cons _
    · rfl
  fun_induction afterZeros? last cs with
  | case1 last =>
    cases h
    exact hfront last hlast []
  | case2 last c rest hc ih =>
    have hc : c = '0' ∨ c = '_' := by simpa using hc
    rw [ih hc h, hfront c hc]
  | case3 last c rest hc hstop =>
    cases h
    rfl
  | case4 last c rest hc hstop hpoint =>
    cases h
    exact hfront last hlast _
  | case5 => cases h

theorem mem_of_dropZeros? {cs ds : List Char} (h : dropZeros? cs = some ds) :
    ∀ c ∈ ds, c ∈ cs := by
  cases cs with
  | nil => cases h
  | cons d cs =>
    rw [dropZeros?] at h
    split at h
    · intro c hc
      obtain rfl | hc := mem_of_afterZeros? h c hc
      · exact List.mem_cons_self
      · exact List.mem_cons_of_mem _ hc
    · split at h
      · cases h
        exact fun c hc => hc
      · cases h

theorem digitValues_dropZeros? {cs ds : List Char} (h : dropZeros? cs = some ds) :
    ofDigits (digitValues ds) = ofDigits (digitValues cs) := by
  cases cs with
  | nil => cases h
  | cons d cs =>
    rw [dropZeros?] at h
    split at h
    · next hd =>
      obtain rfl : d = '0' := by simpa using hd
      exact digitValues_afterZeros? (.inl rfl) h
    · split at h
      · cases h
        rfl
      · cases h

theorem mem_of_dropUnderscores {cs : List Char} : ∀ c ∈ dropUnderscores cs, c ∈ cs := by
  unfold dropUnderscores
  split
  · exact fun c hc => hc
  · exact fun c hc => (List.mem_filter.mp hc).1

theorem digitValues_dropUnderscores (cs : List Char) :
    digitValues (dropUnderscores cs) = digitValues cs := by
  unfold dropUnderscores
  split
  · rfl
  · rw [digitValues, List.filterMap_filter, digitValues]
    congr 1
    funext c
    by_cases hc : c = '_'
    · subst hc
      decide
    · simp [hc]

theorem plainBody?_eq_some {cs body : List Char} (hpoint : '.' ∉ cs)
    (h : plainBody? cs = some body) :
    (∀ c ∈ body, c ∈ cs) ∧ ofDigits (digitValues body) = ofDigits (digitValues cs) := by
  obtain ⟨ds, hds, rfl⟩ := Option.map_eq_some_iff.mp h
  have hmem := mem_of_dropZeros? hds
  have hwhole : dropZeroFraction ds = ds := by
    rw [dropZeroFraction, cut_of_not_mem fun hm => hpoint (hmem _ hm)]
  rw [hwhole, digitValues_dropUnderscores, digitValues_dropZeros? hds]
  exact ⟨fun c hc => hmem c (mem_of_dropUnderscores c hc), rfl⟩

theorem plainForm?_of_afterSign {cs run : List Char} {negative : Bool}
    (h : AfterSign (trimBoth isWhite cs) negative run) (hrun : Run run) :
    plainForm? cs = (plainBody? run).map fun body => if negative then '-' :: body else body := by
  obtain ⟨c, rest, rfl, -⟩ := hrun.exists_cons
  have hminus : c ≠ '-' := (List.ne_of_not_mem_cons (hrun.not_mem (by decide))).symm
  have hplus : c ≠ '+' := (List.ne_of_not_mem_cons (hrun.not_mem (by decide))).symm
  unfold plainForm?
  generalize trimBoth isWhite cs = ds at h
  cases h with
  | minus => rfl
  | plus => simp [hminus]
  | bare => simp [hminus, hplus]

theorem readMinus_of_not_mem (negative : Bool) {body : List Char} (h : '-' ∉ body) :
    readMinus (if negative then '-' :: body else body) = (negative, body) := by
  cases negative with
  | true => rfl
  | false =>
    cases body with
    | nil => rfl
    | cons c body =>
      have hc : c ≠ '-' := (List.ne_of_not_mem_cons h).symm
      simp [readMinus, hc]

theorem readPlain?_eq_some {negative : Bool} {body : List Char} {n : Int} (hminus : '-' ∉ body)
    (h : readPlain? (if negative then '-' :: body else body) = some n) :
    n = signed negative (natOfDigits body) ∧ ∀ c ∈ body, c.isDigit = true := by
  simp only [readPlain?, readMinus_of_not_mem _ hminus] at h
  split at h
  · cases h
  · next hform =>
    split at h
    · cases h
    · cases h
      simp only [Bool.or_eq_true, Bool.not_eq_true', not_or, Bool.not_eq_false] at hform
      exact ⟨rfl, List.all_eq_true.mp hform.1.2⟩

/-- A text that both readers accept is the same number for both. -/
theorem readers_agree {s : String} {n m : Int} (h : readInteger s = .ok n)
    (h' : readLenient s = .ok m) : m = n := by
  obtain ⟨negative, run, hsign, hrun, rfl⟩ := exists_run_of_readInteger h
  have hminus : '-' ∉ run := hrun.not_mem (by decide)
  have hpoint : '.' ∉ run := hrun.not_mem (by decide)
  simp only [readLenient] at h'
  split at h'
  · cases h'
  split at h'
  · next k hk =>
    cases h'
    rw [plainForm?_of_afterSign hsign hrun] at hk
    obtain ⟨_, hform, hplain⟩ := Option.bind_eq_some_iff.mp hk
    obtain ⟨body, hbody, rfl⟩ := Option.map_eq_some_iff.mp hform
    obtain ⟨hmem, hvalue⟩ := plainBody?_eq_some hpoint hbody
    obtain ⟨rfl, hdigits⟩ := readPlain?_eq_some (fun hm => hminus (hmem _ hm)) hplain
    rw [natOfDigits_eq hdigits, hvalue]
  · cases h'

section Decimal

variable {ds : List Char}

theorem groupedAfter_of_digits (before : Bool) (h : ∀ c ∈ ds, c.isDigit = true) :
    groupedAfter before ds = (before || !ds.isEmpty) := by
  induction ds generalizing before with
  | nil => simp [groupedAfter]
  | cons c ds ih =>
    obtain ⟨hc, hds⟩ := List.forall_mem_cons.mp h
    have hmark : (c == '_') = false := by
      rw [beq_eq_false_iff_ne]
      rintro rfl
      cases hc
    simp [groupedAfter, hmark, ih true hds]

theorem run_of_digits (hne : ds ≠ []) (h : ∀ c ∈ ds, c.isDigit = true) : Run ds where
  inRun_of_mem c hc := inRun_of_isDigit (h c hc)
  grouped := by simpa [groupedAfter_of_digits false h] using hne

theorem readDigits_of_run (h : Run ds) : readDigits ds = some (digitValues ds, []) := by
  have hrun : ∀ c ∈ ds, (c == '_' || (digitValue? c).isSome) = true := h.inRun_of_mem
  have htake := List.takeWhile_eq_self_iff.mpr hrun
  have hdrop := List.dropWhile_eq_nil_iff.mpr hrun
  simp only [readDigits, htake, hdrop, h.grouped, ↓reduceIte]
  rfl

theorem Run.afterSign (h : Run ds) : AfterSign ds false ds := by
  have hhead : ∀ c, inRun c = false → ds.head? ≠ some c := fun c hc hd =>
    h.not_mem hc (List.mem_of_mem_head? hd)
  exact .bare (hhead '-' (by decide)) (hhead '+' (by decide))

theorem readInteger_of_digits (hne : ds ≠ []) (h : ∀ c ∈ ds, c.isDigit = true)
    (hlength : ds.length ≤ digitLimit) :
    readInteger (String.ofList ds) = .ok (natOfDigits ds) := by
  have hrun := run_of_digits hne h
  have hblank : ds.dropWhile isWhite = ds := by
    obtain ⟨c, rest, rfl, -⟩ := hrun.exists_cons
    have hc := isWhite_of_inRun (hrun.inRun_of_mem c List.mem_cons_self)
    exact List.dropWhile_cons_of_neg (by simp [hc])
  have hsign : readSign ds = (false, ds) := hrun.afterSign.readSign_eq
  have hcount : (digitValues ds).length ≤ digitLimit :=
    Nat.le_trans (List.length_filterMap_le _ _) hlength
  simp only [readInteger, String.toList_ofList, hblank, hsign, readDigits_of_run hrun,
    Nat.not_lt.mpr hcount, ↓reduceIte, List.all_nil, natOfDigits_eq h]
  rfl

theorem readLenient_of_digits (hne : ds ≠ []) (h : ∀ c ∈ ds, c.isDigit = true)
    (hzero : ds.head? = some '0' → ds = ['0']) (hlength : ds.length ≤ digitLimit) :
    readLenient (String.ofList ds) = .ok (natOfDigits ds) := by
  have hrun := run_of_digits hne h
  have hmem : ∀ c, c.isDigit = false → c ∉ ds := fun c hc hm => by
    rw [h c hm] at hc
    cases hc
  have hminus : readMinus ds = (false, ds) :=
    readMinus_of_not_mem false (hmem '-' (by decide))
  have hexcess : excess? ds = none := by
    have hspan : spanDigits (ds ++ []) = (ds, []) := spanDigits_append h nofun
    rw [List.append_nil] at hspan
    simp [excess?, hminus, hspan, hlength]
  have htrim : trimBoth isWhite ds = ds :=
    trimBoth_eq_self fun c hc => isWhite_of_inRun (hrun.inRun_of_mem c hc)
  -- Only the digit zero alone starts with a zero, and it is kept.
  have hdrop : dropZeros? ds = some ds := by
    cases ds with
    | nil => exact absurd rfl hne
    | cons c rest =>
      by_cases hc : c = '0'
      · rw [hzero (by rw [hc]; rfl)]
        rfl
      · simp [dropZeros?, hc, h c List.mem_cons_self]
  have hbody : plainBody? ds = some ds := by
    have hwhole : dropZeroFraction ds = ds := by
      rw [dropZeroFraction, cut_of_not_mem (hmem '.' (by decide))]
    have hmarks : ds.filter (· != '_') = ds :=
      List.filter_eq_self.mpr fun c hc => bne_iff_ne.mpr fun hm => hmem '_' (by decide) (hm ▸ hc)
    rw [plainBody?, hdrop, Option.map_some, hwhole, dropUnderscores, hmarks, ite_self]
  have hform : plainForm? ds = some ds := by
    rw [plainForm?_of_afterSign (by rw [htrim]; exact hrun.afterSign) hrun, hbody]
    rfl
  have hplain : readPlain? ds = some (natOfDigits ds : Int) := by
    have hall : ds.all Char.isDigit = true := List.all_eq_true.mpr h
    have hneedless : (ds.head? == some '0' && ds != ['0']) = false := by
      by_cases hd : ds.head? = some '0'
      · simp [hzero hd]
      · simp [hd]
    simp [readPlain?, hminus, hne, hall, hneedless, Nat.not_lt.mpr hlength, signed]
  simp only [readLenient, String.toList_ofList, hexcess, hform, Option.bind_some, hplain]

end Decimal

theorem toDigits_eq_zero {n : Nat} (h : (Nat.toDigits 10 n).head? = some '0') :
    Nat.toDigits 10 n = ['0'] := by
  obtain rfl | hn := Nat.eq_zero_or_pos n
  · rfl
  · exact absurd h (head?_toDigits hn)

/-- Both readers read the decimal text of a natural number within the limit of digits. -/
theorem read_toString {n : Nat} (h : (toString n).length ≤ digitLimit) :
    readInteger (toString n) = .ok (n : Int) ∧ readLenient (toString n) = .ok (n : Int) := by
  have hdigits : ∀ c ∈ Nat.toDigits 10 n, c.isDigit = true :=
    fun c => Nat.isDigit_of_mem_toDigits (by decide) (by decide)
  rw [Nat.toString_eq_ofList_toDigits] at h ⊢
  rw [String.length_ofList] at h
  rw [readInteger_of_digits Nat.toDigits_ne_nil hdigits h,
    readLenient_of_digits Nat.toDigits_ne_nil hdigits toDigits_eq_zero h, natOfDigits_toDigits]
  exact ⟨rfl, rfl⟩

end ChainArchive.Numeral
