import ChainArchive.Url.Basic

namespace ChainArchive

namespace Text

variable {mark c : Char} {xs ys cs : List Char}

theorem cut_of_not_mem (h : mark ∉ xs) : cut mark xs = (xs, none) := by
  induction xs with
  | nil => rfl
  | cons x xs ih =>
    have hx : (x == mark) = false := beq_false_of_ne (Ne.symm (List.ne_of_not_mem_cons h))
    simp [cut, hx, ih (List.not_mem_of_not_mem_cons h)]

theorem cut_append (h : mark ∉ xs) : cut mark (xs ++ mark :: ys) = (xs, some ys) := by
  induction xs with
  | nil => simp [cut]
  | cons x xs ih =>
    have hx : (x == mark) = false := beq_false_of_ne (Ne.symm (List.ne_of_not_mem_cons h))
    simp [cut, hx, ih (List.not_mem_of_not_mem_cons h)]

theorem mark_not_mem_cut (mark : Char) (cs : List Char) : mark ∉ (cut mark cs).1 := by
  induction cs with
  | nil => exact List.not_mem_nil
  | cons x xs ih =>
    by_cases hx : x = mark
    · simp [cut, hx]
    · simpa [cut, hx] using ⟨Ne.symm hx, ih⟩

theorem mem_of_mem_cut (h : c ∈ (cut mark cs).1) : c ∈ cs := by
  induction cs with
  | nil => exact h
  | cons x xs ih =>
    by_cases hx : x = mark
    · simp [cut, hx] at h
    · simp only [cut, beq_false_of_ne hx, Bool.false_eq_true, ↓reduceIte, List.mem_cons] at h
      exact List.mem_cons.mpr (h.imp_right ih)

theorem mem_of_mem_cut_rest (h : c ∈ (cut mark cs).2.getD []) : c ∈ cs := by
  induction cs with
  | nil => exact h
  | cons x xs ih =>
    by_cases hx : x = mark
    · exact List.mem_cons_of_mem x (by simpa [cut, hx] using h)
    · simp only [cut, beq_false_of_ne hx, Bool.false_eq_true, ↓reduceIte] at h
      exact List.mem_cons_of_mem x (ih h)

end Text

namespace Url

open ChainArchive.Text

theorem ascii_induction {P : Char → Prop} (h : ∀ n < 128, P (Char.ofNat n)) {c : Char}
    (hc : c.toNat < 128) : P c := by
  simpa using h c.toNat hc

theorem lt_of_isAlphanum {c : Char} (h : c.isAlphanum = true) : c.toNat < 128 := by
  have hlt : ∀ n : UInt32, c.val ≤ n → n.toNat < 128 → c.toNat < 128 := fun _ hle =>
    Nat.lt_of_le_of_lt (UInt32.le_iff_toNat_le.mp hle)
  obtain hletter | hdigit := Bool.or_eq_true_iff.mp h
  · obtain hupper | hlower := Bool.or_eq_true_iff.mp hletter
    · exact hlt 'Z'.val (of_decide_eq_true hupper).2 (by decide)
    · exact hlt 'z'.val (of_decide_eq_true (Bool.and_eq_true_iff.mp hlower).2) (by decide)
  · exact hlt '9'.val (of_decide_eq_true (Bool.and_eq_true_iff.mp hdigit).2) (by decide)

theorem lt_of_isSchemeChar {c : Char} (h : isSchemeChar c = true) : c.toNat < 128 := by
  simp only [isSchemeChar, Bool.or_eq_true, beq_iff_eq] at h
  obtain ((h | rfl) | rfl) | rfl := h
  · exact lt_of_isAlphanum h
  all_goals decide

theorem toLower_of_isSchemeChar {c : Char} (h : isSchemeChar c = true) :
    isSchemeChar c.toLower = true ∧ c.toLower.toLower = c.toLower ∧
      (c.isAlpha = true → c.toLower.isAlpha = true) :=
  ascii_induction (P := fun c => isSchemeChar c = true → isSchemeChar c.toLower = true ∧
    c.toLower.toLower = c.toLower ∧ (c.isAlpha = true → c.toLower.isAlpha = true))
    (by decide) (lt_of_isSchemeChar h) h

structure IsScheme (cs : List Char) : Prop where
  first : ∃ c rest, cs = c :: rest ∧ c.isAlpha = true
  chars : ∀ c ∈ cs, isSchemeChar c = true
  lower : cs.map Char.toLower = cs

variable {c : Char} {cs rest scheme netloc : List Char}

theorem isScheme_map_toLower (hc : c.isAlpha = true) (h : (c :: cs).all isSchemeChar = true) :
    IsScheme ((c :: cs).map Char.toLower) := by
  have hall := List.all_eq_true.mp h
  refine ⟨⟨_, _, List.map_cons, ?_⟩, fun d hd => ?_, ?_⟩
  · exact (toLower_of_isSchemeChar (hall c List.mem_cons_self)).2.2 hc
  · obtain ⟨e, he, rfl⟩ := List.mem_map.mp hd
    exact (toLower_of_isSchemeChar (hall e he)).1
  · rw [List.map_map]
    exact List.map_congr_left fun d hd => (toLower_of_isSchemeChar (hall d hd)).2.1

theorem readScheme_cases (cs : List Char) :
    readScheme cs = ([], cs) ∨
      IsScheme (readScheme cs).1 ∧ ∀ c ∈ (readScheme cs).2, c ∈ cs := by
  have hrest : ∀ c ∈ (cut ':' cs).2.getD [], c ∈ cs := fun _ => mem_of_mem_cut_rest
  unfold readScheme
  split
  · next before after hcut =>
    rw [hcut] at hrest
    split
    · split
      · next h =>
        rw [Bool.and_eq_true] at h
        exact .inr ⟨isScheme_map_toLower h.1 h.2, hrest⟩
      · exact .inl rfl
    · exact .inl rfl
  · exact .inl rfl

theorem isScheme_readScheme (cs : List Char) :
    (readScheme cs).1 = [] ∨ IsScheme (readScheme cs).1 :=
  (readScheme_cases cs).imp (congrArg Prod.fst) And.left

theorem mem_of_mem_readScheme (h : c ∈ (readScheme cs).2) : c ∈ cs := by
  obtain heq | ⟨-, hmem⟩ := readScheme_cases cs
  · rwa [heq] at h
  · exact hmem c h

theorem readScheme_append (h : IsScheme scheme) (rest : List Char) :
    readScheme (scheme ++ ':' :: rest) = (scheme, rest) := by
  have hcolon : ':' ∉ scheme := fun hmem => absurd (h.chars _ hmem) (by decide)
  obtain ⟨c, cs, rfl, hc⟩ := h.first
  have hall : (c :: cs).all isSchemeChar = true := List.all_eq_true.mpr h.chars
  rw [readScheme, cut_append hcolon]
  simp only [hc, hall, h.lower, Bool.and_self, ↓reduceIte]

theorem readScheme_slash (cs : List Char) : readScheme ('/' :: cs) = ([], '/' :: cs) := by
  have hslash : ('/' == ':') = false := by decide
  cases h : cut ':' cs with
  | mk before after => cases after <;> simp [readScheme, cut, h, hslash]

theorem readNetloc_announced (h : ∀ c ∈ netloc, endsNetloc c = false) (rest : List Char) :
    readNetloc ('/' :: '/' :: (netloc ++ '/' :: rest)) = (netloc, '/' :: rest) := by
  have hnetloc : ∀ c ∈ netloc, (!endsNetloc c) = true := fun c hc => by rw [h c hc, Bool.not_false]
  rw [readNetloc, List.takeWhile_append_of_pos hnetloc, List.dropWhile_append_of_pos hnetloc]
  simp [endsNetloc]

theorem readNetloc_path (h : rest.head? ≠ some '/') :
    readNetloc ('/' :: rest) = ([], '/' :: rest) := by
  cases rest with
  | nil => rfl
  | cons c rest =>
    have hc : c ≠ '/' := fun hc => h (congrArg some hc)
    unfold readNetloc
    split
    · next heq => cases heq; exact absurd rfl hc
    · rfl

theorem readNetloc_mem (cs : List Char) :
    (∀ c ∈ (readNetloc cs).1, c ∈ cs ∧ endsNetloc c = false) ∧ ∀ c ∈ (readNetloc cs).2, c ∈ cs := by
  unfold readNetloc
  split
  · next rest =>
    have hends : ∀ c ∈ rest.takeWhile (fun c => !endsNetloc c), (!endsNetloc c) = true :=
      List.all_eq_true.mp List.all_takeWhile
    refine ⟨fun c hc => ⟨?_, by simpa using hends c hc⟩, fun c hc => ?_⟩
    · exact List.mem_cons_of_mem _ (List.mem_cons_of_mem _ ((List.takeWhile_sublist _).mem hc))
    · exact List.mem_cons_of_mem _ (List.mem_cons_of_mem _ ((List.dropWhile_sublist _).mem hc))
  · exact ⟨nofun, fun _ => id⟩

def lastSegment (path : List Char) : List Char := (path.reverse.takeWhile (· != '/')).reverse

theorem lastSegment_mem (h : c ∈ lastSegment cs) : c ∈ cs ∧ c ≠ '/' := by
  have hmem := List.mem_reverse.mp h
  have hall := List.all_eq_true.mp (List.all_takeWhile (p := (· != '/')) (l := cs.reverse))
  exact ⟨List.mem_reverse.mp ((List.takeWhile_sublist _).mem hmem), by simpa using hall c hmem⟩

theorem lastSegment_append (h : '/' ∉ cs) (front : List Char) :
    lastSegment (front ++ '/' :: cs) = cs := by
  have hall : ∀ c ∈ cs.reverse, (c != '/') = true := fun c hc =>
    bne_iff_ne.mpr fun heq => h (heq ▸ List.mem_reverse.mp hc)
  rw [lastSegment, List.reverse_append, List.reverse_cons, List.append_assoc,
    List.takeWhile_append_of_pos hall]
  simp

theorem readParams_eq (path : List Char) :
    readParams path = match cut ';' (lastSegment path) with
      | (before, some params) =>
        (path.take (path.length - (lastSegment path).length) ++ before, params)
      | _ => (path, []) := rfl

theorem readParams_mem (h : c ∈ (readParams cs).2) : c ∈ cs ∧ c ≠ '/' := by
  have hcut : ∀ c ∈ (cut ';' (lastSegment cs)).2.getD [], c ∈ lastSegment cs :=
    fun _ => mem_of_mem_cut_rest
  rw [readParams_eq] at h
  split at h
  · next heq =>
    rw [heq] at hcut
    exact lastSegment_mem (hcut c h)
  · cases h

/-- The parameters are found again behind a segment without a semicolon. -/
theorem readParams_segment {name params : List Char} (hname : '/' ∉ name) (hsemi : ';' ∉ name)
    (hparams : '/' ∉ params) :
    readParams ('/' :: (name ++ marked ';' params)) = ('/' :: name, params) := by
  have hsegment : lastSegment ('/' :: (name ++ marked ';' params)) = name ++ marked ';' params :=
    lastSegment_append (by cases params <;> simp_all [marked]) []
  rw [readParams_eq, hsegment]
  cases params with
  | nil => simp [marked, cut_of_not_mem hsemi]
  | cons p params =>
    rw [marked, List.isEmpty_cons, if_neg Bool.false_ne_true, cut_append hsemi]
    simp

def isKept (c : Char) : Bool := !(c == '\t' || c == '\r' || c == '\n')

theorem clean_eq (h : ∀ c ∈ cs, isKept c = true) (hfirst : ∀ c ∈ cs.head?, 0x20 < c.toNat) :
    clean cs = cs := by
  have hdrop : cs.dropWhile (·.toNat ≤ 0x20) = cs := by
    cases cs with
    | nil => rfl
    | cons c cs => exact List.dropWhile_cons_of_neg (by simpa using hfirst c rfl)
  rw [clean, hdrop]
  exact List.filter_eq_self.mpr h

theorem isKept_of_mem_clean (h : c ∈ clean cs) : isKept c = true := (List.mem_filter.mp h).2

def splitParams (scheme path : List Char) : List Char × List Char :=
  if schemesWithParams.contains (String.ofList scheme) then readParams path else (path, [])

theorem splitParams_of_not (h : schemesWithParams.contains (String.ofList scheme) = false)
    (path : List Char) : splitParams scheme path = (path, []) :=
  if_neg (Bool.eq_false_iff.mp h)

theorem splitParams_mem {path : List Char} (h : c ∈ (splitParams scheme path).2) :
    c ∈ path ∧ c ≠ '/' := by
  unfold splitParams at h
  split at h
  · exact readParams_mem h
  · cases h

theorem read_eq (s : String) :
    read s =
      let scheme := readScheme (clean s.toList)
      let netloc := readNetloc scheme.2
      let main := cut '#' netloc.2
      let target := cut '?' main.1
      let path := splitParams scheme.1 target.1
      (checkNetloc netloc.1).map fun _ =>
        ⟨scheme.1, netloc.1, path.1, path.2, target.2.getD [], main.2.getD []⟩ := by
  simp only [read]
  cases checkNetloc (readNetloc (readScheme (clean s.toList)).2).1 <;> rfl

/-- What the parts of a URL look like that was read. -/
structure Sound (u : Url) : Prop where
  scheme : u.scheme = [] ∨ IsScheme u.scheme
  netloc : ∀ c ∈ u.netloc, isKept c = true ∧ endsNetloc c = false
  checked : checkNetloc u.netloc = .ok ()
  params : ∀ c ∈ u.params, isKept c = true ∧ endsNetloc c = false
  params_eq : schemesWithParams.contains (String.ofList u.scheme) = false → u.params = []
  query : ∀ c ∈ u.query, isKept c = true ∧ c ≠ '#'
  fragment : ∀ c ∈ u.fragment, isKept c = true

theorem read_sound {s : String} {u : Url} (h : read s = .ok u) : u.Sound := by
  rw [read_eq] at h
  extract_lets scheme netloc main target path at h
  obtain ⟨⟨⟩, hchecked, rfl⟩ : ∃ x, checkNetloc netloc.1 = .ok x ∧
      ⟨scheme.1, netloc.1, path.1, path.2, target.2.getD [], main.2.getD []⟩ = u := by
    cases hc : checkNetloc netloc.1 with
    | error fault => rw [hc] at h; cases h
    | ok x => rw [hc] at h; exact ⟨x, rfl, Except.ok.inj h⟩
  have hscheme : scheme.1 = [] ∨ IsScheme scheme.1 := isScheme_readScheme _
  have hrest : ∀ c ∈ scheme.2, isKept c = true := fun c hc =>
    isKept_of_mem_clean (mem_of_mem_readScheme hc)
  obtain ⟨hends, hbehind⟩ : (∀ c ∈ netloc.1, c ∈ scheme.2 ∧ endsNetloc c = false) ∧
      ∀ c ∈ netloc.2, c ∈ scheme.2 := readNetloc_mem scheme.2
  have hnetloc : ∀ c ∈ netloc.1, isKept c = true ∧ endsNetloc c = false := fun c hc =>
    (hends c hc).imp_left (hrest c)
  have hmain : ∀ c ∈ main.1, isKept c = true ∧ c ≠ '#' := by
    refine fun c hc => ⟨hrest c (hbehind c (mem_of_mem_cut hc)), ?_⟩
    rintro rfl
    exact mark_not_mem_cut '#' netloc.2 hc
  have hfragment : ∀ c ∈ main.2.getD [], isKept c = true := fun c hc =>
    hrest c (hbehind c (mem_of_mem_cut_rest hc))
  have hquery : ∀ c ∈ target.2.getD [], isKept c = true ∧ c ≠ '#' := fun c hc =>
    hmain c (mem_of_mem_cut_rest hc)
  have hparams : ∀ c ∈ path.2, isKept c = true ∧ endsNetloc c = false := by
    intro c hc
    obtain ⟨htarget, hslash⟩ := splitParams_mem hc
    obtain ⟨hkept, hhash⟩ := hmain c (mem_of_mem_cut htarget)
    have hmark : c ≠ '?' := by
      rintro rfl
      exact mark_not_mem_cut '?' main.1 htarget
    exact ⟨hkept, by simp [endsNetloc, hslash, hmark, hhash]⟩
  have hnone : schemesWithParams.contains (String.ofList scheme.1) = false → path.2 = [] :=
    fun h => congrArg Prod.snd (splitParams_of_not h target.1)
  -- The facts say all that is needed; the parts themselves are slow to unfold.
  clear_value scheme netloc main target path
  exact ⟨hscheme, hnetloc, hchecked, hparams, hnone, hquery, hfragment⟩

/-- A character that may stand in the name of a path segment without parameters. -/
def isPlain (c : Char) : Bool := isKept c && !endsNetloc c && c != ';'

theorem isPlain_iff {c : Char} :
    isPlain c = true ↔ isKept c = true ∧ endsNetloc c = false ∧ c ≠ ';' := by
  simp [isPlain, and_assoc]

def schemeText (u : Url) : List Char := if u.scheme.isEmpty then [] else u.scheme ++ [':']

/-- What stands in front of a path: the network location, if there is one or the scheme asks for
one. -/
def announcement (u : Url) : List Char :=
  if !u.netloc.isEmpty || schemesWithNetloc.contains (String.ofList u.scheme) then
    '/' :: '/' :: u.netloc
  else []

theorem mem_marked {mark : Char} {part : List Char} (h : c ∈ marked mark part) :
    c = mark ∨ c ∈ part := by
  unfold marked at h
  split at h
  · cases h
  · exact List.mem_cons.mp h

theorem cut_marked {mark : Char} {xs : List Char} (h : mark ∉ xs) (part : List Char) :
    (cut mark (xs ++ marked mark part)).1 = xs ∧
      (cut mark (xs ++ marked mark part)).2.getD [] = part := by
  cases part with
  | nil => simp [marked, cut_of_not_mem h]
  | cons c part => simp [marked, cut_append h]

variable {u : Url} {name : List Char}

theorem head?_ne_of_not_mem {xs : List Char} (h : c ∉ xs) : xs.head? ≠ some c :=
  fun heq => h (List.mem_of_mem_head? heq)

theorem head?_marked {mark : Char} (h : mark ≠ c) (part : List Char) :
    (marked mark part).head? ≠ some c := by
  unfold marked
  split <;> simp [h]

theorem head?_append_ne {xs ys : List Char} (hx : xs.head? ≠ some c) (hy : ys.head? ≠ some c) :
    (xs ++ ys).head? ≠ some c := by
  cases xs with
  | nil => exact hy
  | cons x xs => exact hx

theorem writePath_segment (hname : '/' ∉ name) :
    ({ u with path := '/' :: name } : Url).writePath =
      u.announcement ++ '/' :: (name ++ marked ';' u.params) := by
  have hslashes : startsWith ['/', '/'] ('/' :: (name ++ marked ';' u.params)) = false := by
    have hhead := head?_append_ne (head?_ne_of_not_mem hname)
      (head?_marked (by decide : ';' ≠ '/') u.params)
    cases h : name ++ marked ';' u.params with
    | nil => rfl
    | cons c cs =>
      have hc : c ≠ '/' := by simpa [h] using hhead
      simpa [startsWith, List.isPrefixOf] using Ne.symm hc
  rw [writePath, announcement]
  simp only [List.cons_append, hslashes, Bool.or_false]
  split <;> simp

theorem readNetloc_announcement (h : ∀ c ∈ u.netloc, endsNetloc c = false)
    (hrest : rest.head? ≠ some '/') :
    readNetloc (u.announcement ++ '/' :: rest) = (u.netloc, '/' :: rest) := by
  unfold announcement
  split
  · exact readNetloc_announced h rest
  · next hnone =>
    have hnil : u.netloc = [] := by
      simp only [Bool.or_eq_true, not_or] at hnone
      simpa using hnone.1
    rw [List.nil_append, readNetloc_path hrest, hnil]

theorem announcement_slash (u : Url) (rest : List Char) :
    ∃ tail, u.announcement ++ '/' :: rest = '/' :: tail := by
  unfold announcement
  split <;> exact ⟨_, rfl⟩

theorem readScheme_written (h : u.scheme = [] ∨ IsScheme u.scheme) (rest : List Char) :
    readScheme (u.schemeText ++ (u.announcement ++ '/' :: rest)) =
      (u.scheme, u.announcement ++ '/' :: rest) := by
  unfold schemeText
  obtain hnil | hscheme := h
  · obtain ⟨tail, htail⟩ := u.announcement_slash rest
    rw [hnil, htail]
    exact readScheme_slash tail
  · obtain ⟨c, cs, hcons, -⟩ := hscheme.first
    rw [hcons, List.isEmpty_cons, if_neg Bool.false_ne_true, ← hcons, List.append_assoc]
    exact readScheme_append hscheme _

def afterSlash (u : Url) (name : List Char) : List Char :=
  name ++ marked ';' u.params ++ marked '?' u.query ++ marked '#' u.fragment

theorem write_toList (hname : '/' ∉ name) :
    ({ u with path := '/' :: name } : Url).write.toList =
      u.schemeText ++ (u.announcement ++ '/' :: u.afterSlash name) := by
  rw [write, String.toList_ofList, writePath_segment hname]
  simp [schemeText, afterSlash]

theorem isKept_of_isSchemeChar (h : isSchemeChar c = true) : isKept c = true := by
  simp only [isKept, Bool.not_eq_true', Bool.or_eq_false_iff, beq_eq_false_iff_ne]
  refine ⟨⟨?_, ?_⟩, ?_⟩
  all_goals
    rintro rfl
    exact absurd h (by decide)

theorem isKept_of_mem_schemeText (h : u.scheme = [] ∨ IsScheme u.scheme)
    (hc : c ∈ u.schemeText) : isKept c = true := by
  unfold schemeText at hc
  obtain hnil | hscheme := h
  · simp [hnil] at hc
  · split at hc
    · cases hc
    · obtain hmem | hmem := List.mem_append.mp hc
      · exact isKept_of_isSchemeChar (hscheme.chars c hmem)
      · obtain rfl := List.mem_singleton.mp hmem
        rfl

theorem isKept_of_mem_announcement (h : ∀ c ∈ u.netloc, isKept c = true)
    (hc : c ∈ u.announcement) : isKept c = true := by
  unfold announcement at hc
  split at hc
  · obtain rfl | hc : c = '/' ∨ c ∈ u.netloc := by simpa using hc
    · rfl
    · exact h c hc
  · cases hc

theorem isKept_of_mem_marked {mark : Char} {part : List Char} (hmark : isKept mark = true)
    (h : ∀ c ∈ part, isKept c = true) (hc : c ∈ marked mark part) : isKept c = true := by
  obtain rfl | hc := mem_marked hc
  · exact hmark
  · exact h c hc

theorem head?_written (h : u.scheme = [] ∨ IsScheme u.scheme) (rest : List Char) :
    ∀ c ∈ (u.schemeText ++ (u.announcement ++ '/' :: rest)).head?, 0x20 < c.toNat := by
  unfold schemeText
  obtain hnil | hscheme := h
  · obtain ⟨tail, htail⟩ := u.announcement_slash rest
    rw [hnil, htail]
    rintro c ⟨⟩
    decide
  · obtain ⟨d, cs, hcons, hd⟩ := hscheme.first
    have hlt := lt_of_isSchemeChar (hscheme.chars d (hcons ▸ List.mem_cons_self))
    rw [hcons]
    rintro c ⟨⟩
    exact ascii_induction (P := fun d => d.isAlpha = true → 0x20 < d.toNat) (by decide) hlt hd

section Written

variable (h : u.Sound) (hname : ∀ c ∈ name, isPlain c = true)

include h hname

theorem clean_written :
    clean (u.schemeText ++ (u.announcement ++ '/' :: u.afterSlash name)) =
      u.schemeText ++ (u.announcement ++ '/' :: u.afterSlash name) := by
  refine clean_eq (fun c hc => ?_) (head?_written h.scheme _)
  simp only [afterSlash, List.mem_append, List.mem_cons] at hc
  obtain hc | hc | rfl | ((hc | hc) | hc) | hc := hc
  · exact isKept_of_mem_schemeText h.scheme hc
  · exact isKept_of_mem_announcement (fun c hc => (h.netloc c hc).1) hc
  · rfl
  · exact (isPlain_iff.mp (hname c hc)).1
  · exact isKept_of_mem_marked rfl (fun c hc => (h.params c hc).1) hc
  · exact isKept_of_mem_marked rfl (fun c hc => (h.query c hc).1) hc
  · exact isKept_of_mem_marked rfl h.fragment hc

theorem not_mem_target (hc : endsNetloc c = true) (hslash : c ≠ '/') :
    c ∉ '/' :: (name ++ marked ';' u.params) := by
  intro hmem
  obtain rfl | hmem := List.mem_cons.mp hmem
  · exact hslash rfl
  · obtain hmem | hmem := List.mem_append.mp hmem
    · exact absurd hc (by simp [(isPlain_iff.mp (hname c hmem)).2.1])
    · obtain rfl | hmem := mem_marked hmem
      · cases hc
      · exact absurd hc (by simp [(h.params c hmem).2])

theorem splitParams_written :
    splitParams u.scheme ('/' :: (name ++ marked ';' u.params)) = ('/' :: name, u.params) := by
  unfold splitParams
  split
  · refine readParams_segment ?_ ?_ ?_
    · exact fun hmem => absurd (hname _ hmem) (by decide)
    · exact fun hmem => absurd (hname _ hmem) (by decide)
    · exact fun hmem => absurd (h.params _ hmem).2 (by decide)
  · next hnone => simp [h.params_eq (Bool.eq_false_iff.mpr hnone), marked]

/-- A URL that was read is read again as it is written, if its path is a plain segment. In general
it is not: marks of empty parts are dropped, and a path may look like a network location. -/
theorem read_write :
    read ({ u with path := '/' :: name } : Url).write = .ok { u with path := '/' :: name } := by
  have hslash : '/' ∉ name := fun hmem => absurd (hname _ hmem) (by decide)
  have hafter : (u.afterSlash name).head? ≠ some '/' := by
    refine head?_append_ne (head?_append_ne (head?_append_ne ?_ ?_) ?_) ?_
    · exact head?_ne_of_not_mem hslash
    all_goals exact head?_marked (by decide) _
  have hends : ∀ c ∈ u.netloc, endsNetloc c = false := fun c hc => (h.netloc c hc).2
  have htarget : '?' ∉ '/' :: (name ++ marked ';' u.params) :=
    not_mem_target h hname (by decide) (by decide)
  have hmain : '#' ∉ '/' :: (name ++ marked ';' u.params) ++ marked '?' u.query := by
    intro hmem
    obtain hmem | hmem := List.mem_append.mp hmem
    · exact not_mem_target h hname (by decide) (by decide) hmem
    · obtain heq | hmem := mem_marked hmem
      · cases heq
      · exact (h.query _ hmem).2 rfl
  obtain ⟨hfront, hfragment⟩ : (cut '#' ('/' :: u.afterSlash name)).1 =
        '/' :: (name ++ marked ';' u.params) ++ marked '?' u.query ∧
      (cut '#' ('/' :: u.afterSlash name)).2.getD [] = u.fragment := cut_marked hmain u.fragment
  obtain ⟨hpath, hquery⟩ := cut_marked htarget u.query
  -- The parts are found again in the order in which they are read.
  rw [read_eq, write_toList hslash, clean_written h hname]
  simp only [readScheme_written h.scheme, readNetloc_announcement hends hafter, hfront,
    hfragment, hpath, hquery, splitParams_written h hname, h.checked]
  rfl

end Written

end Url

end ChainArchive
