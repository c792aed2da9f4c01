import ChainArchive.Proofs.Settings.Accepted
import ChainArchive.Proofs.Settings.References
import ChainArchive.Settings.Load

namespace ChainArchive

namespace Text

theorem byteArray_toList_loop (bs : ByteArray) (i : Nat) (read : List UInt8) :
    ByteArray.toList.loop bs i read = read.reverse ++ bs.data.toList.drop i := by
  fun_induction ByteArray.toList.loop bs i read with
  | case1 i read hi ih =>
    have hbyte : bs.get! i = bs.data[i]! := by cases bs; rfl
    rw [ih, hbyte, getElem!_pos bs.data i hi, List.reverse_cons, List.append_assoc,
      List.singleton_append, ← Array.getElem_toList, ← List.drop_eq_getElem_cons]
  | case2 i read hi =>
    rw [List.drop_eq_nil_of_le (by simpa using Nat.le_of_not_lt hi), List.append_nil]

theorem encodeUtf8_eq (s : String) : encodeUtf8 s = s.toList.flatMap String.utf8EncodeChar := by
  rw [encodeUtf8, String.toUTF8, ByteArray.toList, byteArray_toList_loop, List.reverse_nil,
    List.nil_append, List.drop_zero, ← String.ofList_toList (s := s), String.toByteArray_ofList,
    List.utf8Encode, List.toList_data_toByteArray, String.ofList_toList]

theorem utf8EncodeChar_ascii {c : Char} (h : c.toNat < 128) :
    String.utf8EncodeChar c = [UInt8.ofNat c.toNat] := by
  have hle : c.val.toNat ≤ 127 := Nat.le_of_lt_succ h
  rw [String.utf8EncodeChar]
  exact if_pos hle

theorem utf8Step_ascii {c : Char} (h : c.toNat < 128) (rest : List UInt8) :
    utf8Step (UInt8.ofNat c.toNat) rest = .char c 1 := by
  have hbyte : (UInt8.ofNat c.toNat).toNat = c.toNat := by
    rw [UInt8.toNat_ofNat', Nat.mod_eq_of_lt (by omega)]
  have hlength : sequenceLength? (UInt8.ofNat c.toNat) = some 1 := by
    rw [sequenceLength?, if_pos (by rw [UInt8.lt_iff_toNat_lt, hbyte]; exact h)]
  rw [utf8Step, hlength]
  simp only [hbyte, Char.ofNat_toNat]

theorem decodeFrom_ascii {cs : List Char} (h : ∀ c ∈ cs, c.toNat < 128) (position : Nat)
    {fuel : Nat} (hfuel : (cs.flatMap String.utf8EncodeChar).length ≤ fuel) :
    decodeFrom position fuel (cs.flatMap String.utf8EncodeChar) = .ok cs := by
  induction cs generalizing position fuel with
  | nil => rw [List.flatMap_nil, decodeFrom]
  | cons c cs ih =>
    obtain ⟨hc, hcs⟩ := List.forall_mem_cons.mp h
    rw [List.flatMap_cons, utf8EncodeChar_ascii hc, List.singleton_append] at hfuel ⊢
    obtain ⟨fuel, rfl⟩ : ∃ n, fuel = n + 1 :=
      Nat.exists_eq_add_one.mpr (Nat.lt_of_lt_of_le (Nat.succ_pos _) hfuel)
    rw [decodeFrom, utf8Step_ascii hc]
    simp only [List.drop_succ_cons, List.drop_zero, ih hcs _ (Nat.le_of_succ_le_succ hfuel)]
    rfl

theorem decodeUtf8_encodeUtf8 {s : String} (h : ∀ c ∈ s.toList, c.toNat < 128) :
    decodeUtf8 (encodeUtf8 s) = .ok s.toList := by
  rw [encodeUtf8_eq, decodeUtf8, decodeFrom_ascii h 0 (Nat.le_refl _)]

theorem occursIn_append (word rest : List Char) : occursIn word (word ++ rest) = true := by
  have hprefix : startsWith word (word ++ rest) = true :=
    List.isPrefixOf_iff_prefix.mpr (List.prefix_append word rest)
  cases hcs : word ++ rest with
  | nil =>
    rw [(List.append_eq_nil_iff.mp hcs).1]
    rfl
  | cons c cs => rw [occursIn, ← hcs, hprefix, Bool.true_or]

end Text

namespace Settings

open ChainArchive.Text

namespace Ini

variable {cs tail : List Char}

theorem linesOf_cons {c d : Char} {l : List Char} {ls : List (List Char)} (hc : c ≠ '\n')
    (h : linesOf (d :: cs) = l :: ls) : linesOf (c :: d :: cs) = (c :: l) :: ls := by
  rw [linesOf.eq_2 _ _ _ _ _ h, if_neg (by simpa using hc)]

theorem linesOf_append (h : '\n' ∉ cs) (rest : List Char) :
    linesOf (cs ++ '\n' :: rest) = (cs ++ ['\n']) :: linesOf rest := by
  induction cs with
  | nil => simp [linesOf]
  | cons c cs ih =>
    have hc : c ≠ '\n' := (List.ne_of_not_mem_cons h).symm
    have hcs := ih (List.not_mem_of_not_mem_cons h)
    cases cs with
    | nil => exact linesOf_cons hc hcs
    | cons d cs => exact linesOf_cons hc hcs

theorem linesOf_last (h : '\n' ∉ cs) (hne : cs ≠ []) : linesOf cs = [cs] := by
  induction cs with
  | nil => exact absurd rfl hne
  | cons c cs ih =>
    have hc : c ≠ '\n' := (List.ne_of_not_mem_cons h).symm
    cases cs with
    | nil => simp [linesOf, hc]
    | cons d cs =>
      exact linesOf_cons hc (ih (List.not_mem_of_not_mem_cons h) (List.cons_ne_nil d cs))

def urlName : List Char := ['d', 'b', '_', 'u', 'r', 'l']

def urlLine (cs : List Char) : List Char := urlName ++ ' ' :: '=' :: ' ' :: cs

def opened : Reading := { Reading.start with openSection? := some defaultSection }

theorem line_header : Reading.start.line 1 "[DEFAULT]\n".toList = .ok opened := by
  rfl

/-- The line is cut at the mark that the name ends with, whatever marks are in the URL. -/
theorem optionLine?_urlLine (hcs : ∀ c ∈ cs, isBlank c = false) :
    optionLine? (urlLine cs) = some (urlName, cs) := by
  have hfront : (urlLine cs).takeWhile (fun c => !(c == '=' || c == ':')) = urlName ++ [' '] := by
    rfl
  have hback : (urlLine cs).dropWhile (fun c => !(c == '=' || c == ':')) = '=' :: ' ' :: cs := by
    rfl
  have hname : trimBoth isBlank (urlName ++ [' ']) = urlName := by rfl
  have hvalue : trimBoth isBlank (' ' :: cs) = cs := by
    rw [trimBoth_cons (by decide), trimBoth_eq_self hcs]
  rw [optionLine?]
  simp only [hfront, hback, hname, hvalue]

theorem trimBoth_urlLine (hcs : ∀ c ∈ cs, isBlank c = false) (hne : cs ≠ [])
    (htail : ∀ c ∈ tail, isBlank c = true) :
    trimBoth isBlank (urlLine cs ++ tail) = urlLine cs := by
  refine trimBoth_append (List.cons_ne_nil _ _) (fun c hc => ?_) (fun c hc => ?_) htail
  · cases hc
    decide
  · have hlast : (urlLine cs).getLast? = cs.getLast? := by
      obtain ⟨d, ds, rfl⟩ := List.exists_cons_of_ne_nil hne
      simp [urlLine, urlName, List.getLast?_cons]
    exact hcs c (List.mem_of_getLast? (hlast ▸ hc))

theorem line_urlLine (n : Nat) (hcs : ∀ c ∈ cs, isBlank c = false) (hne : cs ≠ [])
    (htail : ∀ c ∈ tail, isBlank c = true) :
    opened.line n (urlLine cs ++ tail) = .ok { opened with
      options := [⟨defaultSection, "db_url", [cs]⟩]
      openOption? := some "db_url" } := by
  have hcomment : isComment (urlLine cs) = false := by rfl
  have hempty : (urlLine cs).isEmpty = false := by rfl
  have hindent : ((urlLine cs ++ tail).takeWhile isBlank).length = 0 := by rfl
  have hheader : header? (urlLine cs) = none := by rfl
  have hopen : opened.openOption?.isSome = false := rfl
  have hname : lower (String.ofList urlName) = "db_url" := by decide +kernel
  rw [Reading.line]
  simp only [trimBoth_urlLine hcs hne htail, hcomment, hempty, hindent, hheader, hopen, hname,
    optionLine?_urlLine hcs, Bool.and_false, Bool.false_and, Bool.false_eq_true, ↓reduceIte]
  rfl

theorem joinLines_singleton (hcs : ∀ c ∈ cs, isBlank c = false) :
    joinLines [cs] = String.ofList cs := by
  have hkeep : cs.reverse.dropWhile isBlank = cs.reverse := by
    cases hrev : cs.reverse with
    | nil => rfl
    | cons d ds =>
      have hd : d ∈ cs := List.mem_reverse.mp (hrev ▸ List.mem_cons_self)
      rw [List.dropWhile_cons_of_neg (by simp [hcs d hd])]
  simp [joinLines, hkeep]

def urlText (cs tail : List Char) : List Char :=
  requiredHeader.toList ++ '\n' :: (urlLine cs ++ tail)

theorem linesOf_urlText (hcs : ∀ c ∈ cs, isBlank c = false) (htail : tail ∈ [[], ['\n']]) :
    linesOf (urlText cs tail) = ["[DEFAULT]\n".toList, urlLine cs ++ tail] := by
  have hheader : '\n' ∉ requiredHeader.toList := by decide
  have hline : '\n' ∉ urlLine cs := by
    have hnl : '\n' ∉ cs := fun h => absurd (hcs _ h) (by decide)
    simpa [urlLine, urlName] using hnl
  have hlast : linesOf (urlLine cs ++ tail) = [urlLine cs ++ tail] := by
    simp only [List.mem_cons, List.not_mem_nil, or_false] at htail
    rcases htail with rfl | rfl
    · rw [List.append_nil, linesOf_last hline (List.cons_ne_nil _ _)]
    · rw [linesOf_append hline, linesOf]
  rw [urlText, linesOf_append hheader, hlast]
  rfl

theorem readDefaults_urlText (hcs : ∀ c ∈ cs, isBlank c = false) (hne : cs ≠ [])
    (htail : tail ∈ [[], ['\n']]) :
    readDefaults (urlText cs tail) = .ok [("db_url", String.ofList cs)] := by
  have hblank : ∀ c ∈ tail, isBlank c = true := by
    have hend : isBlank '\n' = true := by decide
    simp only [List.mem_cons, List.not_mem_nil, or_false] at htail
    rcases htail with rfl | rfl <;> simp [hend]
  have hlines : Reading.start.linesFrom 1 (linesOf (urlText cs tail)) = .ok { opened with
      options := [⟨defaultSection, "db_url", [cs]⟩]
      openOption? := some "db_url" } := by
    rw [linesOf_urlText hcs htail, Reading.linesFrom, line_header]
    show (opened.line 2 (urlLine cs ++ tail)).bind _ = _
    rw [line_urlLine 2 hcs hne hblank]
    rfl
  rw [readDefaults, hlines]
  show Except.ok [("db_url", joinLines [cs])] = _
  rw [joinLines_singleton hcs]

end Ini

theorem unifyLineEnds_eq_self {cs : List Char} (h : '\r' ∉ cs) : unifyLineEnds cs = cs := by
  induction cs with
  | nil => rfl
  | cons c cs ih =>
    have hc : c ≠ '\r' := (List.ne_of_not_mem_cons h).symm
    rw [unifyLineEnds.eq_3 _ _ (fun _ hr _ => hc hr) hc, ih (List.not_mem_of_not_mem_cons h)]

def urlOptions (url : String) : List (String × String) := withDefaults [("db_url", url)]

theorem urlOptions_eq (url : String) : urlOptions url = defaults ++ [("db_url", url)] := by
  rfl

def urlGiven (url : String) : Table := (urlOptions url).map fun (k, v) => (k, .text v)

/-- The defaults hold no references: only the URL is resolved. -/
theorem resolveAll_urlOptions (url : String) :
    Interpolation.resolveAll (urlOptions url) (urlOptions url) =
      urlOptions <$> Interpolation.value (urlOptions url) "db_url" url := by
  have hplain : ∀ x ∈ defaults, '%' ∉ x.2.toList := by decide
  have hall := Interpolation.resolveAll_append_of_plain (urlOptions url) hplain [("db_url", url)]
  rw [← urlOptions_eq] at hall
  rw [hall, Interpolation.resolveAll]
  cases Interpolation.value (urlOptions url) "db_url" url <;> rfl

theorem value_urlOptions_iff (url : String) :
    Interpolation.value (urlOptions url) "db_url" url = .ok url ↔ '%' ∉ url.toList := by
  have hplain : ∀ x ∈ defaults, '%' ∉ x.2.toList ∧ x.2.toList.length ≤ 4 := by decide
  refine Interpolation.value_eq_self_iff fun x hx => ?_
  rw [urlOptions_eq, List.mem_append, List.mem_singleton] at hx
  rcases hx with hx | rfl
  · exact .inr (hplain x hx)
  · exact .inl rfl

theorem nodup_urlGiven (url : String) : (names (urlGiven url)).Nodup := by
  show ["create_database", "connect_max_tries", "log_level", "db_url"].Nodup
  decide

theorem means_urlGiven {url : String} (h : HasScheme url) :
    Means (urlGiven url) ⟨url, true, 5, "INFO"⟩ where
  url := rfl
  hasScheme := h
  create := show truthWord (.text "true") = some true by decide +kernel
  tries := show toInteger (.text "5") = .ok (some 5) by rfl
  one_le := show (1 : Int) ≤ 5 by decide
  level := levelName_of_mem "INFO" (by decide)
  level_mem := show "INFO" ∈ logLevels by decide

theorem lookup_of_check_urlGiven {url : String} {t : Table} (h : check (urlGiven url) = .ok t) :
    Json.lookup "db_url" t = some (.text url) := by
  obtain ⟨m, hm, rfl⟩ := means_of_check (nodup_urlGiven url) h
  have hurl : some (Json.text url) = some (.text m.url) := hm.url
  rw [hurl]
  exact hm.table.url

section File

variable {url ending : String}

theorem isBlank_printable {c : Char} (h : 0x21 ≤ c.toNat ∧ c.toNat ≤ 0x7e) : isBlank c = false := by
  simp only [isBlank, isWhite, Bool.or_eq_false_iff, Bool.and_eq_false_iff, beq_eq_false_iff_ne,
    decide_eq_false_iff_not]
  omega

theorem printable_of_all (h : (url.toList.all fun c => 0x21 ≤ c.toNat && c.toNat ≤ 0x7e) = true) :
    ∀ c ∈ url.toList, 0x21 ≤ c.toNat ∧ c.toNat ≤ 0x7e :=
  fun c hc => by simpa using List.all_eq_true.mp h c hc

theorem toList_ne_nil (h : HasScheme url) : url.toList ≠ [] := by
  obtain ⟨scheme, hscheme, hprefix⟩ := h
  have hne : ∀ scheme ∈ urlSchemes, scheme.toList ≠ [] := by decide
  exact fun hnil => hne scheme hscheme (List.prefix_nil.mp (hnil ▸ hprefix))

/-- What comes of a URL: it is resolved, and then the settings are checked. -/
def urlOutcome (url : String) : Except Failure Table :=
  ((Interpolation.value (urlOptions url) "db_url" url).mapError fun f => unreadable f.message) >>=
    fun v => check (urlGiven v)

theorem ofText_urlText (hurl : ∀ c ∈ url.toList, isBlank c = false) (hne : url.toList ≠ [])
    {tail : List Char} (htail : tail ∈ [[], ['\n']]) :
    ofText (Ini.urlText url.toList tail) = urlOutcome url := by
  have hheader : occursIn requiredHeader.toList (Ini.urlText url.toList tail) = true :=
    occursIn_append _ _
  have hresolved : Interpolation.resolveAll (withDefaults [("db_url", url)])
      (withDefaults [("db_url", url)]) = _ := resolveAll_urlOptions url
  rw [ofText, hheader, Ini.readDefaults_urlText hurl hne htail, String.ofList_toList, urlOutcome]
  simp only [Bool.not_true, Bool.false_eq_true, ↓reduceIte, hresolved]
  cases Interpolation.value (urlOptions url) "db_url" url <;> rfl

def urlFile (url ending : String) : String := "[DEFAULT]\ndb_url = " ++ url ++ ending

theorem toList_urlFile (url ending : String) :
    (urlFile url ending).toList = Ini.urlText url.toList ending.toList := by
  have hfixed : "[DEFAULT]\ndb_url = ".toList =
      requiredHeader.toList ++ '\n' :: Ini.urlLine [] := by
    decide +kernel
  unfold urlFile
  rw [String.toList_append, String.toList_append, hfixed]
  simp [Ini.urlText, Ini.urlLine]

theorem decode_urlFile (hurl : ∀ c ∈ url.toList, 0x21 ≤ c.toNat ∧ c.toNat ≤ 0x7e)
    (hending : ending ∈ ["", "\n"]) :
    decodeUtf8 (encodeUtf8 (urlFile url ending)) = .ok (Ini.urlText url.toList ending.toList) ∧
      unifyLineEnds (Ini.urlText url.toList ending.toList) =
        Ini.urlText url.toList ending.toList := by
  have hchars : ∀ c ∈ (urlFile url ending).toList, c.toNat < 128 ∧ c ≠ '\r' := by
    have hfixed : ("[DEFAULT]\ndb_url = ".toList.all fun c => c.toNat < 128 && c != '\r') =
        true := by
      decide +kernel
    have hend : ∀ e ∈ ["", "\n"], (e.toList.all fun c => c.toNat < 128 && c != '\r') = true := by
      decide +kernel
    intro c hc
    unfold urlFile at hc
    rw [String.toList_append, String.toList_append, List.mem_append, List.mem_append] at hc
    rcases hc with (hc | hc) | hc
    · simpa using List.all_eq_true.mp hfixed c hc
    · have hprintable := hurl c hc
      refine ⟨by omega, ?_⟩
      rintro rfl
      exact absurd hprintable (by decide)
    · simpa using List.all_eq_true.mp (hend ending hending) c hc
  rw [decodeUtf8_encodeUtf8 fun c hc => (hchars c hc).1, toList_urlFile]
  refine ⟨rfl, unifyLineEnds_eq_self fun hc => ?_⟩
  rw [← toList_urlFile] at hc
  exact (hchars _ hc).2 rfl

theorem load_urlFile {fs : Files} {directory : String}
    (hurl : ∀ c ∈ url.toList, 0x21 ≤ c.toNat ∧ c.toNat ≤ 0x7e) (hscheme : HasScheme url)
    (hending : ending ∈ ["", "\n"])
    (hfile : ((Path.ofText directory).below fileName).node? fs =
      some (.file (encodeUtf8 (urlFile url ending)))) :
    load fs directory = urlOutcome url := by
  obtain ⟨hdecode, hunify⟩ := decode_urlFile hurl hending
  have hblank : ∀ c ∈ url.toList, isBlank c = false := fun c hc => isBlank_printable (hurl c hc)
  have htail : ∀ e ∈ ["", "\n"], e.toList ∈ [[], ['\n']] := by decide +kernel
  rw [load]
  simp only [hfile, hdecode, hunify]
  exact ofText_urlText hblank (toList_ne_nil hscheme) (htail ending hending)

/-- A URL of printable characters other than the blank survives a settings file that gives it if and
only if it holds no percent sign. One with a percent sign is refused or comes out changed, since
references are resolved in every value of the file. -/
theorem url_kept_iff (fs : Files) (directory url ending : String)
    (hurl : ∀ c ∈ url.toList, 0x21 ≤ c.toNat ∧ c.toNat ≤ 0x7e) (hscheme : HasScheme url)
    (hending : ending ∈ ["", "\n"])
    (hfile : ((Path.ofText directory).below fileName).node? fs =
      some (.file (encodeUtf8 (urlFile url ending)))) :
    (∃ t, load fs directory = .ok t ∧ Json.lookup "db_url" t = some (.text url)) ↔
      '%' ∉ url.toList := by
  rw [load_urlFile hurl hscheme hending hfile, urlOutcome, ← value_urlOptions_iff url]
  refine ⟨fun ⟨t, ht, hkept⟩ => ?_, fun h => ?_⟩
  · cases hvalue : Interpolation.value (urlOptions url) "db_url" url with
    | error f => cases hvalue ▸ ht
    | ok v =>
      rw [hvalue] at ht
      have hv := (lookup_of_check_urlGiven ht).symm.trans hkept
      rw [Json.text.inj (Option.some.inj hv)]
  · rw [h]
    have hcheck := check_of_means (nodup_urlGiven url) (means_urlGiven hscheme)
    exact ⟨_, hcheck, lookup_of_check_urlGiven hcheck⟩

theorem url_kept_marks :
    let url := "postgresql://evt:p;a=s#s:[DEFAULT]@h:5432/evt?x=(y)s"
    let fs : Files := [(["conf"], .directory),
      (["conf", "settings.conf"], .file (encodeUtf8 (urlFile url "\n")))]
    ∃ t, load fs "conf" = .ok t ∧ Json.lookup "db_url" t = some (.text url) := by
  intro url fs
  have hurl := @printable_of_all url (by decide +kernel)
  have hscheme : HasScheme url := ⟨"postgresql://", by decide, by decide +kernel⟩
  have hplain : '%' ∉ url.toList := by decide +kernel
  exact (url_kept_iff fs "conf" url "\n" hurl hscheme (by decide) (by rfl)).mpr hplain

/-- The escape of an at sign in a password is taken for a bad reference. -/
theorem not_url_kept_escape :
    let url := "postgresql://evt:p%40ss@h/evt"
    let fs : Files := [(["settings.conf"], .file (encodeUtf8 (urlFile url "\n")))]
    (∀ c ∈ url.toList, 0x21 ≤ c.toNat ∧ c.toNat ≤ 0x7e) ∧ HasScheme url ∧
      load fs "." = .error (.settings ("Error parsing settings.conf: " ++
        "'%' must be followed by '%' or '(', found: '%40ss@h/evt'")) ∧
      ¬ ∃ t, load fs "." = .ok t ∧ Json.lookup "db_url" t = some (.text url) := by
  intro url fs
  have hurl := @printable_of_all url (by decide +kernel)
  have hscheme : HasScheme url := ⟨"postgresql://", by decide, by decide +kernel⟩
  have hsplit : url.toList = "postgresql://evt:p".toList ++ '%' :: '4' :: "0ss@h/evt".toList := by
    decide +kernel
  have hvalue := Interpolation.value_of_lone (urlOptions url) "db_url" hsplit (by decide +kernel)
    (by decide) (by decide)
  have hmessage : (Interpolation.Fault.lonePercent
      (String.ofList ('%' :: '4' :: "0ss@h/evt".toList))).message =
        "'%' must be followed by '%' or '(', found: '%40ss@h/evt'" := by
    decide +kernel
  have hload : load fs "." = .error (.settings ("Error parsing settings.conf: " ++
      "'%' must be followed by '%' or '(', found: '%40ss@h/evt'")) := by
    have hending : "\n" ∈ ["", "\n"] := by decide
    rw [load_urlFile hurl hscheme hending (by rfl), urlOutcome, hvalue, ← hmessage]
    rfl
  refine ⟨hurl, hscheme, hload, fun ⟨t, ht, _⟩ => ?_⟩
  rw [hload] at ht
  cases ht

end File

end Settings

end ChainArchive
