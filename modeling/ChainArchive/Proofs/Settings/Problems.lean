import ChainArchive.Proofs.Settings.Accepted

namespace ChainArchive.Settings

open ChainArchive.Numeral

inductive Setting where
  | url
  | create
  | tries
  | level
  deriving DecidableEq, Repr

inductive Entry where
  | missing (text : String)
  | invalid (text : String)
  deriving DecidableEq, Repr

namespace Entry

def missing? : Entry → Option String
  | missing text => some text
  | invalid _ => none

def invalid? : Entry → Option String
  | missing _ => none
  | invalid text => some text

end Entry

def lowered (text : String) : String := String.ofList (text.toList.map Char.toLower)

def IsTruthWord (text : String) : Prop := ∃ word ∈ truthWords, lowered text = word.1

def capitals (text : String) : String := String.ofList (text.toList.map capital)

def IsLevel (text : String) : Prop := capitals text ∈ logLevels

instance (text : String) : Decidable (IsTruthWord text) :=
  inferInstanceAs (Decidable (∃ word ∈ truthWords, lowered text = word.1))

instance (text : String) : Decidable (IsLevel text) :=
  inferInstanceAs (Decidable (capitals text ∈ logLevels))

instance (url : String) : Decidable (HasScheme url) :=
  inferInstanceAs (Decidable (∃ scheme ∈ urlSchemes, scheme.toList <+: url.toList))

namespace Setting

def all : List Setting := [url, create, tries, level]

theorem mem_all (s : Setting) : s ∈ all := by cases s <;> decide

def name : Setting → String
  | url => "db_url"
  | create => "create_database"
  | tries => "connect_max_tries"
  | level => "log_level"

/-- Whether a setting may have a text, or be absent. Only the URL may not be absent. -/
def Accepts : Setting → Option String → Prop
  | url, some text => HasScheme text
  | create, some text => IsTruthWord text
  | tries, some text => ∃ n, readInteger text = .ok n ∧ 1 ≤ n
  | level, some text => IsLevel text
  | s, none => s ≠ url

/-- The entry of a setting by its text, none if the setting is good. -/
def problem? : Setting → Option String → Option Entry
  | url, none => some (.missing "db_url")
  | url, some text =>
    if text = "" then some (.missing "db_url")
    else if HasScheme text then none
    else some (.invalid "db_url: must start with postgres:// or postgresql://")
  | create, some text =>
    if IsTruthWord text then none
    else some (.invalid ("create_database: " ++ text ++ " (expected a boolean)"))
  | tries, some text =>
    match readInteger text with
    | .ok n => if 1 ≤ n then none else some (.invalid "connect_max_tries: must be at least 1")
    | .error _ => some (.invalid ("connect_max_tries: " ++ text ++ " (expected int)"))
  | level, some text => if IsLevel text then none else some (.invalid ("log_level: " ++ text))
  | _, none => none

theorem not_hasScheme_empty : ¬ HasScheme "" := by decide +kernel

theorem problem?_eq_none_iff (s : Setting) (text : Option String) :
    s.problem? text = none ↔ s.Accepts text := by
  cases text with
  | none => cases s <;> simp [problem?, Accepts]
  | some text =>
    cases s with
    | url =>
      by_cases hempty : text = ""
      · simp [problem?, Accepts, hempty, not_hasScheme_empty]
      · by_cases hscheme : HasScheme text <;> simp [problem?, Accepts, hempty, hscheme]
    | create => simp [problem?, Accepts]
    | tries => cases hread : readInteger text <;> simp [problem?, Accepts, hread]
    | level => simp [problem?, Accepts]

end Setting

def Verdict.problem? : Verdict → Option Entry
  | .keep | .accept _ => none
  | .missing text => some (.missing text)
  | .invalid text => some (.invalid text)

theorem checkUrl_entry (text : Option String) :
    ∃ v, checkUrl ((text.map Json.text).getD .null) = .ok v ∧
      v.problem? = Setting.url.problem? text := by
  cases text with
  | none => exact ⟨_, rfl, rfl⟩
  | some text =>
    by_cases hempty : text = ""
    · subst hempty
      exact ⟨_, rfl, rfl⟩
    · have htruthy : (Json.text text).isTruthy = true := by simpa [Json.isTruthy] using hempty
      by_cases hscheme : HasScheme text
      · exact ⟨.keep, checkUrl_text hscheme,
          by simp [Verdict.problem?, Setting.problem?, hempty, hscheme]⟩
      · refine ⟨.invalid "db_url: must start with postgres:// or postgresql://", ?_,
          by simp [Verdict.problem?, Setting.problem?, hempty, hscheme]⟩
        have hany : (urlSchemes.any fun scheme => scheme.toList.isPrefixOf text.toList) =
            false := by
          refine List.any_eq_false.mpr fun scheme hmem hprefix => hscheme ⟨scheme, hmem, ?_⟩
          exact List.isPrefixOf_iff_prefix.mp hprefix
        simp [checkUrl, htruthy, hany]

theorem checkCreate_entry (text : Option String) :
    (checkCreate ((text.map Json.text).getD (.text "true"))).problem? =
      Setting.create.problem? text := by
  cases text with
  | none => decide +kernel
  | some text =>
    show (checkCreate (.text text)).problem? = _
    rw [checkCreate, ← truthWord, Setting.problem?]
    cases hword : truthWord (.text text) with
    | none =>
      have hnot : ¬ IsTruthWord text := by
        rintro ⟨word, hmem, hlower⟩
        have hne := List.lookup_eq_none_iff.mp hword word hmem
        exact bne_iff_ne.mp hne hlower
      rw [if_neg hnot]
      rfl
    | some b =>
      have hsome : (truthWord (.text text)).isSome := hword ▸ rfl
      obtain ⟨word, hmem, hlower⟩ := List.lookup_isSome_iff.mp hsome
      rw [if_pos ⟨word, hmem, beq_iff_eq.mp hlower⟩]
      rfl

theorem checkTries_entry (text : Option String) :
    ∃ v, checkTries ((text.map Json.text).getD (.text "5")) = .ok v ∧
      v.problem? = Setting.tries.problem? text := by
  cases text with
  | none => exact ⟨.accept (.int 5), rfl, rfl⟩
  | some text =>
    show ∃ v, checkTries (.text text) = .ok v ∧ _
    cases hread : readInteger text with
    | error e =>
      have hint : toInteger (.text text) = .ok none := by rw [toInteger, hread]
      rw [checkTries, hint]
      exact ⟨_, rfl, by simp [Setting.problem?, hread, Verdict.problem?, Json.plainText]⟩
    | ok n =>
      have hint : toInteger (.text text) = .ok (some n) := by rw [toInteger, hread]
      rw [checkTries, hint]
      refine ⟨_, rfl, ?_⟩
      by_cases hn : n < 1
      · simp [Setting.problem?, hread, hn, Int.not_le.mpr hn, Verdict.problem?]
      · simp [Setting.problem?, hread, hn, Int.not_lt.mp hn, Verdict.problem?]

theorem checkLevel_entry (text : Option String) :
    (checkLevel ((text.map Json.text).getD (.text "INFO"))).problem? =
      Setting.level.problem? text := by
  cases text with
  | none => decide +kernel
  | some text =>
    show (checkLevel (.text text)).problem? = _
    have hmem : logLevels.contains (capitals text) = true ↔ IsLevel text := List.contains_iff_mem
    show (if logLevels.contains (capitals text) = true then Verdict.accept (.text (capitals text))
      else .invalid ("log_level: " ++ text)).problem? = _
    by_cases hlevel : IsLevel text
    · rw [if_pos (hmem.mpr hlevel)]
      simp [Setting.problem?, hlevel, Verdict.problem?]
    · rw [if_neg (mt hmem.mp hlevel)]
      simp [Setting.problem?, hlevel, Verdict.problem?]

namespace Report

def ofEntries (entries : List Entry) : Report :=
  ⟨entries.filterMap Entry.missing?, entries.filterMap Entry.invalid?, []⟩

theorem isClean_ofEntries (entries : List Entry) :
    (ofEntries entries).isClean = entries.isEmpty := by
  cases entries with
  | nil => rfl
  | cons e entries => cases e <;> simp [ofEntries, isClean, Entry.missing?, Entry.invalid?]

/-- The lines of a report without missing sections: each group has its heading, and an empty line
stands between the two. -/
theorem lines_eq (missing invalid : List String) :
    lines ⟨missing, invalid, []⟩ = block "Missing required settings:" missing ++
      (if missing = [] ∨ invalid = [] then [] else [""]) ++ block "Invalid settings:" invalid := by
  cases missing <;> cases invalid <;> simp [lines, block, List.intercalate]

theorem message_eq (missing invalid : List String) :
    message ⟨missing, invalid, []⟩ = "Settings Configuration Validation Failed\n\n" ++
      "\n".intercalate (block "Missing required settings:" missing ++
        (if missing = [] ∨ invalid = [] then [] else [""]) ++
        block "Invalid settings:" invalid) := by
  unfold message
  rw [lines_eq]

end Report

theorem enter_report (name : String) {vs : List Verdict} {s : Table × Report}
    (h : s.2 = .ofEntries (vs.filterMap Verdict.problem?)) (v : Verdict) :
    (enter name v s).2 = .ofEntries ((vs ++ [v]).filterMap Verdict.problem?) := by
  cases v <;> simp [enter, Verdict.problem?, h, Report.ofEntries, Entry.missing?, Entry.invalid?]

theorem entered_report (url create tries level : Verdict) (t : Table) :
    (entered url create tries level t).2 =
      .ofEntries ([url, create, tries, level].filterMap Verdict.problem?) := by
  have hclean : (t, Report.clean).2 =
      .ofEntries (([] : List Verdict).filterMap Verdict.problem?) := rfl
  have hurl := enter_report "db_url" hclean url
  have hcreate := enter_report "create_database" hurl create
  have htries := enter_report "connect_max_tries" hcreate tries
  exact enter_report "log_level" htries level

def ofTexts (given : List (String × String)) : Table := given.map fun x => (x.1, .text x.2)

theorem lookup_ofTexts (name : String) (given : List (String × String)) :
    Json.lookup name (ofTexts given) = (given.lookup name).map .text := by
  induction given with
  | nil => rfl
  | cons x given ih =>
    rw [ofTexts, List.map_cons, lookup_cons, List.lookup_cons, ← ofTexts, ih]
    by_cases hx : x.1 = name
    · simp [hx]
    · have hne : (name == x.1) = false := beq_false_of_ne (Ne.symm hx)
      simp [hx, hne]

theorem names_ofTexts (given : List (String × String)) :
    names (ofTexts given) = given.map (·.1) := by
  simp [names, ofTexts]

def entries (given : List (String × String)) : List Entry :=
  Setting.all.filterMap fun s => s.problem? (given.lookup s.name)

theorem entries_eq_nil_iff (given : List (String × String)) :
    entries given = [] ↔ ∀ s : Setting, s.Accepts (given.lookup s.name) := by
  simp only [entries, List.filterMap_eq_nil_iff, Setting.problem?_eq_none_iff]
  exact ⟨fun h s => h s s.mem_all, fun h s _ => h s⟩

/-- Texts are accepted, or refused with the report of their entries. -/
theorem check_ofTexts {given : List (String × String)} (h : (given.map (·.1)).Nodup) :
    ∃ t, check (ofTexts given) = if entries given = [] then .ok t
      else .error (.settings (Report.ofEntries (entries given)).message) := by
  obtain ⟨url, hurl, hurl'⟩ := checkUrl_entry (given.lookup "db_url")
  obtain ⟨tries, htries, htries'⟩ := checkTries_entry (given.lookup "connect_max_tries")
  have hcreate := checkCreate_entry (given.lookup "create_database")
  have hlevel := checkLevel_entry (given.lookup "log_level")
  rw [check_eq (names_ofTexts given ▸ h)]
  simp only [stated, lookup_ofTexts]
  rw [hurl, htries]
  generalize hc : checkCreate _ = create at hcreate ⊢
  generalize hl : checkLevel _ = level at hlevel ⊢
  generalize known _ _ _ _ = others
  have hentries : [url, create, tries, level].filterMap Verdict.problem? = entries given := by
    simp only [List.filterMap_cons, List.filterMap_nil, hurl', hcreate, htries', hlevel]
    rfl
  have hreport := entered_report url create tries level others
  rw [hentries] at hreport
  refine ⟨(entered url create tries level others).1, ?_⟩
  simp only [bind, Except.bind, hreport, Report.isClean_ofEntries]
  cases hnil : entries given with
  | nil => rfl
  | cons e es => rfl

/-- Problems are reported completely, and each independently of the others. Texts are accepted
exactly if every setting is good by its own text. Else the report consists of one entry for each
setting that is not, which depends on its own text alone: the missing ones first, then the invalid
ones in the order of the checks. -/
theorem problems_reported {given : List (String × String)} (h : (given.map (·.1)).Nodup) :
    let missing := (entries given).filterMap Entry.missing?
    let invalid := (entries given).filterMap Entry.invalid?
    ((∃ t, check (ofTexts given) = .ok t) ↔ ∀ s : Setting, s.Accepts (given.lookup s.name)) ∧
      (∀ f, check (ofTexts given) = .error f →
        f = .settings ("Settings Configuration Validation Failed\n\n" ++ "\n".intercalate
          (Report.block "Missing required settings:" missing ++
            (if missing = [] ∨ invalid = [] then [] else [""]) ++
            Report.block "Invalid settings:" invalid))) ∧
      ∀ (s : Setting) (text : Option String), s.problem? text = none ↔ s.Accepts text := by
  intro missing invalid
  obtain ⟨t, ht⟩ := check_ofTexts h
  refine ⟨?_, fun f hf => ?_, Setting.problem?_eq_none_iff⟩
  · rw [← entries_eq_nil_iff, ht]
    split
    · next hnil => exact ⟨fun _ => hnil, fun _ => ⟨t, rfl⟩⟩
    · next hne => exact ⟨fun ⟨_, h⟩ => (nomatch h), fun h => absurd h hne⟩
  · rw [ht] at hf
    split at hf
    · cases hf
    · obtain rfl := Except.error.inj hf
      exact congrArg Failure.settings (Report.message_eq missing invalid)

theorem problems_reported_three :
    let given := [("log_level", "warning"), ("connect_max_tries", " -1_0 "), ("note", "x"),
      ("create_database", "maybe"), ("db_url", "")]
    (given.map (·.1)).Nodup ∧ ¬ Setting.url.Accepts (given.lookup "db_url") ∧
      check (ofTexts given) = .error (.settings ("Settings Configuration Validation Failed\n\n" ++
        "Missing required settings:\n  - db_url\n\nInvalid settings:\n" ++
        "  - create_database: maybe (expected a boolean)\n" ++
        "  - connect_max_tries: must be at least 1")) := by
  intro given
  have hgiven : (given.map (·.1)).Nodup := by decide
  have hurl : ¬ Setting.url.Accepts (given.lookup "db_url") := Setting.not_hasScheme_empty
  refine ⟨hgiven, hurl, ?_⟩
  obtain ⟨hok, herror, -⟩ := problems_reported hgiven
  cases hcheck : check (ofTexts given) with
  | ok t => exact absurd (hok.mp ⟨t, hcheck⟩ .url) hurl
  | error f =>
    have hentries : entries given = [.missing "db_url",
        .invalid "create_database: maybe (expected a boolean)",
        .invalid "connect_max_tries: must be at least 1"] := by decide +kernel
    rw [herror f hcheck, hentries]
    exact congrArg (fun text => Except.error (Failure.settings text)) (by decide +kernel)

end ChainArchive.Settings
