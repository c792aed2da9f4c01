import ChainArchive.Settings.Check

namespace ChainArchive.Settings

open ChainArchive.Numeral

section Merging

variable {name k : String} {j v : Json} {t given : Table}

def names (t : Table) : List String := t.map (·.1)

def without (ns : List String) (t : Table) : Table := t.filter fun x => !ns.contains x.1

theorem lookup_cons (name : String) (x : String × Json) (t : Table) :
    Json.lookup name (x :: t) = if x.1 = name then some x.2 else Json.lookup name t := by
  by_cases h : x.1 = name <;> simp [Json.lookup, h]

theorem lookup_eq_none (h : name ∉ names t) : Json.lookup name t = none := by
  induction t with
  | nil => rfl
  | cons x t ih =>
    rw [lookup_cons, if_neg (Ne.symm (List.ne_of_not_mem_cons h)),
      ih (List.not_mem_of_not_mem_cons h)]

theorem without_cons (ns : List String) (x : String × Json) (t : Table) :
    without ns (x :: t) = if x.1 ∈ ns then without ns t else x :: without ns t := by
  by_cases h : x.1 ∈ ns <;> simp [without, h]

theorem lookup_without {ns : List String} (h : name ∉ ns) (t : Table) :
    Json.lookup name (without ns t) = Json.lookup name t := by
  induction t with
  | nil => rfl
  | cons x t ih =>
    rw [without_cons, lookup_cons]
    split
    · next hx =>
      have hne : x.1 ≠ name := fun he => h (he ▸ hx)
      rw [if_neg hne, ih]
    · rw [lookup_cons, ih]

theorem nodup_without (ns : List String) (h : (names t).Nodup) : (names (without ns t)).Nodup :=
  h.sublist (List.filter_sublist.map _)

theorem without_without (ns ms : List String) (t : Table) :
    without ns (without ms t) = without (ms ++ ns) t := by
  rw [without, without, List.filter_filter, without]
  exact List.filter_congr fun x _ => by simp [Bool.and_comm]

theorem without_eq_self {ns : List String} (h : ∀ n ∈ ns, n ∉ names t) : without ns t = t := by
  refine List.filter_eq_self.mpr fun x hx => ?_
  have hx : x.1 ∉ ns := fun hn => h x.1 hn (List.mem_map_of_mem hx)
  simpa using hx

theorem put_cons_self (k : String) (j v : Json) (t : Table) :
    put k j ((k, v) :: t) = (k, j) :: t := by
  simp [put]

theorem put_cons_of_ne (h : k ≠ name) : put name j ((k, v) :: t) = (k, v) :: put name j t := by
  simp [put, h]

theorem put_of_not_mem (h : name ∉ names t) : put name j t = t ++ [(name, j)] := by
  induction t with
  | nil => rfl
  | cons x t ih =>
    rw [put_cons_of_ne (Ne.symm (List.ne_of_not_mem_cons h)),
      ih (List.not_mem_of_not_mem_cons h), List.cons_append]

def putAll (t given : Table) : Table := given.foldl (fun t (k, j) => put k j t) t

theorem putAll_cons (t : Table) (x : String × Json) (given : Table) :
    putAll t (x :: given) = putAll (put x.1 x.2 t) given := rfl

theorem putAll_first (h : (names given).Nodup) (k : String) (v : Json) (t : Table) :
    putAll ((k, v) :: t) given =
      (k, (Json.lookup k given).getD v) :: putAll t (without [k] given) := by
  induction given generalizing v t with
  | nil => rfl
  | cons x given ih =>
    obtain ⟨hx, hgiven⟩ := List.nodup_cons.mp h
    rw [putAll_cons, lookup_cons, without_cons]
    by_cases hk : x.1 = k
    · subst hk
      rw [put_cons_self, ih hgiven, lookup_eq_none hx, if_pos rfl,
        if_pos (List.mem_singleton_self _)]
      rfl
    · rw [put_cons_of_ne (Ne.symm hk), ih hgiven, if_neg hk, if_neg (by simpa using hk),
        putAll_cons]

theorem putAll_disjoint (h : (names given).Nodup) (ht : ∀ k ∈ names given, k ∉ names t) :
    putAll t given = t ++ given := by
  induction given generalizing t with
  | nil => exact (List.append_nil t).symm
  | cons x given ih =>
    obtain ⟨hx, hgiven⟩ := List.nodup_cons.mp h
    rw [putAll_cons, put_of_not_mem (ht x.1 List.mem_cons_self), ih hgiven]
    · rw [List.append_assoc, List.singleton_append]
    · intro k hk hmem
      rw [names, List.map_append] at hmem
      obtain hmem | hmem := List.mem_append.mp hmem
      · exact ht k (List.mem_cons_of_mem _ hk) hmem
      · exact hx (List.mem_singleton.mp hmem ▸ hk)

end Merging

def defaultNames : List String := defaults.map (·.1)

def known (create tries level : Json) (rest : Table) : Table :=
  ("create_database", create) :: ("connect_max_tries", tries) :: ("log_level", level) :: rest

section Known

variable {given : Table}

def stated (given : Table) (name default : String) : Json :=
  (Json.lookup name given).getD (.text default)

/-- Merging puts what need not be given in front, and keeps what is given beyond it. -/
theorem merge_eq (h : (names given).Nodup) :
    merge given = known (stated given "create_database" "true")
      (stated given "connect_max_tries" "5") (stated given "log_level" "INFO")
      (without defaultNames given) := by
  have h₁ := nodup_without ["create_database"] h
  have h₂ := nodup_without ["connect_max_tries"] h₁
  have h₃ := nodup_without ["log_level"] h₂
  show putAll (known (.text "true") (.text "5") (.text "INFO") []) given = _
  rw [known, putAll_first h, putAll_first h₁, putAll_first h₂,
    putAll_disjoint h₃ fun _ _ => List.not_mem_nil]
  rw [lookup_without (by decide), lookup_without (by decide), lookup_without (by decide),
    without_without, without_without]
  rfl

theorem lookup_known {name : String} (h : name ∉ defaultNames) (create tries level : Json)
    (rest : Table) : Json.lookup name (known create tries level rest) = Json.lookup name rest := by
  obtain ⟨hcreate, htries, hlevel, -⟩ : "create_database" ≠ name ∧ "connect_max_tries" ≠ name ∧
      "log_level" ≠ name ∧ True := by
    simpa [defaultNames, defaults, eq_comm] using h
  rw [known, lookup_cons, if_neg hcreate, lookup_cons, if_neg htries, lookup_cons, if_neg hlevel]

end Known

section Checks

variable {j k : Json} {s : Table × Report} {v : Verdict} {name : String}

def Verdict.isGood : Verdict → Bool
  | .keep | .accept _ => true
  | .missing _ | .invalid _ => false

theorem isClean_enter (name : String) (v : Verdict) (s : Table × Report) :
    (enter name v s).2.isClean = (v.isGood && s.2.isClean) := by
  cases v <;> simp [enter, Report.isClean, Verdict.isGood]

def HasScheme (url : String) : Prop := ∃ scheme ∈ urlSchemes, scheme.toList <+: url.toList

theorem checkUrl_text {url : String} (h : HasScheme url) : checkUrl (.text url) = .ok .keep := by
  obtain ⟨scheme, hscheme, hprefix⟩ := h
  have hne : url ≠ "" := by
    rintro rfl
    have hempty : scheme.toList = [] := List.prefix_nil.mp hprefix
    revert hempty
    revert scheme
    decide
  have hany : (urlSchemes.any fun scheme => scheme.toList.isPrefixOf url.toList) = true :=
    List.any_eq_true.mpr ⟨scheme, hscheme, List.isPrefixOf_iff_prefix.mpr hprefix⟩
  rw [checkUrl, if_neg (by simpa [Json.isTruthy] using hne), if_pos hany]

theorem checkUrl_good (h : checkUrl j = .ok v) (hv : v.isGood = true) :
    v = .keep ∧ ∃ url, j = .text url ∧ HasScheme url := by
  unfold checkUrl at h
  split at h
  · cases h
    cases hv
  · cases j with
    | text url =>
      simp only at h
      split at h
      · next hany =>
        obtain ⟨scheme, hscheme, hprefix⟩ := List.any_eq_true.mp hany
        cases h
        exact ⟨rfl, url, rfl, scheme, hscheme, List.isPrefixOf_iff_prefix.mp hprefix⟩
      · cases h
        cases hv
    | _ => cases h

def truthWord (j : Json) : Option Bool :=
  truthWords.lookup (String.ofList (j.plainText.toList.map Char.toLower))

theorem checkCreate_good (h : (checkCreate j).isGood = true) :
    ∃ b, truthWord j = some b ∧ checkCreate j = .accept (.bool b) := by
  unfold checkCreate at h ⊢
  rw [← truthWord] at h ⊢
  cases hb : truthWord j with
  | some b => exact ⟨b, rfl, rfl⟩
  | none => cases hb ▸ h

theorem checkTries_good (h : checkTries j = .ok v) (hv : v.isGood = true) :
    ∃ n, toInteger j = .ok (some n) ∧ 1 ≤ n ∧ v = .accept (.int n) := by
  unfold checkTries at h
  cases hj : toInteger j with
  | error f => cases hj ▸ h
  | ok read =>
    obtain rfl := Except.ok.inj (hj ▸ h)
    cases read with
    | none => cases hv
    | some n =>
      by_cases hn : n < 1
      · simp [hn, Verdict.isGood] at hv
      · exact ⟨n, rfl, Int.not_lt.mp hn, if_neg hn⟩

def levelName (j : Json) : String := String.ofList (j.plainText.toList.map capital)

theorem checkLevel_good (h : (checkLevel j).isGood = true) :
    levelName j ∈ logLevels ∧ checkLevel j = .accept (.text (levelName j)) := by
  unfold checkLevel at h ⊢
  rw [← levelName] at h ⊢
  by_cases hl : logLevels.contains (levelName j) = true
  · exact ⟨List.contains_iff_mem.mp hl, if_pos hl⟩
  · simp only [if_neg hl] at h
    cases h

end Checks

/-- What settings say that are accepted: where the database is, whether it is created, how often it
is tried to connect, and from which level on it is reported. -/
structure Meaning where
  url : String
  create : Bool
  tries : Int
  level : String

/-- The given settings are good, and say what `m` says. -/
structure Means (given : Table) (m : Meaning) : Prop where
  url : Json.lookup "db_url" given = some (.text m.url)
  hasScheme : HasScheme m.url
  create : truthWord (stated given "create_database" "true") = some m.create
  tries : toInteger (stated given "connect_max_tries" "5") = .ok (some m.tries)
  one_le : 1 ≤ m.tries
  level : levelName (stated given "log_level" "INFO") = m.level
  level_mem : m.level ∈ logLevels

/-- Settings in normal form, with others behind them. -/
def Meaning.table (m : Meaning) (rest : Table) : Table :=
  known (.bool m.create) (.int m.tries) (.text m.level) rest

section Accepted

variable {given t : Table} {m : Meaning}

def entered (url create tries level : Verdict) (t : Table) : Table × Report :=
  enter "log_level" level (enter "connect_max_tries" tries
    (enter "create_database" create (enter "db_url" url (t, .clean))))

theorem check_eq (h : (names given).Nodup) : check given = (do
    let url ← checkUrl ((Json.lookup "db_url" given).getD .null)
    let tries ← checkTries (stated given "connect_max_tries" "5")
    let (t, report) := entered url (checkCreate (stated given "create_database" "true")) tries
      (checkLevel (stated given "log_level" "INFO"))
      (known (stated given "create_database" "true") (stated given "connect_max_tries" "5")
        (stated given "log_level" "INFO") (without defaultNames given))
    if report.isClean then return t else throw (.settings report.message)) := by
  have hurl : "db_url" ∉ defaultNames := by decide
  unfold check
  rw [merge_eq h]
  simp only [valueOf, lookup_known hurl, lookup_without hurl]
  simp only [known, lookup_cons]
  rfl

theorem entered_accept (create tries level j k l : Json) (rest : Table) :
    entered .keep (.accept j) (.accept k) (.accept l) (known create tries level rest) =
      (known j k l rest, .clean) := by
  simp [entered, enter, known, put]

theorem check_of_means (h : (names given).Nodup) (hm : Means given m) :
    check given = .ok (m.table (without defaultNames given)) := by
  have hcreate : checkCreate (stated given "create_database" "true") =
      .accept (.bool m.create) := by
    rw [checkCreate, ← truthWord, hm.create]
  have htries : checkTries (stated given "connect_max_tries" "5") =
      .ok (.accept (.int m.tries)) := by
    rw [checkTries, hm.tries]
    exact congrArg Except.ok (if_neg (Int.not_lt.mpr hm.one_le))
  have hlevel : checkLevel (stated given "log_level" "INFO") = .accept (.text m.level) := by
    rw [checkLevel, ← levelName, hm.level]
    exact if_pos (List.contains_iff_mem.mpr hm.level_mem)
  rw [check_eq h, hm.url, Option.getD_some, checkUrl_text hm.hasScheme, hcreate, htries, hlevel]
  simp only [bind, Except.bind, entered_accept]
  rfl

theorem means_of_check (h : (names given).Nodup) (hc : check given = .ok t) :
    ∃ m, Means given m ∧ t = m.table (without defaultNames given) := by
  rw [check_eq h] at hc
  cases hurl : checkUrl ((Json.lookup "db_url" given).getD .null) with
  | error f => cases hurl ▸ hc
  | ok url =>
    cases htries : checkTries (stated given "connect_max_tries" "5") with
    | error f => rw [hurl, htries] at hc; cases hc
    | ok tries =>
      rw [hurl, htries] at hc
      simp only [bind, Except.bind] at hc
      split at hc
      · next hclean =>
        simp only [entered, isClean_enter, Bool.and_eq_true] at hclean
        obtain ⟨hlevel, htries', hcreate, hurl', -⟩ := hclean
        obtain ⟨rfl, u, hu, hscheme⟩ := checkUrl_good hurl hurl'
        obtain ⟨b, hb, hcreate⟩ := checkCreate_good hcreate
        obtain ⟨n, hn, hone, rfl⟩ := checkTries_good htries htries'
        obtain ⟨hmem, hlevel⟩ := checkLevel_good hlevel
        rw [hcreate, hlevel, entered_accept] at hc
        obtain rfl := Except.ok.inj hc
        refine ⟨⟨u, b, n, _⟩, ⟨?_, hscheme, hb, hn, hone, rfl, hmem⟩, rfl⟩
        cases hlookup : Json.lookup "db_url" given with
        | none => cases hlookup ▸ hu
        | some j => rw [hlookup] at hu; exact congrArg some hu
      · cases hc

theorem truthWord_bool (b : Bool) : truthWord (.bool b) = some b := by
  cases b <;> decide +kernel

theorem levelName_of_mem : ∀ l ∈ logLevels, levelName (.text l) = l := by decide +kernel

theorem names_without (ns : List String) (t : Table) :
    names (without ns t) = (names t).filter fun n => !ns.contains n := by
  rw [names, names, List.filter_map]
  rfl

theorem not_mem_names_without {ns : List String} {n : String} (hn : n ∈ ns) (t : Table) :
    n ∉ names (without ns t) := by
  rw [names_without]
  simp [hn]

/-- Settings in normal form mean what they were read as. -/
theorem Means.table (hm : Means given m) :
    Means (m.table (without defaultNames given)) m where
  url := by
    have hurl : "db_url" ∉ defaultNames := by decide
    rw [Meaning.table, lookup_known hurl, lookup_without hurl, hm.url]
  hasScheme := hm.hasScheme
  create := truthWord_bool m.create
  tries := rfl
  one_le := hm.one_le
  level := levelName_of_mem m.level hm.level_mem
  level_mem := hm.level_mem

theorem Meaning.nodup_table (m : Meaning) {rest : Table} (hrest : (names rest).Nodup)
    (h : ∀ n ∈ defaultNames, n ∉ names rest) : (names (m.table rest)).Nodup := by
  show (defaultNames ++ names rest).Nodup
  exact List.nodup_append.mpr ⟨by decide, hrest, fun n hn k hk hnk => h n hn (hnk ▸ hk)⟩

theorem Meaning.without_table (m : Meaning) {rest : Table}
    (h : ∀ n ∈ defaultNames, n ∉ names rest) :
    without defaultNames (m.table rest) = rest := by
  have hknown : without defaultNames (m.table rest) = without defaultNames rest := by
    simp [Meaning.table, known, without_cons, defaultNames, defaults]
  rw [hknown, without_eq_self h]

/-- Accepted settings are normal and stable. They are what was given, read: the settings that need
not be given in front, each in its own type, and behind them every other setting as it was given.
Accepted again, they do not change. -/
theorem accepted_stable (hgiven : (names given).Nodup) (h : check given = .ok t) :
    ∃ m, Means given m ∧ t = m.table (without defaultNames given) ∧
      Json.lookup "db_url" t = some (.text m.url) ∧
      names t = defaultNames ++ (names given).filter (fun n => !defaultNames.contains n) ∧
      (∀ name, name ∉ defaultNames → Json.lookup name t = Json.lookup name given) ∧
      check t = .ok t := by
  obtain ⟨m, hm, rfl⟩ := means_of_check hgiven h
  have hothers : ∀ n ∈ defaultNames, n ∉ names (without defaultNames given) :=
    fun n hn => not_mem_names_without hn given
  refine ⟨m, hm, rfl, hm.table.url, ?_, fun name hname => ?_, ?_⟩
  · rw [← names_without]
    rfl
  · rw [Meaning.table, lookup_known hname, lookup_without hname]
  · have hcheck := check_of_means (m.nodup_table (nodup_without _ hgiven) hothers) hm.table
    rwa [m.without_table hothers] at hcheck

theorem accepted_stable_scripts :
    let given : Table := [("note", .array [.null]), ("log_level", .text "warn\u0131ng"),
      ("db_url", .text "postgresql://h/evt"), ("connect_max_tries", .text " \u0663 "),
      ("create_database", .text "No")]
    let t : Table := [("create_database", .bool false), ("connect_max_tries", .int 3),
      ("log_level", .text "WARNING"), ("note", .array [.null]),
      ("db_url", .text "postgresql://h/evt")]
    (names given).Nodup ∧ check given = .ok t ∧ check t = .ok t := by
  intro given t
  have hgiven : (names given).Nodup := by decide
  have hm : Means given ⟨"postgresql://h/evt", false, 3, "WARNING"⟩ :=
    ⟨rfl, ⟨"postgresql://", by decide, by decide⟩, by decide +kernel, by rfl, by decide,
      by decide +kernel, by decide⟩
  have hcheck : check given = .ok t := check_of_means hgiven hm
  obtain ⟨-, -, -, -, -, -, hstable⟩ := accepted_stable hgiven hcheck
  exact ⟨hgiven, hcheck, hstable⟩

end Accepted

end ChainArchive.Settings
