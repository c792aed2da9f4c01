import ChainArchive.Proofs.Database.Connections
import ChainArchive.Server.Scripted
import ChainArchive.Text.Quoted

namespace ChainArchive

def Entry.executed? : Entry → Option (String × List Value)
  | .asked (.execute sql args) _ => some (sql, args)
  | _ => none

namespace Sql

open ChainArchive.Text

inductive Token where
  | word (text : List Char)
  | identifier (name : List Char)
  | literal (text : List Char)
  | mark (c : Char)
  deriving DecidableEq, Repr

/-- Where a reader stands. -/
inductive Place where
  | between
  | word (read : List Char)
  | inside (quote : Char) (read : List Char)
  /-- Behind a quote, which is part of the text if another one follows. -/
  | behind (quote : Char) (read : List Char)

def isWordChar (c : Char) : Bool := c.isAlphanum || c == '_' || 128 ≤ c.toNat

def isSpace (c : Char) : Bool := [' ', '\n', '\t', '\r'].contains c

def Place.next? : Place → Char → Option Place
  | between, _ => none
  | word w, c => if isWordChar c then some (.word (w ++ [c])) else none
  | inside q w, c => some (if c = q then .behind q w else .inside q (w ++ [c]))
  | behind q w, c => if c = q then some (.inside q (w ++ [q])) else none

def Place.closed? : Place → Option (List Token)
  | between => some []
  | word w => some [.word w]
  | inside _ _ => none
  | behind q w =>
    if q = singleQuote then some [.literal w] else if w = [] then none else some [.identifier w]

def Place.ofChar (c : Char) : List Token × Place :=
  if isSpace c then ([], .between)
  else if c = '"' ∨ c = singleQuote then ([], .inside c [])
  else if isWordChar c then ([], .word [c])
  else ([.mark c], .between)

/-- Reads tokens from a place on. The reader knows no comments and no dollar quotes, of which the
statements have none outside of names. -/
def scan? (p : Place) : List Char → Option (List Token)
  | [] => p.closed?
  | c :: cs =>
    match p.next? c with
    | some q => scan? q cs
    | none => do
      let done ← p.closed?
      let rest ← scan? (Place.ofChar c).2 cs
      return done ++ (Place.ofChar c).1 ++ rest

def tokens? (sql : String) : Option (List Token) := scan? .between sql.toList

section Scanning

variable {p q : Place} {c : Char} {cs name w : List Char} {ts : List Token}

theorem scan?_of_next (h : p.next? c = some q) (cs : List Char) :
    scan? p (c :: cs) = scan? q cs := by
  rw [scan?, h]

theorem scan?_inside (h : '"' ∉ name) (w cs : List Char) :
    scan? (.inside '"' w) (name ++ cs) = scan? (.inside '"' (w ++ name)) cs := by
  induction name generalizing w with
  | nil => rw [List.nil_append, List.append_nil]
  | cons c name ih =>
    have hc : c ≠ '"' := Ne.symm (List.ne_of_not_mem_cons h)
    rw [List.cons_append, scan?_of_next (q := .inside '"' (w ++ [c])) (by simp [Place.next?, hc])]
    rw [ih (List.not_mem_of_not_mem_cons h), List.append_assoc, List.singleton_append]

/-- The token that is read first inside an identifier, or behind a quote of it, is the identifier.
The text has every quote of it twice, and another one at the end. -/
theorem identifier_of_scan? (cs : List Char) :
    (∀ w ts, scan? (.inside '"' w) cs = some ts → ∃ body after,
      ts = .identifier (w ++ body) :: after ∧ 2 * body.count '"' + 1 ≤ cs.count '"') ∧
    ∀ w ts, scan? (.behind '"' w) cs = some ts → ∃ body after,
      ts = .identifier (w ++ body) :: after ∧ 2 * body.count '"' ≤ cs.count '"' := by
  have hclosed : ∀ {w ts}, (Place.behind '"' w).closed? = some ts → ts = [.identifier w] := by
    intro w ts h
    rw [Place.closed?, if_neg (by decide)] at h
    split at h
    · cases h
    · exact (Option.some.inj h).symm
  -- A quote leads from inside to behind and, written twice, back again, so both go together.
  induction cs with
  | nil =>
    refine ⟨fun w ts h => ?_, fun w ts h => ?_⟩
    · cases h
    · exact ⟨[], [], by rw [hclosed h, List.append_nil], Nat.le_refl _⟩
  | cons c cs ih =>
    obtain ⟨hinside, hbehind⟩ := ih
    by_cases hc : c = '"'
    · subst hc
      refine ⟨fun w ts h => ?_, fun w ts h => ?_⟩
      · rw [scan?_of_next (q := .behind '"' w) (by simp [Place.next?])] at h
        obtain ⟨body, after, rfl, hcount⟩ := hbehind w ts h
        exact ⟨body, after, rfl, by simpa using hcount⟩
      · rw [scan?_of_next (q := .inside '"' (w ++ ['"'])) (by simp [Place.next?])] at h
        obtain ⟨body, after, rfl, hcount⟩ := hinside _ ts h
        refine ⟨'"' :: body, after, by simp, ?_⟩
        simp only [List.count_cons_self]
        omega
    · refine ⟨fun w ts h => ?_, fun w ts h => ?_⟩
      · rw [scan?_of_next (q := .inside '"' (w ++ [c])) (by simp [Place.next?, hc])] at h
        obtain ⟨body, after, rfl, hcount⟩ := hinside _ ts h
        exact ⟨c :: body, after, by simp, by simpa [List.count_cons, hc] using hcount⟩
      · have hnext : (Place.behind '"' w).next? c = none := by simp [Place.next?, hc]
        simp only [scan?, hnext, Option.bind_eq_bind, Option.bind_eq_some_iff] at h
        obtain ⟨done, hdone, rest, -, hts⟩ := h
        obtain rfl := hclosed hdone
        refine ⟨[], (Place.ofChar c).1 ++ rest, ?_, Nat.zero_le _⟩
        simpa using (Option.some.inj hts).symm

theorem scan?_behind (hc : c ≠ '"') (hname : name ≠ []) (cs : List Char) :
    scan? (.behind '"' name) (c :: cs) =
      (scan? (Place.ofChar c).2 cs).map (.identifier name :: (Place.ofChar c).1 ++ ·) := by
  have hnext : (Place.behind '"' name).next? c = none := by simp [Place.next?, hc]
  have hclosed : (Place.behind '"' name).closed? = some [.identifier name] := by
    rw [Place.closed?, if_neg (by decide), if_neg hname]
  rw [scan?, hnext, hclosed]
  cases scan? (Place.ofChar c).2 cs <;> rfl

end Scanning

/-- Statements that differ in one identifier in quotes only, and how they are read if the name in it
is read as it is. -/
structure Frame (text : String → String) where
  opening : String
  closing : String
  before : List Token
  after : List Token
  single : .mark ';' ∉ before ++ after
  text_eq : ∀ name, text name = opening ++ name ++ closing
  one_quote : closing.toList.count '"' = 1
  reads_opening : ∀ cs, scan? .between (opening.toList ++ cs) =
    (scan? (.inside '"' []) cs).map (before ++ ·)
  reads_closing : ∀ name, name ≠ [] →
    scan? (.inside '"' name) closing.toList = some (.identifier name :: after)

namespace Frame

variable {text : String → String}

def naming (f : Frame text) (name : String) : List Token :=
  f.before ++ .identifier name.toList :: f.after

theorem tokens?_eq_iff (f : Frame text) {name : String} (hname : name ≠ "") :
    tokens? (text name) = some (f.naming name) ↔ '"' ∉ name.toList := by
  have hchars : name.toList ≠ [] := fun h => hname (String.toList_inj.mp h)
  rw [tokens?, f.text_eq, String.toList_append, String.toList_append, List.append_assoc,
    f.reads_opening, naming]
  constructor
  · intro h
    obtain ⟨ts, hts, happend⟩ := Option.map_eq_some_iff.mp h
    obtain rfl := List.append_cancel_left happend
    obtain ⟨body, after, hbody, hcount⟩ := (identifier_of_scan? _).1 [] _ hts
    obtain ⟨hbody, -⟩ := List.cons.inj hbody
    obtain rfl : name.toList = body := by simpa using hbody
    rw [List.count_append, f.one_quote] at hcount
    exact List.count_eq_zero.mp (by omega)
  · intro h
    rw [scan?_inside h, List.nil_append, f.reads_closing _ hchars]
    rfl

end Frame

def creationForm : String := "\"
            WITH
            TEMPLATE = template0
            ENCODING = 'UTF8'
            LC_COLLATE = 'C'
            LC_CTYPE = 'C'
            CONNECTION LIMIT = -1
        "

def creating : Frame Database.createSql where
  opening := "\n            CREATE DATABASE \""
  closing := creationForm
  before := [.word "CREATE".toList, .word "DATABASE".toList]
  after := [.word "WITH".toList,
    .word "TEMPLATE".toList, .mark '=', .word "template0".toList,
    .word "ENCODING".toList, .mark '=', .literal "UTF8".toList,
    .word "LC_COLLATE".toList, .mark '=', .literal "C".toList,
    .word "LC_CTYPE".toList, .mark '=', .literal "C".toList,
    .word "CONNECTION".toList, .word "LIMIT".toList, .mark '=', .mark '-', .word "1".toList]
  single := by decide +kernel
  text_eq _ := rfl
  one_quote := by
    rw [creationForm, String.toList_ofList]
    decide +kernel
  reads_opening cs := by
    cases h : scan? (.inside '"' []) cs <;>
      simp [scan?, Place.next?, Place.ofChar, Place.closed?, h, isSpace, isWordChar, singleQuote]
  reads_closing name hname := by
    rw [creationForm, String.toList_ofList,
      scan?_of_next (q := .behind '"' name) (by simp [Place.next?]), scan?_behind (by decide) hname]
    exact Option.map_eq_some_iff.mpr ⟨_, by decide +kernel, rfl⟩

def dropping : Frame Database.dropSql where
  opening := "DROP DATABASE IF EXISTS \""
  closing := "\""
  before := [.word "DROP".toList, .word "DATABASE".toList, .word "IF".toList, .word "EXISTS".toList]
  after := []
  single := by decide +kernel
  text_eq _ := rfl
  one_quote := by simp
  reads_opening cs := by
    cases h : scan? (.inside '"' []) cs <;>
      simp [scan?, Place.next?, Place.ofChar, Place.closed?, h, isSpace, isWordChar, singleQuote]
  reads_closing name hname := by
    simp [scan?, Place.next?, Place.closed?, hname, singleQuote]

end Sql

theorem Text.decodeLenient_ne_nil {bytes : List UInt8} (h : bytes ≠ []) :
    decodeLenient bytes ≠ [] := by
  cases bytes with
  | nil => exact absurd rfl h
  | cons a rest =>
    rw [decodeLenient, List.length_cons, decodeLenientFrom]
    split <;> exact List.cons_ne_nil _ _

namespace Url

open ChainArchive.Text

variable {cs : List Char}

theorem percentBytes_ne_nil (h : cs ≠ []) : percentBytes cs ≠ [] := by
  unfold percentBytes
  split
  · split <;> exact List.cons_ne_nil _ _
  · exact List.cons_ne_nil _ _
  · exact absurd rfl h

theorem unquote_ne_nil (h : cs ≠ []) : unquote cs ≠ [] := by
  obtain ⟨c, rest, rfl⟩ := List.exists_cons_of_ne_nil h
  rw [unquote, List.length_cons, List.map_cons]
  generalize (if c == '+' then ' ' else c) = c'
  generalize rest.map _ = rest'
  rw [unquoteFrom]
  · cases hc : isAscii c' with
    | true =>
      rw [List.takeWhile_cons_of_pos hc, List.append_assoc]
      exact List.append_ne_nil_of_left_ne_nil
        (decodeLenient_ne_nil (percentBytes_ne_nil (List.cons_ne_nil _ _))) _
    | false => simp [hc]
  · exact List.cons_ne_nil _ _

theorem field?_ne_empty {name value : String} {u : Url} (h : u.field? name = some value) :
    value ≠ "" := by
  obtain ⟨⟨key, chars⟩, hfind, rfl⟩ := Option.map_eq_some_iff.mp h
  obtain ⟨field, -, hfield⟩ := List.mem_filterMap.mp (List.mem_of_find?_eq_some hfind)
  split at hfield
  · next value _ =>
    split at hfield
    · cases hfield
    · next hvalue =>
      cases hfield
      rw [Ne, String.ofList_eq_empty_iff]
      exact unquote_ne_nil fun hnil => hvalue (by rw [hnil, List.isEmpty_nil])
  · cases hfield

end Url

namespace Database

theorem databaseName_ne_empty {url name : String} (h : databaseName url = .ok name) :
    name ≠ "" := by
  rw [databaseName] at h
  cases hread : Url.read url with
  | error fault => cases hread ▸ h
  | ok u =>
    obtain rfl : Target.name u = name := Except.ok.inj (hread ▸ h)
    simp only [Target.name]
    split
    · cases hfield : u.field? "database" with
      | none => decide +kernel
      | some value => exact Url.field?_ne_empty hfield
    · next hpath =>
      rw [Ne, String.ofList_eq_empty_iff]
      exact fun hnil => hpath (by rw [hnil, List.isEmpty_nil])

section Executing

variable {σ : Type}

variable [Server σ]

theorem Attempts.executed?_eq_none {url application : String} {n : Nat} {reply : Reply}
    {es : List Entry} (h : Attempts url application n reply es) :
    ∀ e ∈ es, e.executed? = none := by
  induction h with
  | accepted | givenUp => exact List.forall_mem_singleton.mpr rfl
  | again _ _ ih => exact List.forall_mem_cons.mpr ⟨rfl, ih⟩

theorem Connected.executed?_eq_nil {url : String} {maxTries : Int} {r : Except Failure Unit}
    {es : List Entry} (h : Connected url maxTries r es) : es.filterMap Entry.executed? = [] := by
  refine List.filterMap_eq_nil_iff.mpr ?_
  cases h with
  | unread => exact List.forall_mem_nil _
  | failed _ h | made _ h => exact h.executed?_eq_none

def ExecutesOnly (sql : String) (r : Except Failure Unit) (es : List Entry) : Prop :=
  (es.filterMap Entry.executed? = [] ∧ ∃ failure, r = .error failure) ∨
    es.filterMap Entry.executed? = [(sql, [])]

theorem onMaintenance_executes {body : Program (Line σ) Unit} (sql url : String)
    (maxTries : Int) (hbody : Leaves body (ExecutesOnly sql)) :
    Leaves (onMaintenance url maxTries body) (ExecutesOnly sql) := by
  refine Leaves.ofUrl_bind (fun _ _ => .inl ⟨rfl, _, rfl⟩) fun target _ => ?_
  have hclosing : Leaves (body.ensuring (·.mark .close)) (ExecutesOnly sql) := by
    intro l
    obtain ⟨es, hlog, hes⟩ := hbody l
    refine ⟨es ++ [.marked .close], ?_, ?_⟩
    · rw [Program.runFrom_ensuring, ← List.append_assoc, ← hlog]
      rfl
    · have hclose : [Entry.marked .close].filterMap Entry.executed? = [] := rfl
      rwa [ExecutesOnly, List.filterMap_append, hclose, List.append_nil, Program.runFrom_ensuring]
  refine (connect_leaves target maxTries).bind (fun _ => hclosing)
    (fun e es h => .inl ⟨h.executed?_eq_nil, e, rfl⟩) fun _ es r fs h hfs => ?_
  rwa [ExecutesOnly, List.filterMap_append, h.executed?_eq_nil, List.nil_append]

theorem onDatabase_executes (sql : String → String)
    (failure : String → ServerError → Failure) (url : String) (maxTries : Int) :
    Leaves (σ := σ) (onDatabase sql failure url maxTries) fun r es =>
      (es = [] ∧ ∃ f, r = .error f) ∨
        ∃ name, databaseName url = .ok name ∧ ExecutesOnly (sql name) r es := by
  refine Leaves.ofUrl_bind (fun _ _ => .inl ⟨rfl, _, rfl⟩) fun name hname => ?_
  refine (onMaintenance_executes (sql name) url maxTries ?_).mono
    fun r es h => .inr ⟨name, hname, h⟩
  refine Leaves.request_bind fun reply => ?_
  cases reply with
  | ok v => exact .pure (.inr rfl)
  | error e => exact .throw (.inr rfl)

/-- The program fails before it executes a statement, or it executes a single one, which is read as
the statement that names the database of the URL exactly if there is no quote in the name. -/
def NamesDatabase {text : String → String} (f : Sql.Frame text) (url : String)
    (p : Program (Line σ) Unit) : Prop :=
  ∀ l, ∃ es, (p.runFrom l).2.log = l.log ++ es ∧
    ((es.filterMap Entry.executed? = [] ∧ ∃ failure, (p.runFrom l).1 = .error failure) ∨
      ∃ name, databaseName url = .ok name ∧ es.filterMap Entry.executed? = [(text name, [])] ∧
        (Sql.tokens? (text name) = some (f.naming name) ↔ '"' ∉ name.toList))

theorem onDatabase_names {text : String → String} (f : Sql.Frame text)
    (failure : String → ServerError → Failure) (url : String) (maxTries : Int) :
    NamesDatabase (σ := σ) f url (onDatabase text failure url maxTries) := by
  intro l
  obtain ⟨es, hlog, ⟨rfl, hfailed⟩ | ⟨name, hname, hfailed | hes⟩⟩ :=
    onDatabase_executes text failure url maxTries l
  · exact ⟨[], hlog, .inl ⟨rfl, hfailed⟩⟩
  · exact ⟨es, hlog, .inl hfailed⟩
  · have hread := f.tokens?_eq_iff (databaseName_ne_empty hname)
    exact ⟨es, hlog, .inr ⟨name, hname, hes, hread⟩⟩

/-- What is executed to create or drop the database of a URL names that database and does nothing
else, if there is no quote in its name, and only then. -/
theorem database_named_iff (url : String) (maxTries : Int) :
    NamesDatabase (σ := σ) Sql.creating url (createDatabase url maxTries) ∧
      NamesDatabase (σ := σ) Sql.dropping url (dropDatabase url maxTries) :=
  ⟨onDatabase_names Sql.creating .createDatabase url maxTries,
    onDatabase_names Sql.dropping .dropDatabase url maxTries⟩

end Executing

theorem database_named_semicolon :
    let url := "postgresql://h?database=a%3B+DROP%27"
    let l : Line Script := ⟨Script.empty, []⟩
    (databaseName url).toOption = some "a; DROP'" ∧
    ((dropDatabase url 1).runFrom l).2.log.filterMap Entry.executed? =
      [("DROP DATABASE IF EXISTS \"a; DROP'\"", [])] ∧
    Sql.tokens? "DROP DATABASE IF EXISTS \"a; DROP'\"" =
      some (Sql.dropping.naming "a; DROP'") := by
  intro url l
  have hname : (databaseName url).toOption = some "a; DROP'" := by decide +kernel
  obtain ⟨es, hlog, ⟨hnone, failure, hfailed⟩ | ⟨name, hname', hes, hread⟩⟩ :=
    (database_named_iff (σ := Script) url 1).2 l
  · have hdone : ((dropDatabase url 1).runFrom l).1.toOption = some () := by decide +kernel
    cases hfailed ▸ hdone
  · obtain rfl : name = "a; DROP'" := by simpa [hname', Except.toOption] using hname
    refine ⟨hname, ?_, hread.mpr (by decide +kernel)⟩
    rw [hlog]
    exact hes

/-- With a quote in the name, a second statement is read. -/
theorem not_named_with_quote :
    let url := "postgresql://h/a\"; DROP DATABASE \"evt"
    let l : Line Script := ⟨Script.empty, []⟩
    (databaseName url).toOption = some "a\"; DROP DATABASE \"evt" ∧
    (((dropDatabase url 1).runFrom l).2.log.filterMap Entry.executed?).map Prod.fst =
      ["DROP DATABASE IF EXISTS \"a\"; DROP DATABASE \"evt\""] ∧
    Sql.tokens? "DROP DATABASE IF EXISTS \"a\"; DROP DATABASE \"evt\"" =
      some ([.word "DROP".toList, .word "DATABASE".toList, .word "IF".toList,
        .word "EXISTS".toList, .identifier "a".toList, .mark ';', .word "DROP".toList,
        .word "DATABASE".toList, .identifier "evt".toList]) := by
  intro url l
  decide +kernel

end Database

end ChainArchive
