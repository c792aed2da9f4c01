import ChainArchive.Proofs.Session.Transcript
import ChainArchive.Server.Unreachable
import Mathlib.Data.List.Basic
import Mathlib.Data.List.Forall2

namespace ChainArchive.Schema

open ChainArchive.Link ChainArchive.Program

inductive Kind where
  | table
  | sequence
  | index
  deriving DecidableEq, Repr

inductive Item where
  | table (name : String)
  | sequence (name : String)
  | index (name table : String)
  deriving DecidableEq, Repr

def Item.kind : Item → Kind
  | table _ => .table
  | sequence _ => .sequence
  | index _ _ => .index

def Item.name : Item → String
  | table name => name
  | sequence name => name
  | index name _ => name

/-- The objects of a database, where no index is on a missing table. -/
structure Catalog where
  items : List Item
  hosted : ∀ name table, .index name table ∈ items → .table table ∈ items

/-- Which kinds of objects take their names from one supply. Each kind does so with itself; a
database may keep the names of all kinds apart or together. -/
structure Naming where
  shared : Kind → Kind → Bool
  shared_self : ∀ k, shared k k = true

inductive Change where
  | add (x : Item)
  | dropTable (name : String)
  | dropSequence (name : String)

def Change.removes : Change → Item → Bool
  | .dropTable name, .table table => table = name
  | .dropTable name, .index _ table => table = name
  | .dropSequence name, .sequence sequence => sequence = name
  | _, _ => false

/-- How a text is read by a database. -/
inductive Reads : String → Change → Prop
  | createSequence (name : String) :
      Reads ("CREATE SEQUENCE IF NOT EXISTS " ++ name) (.add (.sequence name))
  | createTable (name definitions : String) :
      Reads ("CREATE TABLE IF NOT EXISTS public." ++ name ++ " (\n    " ++ definitions ++ "\n)")
        (.add (.table name))
  | createIndex (unique : Bool) (name table columns : String) :
      Reads ("CREATE " ++ (if unique then "UNIQUE " else "") ++ "INDEX IF NOT EXISTS " ++ name ++
        " ON public." ++ table ++ " USING btree (" ++ columns ++ ")") (.add (.index name table))
  | dropTable (name : String) : Reads ("DROP TABLE IF EXISTS public." ++ name) (.dropTable name)
  | dropSequence (name : String) : Reads ("DROP SEQUENCE IF EXISTS " ++ name) (.dropSequence name)

namespace Ddl

def change : Ddl → Change
  | createSequence name => .add (.sequence name)
  | createTable t => .add (.table t.name)
  | createIndex table i => .add (.index i.name table)
  | dropTable name => .dropTable name
  | dropSequence name => .dropSequence name

theorem sql_reads (d : Ddl) : Reads d.sql d.change := by
  cases d with
  | createSequence name => exact .createSequence name
  | createTable t => exact .createTable t.name (joined ",\n    " t.definitions)
  | createIndex table i => exact .createIndex i.unique i.name table (joined ", " i.columns)
  | dropTable name => exact .dropTable name
  | dropSequence name => exact .dropSequence name

end Ddl

namespace Naming

def clashes (s : Naming) (x y : Item) : Bool := s.shared x.kind y.kind && x.name == y.name

def taken (s : Naming) (items : List Item) (x : Item) : Bool := items.any (s.clashes x)

def apply (s : Naming) (items : List Item) : Change → List Item
  | .add x => if s.taken items x then items else items ++ [x]
  | c => items.filter fun x => !c.removes x

def run (s : Naming) (items : List Item) (ds : List Ddl) : List Item :=
  ds.foldl (fun items d => s.apply items d.change) items

variable {s : Naming} {items : List Item} {ds : List Ddl}

theorem run_append (s : Naming) (items : List Item) (ds ds' : List Ddl) :
    s.run items (ds ++ ds') = s.run (s.run items ds) ds' :=
  List.foldl_append

theorem taken_append_right (h : s.taken items x = true) (new : List Item) :
    s.taken (items ++ new) x = true := by
  rw [taken, List.any_append, ← taken, h, Bool.true_or]

theorem taken_of_mem {x : Item} (h : x ∈ items) : s.taken items x = true :=
  List.any_eq_true.mpr ⟨x, h, by simp [clashes, s.shared_self]⟩

theorem run_of_taken (h : ∀ d ∈ ds, ∃ x, d.change = .add x ∧ s.taken items x = true) :
    s.run items ds = items := by
  induction ds with
  | nil => rfl
  | cons d ds ih =>
    obtain ⟨⟨x, hx, htaken⟩, hds⟩ := List.forall_mem_cons.mp h
    have hd : s.apply items d.change = items := by
      rw [hx, apply, if_pos htaken]
    rw [run, List.foldl_cons, hd]
    exact ih hds

/-- Creations add some of their objects, and afterwards the names of all of them are taken. -/
theorem run_creations (s : Naming) (items : List Item) (h : ∀ d ∈ ds, ∃ x, d.change = .add x) :
    ∃ new, s.run items ds = items ++ new ∧ (∀ x ∈ new, ∃ d ∈ ds, d.change = .add x) ∧
      ∀ d ∈ ds, ∀ x, d.change = .add x → s.taken (s.run items ds) x = true := by
  induction ds generalizing items with
  | nil => exact ⟨[], by simp [run], nofun, nofun⟩
  | cons d ds ih =>
    obtain ⟨⟨x, hx⟩, hds⟩ := List.forall_mem_cons.mp h
    -- Whether it is added or not, the name of the first object is taken from then on.
    obtain ⟨first, hfirst, hmem, htaken⟩ : ∃ first, s.apply items d.change = items ++ first ∧
        (∀ y ∈ first, y = x) ∧ s.taken (items ++ first) x = true := by
      rw [hx, apply]
      split
      · next ht => exact ⟨[], by simp, nofun, by simpa using ht⟩
      · exact ⟨[x], rfl, by simp, taken_of_mem (by simp)⟩
    obtain ⟨new, hnew, hfrom, hall⟩ := ih (s.apply items d.change) hds
    have hrun : s.run items (d :: ds) = s.run (s.apply items d.change) ds := rfl
    rw [hrun]
    refine ⟨first ++ new, by rw [hnew, hfirst, List.append_assoc], fun y hy => ?_, ?_⟩
    · obtain hy | hy := List.mem_append.mp hy
      · exact ⟨d, List.mem_cons_self, by rw [hx, hmem y hy]⟩
      · obtain ⟨d', hd', hy⟩ := hfrom y hy
        exact ⟨d', List.mem_cons_of_mem _ hd', hy⟩
    · refine List.forall_mem_cons.mpr ⟨fun y hy => ?_, hall⟩
      cases hx.symm.trans hy
      rw [hnew, hfirst]
      exact taken_append_right htaken new

theorem run_drops (s : Naming) (items : List Item) (h : ∀ d ∈ ds, ∀ x, d.change ≠ .add x) :
    s.run items ds = items.filter fun x => !ds.any (·.change.removes x) := by
  induction ds generalizing items with
  | nil => simp [run]
  | cons d ds ih =>
    obtain ⟨hd, hds⟩ := List.forall_mem_cons.mp h
    have hfirst : s.apply items d.change = items.filter fun x => !d.change.removes x := by
      rw [apply]
      exact hd
    rw [run, List.foldl_cons, hfirst]
    refine (ih _ hds).trans ?_
    rw [List.filter_filter]
    refine List.filter_congr fun x _ => ?_
    rw [List.any_cons, Bool.not_or, Bool.and_comm]

end Naming

theorem exists_piece {α β : Type} {f : α → List β} {l : List α} {before after : List β} {x : β}
    (h : l.flatMap f = before ++ x :: after) : ∃ ts t us b a, l = ts ++ t :: us ∧
      f t = b ++ x :: a ∧ before = ts.flatMap f ++ b ∧ after = a ++ us.flatMap f := by
  induction l generalizing before with
  | nil => simp at h
  | cons t l ih =>
    rw [List.flatMap_cons] at h
    obtain ⟨b, rfl, hl⟩ | ⟨a, ht, ha⟩ := List.append_eq_append_iff.mp h
    · obtain ⟨ts, u, us, b, a, rfl, hu, rfl, rfl⟩ := ih hl
      exact ⟨t :: ts, u, us, b, a, rfl, hu, by simp, rfl⟩
    · cases a with
      | nil =>
        have hl : l.flatMap f = [] ++ x :: after := ha.symm
        obtain ⟨ts, u, us, b, a, rfl, hu, hb, rfl⟩ := ih hl
        obtain ⟨hts, rfl⟩ := List.append_eq_nil_iff.mp hb.symm
        exact ⟨t :: ts, u, us, [], a, rfl, hu, by simp [ht, hts], rfl⟩
      | cons y a =>
        obtain ⟨rfl, rfl⟩ := List.cons.inj ha
        exact ⟨[], t, l, before, a, rfl, ht, by simp, rfl⟩

theorem Table.creation_around {t u : Table} {before after : List Ddl}
    (h : t.creation = before ++ .createTable u :: after) :
    t = u ∧ before = u.sequences.map .createSequence ∧
      after = u.indexes.map (.createIndex u.name) := by
  rw [Table.creation] at h
  obtain ⟨rfl, hd, rfl⟩ := (List.append_cons_inj_of_notMem (by simp) (by simp)).mp h
  cases hd
  exact ⟨rfl, rfl, rfl⟩

namespace Layout

def drops (l : Layout) : List Ddl := l.tableDrops ++ l.sequenceDrops

variable {l : Layout} {d : Ddl} {before after : List Ddl}

theorem change_of_mem_drops (h : d ∈ l.drops) (x : Item) : d.change ≠ .add x := by
  obtain h | h := List.mem_append.mp h
  all_goals
    obtain ⟨name, -, rfl⟩ := List.mem_map.mp h
    nofun

/-- A creation is of an object that a reset removes. -/
theorem removed_of_mem_creation (h : d ∈ l.creation) :
    ∃ x, d.change = .add x ∧ l.drops.any (·.change.removes x) = true := by
  obtain ⟨t, ht, hd⟩ := List.mem_flatMap.mp h
  have htable : .dropTable t.name ∈ l.drops :=
    List.mem_append_left _ (List.mem_map_of_mem (List.mem_map_of_mem ht))
  obtain hd | hd := List.mem_append.mp hd
  · obtain ⟨name, hname, rfl⟩ := List.mem_map.mp hd
    have hsequence : .dropSequence name ∈ l.drops :=
      List.mem_append_right _ (List.mem_map_of_mem (List.mem_flatMap.mpr ⟨t, ht, hname⟩))
    exact ⟨_, rfl, List.any_eq_true.mpr ⟨_, hsequence, decide_eq_true rfl⟩⟩
  · obtain rfl | hd := List.mem_cons.mp hd
    · exact ⟨_, rfl, List.any_eq_true.mpr ⟨_, htable, decide_eq_true rfl⟩⟩
    · obtain ⟨i, -, rfl⟩ := List.mem_map.mp hd
      exact ⟨_, rfl, List.any_eq_true.mpr ⟨_, htable, decide_eq_true rfl⟩⟩

theorem kept_of_absent {c : Catalog} (htables : ∀ n ∈ l.tableNames, .table n ∉ c.items)
    (hsequences : ∀ n ∈ l.sequenceNames, .sequence n ∉ c.items) {x : Item} (hx : x ∈ c.items) :
    l.drops.any (·.change.removes x) = false := by
  refine List.any_eq_false.mpr fun d hd hremoves => ?_
  obtain hd | hd := List.mem_append.mp hd
  all_goals obtain ⟨name, hname, rfl⟩ := List.mem_map.mp hd
  · cases x with
    | table table =>
      obtain rfl : table = name := of_decide_eq_true hremoves
      exact htables table hname hx
    | index i table =>
      obtain rfl : table = name := of_decide_eq_true hremoves
      exact htables table hname (c.hosted i table hx)
    | sequence sequence => exact Bool.false_ne_true hremoves
  · cases x with
    | sequence sequence =>
      obtain rfl : sequence = name := of_decide_eq_true hremoves
      exact hsequences sequence hname hx
    | table | index => exact Bool.false_ne_true hremoves

theorem exists_add_of_mem_creation (h : d ∈ l.creation) : ∃ x, d.change = .add x :=
  (removed_of_mem_creation h).imp fun _ h => h.1

/-- A creation that stopped halfway is completed by the next one. -/
theorem run_creation_again (s : Naming) (items : List Item) {done rest : List Ddl}
    (h : l.creation = done ++ rest) :
    s.run (s.run items done) l.creation = s.run items l.creation := by
  have hadd : ∀ d ∈ done, ∃ x, d.change = .add x := fun d hd =>
    exists_add_of_mem_creation (h ▸ List.mem_append_left _ hd)
  obtain ⟨-, -, -, htaken⟩ := Naming.run_creations s items hadd
  have hdone : s.run (s.run items done) done = s.run items done := by
    refine Naming.run_of_taken fun d hd => ?_
    obtain ⟨x, hx⟩ := hadd d hd
    exact ⟨x, hx, htaken d hd x hx⟩
  rw [h, Naming.run_append, hdone, Naming.run_append]

theorem run_drops_creation (s : Naming) {c : Catalog}
    (htables : ∀ n ∈ l.tableNames, .table n ∉ c.items)
    (hsequences : ∀ n ∈ l.sequenceNames, .sequence n ∉ c.items) :
    s.run (s.run c.items l.creation) l.drops = c.items := by
  obtain ⟨new, hnew, hfrom, -⟩ := Naming.run_creations s c.items fun _ =>
    exists_add_of_mem_creation
  rw [Naming.run_drops s _ fun d hd => change_of_mem_drops hd, hnew, List.filter_append]
  have hold : c.items.filter (fun x => !l.drops.any (·.change.removes x)) = c.items :=
    List.filter_eq_self.mpr fun x hx => by rw [kept_of_absent htables hsequences hx, Bool.not_false]
  have hgone : new.filter (fun x => !l.drops.any (·.change.removes x)) = [] := by
    refine List.filter_eq_nil_iff.mpr fun x hx => ?_
    obtain ⟨d, hd, hdx⟩ := hfrom x hx
    obtain ⟨y, hdy, hremoved⟩ := removed_of_mem_creation hd
    cases hdx.symm.trans hdy
    simp [hremoved]
  rw [hold, hgone, List.append_nil]

theorem around_createTable {t : Table} (h : l.creation = before ++ .createTable t :: after) :
    (∀ q ∈ t.sequences, .createSequence q ∈ before) ∧
      ∀ i ∈ t.indexes, .createIndex t.name i ∈ after := by
  obtain ⟨ts, u, us, b, a, -, hu, rfl, rfl⟩ := exists_piece h
  obtain ⟨rfl, rfl, rfl⟩ := Table.creation_around hu
  refine ⟨fun q hq => ?_, fun i hi => ?_⟩
  · exact List.mem_append_right _ (List.mem_map_of_mem hq)
  · exact List.mem_append_left _ (List.mem_map_of_mem hi)

theorem mem_of_dropSequence {n : String} (h : l.drops = before ++ .dropSequence n :: after) :
    ∀ t ∈ l.tableNames, .dropTable t ∈ before := by
  have hsplit : ∃ rest, before = l.tableDrops ++ rest := by
    obtain ⟨rest, hbefore, -⟩ | ⟨rest, htables, hrest⟩ := List.append_eq_append_iff.mp h
    · exact ⟨rest, hbefore⟩
    · cases rest with
      | nil => exact ⟨[], by simpa using htables.symm⟩
      | cons d rest =>
        obtain ⟨rfl, -⟩ := List.cons.inj hrest
        have hmem : .dropSequence n ∈ l.tableDrops := by simp [htables]
        simp [tableDrops] at hmem
  obtain ⟨rest, rfl⟩ := hsplit
  exact fun t ht => List.mem_append_left _ (List.mem_map_of_mem ht)

theorem no_table_of_dropSequence {n : String} (s : Naming) (items : List Item)
    (h : l.drops = before ++ .dropSequence n :: after) :
    ∀ t ∈ l.tableNames, .table t ∉ s.run items before := by
  intro t ht hmem
  rw [Naming.run_drops s items fun d hd => change_of_mem_drops (h ▸ List.mem_append_left _ hd)]
    at hmem
  have hkept := (List.mem_filter.mp hmem).2
  have hremoved : before.any (·.change.removes (.table t)) = true :=
    List.any_eq_true.mpr ⟨_, mem_of_dropSequence h t ht, decide_eq_true rfl⟩
  rw [hremoved] at hkept
  exact Bool.false_ne_true hkept

end Layout

section Sending

variable {σ : Type} [Server σ]

/-- How statements go over a connection: all of them are executed, or those before the first that
fails, whose error is raised. Nothing goes over a connection that is given up. -/
inductive Carried (c : Connection) (ds : List Ddl) : Except Failure Unit → List Entry → Prop
  | through {es : List Entry} : List.Forall₂ Executed ds es → Carried c ds (.ok ()) es
  | upTo {done rest : List Ddl} {d : Ddl} {es : List Entry} (e : ServerError) :
      ds = done ++ d :: rest → List.Forall₂ Executed done es →
      Carried c ds (.error (if e.isDatabase then d.failure e else .server e))
        (es ++ [.asked (.execute d.sql []) (.error e)])
  | cutOff : c = .released → ds ≠ [] → Carried c ds (.error .noConnection) []

def Carries (p : Program (Link σ) Unit) (ds : List Ddl) : Prop :=
  ∀ link : Link σ, ∃ es, (p.runFrom link).2.line.log = link.line.log ++ es ∧
    (link.session.connection = .released → es = []) ∧
    Carried link.session.connection ds (p.runFrom link).1 es

theorem carried_of_applied {t : Terms} {ds : List Ddl} {r : Except Failure Unit} {es : List Entry}
    (h : Applied t ds r es) (hes : t.connection = .released → es = []) :
    Carried t.connection ds r es := by
  induction h with
  | nil => exact .through .nil
  | cutOff hc => exact .cutOff hc nofun
  | @failed d ds e => exact .upTo e (List.nil_append (d :: ds)).symm .nil
  | cons he _ ih =>
    have hc : t.connection ≠ .released := fun hc => nomatch hes hc
    cases ih fun h => absurd h hc with
    | through hall => exact .through (.cons he hall)
    | upTo e hds hdone =>
      subst hds
      exact .upTo e rfl (.cons he hdone)
    | cutOff h => exact absurd h hc

theorem applyEach_carries (ds : List Ddl) : Carries (σ := σ) (applyEach ds) ds := by
  intro link
  obtain ⟨es, hsends, happlied⟩ := applyEach_records link.terms ds link rfl
  exact ⟨es, hsends.log_eq, hsends.eq_nil, carried_of_applied happlied hsends.eq_nil⟩

theorem applyEach_append (ds ds' : List Ddl) :
    (applyEach (ds ++ ds') : Program (Link σ) Unit) = (do applyEach ds; applyEach ds') := by
  induction ds with
  | nil => simp [applyEach]
  | cons d ds ih => simp [applyEach, ih]

theorem Layout.reset_carries (l : Layout) :
    Carries (σ := σ) (do l.dropTables; l.dropSequences) l.drops := by
  have h := applyEach_carries (σ := σ) l.drops
  rw [Layout.drops, applyEach_append] at h
  exact h

/-- Creation is idempotent and undone by a reset, for every layout and every catalog, however the
database keeps names apart. Every statement reads as the change that it makes; the sequences of a
table are created before it and its indexes after it, and no sequence is dropped while a table of
the layout is left. The programs execute these statements in order up to the first that fails. -/
theorem Layout.creation_undone (l : Layout) (s : Naming) :
    (∀ d ∈ l.creation ++ l.drops, Reads d.sql d.change) ∧
    (∀ items, s.run (s.run items l.creation) l.creation = s.run items l.creation) ∧
    (∀ t ∈ l.tables, .createTable t ∈ l.creation) ∧
    (∀ before t after, l.creation = before ++ .createTable t :: after →
      (∀ q ∈ t.sequences, .createSequence q ∈ before) ∧
        ∀ i ∈ t.indexes, .createIndex t.name i ∈ after) ∧
    (∀ c : Catalog, (∀ n ∈ l.tableNames, .table n ∉ c.items) →
      (∀ n ∈ l.sequenceNames, .sequence n ∉ c.items) →
      s.run (s.run c.items l.creation) l.drops = c.items) ∧
    (∀ items before n after, l.drops = before ++ .dropSequence n :: after →
      ∀ t ∈ l.tableNames, .table t ∉ s.run items before) ∧
    Carries (σ := σ) l.create l.creation ∧
    Carries (σ := σ) l.dropTables l.tableDrops ∧
    Carries (σ := σ) l.dropSequences l.sequenceDrops ∧
    Carries (σ := σ) (do l.dropTables; l.dropSequences) l.drops := by
  refine ⟨fun d _ => d.sql_reads, fun items => ?_, fun t ht => ?_, ?_, ?_, ?_,
    applyEach_carries _, applyEach_carries _, applyEach_carries _, l.reset_carries⟩
  · exact run_creation_again s items (List.append_nil _).symm
  · exact List.mem_flatMap.mpr ⟨t, ht, List.mem_append_right _ List.mem_cons_self⟩
  · exact fun before t after h => around_createTable h
  · exact fun c htables hsequences => run_drops_creation s htables hsequences
  · exact fun items before n after h => no_table_of_dropSequence s items h

end Sending

theorem Layout.creation_undone_beside_users :
    let s : Naming := ⟨fun _ _ => true, fun _ => rfl⟩
    let users : List Item := [.table "users", .index "blocks_block_id_index" "users"]
    (s.run users latest.creation).length = 19 ∧
      s.run (s.run users latest.creation) latest.drops = users := by
  intro s users
  let c : Catalog := ⟨users, by simp [users]⟩
  obtain ⟨-, -, -, -, hrestored, -⟩ := Layout.creation_undone (σ := Unreachable) latest s
  exact ⟨by decide +kernel, hrestored c (by decide) (by decide)⟩

end ChainArchive.Schema
