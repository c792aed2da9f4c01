import ChainArchive.Proofs.Entity.Database
import ChainArchive.Proofs.Entity.Effect

namespace ChainArchive.Entity

open ChainArchive.Ingest ChainArchive.Record ChainArchive.Schema ChainArchive.Sql

/-- Items that are stored as the rows of a table, by primary key: a statement on the table adds or
changes one item. -/
structure Kind (α κ : Type) where
  table : Table
  column : String
  key : α → κ
  cell : κ → Cell
  row : α → Row
  listed : Database.layout? table.name = some table
  primary : Database.primaryKey? table = some column
  cell_injective : ∀ j k, cell j = cell k → j = k
  lookup_row : ∀ x, (row x).lookup column = some (cell (key x))

namespace Kind

variable {α κ : Type} [DecidableEq κ] (K : Kind α κ) {d : Database} {cells : List Cell} {xs : List α}

theorem lookup_row_beq (x y : α) :
    ((K.row y).lookup K.column == (K.row x).lookup K.column) = decide (K.key y = K.key x) := by
  rw [K.lookup_row, K.lookup_row]
  by_cases h : K.key y = K.key x
  · simp [h]
  · have hcell : K.cell (K.key y) ≠ K.cell (K.key x) := fun e => h (K.cell_injective _ _ e)
    simp [h, hcell]

theorem exec_insert {values : List (String × Expr)} {returning : Option String} {x : α}
    (hc : Database.hasColumns K.table (values.map (·.1) ++ returning.toList) = true)
    (hx : d.newRow? cells values K.table = some (K.row x))
    (hd : d.rows K.table.name = xs.map K.row) :
    d.exec cells (.insert K.table.name values returning) =
      if xs.any (K.key · = K.key x) then .error (Database.duplicateKey K.table.name)
      else .ok ((returning.bind fun c => (K.row x).lookup c).elim .null Cell.value,
        { d.put K.table.name ((xs ++ [x]).map K.row) with
          nextId := if Database.draws K.table values then d.nextId + 1 else d.nextId }) := by
  have hkey : d.holdsKey K.table (K.row x) = xs.any (K.key · = K.key x) := by
    simp only [Database.holdsKey, K.primary, Option.any_some, hd, List.any_map,
      Function.comp_def, K.lookup_row_beq]
  simp only [Database.exec, K.listed, hc, hx, hkey, hd, Bool.not_true, Bool.false_eq_true,
    ↓reduceIte, List.map_append, List.map_cons, List.map_nil]

theorem mapM_changeRow? {changes : List (String × Expr)} {k : κ} {f : α → α}
    (hf : ∀ x, (K.row x).mapM (d.changeCell? cells changes (K.row x)) = some (K.row (f x)))
    (xs : List α) :
    (xs.map K.row).mapM (d.changeRow? cells changes K.column (K.cell k)) =
      some ((xs.map fun x => if K.key x = k then f x else x).map K.row) := by
  induction xs with
  | nil => rfl
  | cons x xs ih =>
    have hx : d.changeRow? cells changes K.column (K.cell k) (K.row x) =
        some (K.row (if K.key x = k then f x else x)) := by
      unfold Database.changeRow?
      rw [K.lookup_row]
      by_cases h : K.key x = k
      · simp [h, hf]
      · have hcell : K.cell (K.key x) ≠ K.cell k := fun e => h (K.cell_injective _ _ e)
        simp [h, hcell]
    rw [List.map_cons, List.mapM_cons, hx, ih]
    rfl

theorem exec_update {changes : List (String × Expr)} {key : Expr} {k : κ} {f : α → α}
    (hc : Database.hasColumns K.table (K.column :: changes.map (·.1)) = true)
    (hk : key.eval d.now cells [] = some (K.cell k))
    (hf : ∀ x, (K.row x).mapM (d.changeCell? cells changes (K.row x)) = some (K.row (f x)))
    (hd : d.rows K.table.name = xs.map K.row) :
    d.exec cells (.update K.table.name changes K.column key) =
      .ok (.null, d.put K.table.name ((xs.map fun x => if K.key x = k then f x else x).map K.row)) := by
  simp only [Database.exec, K.listed, hc, hk, hd, K.mapM_changeRow? hf, Bool.not_true,
    Bool.false_eq_true, ↓reduceIte]

end Kind

def jsonCell (members : Members) : Cell := .json (Json.object members).render

def Kind.ofDomains : Kind Domain String where
  table := domainsTable
  column := "name"
  key := Domain.name
  cell := .text
  row d := [("name", .text d.name), ("creator", .text d.creator), ("issue", jsonCell d.issue),
    ("transfer", jsonCell d.transfer), ("manage", jsonCell d.manage), ("metas", .ints d.metas),
    ("created_at", .moment d.createdAt)]
  listed := by decide
  primary := by decide
  cell_injective := by simp
  lookup_row _ := rfl

def Kind.ofTokens : Kind Token String where
  table := tokensTable
  column := "id"
  key := Token.id
  cell := .text
  row t := [("id", .text t.id), ("domain", .text t.domain), ("name", .text t.name),
    ("owner", .texts t.owner), ("metas", .ints t.metas), ("created_at", .moment t.createdAt)]
  listed := by decide
  primary := by decide
  cell_injective := by simp
  lookup_row _ := rfl

def Kind.ofGroups : Kind Group String where
  table := groupsTable
  column := "name"
  key := Group.name
  cell := .text
  row g := [("name", .text g.name), ("key", .text g.key), ("def", jsonCell g.definition),
    ("metas", .ints g.metas), ("created_at", .moment g.createdAt)]
  listed := by decide
  primary := by decide
  cell_injective := by simp
  lookup_row _ := rfl

def Kind.ofFungibles : Kind Fungible Int where
  table := fungiblesTable
  column := "sym_id"
  key := Fungible.symId
  cell := .int
  row f := [("name", .text f.name), ("sym_name", .text f.symName), ("sym", .text f.sym),
    ("sym_id", .int f.symId), ("creator", .text f.creator), ("issue", jsonCell f.issue),
    ("manage", jsonCell f.manage), ("metas", .ints f.metas),
    ("created_at", .moment f.createdAt)]
  listed := by decide
  primary := by decide
  cell_injective := by simp
  lookup_row _ := rfl

def Kind.ofNotes : Kind Note Int where
  table := metasTable
  column := "id"
  key := Note.id
  cell := .int
  row n := [("id", .int n.id), ("key", .text n.key), ("value", .text n.value),
    ("creator", .text n.creator), ("created_at", .moment n.createdAt)]
  listed := by decide
  primary := by decide
  cell_injective := by simp
  lookup_row _ := rfl

def Entities.database (E : Entities) : Database where
  tables := [("metas", E.notes.map Kind.ofNotes.row),
    ("domains", E.domains.items.map Kind.ofDomains.row),
    ("tokens", E.tokens.items.map Kind.ofTokens.row),
    ("groups", E.groups.items.map Kind.ofGroups.row),
    ("fungibles", E.fungibles.items.map Kind.ofFungibles.row)]
  nextId := E.nextId
  now := E.now

/-- A collection whose items are the rows of a table. -/
structure Stored (α κ : Type) extends Collection α κ, Kind α κ where
  rows_database : ∀ E : Entities, E.database.rows table.name = (items E).items.map row
  database_put : ∀ E K, (put E K).database = E.database.put table.name (K.items.map row)

namespace Stored

def domains : Stored Domain String :=
  { Collection.domains, Kind.ofDomains with
    rows_database := fun _ => rfl
    database_put := fun _ _ => rfl }

def tokens : Stored Token String :=
  { Collection.tokens, Kind.ofTokens with
    rows_database := fun _ => rfl
    database_put := fun _ _ => rfl }

def groups : Stored Group String :=
  { Collection.groups, Kind.ofGroups with
    rows_database := fun _ => rfl
    database_put := fun _ _ => rfl }

def fungibles : Stored Fungible Int :=
  { Collection.fungibles, Kind.ofFungibles with
    rows_database := fun _ => rfl
    database_put := fun _ _ => rfl }

variable {α κ : Type} [DecidableEq κ] (S : Stored α κ) (E : Entities) {cells : List Cell}

def outcome (table : String) : Option Entities → Except ServerError (Value × Database)
  | some E => .ok (.null, E.database)
  | none => .error (Database.duplicateKey table)

theorem exec_add {values : List (String × Expr)} (x : α)
    (hc : Database.hasColumns S.table (values.map (·.1)) = true)
    (hn : Database.draws S.table values = false)
    (hx : E.database.newRow? cells values S.table = some (S.row x)) :
    E.database.exec cells (.insert S.table.name values none) =
      outcome S.table.name (S.add E x) := by
  rw [S.exec_insert (by simpa using hc) hx (S.rows_database E)]
  unfold Collection.add Keyed.add
  by_cases h : S.key x ∈ (S.items E).items.map S.key
  · have hany : (S.items E).items.any (S.key · = S.key x) = true := by simpa using h
    rw [hany, dif_pos h]
    rfl
  · have hany : ¬ (S.items E).items.any (S.key · = S.key x) = true := by simpa using h
    rw [if_neg hany, dif_neg h, Option.map_some, outcome, S.database_put, hn]
    rfl

theorem exec_change {changes : List (String × Expr)} {key : Expr} (k : κ) (f : α → α)
    (hkey : ∀ x, S.key (f x) = S.key x)
    (hc : Database.hasColumns S.table (S.column :: changes.map (·.1)) = true)
    (hk : key.eval E.now cells [] = some (S.cell k))
    (hf : ∀ x, (S.row x).mapM (E.database.changeCell? cells changes (S.row x)) = some (S.row (f x))) :
    E.database.exec cells (.update S.table.name changes S.column key) =
      outcome S.table.name (some (S.change E k f hkey)) := by
  rw [S.exec_update hc hk hf (S.rows_database E), outcome, Collection.change, S.database_put]
  rfl

end Stored

end ChainArchive.Entity
