import ChainArchive.Proofs.Entity.Sql
import ChainArchive.Schema.Latest

namespace ChainArchive.Sql

open ChainArchive.Schema ChainArchive.Time

inductive Cell where
  | null
  | text (s : String)
  | int (n : Int)
  | texts (ss : List String)
  | ints (ns : List Int)
  | json (s : String)
  | moment (t : Moment)
  deriving DecidableEq, Repr

namespace Cell

def texts? : List Json → Option (List String)
  | [] => some []
  | .text s :: js => (texts? js).map (s :: ·)
  | _ => none

theorem texts?_map (ss : List String) : texts? (ss.map .text) = some ss := by
  induction ss with
  | nil => rfl
  | cons s ss ih => rw [List.map_cons, texts?, ih, Option.map_some]

def ofValue? : Value → Option Cell
  | .plain .null => some .null
  | .plain (.text s) => some (.text s)
  | .plain (.int n) => some (.int n)
  | .plain (.array js) => (texts? js).map .texts
  | .moment t => some (.moment t)
  | _ => none

def value : Cell → Value
  | .null => .null
  | .text s | .json s => .text s
  | .int n => .int n
  | .texts ss => .texts ss
  | .ints ns => .plain (.array (ns.map .int))
  | .moment t => .moment t

def cast? (type : String) : Cell → Option Cell
  | .null => some .null
  | .text s => if type = "jsonb" then some (.json s) else if type = "text" then some (.text s) else none
  | .texts ss => if type = "text[]" then some (.texts ss) else none
  | .int n => if type = "integer" then some (.int n) else none
  | _ => none

def coalesce (first second : Cell) : Cell := if first = .null then second else first

def array? : Cell → Option Cell
  | .text s => some (.texts [s])
  | _ => none

def append? : Cell → Cell → Option Cell
  | .ints ns, .int n => some (.ints (ns ++ [n]))
  | _, _ => none

@[simp] theorem ofValue?_text (s : String) : ofValue? (.text s) = some (.text s) := rfl

@[simp] theorem ofValue?_int (n : Int) : ofValue? (.int n) = some (.int n) := rfl

@[simp] theorem ofValue?_null : ofValue? .null = some .null := rfl

@[simp] theorem ofValue?_texts (ss : List String) : ofValue? (.texts ss) = some (.texts ss) := by
  rw [Value.texts, ofValue?, texts?_map, Option.map_some]

end Cell

abbrev Row := List (String × Cell)

/-- Tables with their rows, the next id of the sequence, and the time of the transaction. A row
holds a cell for every column of its table's layout. -/
structure Database where
  tables : List (String × List Row)
  nextId : Int
  now : Moment
  deriving DecidableEq

def Expr.eval (now : Moment) (cells : List Cell) (row : Row) : Expr → Option Cell
  | .param n => if n = 0 then none else cells[n - 1]?
  | .column name => row.lookup name
  | .emptyArray => some (.ints [])
  | .now => some (.moment now)
  | .cast e type => do (← e.eval now cells row).cast? type
  | .coalesce e f => do return (← e.eval now cells row).coalesce (← f.eval now cells row)
  | .array e => do (← e.eval now cells row).array?
  | .append e f => do (← e.eval now cells row).append? (← f.eval now cells row)

namespace Database

def typeError : ServerError := ⟨.syntaxOrAccess, "type mismatch"⟩

def noTable : ServerError := ⟨.undefinedTable, "no such table"⟩

def noColumn : ServerError := ⟨.syntaxOrAccess, "no such column"⟩

def duplicateKey (table : String) : ServerError := ⟨.uniqueViolation, "duplicate key in " ++ table⟩

def layout? (table : String) : Option Table := latest.tables.find? (·.name == table)

def primaryKey? (t : Table) : Option String :=
  (t.columns.find? (·.primaryKey == some true)).map (·.name)

def hasColumns (t : Table) (columns : List String) : Bool :=
  columns.all fun c => t.columns.any (·.name == c)

def rows (d : Database) (table : String) : List Row := (d.tables.lookup table).getD []

def put (d : Database) (table : String) (rows : List Row) : Database :=
  { d with tables := d.tables.map fun t => if t.1 = table then (table, rows) else t }

def nextval : String := "nextval('metas_id_seq')"

def newCell? (d : Database) (cells : List Cell) (values : List (String × Expr)) (c : Column) :
    Option Cell :=
  match values.lookup c.name with
  | some e => e.eval d.now cells []
  | none =>
    if c.default = some "now()" then some (.moment d.now)
    else if c.default = some nextval then some (.int d.nextId)
    else some .null

def newRow? (d : Database) (cells : List Cell) (values : List (String × Expr)) (t : Table) :
    Option Row :=
  t.columns.mapM fun c => (d.newCell? cells values c).map (c.name, ·)

def draws (t : Table) (values : List (String × Expr)) : Bool :=
  t.columns.any fun c => c.default == some nextval && (values.lookup c.name).isNone

def holdsKey (d : Database) (t : Table) (row : Row) : Bool :=
  (primaryKey? t).any fun column =>
    (d.rows t.name).any fun r => r.lookup column == row.lookup column

def changeCell? (d : Database) (cells : List Cell) (changes : List (String × Expr)) (old : Row)
    (field : String × Cell) : Option (String × Cell) :=
  match changes.lookup field.1 with
  | some e => (e.eval d.now cells old).map (field.1, ·)
  | none => some field

def changeRow? (d : Database) (cells : List Cell) (changes : List (String × Expr))
    (column : String) (key : Cell) (row : Row) : Option Row :=
  if row.lookup column = some key then row.mapM (d.changeCell? cells changes row) else some row

def exec (d : Database) (cells : List Cell) : Edit → Except ServerError (Value × Database)
  | .insert table values returning =>
    match layout? table with
    | none => .error noTable
    | some t =>
      if !hasColumns t (values.map (·.1) ++ returning.toList) then .error noColumn
      else match d.newRow? cells values t with
        | none => .error typeError
        | some row =>
          if d.holdsKey t row then .error (duplicateKey table)
          else .ok ((returning.bind fun c => row.lookup c).elim .null Cell.value,
            { d.put table (d.rows table ++ [row]) with
              nextId := if draws t values then d.nextId + 1 else d.nextId })
  | .update table changes column key =>
    match layout? table with
    | none => .error noTable
    | some t =>
      if !hasColumns t (column :: changes.map (·.1)) then .error noColumn
      else match key.eval d.now cells [] with
        | none => .error typeError
        | some k =>
          match (d.rows table).mapM (d.changeRow? cells changes column k) with
          | none => .error typeError
          | some rows => .ok (.null, d.put table rows)

end Database

end ChainArchive.Sql
