import ChainArchive.Schema.Layout

namespace ChainArchive.Schema

inductive Ddl where
  | createSequence (name : String)
  | createTable (table : Table)
  | createIndex (table : String) (index : Index)
  | dropTable (name : String)
  | dropSequence (name : String)
  deriving DecidableEq, Repr

def joined (separator : String) (parts : List String) : String :=
  separator.intercalate parts

def Column.definition (c : Column) : String :=
  c.name ++ " " ++ c.type ++ (if c.nullable = some false then " NOT NULL" else "") ++
    match c.default with
    | some d => " DEFAULT " ++ d
    | none => ""

def Column.constraint? (table : String) (c : Column) : Option String :=
  if c.primaryKey = some true then
    some ("CONSTRAINT " ++ table ++ "_pkey PRIMARY KEY (" ++ c.name ++ ")")
  else none

def Table.definitions (t : Table) : List String :=
  t.columns.map Column.definition ++ t.columns.filterMap (Column.constraint? t.name)

/-- The text of a statement, which does nothing if its object is there already, or is not there. -/
def Ddl.sql : Ddl → String
  | .createSequence name => "CREATE SEQUENCE IF NOT EXISTS " ++ name
  | .createTable t =>
    "CREATE TABLE IF NOT EXISTS public." ++ t.name ++ " (\n    " ++
      joined ",\n    " t.definitions ++ "\n)"
  | .createIndex table i =>
    "CREATE " ++ (if i.unique then "UNIQUE " else "") ++ "INDEX IF NOT EXISTS " ++ i.name ++
      " ON public." ++ table ++ " USING btree (" ++ joined ", " i.columns ++ ")"
  | .dropTable name => "DROP TABLE IF EXISTS public." ++ name
  | .dropSequence name => "DROP SEQUENCE IF EXISTS " ++ name

/-- The statements that create a table: its sequences first, its indexes last. -/
def Table.creation (t : Table) : List Ddl :=
  t.sequences.map .createSequence ++ .createTable t :: t.indexes.map (.createIndex t.name)

namespace Layout

def creation (l : Layout) : List Ddl := l.tables.flatMap Table.creation

def tableDrops (l : Layout) : List Ddl := l.tableNames.map .dropTable

def sequenceDrops (l : Layout) : List Ddl := l.sequenceNames.map .dropSequence

end Layout

end ChainArchive.Schema
