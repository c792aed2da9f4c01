namespace ChainArchive.Schema

/-- A column. A property that is not stated is none. -/
structure Column where
  name : String
  type : String
  nullable : Option Bool
  primaryKey : Option Bool
  default : Option String
  deriving DecidableEq, Repr

structure Index where
  name : String
  columns : List String
  unique : Bool
  deriving DecidableEq, Repr

structure Table where
  name : String
  sequences : List String
  columns : List Column
  indexes : List Index
  deriving DecidableEq, Repr

structure Layout where
  version : String
  tables : List Table
  deriving DecidableEq, Repr

namespace Layout

def tableNames (l : Layout) : List String := l.tables.map (·.name)

def sequenceNames (l : Layout) : List String := l.tables.flatMap (·.sequences)

end Layout

end ChainArchive.Schema
