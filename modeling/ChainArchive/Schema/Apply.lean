import ChainArchive.Schema.Ddl
import ChainArchive.Schema.Latest
import ChainArchive.Session

namespace ChainArchive.Schema

variable {σ : Type} [Server σ]

def Ddl.failure (d : Ddl) (e : ServerError) : Failure :=
  match d with
  | .dropTable name => .dropTable name e
  | .dropSequence name => .dropSequence name e
  | _ => .createSchema e

def Ddl.apply (d : Ddl) : Program (Link σ) Unit := do
  match ← Link.ask (.execute d.sql []) with
  | .ok _ => return
  | .error e => throw (if e.isDatabase then d.failure e else .server e)

def applyEach : List Ddl → Program (Link σ) Unit
  | [] => return
  | d :: ds => do
    d.apply
    applyEach ds

namespace Layout

def create (l : Layout) : Program (Link σ) Unit := applyEach l.creation

def dropTables (l : Layout) : Program (Link σ) Unit := applyEach l.tableDrops

def dropSequences (l : Layout) : Program (Link σ) Unit := applyEach l.sequenceDrops

def checkTable (l : Layout) (table : String) : Program (Link σ) Unit :=
  if l.tableNames.contains table then return else throw (.unknownTable table)

def existsSql : String := "
            SELECT EXISTS (
                SELECT 1
                FROM pg_tables
                WHERE schemaname = 'public'
                AND tablename = $1
            )
            "

def tableExists (l : Layout) (table : String) : Program (Link σ) Value := do
  l.checkTable table
  Link.passing (.fetchValue existsSql [.text table])

def tableIsEmpty (l : Layout) (table : String) : Program (Link σ) Bool := do
  l.checkTable table
  let row ← Link.passing (.fetchRow ("SELECT 1 FROM public." ++ table ++ " LIMIT 1") [])
  return row.isNull

end Layout

end ChainArchive.Schema
