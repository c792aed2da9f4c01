import ChainArchive.Copy.Buffer
import ChainArchive.Session

namespace ChainArchive.Copy.RowBuffer

variable {σ : Type} [Server σ]

def transferEach (b : RowBuffer) : List RowTable → Program (Link σ) Unit
  | [] => return
  | t :: ts => do
    if !(b.rows t).isEmpty then Link.copyInto t.name t.columns (b.payload t)
    b.transferEach ts

/-- Transfers every table that has rows, in the order of the tables, and returns the emptied
buffer. -/
def commit (b : RowBuffer) : Program (Link σ) RowBuffer := do
  b.transferEach RowTable.all
  return empty

end ChainArchive.Copy.RowBuffer
