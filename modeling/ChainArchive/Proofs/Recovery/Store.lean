import ChainArchive.Checkpoint
import ChainArchive.Proofs.Copy.Decode
import ChainArchive.Proofs.Session.Sends
import ChainArchive.Schema.Apply

namespace ChainArchive

open ChainArchive.Copy ChainArchive.Schema

abbrev StoredRow := List (String × Option (List Char))

/-- What a database holds: its tables, the stored texts by key, and the transferred rows with
their tables, oldest first. -/
structure Holdings where
  tables : List String
  stats : List (String × String)
  rows : List (String × StoredRow)
  deriving DecidableEq, Repr

def storedInt (cs : List Char) : Int :=
  match Numeral.readMinus cs with
  | (negative, ds) => Numeral.signed negative (Nat.ofDigitChars 10 ds 0)

def StoredRow.blockKey? (r : StoredRow) : Option (String × Int) :=
  match r.lookup "block_id", r.lookup "block_num" with
  | some (some blockId), some (some blockNum) => some (String.ofList blockId, storedInt blockNum)
  | _, _ => none

def statArgs? : List Value → Option (String × String)
  | [.plain (.text key), .plain (.text value)] => some (key, value)
  | _ => none

def textArg? : List Value → Option String
  | [.plain (.text s)] => some s
  | _ => none

def createdTable? (sql : String) : Option String :=
  let opening := "CREATE TABLE IF NOT EXISTS public.".toList
  if opening.isPrefixOf sql.toList then
    some (String.ofList ((sql.toList.drop opening.length).takeWhile (· ≠ ' ')))
  else none

theorem createdTable?_append (name rest : String) (h : ' ' ∉ name.toList) :
    createdTable? ("CREATE TABLE IF NOT EXISTS public." ++ name ++ " " ++ rest) = some name := by
  have hsql : ("CREATE TABLE IF NOT EXISTS public." ++ name ++ " " ++ rest).toList =
      "CREATE TABLE IF NOT EXISTS public.".toList ++ (name.toList ++ ' ' :: rest.toList) := by
    rw [String.toList_append, String.toList_append, String.toList_append]
    simp
  unfold createdTable?
  rw [hsql]
  generalize "CREATE TABLE IF NOT EXISTS public.".toList = opening
  have hpre : opening.isPrefixOf (opening ++ (name.toList ++ ' ' :: rest.toList)) = true :=
    List.isPrefixOf_iff_prefix.mpr (List.prefix_append _ _)
  have htake : (name.toList ++ ' ' :: rest.toList).takeWhile (· ≠ ' ') = name.toList := by
    rw [List.takeWhile_append_of_pos (by simpa using fun c hc => fun e : c = ' ' => h (e ▸ hc))]
    simp
  simp only [hpre, ↓reduceIte, List.drop_left, htake, String.ofList_toList]

namespace Holdings

def empty : Holdings := ⟨[], [], []⟩

def stat? (h : Holdings) (key : String) : Option String := h.stats.lookup key

def blockKeys (h : Holdings) : List (String × Int) :=
  h.rows.filterMap fun (table, row) => if table = "blocks" then row.blockKey? else none

/-- The later of two blocks by number; the first one if they are equal. -/
def later (best : Option (String × Int)) (key : String × Int) : Option (String × Int) :=
  match best with
  | some k => if k.2 < key.2 then some key else some k
  | none => some key

def latest? (h : Holdings) : Option (String × Int) := h.blockKeys.foldl later none

def hasBlock (h : Holdings) (blockId : String) : Bool := h.blockKeys.any (·.1 == blockId)

/-- The holdings after a request that succeeded. -/
def apply (h : Holdings) : Request → Holdings
  | .execute sql _ =>
    match createdTable? sql with
    | some table => { h with tables := h.tables ++ [table] }
    | none => h
  | .run p args =>
    match statArgs? args with
    | some (key, value) =>
      if p.name = "insert_stat" then { h with stats := h.stats ++ [(key, value)] }
      else if p.name = "update_stat" then
        { h with stats := h.stats.map fun s => if s.1 = key then (key, value) else s }
      else h
    | none => h
  | .copy table columns data =>
    match readRows? data with
    | some rows => { h with rows := h.rows ++ rows.map fun r => (table, columns.zip r) }
    | none => h
  | _ => h

def reply (h : Holdings) (other : Value) : Request → Reply
  | .execute _ _ => .ok (.text "OK")
  | .fetchValue sql args =>
    if sql = Layout.existsSql then .ok (.bool ((textArg? args).any h.tables.contains))
    else .ok other
  | .run p args =>
    if p.name = "read_stat" then .ok (.ofText? ((textArg? args).bind h.stat?))
    else if p.name = "latest_block_id" then .ok (.ofText? (h.latest?.map (·.1)))
    else if p.name = "block_exists" then .ok (.bool ((textArg? args).any h.hasBlock))
    else if p.name = "insert_stat" then
      if (statArgs? args).any fun s => (h.stat? s.1).isSome then
        .error ⟨.uniqueViolation, "duplicate key in stats"⟩
      else .ok .null
    else if p.name = "update_stat" then .ok .null
    else .ok other
  | .copy table _ data =>
    if (readRows? data).isSome then .ok .null else .error ⟨.badCopyFormat, "bad row for " ++ table⟩
  | .prepare _ => .ok .null
  | .connect _ _ => .ok .null
  | .fetchRow _ _ => .ok other
  | .fetchAll _ _ => .ok other

end Holdings

/-- The durable holdings, and those that the open transaction would commit. -/
structure Store where
  durable : Holdings
  bracket : Option Holdings
  deriving DecidableEq, Repr

namespace Store

def view (s : Store) : Holdings := s.bracket.getD s.durable

/-- The store after an entry: a transfer that returns has stored its rows, and a transaction that is
rolled back or not finished has no effect. -/
def take (s : Store) : Entry → Store
  | .asked r (.ok _) =>
    match s.bracket with
    | some h => { s with bracket := some (h.apply r) }
    | none => { s with durable := s.durable.apply r }
  | .asked _ (.error _) => s
  | .marked .start => { s with bracket := some s.durable }
  | .marked .commit => ⟨s.view, none⟩
  | .marked _ => { s with bracket := none }

def takeAll (s : Store) (es : List Entry) : Store := es.foldl take s

theorem takeAll_append (s : Store) (es fs : List Entry) :
    s.takeAll (es ++ fs) = (s.takeAll es).takeAll fs :=
  List.foldl_append

end Store

/-- A server on a store: the requests are counted, and `fault` says which of them fail. The results
of statements on entities are not about what is kept here and are given from outside. -/
structure Disk where
  store : Store
  fault : Nat → Option ServerError
  other : Nat → Value
  asked : Nat

namespace Disk

def start (h : Holdings) (fault : Nat → Option ServerError) (other : Nat → Value) : Disk :=
  ⟨⟨h, none⟩, fault, other, 0⟩

def reply (d : Disk) (r : Request) : Reply :=
  match d.fault d.asked with
  | some e => .error e
  | none => d.store.view.reply (d.other d.asked) r

instance : Server Disk where
  answer d r :=
    (d.reply r, { d with store := d.store.take (.asked r (d.reply r)), asked := d.asked + 1 })
  notice d m := { d with store := d.store.take (.marked m) }

end Disk

theorem Link.Sends.store_eq {l m : Link Disk} {es : List Entry} (h : Sends l es m) :
    m.line.server.store = l.line.server.store.takeAll es ∧
      m.line.server.fault = l.line.server.fault := by
  induction h with
  | refl => exact ⟨rfl, rfl⟩
  | ask r h hc ih | mark k h hc ih =>
    rw [Store.takeAll_append, ← ih.1]
    exact ⟨rfl, ih.2⟩
  | register name h ih => exact ih

end ChainArchive
