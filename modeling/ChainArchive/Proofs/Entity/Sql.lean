import ChainArchive.Statement

namespace ChainArchive.Sql

inductive Expr where
  | param (n : Nat)
  | column (name : String)
  | emptyArray
  | now
  | cast (e : Expr) (type : String)
  | coalesce (first second : Expr)
  | array (item : Expr)
  | append (items item : Expr)
  deriving DecidableEq, Repr

/-- A change of stored rows: an insertion of one row, or a change of the row with a key. -/
inductive Edit where
  | insert (table : String) (values : List (String × Expr)) (returning : Option String)
  | update (table : String) (changes : List (String × Expr)) (column : String) (key : Expr)
  deriving DecidableEq, Repr

def closeWord (word : List Char) : List String :=
  if word.isEmpty then [] else [String.ofList word]

def words (word : List Char) : List Char → List String
  | [] => closeWord word
  | c :: cs =>
    if [' ', '\n'].contains c then closeWord word ++ words [] cs
    else if ['(', ')', '[', ']', ',', ':', '='].contains c then
      closeWord word ++ String.ofList [c] :: words [] cs
    else words (word ++ [c]) cs

/-- The parts between commas outside brackets, going on from an open part. -/
def parts (depth : Nat) (part : List String) : List String → List (List String)
  | [] => [part]
  | w :: ws =>
    if w = "," ∧ depth = 0 then part :: parts 0 [] ws
    else
      let depth := if w = "(" then depth + 1 else if w = ")" then depth - 1 else depth
      parts depth (part ++ [w]) ws

def atom (w : String) : Expr :=
  match w.toList with
  | '$' :: ds => .param (Nat.ofDigitChars 10 ds 0)
  | ['\'', '{', '}', '\''] => .emptyArray
  | _ => .column w

def operand? : List String → Option Expr
  | [w] => some (atom w)
  | ["now", "(", ")"] => some .now
  | w :: ":" :: ":" :: type => some (.cast (atom w) (String.join type))
  | _ => none

def operands? (f : Expr → Expr → Expr) (ws : List String) : Option Expr :=
  match parts 0 [] ws.dropLast with
  | [first, second] => do return f (← operand? first) (← operand? second)
  | _ => none

def expr? : List String → Option Expr
  | "COALESCE" :: "(" :: ws => operands? .coalesce ws
  | "array_append" :: "(" :: ws => operands? .append ws
  | "ARRAY" :: "[" :: ws => (operand? ws.dropLast).map .array
  | ws => operand? ws

def assignment? : List String → Option (String × Expr)
  | column :: "=" :: ws => (expr? ws).map (column, ·)
  | _ => none

def pairs? (columns values : List (List String)) : Option (List (String × Expr)) :=
  if columns.length = values.length then
    (columns.zip values).mapM fun (column, value) => (expr? value).map (String.join column, ·)
  else none

def edit? : List String → Option Edit
  | "INSERT" :: "INTO" :: table :: "(" :: ws =>
    match ws.dropWhile (· ≠ ")") with
    | ")" :: "VALUES" :: "(" :: rest => do
      let values := rest.takeWhile (· ≠ "RETURNING")
      let pairs ← pairs? (parts 0 [] (ws.takeWhile (· ≠ ")"))) (parts 0 [] values.dropLast)
      match rest.dropWhile (· ≠ "RETURNING") with
      | [] => some (.insert table pairs none)
      | ["RETURNING", column] => some (.insert table pairs (some column))
      | _ => none
    | _ => none
  | "UPDATE" :: table :: "SET" :: ws =>
    match ws.dropWhile (· ≠ "WHERE") with
    | "WHERE" :: condition => do
      let changes ← (parts 0 [] (ws.takeWhile (· ≠ "WHERE"))).mapM assignment?
      let (column, key) ← assignment? condition
      some (.update table changes column key)
    | _ => none
  | _ => none

def read? (sql : String) : Option Edit := edit? (words [] sql.toList)

theorem read?_of {sql : String} {cs : List Char} {c : Edit} (hs : String.ofList cs = sql)
    (hc : edit? (words [] cs) = some c) : read? sql = some c := by
  rw [read?, ← hs, String.toList_ofList, hc]

def jsonParam (n : Nat) : Expr := .cast (.param n) "jsonb"

/-- The parameter as JSON, or what a column holds if it is absent. -/
def jsonOr (n : Nat) (column : String) : Expr := .coalesce (jsonParam n) (.column column)

def Edit.insertDomain : Edit :=
  .insert "domains" [("name", .param 1), ("creator", .param 2), ("issue", jsonParam 3),
    ("transfer", jsonParam 4), ("manage", jsonParam 5), ("metas", .emptyArray),
    ("created_at", .now)] none

def Edit.updateDomain : Edit :=
  .update "domains" [("issue", jsonOr 2 "issue"), ("transfer", jsonOr 3 "transfer"),
    ("manage", jsonOr 4 "manage")] "name" (.param 1)

def Edit.insertToken : Edit :=
  .insert "tokens" [("id", .param 1), ("domain", .param 2), ("name", .param 3),
    ("owner", .cast (.param 4) "text[]"), ("metas", .emptyArray), ("created_at", .now)] none

def Edit.transferToken : Edit :=
  .update "tokens" [("owner", .cast (.param 2) "text[]")] "id" (.param 1)

def Edit.destroyToken : Edit :=
  .update "tokens" [("owner", .array (.cast (.param 2) "text"))] "id" (.param 1)

def Edit.insertGroup : Edit :=
  .insert "groups" [("name", .param 1), ("key", .param 2), ("def", jsonParam 3),
    ("metas", .emptyArray), ("created_at", .now)] none

def Edit.updateGroup : Edit :=
  .update "groups" [("def", jsonParam 2)] "name" (.param 1)

def Edit.insertFungible : Edit :=
  .insert "fungibles" [("name", .param 1), ("sym_name", .param 2), ("sym", .param 3),
    ("sym_id", .param 4), ("creator", .param 5), ("issue", jsonParam 6), ("manage", jsonParam 7),
    ("metas", .emptyArray), ("created_at", .now)] none

def Edit.updateFungible : Edit :=
  .update "fungibles" [("issue", jsonOr 2 "issue"), ("manage", jsonOr 3 "manage")] "sym_id"
    (.param 1)

def Edit.insertMeta : Edit :=
  .insert "metas" [("key", .param 1), ("value", .param 2), ("creator", .param 3),
    ("created_at", .now)] (some "id")

def Edit.appendMeta (table column : String) : Edit :=
  .update table [("metas", .append (.column "metas") (.cast (.param 1) "integer"))] column
    (.param 2)

def Edit.ofEntities : List (String × Edit) := [
  ("insert_domain", .insertDomain),
  ("update_domain", .updateDomain),
  ("insert_token", .insertToken),
  ("transfer_token", .transferToken),
  ("destroy_token", .destroyToken),
  ("insert_group", .insertGroup),
  ("update_group", .updateGroup),
  ("insert_fungible", .insertFungible),
  ("update_fungible", .updateFungible),
  ("insert_meta", .insertMeta),
  ("append_domain_meta", .appendMeta "domains" "name"),
  ("append_token_meta", .appendMeta "tokens" "id"),
  ("append_group_meta", .appendMeta "groups" "name"),
  ("append_fungible_meta", .appendMeta "fungibles" "sym_id")]

set_option maxRecDepth 4000 in
/-- The listed edits are what the texts of the statements state. -/
theorem read?_ofEntities : ∀ x ∈ Edit.ofEntities, ∃ p,
    Statement.find? Statement.standard x.1 = some p ∧ read? p.sql = some x.2 := by
  simp only [Edit.ofEntities, List.forall_mem_cons]
  refine ⟨?_, ?_, ?_, ?_, ?_, ?_, ?_, ?_, ?_, ?_, ?_, ?_, ?_, ?_, by simp⟩
  · exact ⟨Statement.ofDomains[0], rfl, read?_of rfl (by decide +kernel)⟩
  · exact ⟨Statement.ofDomains[1], rfl, read?_of rfl (by decide +kernel)⟩
  · exact ⟨Statement.ofTokens[0], rfl, read?_of rfl (by decide +kernel)⟩
  · exact ⟨Statement.ofTokens[1], rfl, read?_of rfl (by decide +kernel)⟩
  · exact ⟨Statement.ofTokens[2], rfl, read?_of rfl (by decide +kernel)⟩
  · exact ⟨Statement.ofGroups[0], rfl, read?_of rfl (by decide +kernel)⟩
  · exact ⟨Statement.ofGroups[1], rfl, read?_of rfl (by decide +kernel)⟩
  · exact ⟨Statement.ofFungibles[0], rfl, read?_of rfl (by decide +kernel)⟩
  · exact ⟨Statement.ofFungibles[1], rfl, read?_of rfl (by decide +kernel)⟩
  · exact ⟨Statement.ofMetas[0], rfl, read?_of rfl (by decide +kernel)⟩
  · exact ⟨Statement.ofMetas[1], rfl, read?_of rfl (by decide +kernel)⟩
  · exact ⟨Statement.ofMetas[2], rfl, read?_of rfl (by decide +kernel)⟩
  · exact ⟨Statement.ofMetas[3], rfl, read?_of rfl (by decide +kernel)⟩
  · exact ⟨Statement.ofMetas[4], rfl, read?_of rfl (by decide +kernel)⟩

end ChainArchive.Sql
