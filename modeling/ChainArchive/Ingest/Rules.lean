import ChainArchive.Batch
import ChainArchive.Record.Chain
import ChainArchive.Record.Payload
import ChainArchive.Text.Split

namespace ChainArchive.Ingest

open ChainArchive.Record

def burnedOwner : String := "EVT00000000000000000000000000000000000000000000000000"

def fungibleNamespace : String := ".fungible"

def groupNamespace : String := ".group"

def domainMetaKey : String := ".meta"

inductive Ownership where
  | owned (owners : List String)
  | burned
  deriving DecidableEq, Repr

def tokenId (domain name : String) : String := domain ++ ":" ++ name

def ownershipCall (id : String) : Ownership → Call
  | .burned => ⟨"destroy_token", [.text id, .text burnedOwner], none⟩
  | .owned owners => ⟨"transfer_token", [.text id, .texts owners], none⟩

def numeral (s : String) : Except Failure Int :=
  match Numeral.readInteger s with
  | .ok n => .ok n
  | .error e => .error (.numeral e)

/-- The number of a symbol: the numeral after the first number sign. -/
def symbolId (sym : String) : Except Failure Int :=
  match Text.cut '#' sym.toList with
  | (_, some id) => numeral (String.ofList id)
  | (_, none) => .error .symbolSeparator

/-- The statement that adds a metadata id to the entity an action names, and the entity's key. -/
def metaTarget (domain key : String) : Except Failure (String × Value) :=
  if domain = fungibleNamespace then (numeral key).map fun n => ("append_fungible_meta", .int n)
  else if domain = groupNamespace then .ok ("append_group_meta", .text key)
  else if key = domainMetaKey then .ok ("append_domain_meta", .text domain)
  else .ok ("append_token_meta", .text (tokenId domain key))

def jsonText (members : Members) : Value := .text (Json.object members).render

def jsonText? : Option Members → Value
  | some members => jsonText members
  | none => .null

def payload {α : Type} (name : String) (check : Check α) (a : Action) : Except Failure α :=
  match check (.object a.data) with
  | .valid x => .ok x
  | .invalid ps => .error (.record name ps)

def newDomain (a : Action) : Except Failure (List Call) := do
  let d ← payload "NewDomain" NewDomain.check a
  return [⟨"insert_domain",
    [.text d.name, .text d.creator, jsonText d.issue, jsonText d.transfer, jsonText d.manage],
    none⟩]

def updateDomain (a : Action) : Except Failure (List Call) := do
  let d ← payload "UpdateDomain" UpdateDomain.check a
  return [⟨"update_domain",
    [.text d.name, jsonText? d.issue, jsonText? d.transfer, jsonText? d.manage], none⟩]

def issueToken (a : Action) : Except Failure (List Call) := do
  let t ← payload "IssueToken" IssueToken.check a
  return t.names.map fun name =>
    ⟨"insert_token",
      [.text (tokenId t.domain name), .text t.domain, .text name, .texts t.owner], none⟩

def transferToken (a : Action) : Except Failure (List Call) := do
  let t ← payload "TransferToken" TransferToken.check a
  return [ownershipCall (tokenId t.domain t.name) (.owned t.receivers)]

def destroyToken (a : Action) : Except Failure (List Call) := do
  let t ← payload "DestroyToken" DestroyToken.check a
  return [ownershipCall (tokenId t.domain t.name) .burned]

def newGroup (a : Action) : Except Failure (List Call) := do
  let g ← payload "NewGroup" GroupChange.check a
  return [⟨"insert_group", [.text g.name, .text g.group.key, jsonText g.group.root], none⟩]

def updateGroup (a : Action) : Except Failure (List Call) := do
  let g ← payload "UpdateGroup" GroupChange.check a
  return [⟨"update_group", [.text g.name, jsonText g.group.root], none⟩]

def newFungible (a : Action) : Except Failure (List Call) := do
  let f ← payload "NewFungible" NewFungible.check a
  let id ← symbolId f.sym
  return [⟨"insert_fungible",
    [.text f.name, .text f.symName, .text f.sym, .int id, .text f.creator, jsonText f.issue,
      jsonText f.manage], none⟩]

def updateFungible (a : Action) : Except Failure (List Call) := do
  let f ← payload "UpdateFungible" UpdateFungible.check a
  return [⟨"update_fungible", [.int f.symId, jsonText? f.issue, jsonText? f.manage], none⟩]

def addMeta (a : Action) : Except Failure (List Call) := do
  let m ← payload "AddMeta" AddMeta.check a
  let (plan, owner) ← metaTarget a.domain a.key
  return [⟨"insert_meta", [.text m.key, .text m.value, .text m.creator], some ⟨plan, [owner]⟩⟩]

def rules : List (String × (Action → Except Failure (List Call))) := [
  ("newdomain", newDomain),
  ("updatedomain", updateDomain),
  ("issuetoken", issueToken),
  ("transfer", transferToken),
  ("destroytoken", destroyToken),
  ("newgroup", newGroup),
  ("updategroup", updateGroup),
  ("newfungible", newFungible),
  ("updfungible", updateFungible),
  ("addmeta", addMeta)]

def rule? (name : String) : Option (Action → Except Failure (List Call)) :=
  (rules.find? (·.1 == name)).map (·.2)

/-- The calls of an action, which depend on the action alone; none if no entity is affected. -/
def render (a : Action) : Except Failure (Option (List Call)) :=
  match rule? a.name with
  | none => .ok none
  | some rule => (rule a).map some

def renderOn (b : Batch) (a : Action) : Except Failure (Batch × Bool) :=
  (render a).map fun
    | none => (b, false)
    | some calls => (b ++ calls, true)

end ChainArchive.Ingest
