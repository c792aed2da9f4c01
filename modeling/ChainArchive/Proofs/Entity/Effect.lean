import ChainArchive.Ingest.Rules

namespace ChainArchive.Entity

open ChainArchive.Ingest ChainArchive.Record ChainArchive.Time

structure Domain where
  name : String
  creator : String
  issue : Members
  transfer : Members
  manage : Members
  metas : List Int
  createdAt : Moment

structure Token where
  domain : String
  name : String
  owner : List String
  metas : List Int
  createdAt : Moment

def Token.id (t : Token) : String := tokenId t.domain t.name

structure Group where
  name : String
  key : String
  definition : Members
  metas : List Int
  createdAt : Moment

structure Fungible where
  name : String
  symName : String
  sym : String
  symId : Int
  creator : String
  issue : Members
  manage : Members
  metas : List Int
  createdAt : Moment

structure Note where
  id : Int
  key : String
  value : String
  creator : String
  createdAt : Moment

structure Keyed {α κ : Type} (key : α → κ) where
  items : List α
  distinct : (items.map key).Nodup

namespace Keyed

variable {α κ : Type} {key : α → κ}

def empty : Keyed key := ⟨[], List.nodup_nil⟩

def add [DecidableEq κ] (K : Keyed key) (x : α) : Option (Keyed key) :=
  if h : key x ∈ K.items.map key then none
  else some
    { items := K.items ++ [x]
      distinct := by
        rw [List.map_append, List.nodup_append]
        refine ⟨K.distinct, by simp, ?_⟩
        rintro k hk _ hx rfl
        rw [List.mem_singleton.mp hx] at hk
        exact h hk }

def change [DecidableEq κ] (K : Keyed key) (k : κ) (f : α → α) (hf : ∀ x, key (f x) = key x) :
    Keyed key where
  items := K.items.map fun x => if key x = k then f x else x
  distinct := by
    have hkeys : ∀ x, key (if key x = k then f x else x) = key x := by
      intro x
      split
      · exact hf x
      · rfl
    rw [List.map_map]
    simpa only [Function.comp_def, hkeys] using K.distinct

end Keyed

/-- The stored entities and metadata, apart from any statement. An id that has not been given out is
free. -/
structure Entities where
  domains : Keyed Domain.name
  tokens : Keyed Token.id
  groups : Keyed Group.name
  fungibles : Keyed Fungible.symId
  notes : List Note
  nextId : Int
  now : Moment
  fresh : ∀ n ∈ notes, n.id < nextId

structure Collection (α κ : Type) where
  key : α → κ
  items : Entities → Keyed key
  put : Entities → Keyed key → Entities

namespace Collection

def domains : Collection Domain String :=
  ⟨Domain.name, (·.domains), fun E domains => { E with domains }⟩

def tokens : Collection Token String :=
  ⟨Token.id, (·.tokens), fun E tokens => { E with tokens }⟩

def groups : Collection Group String :=
  ⟨Group.name, (·.groups), fun E groups => { E with groups }⟩

def fungibles : Collection Fungible Int :=
  ⟨Fungible.symId, (·.fungibles), fun E fungibles => { E with fungibles }⟩

variable {α κ : Type} [DecidableEq κ] (C : Collection α κ) (E : Entities)

def add (x : α) : Option Entities := ((C.items E).add x).map (C.put E)

def change (k : κ) (f : α → α) (hf : ∀ x, C.key (f x) = C.key x) : Entities :=
  C.put E ((C.items E).change k f hf)

end Collection

inductive Target where
  | fungible (symId : Int)
  | group (name : String)
  | domain (name : String)
  | token (id : String)

/-- A fungible class or a group if the domain of the action marks one, the domain itself if the
key is the mark of its metadata, and a token otherwise. -/
def Target.of? (domain key : String) : Option Target :=
  match domain, key with
  | ".fungible", _ => (numeral key).toOption.map .fungible
  | ".group", _ => some (.group key)
  | _, ".meta" => some (.domain domain)
  | _, _ => some (.token (domain ++ ":" ++ key))

inductive Change where
  | newDomain (d : NewDomain)
  | updateDomain (d : UpdateDomain)
  | issueToken (t : IssueToken)
  | transferToken (t : TransferToken)
  | destroyToken (t : DestroyToken)
  | newGroup (g : GroupChange)
  | updateGroup (g : GroupChange)
  | newFungible (f : NewFungible) (symId : Int)
  | updateFungible (f : UpdateFungible)
  | addMeta (m : AddMeta) (target : Target)

def validOf? {α : Type} (check : Check α) (a : Action) : Option α :=
  match check (.object a.data) with
  | .valid x => some x
  | .invalid _ => none

def Change.of? (a : Action) : Option Change :=
  match a.name with
  | "newdomain" => (validOf? NewDomain.check a).map .newDomain
  | "updatedomain" => (validOf? UpdateDomain.check a).map .updateDomain
  | "issuetoken" => (validOf? IssueToken.check a).map .issueToken
  | "transfer" => (validOf? TransferToken.check a).map .transferToken
  | "destroytoken" => (validOf? DestroyToken.check a).map .destroyToken
  | "newgroup" => (validOf? GroupChange.check a).map .newGroup
  | "updategroup" => (validOf? GroupChange.check a).map .updateGroup
  | "newfungible" => do
    let f ← validOf? NewFungible.check a
    return .newFungible f (← (symbolId f.sym).toOption)
  | "updfungible" => (validOf? UpdateFungible.check a).map .updateFungible
  | "addmeta" => do
    let m ← validOf? AddMeta.check a
    return .addMeta m (← Target.of? a.domain a.key)
  | _ => none

namespace Entities

variable (E : Entities)

def addNote (m : AddMeta) : Entities where
  domains := E.domains
  tokens := E.tokens
  groups := E.groups
  fungibles := E.fungibles
  notes := E.notes ++ [⟨E.nextId, m.key, m.value, m.creator, E.now⟩]
  nextId := E.nextId + 1
  now := E.now
  fresh := by
    intro n hn
    obtain hn | hn := List.mem_append.mp hn
    · exact Int.lt_trans (E.fresh n hn) (Int.lt_succ _)
    · rw [List.mem_singleton.mp hn]
      exact Int.lt_succ _

def attach (id : Int) : Target → Entities
  | .fungible symId =>
    Collection.fungibles.change E symId (fun f => { f with metas := f.metas ++ [id] }) fun _ => rfl
  | .group name =>
    Collection.groups.change E name (fun g => { g with metas := g.metas ++ [id] }) fun _ => rfl
  | .domain name =>
    Collection.domains.change E name (fun d => { d with metas := d.metas ++ [id] }) fun _ => rfl
  | .token key =>
    Collection.tokens.change E key (fun t => { t with metas := t.metas ++ [id] }) fun _ => rfl

def issue (domain : String) (owner : List String) : List String → Entities → Option Entities
  | [], E => some E
  | name :: names, E => do
    let E ← Collection.tokens.add E ⟨domain, name, owner, [], E.now⟩
    issue domain owner names E

/-- The entities after a change, none if a key would be repeated. -/
def apply : Change → Option Entities
  | .newDomain d =>
    Collection.domains.add E ⟨d.name, d.creator, d.issue, d.transfer, d.manage, [], E.now⟩
  | .updateDomain d =>
    some (Collection.domains.change E d.name (fun x => { x with
      issue := d.issue.getD x.issue
      transfer := d.transfer.getD x.transfer
      manage := d.manage.getD x.manage }) fun _ => rfl)
  | .issueToken t => issue t.domain t.owner t.names E
  | .transferToken t =>
    some (Collection.tokens.change E (t.domain ++ ":" ++ t.name)
      (fun x => { x with owner := t.receivers }) fun _ => rfl)
  | .destroyToken t =>
    some (Collection.tokens.change E (t.domain ++ ":" ++ t.name)
      (fun x => { x with owner := [burnedOwner] }) fun _ => rfl)
  | .newGroup g => Collection.groups.add E ⟨g.name, g.group.key, g.group.root, [], E.now⟩
  | .updateGroup g =>
    some (Collection.groups.change E g.name (fun x => { x with definition := g.group.root })
      fun _ => rfl)
  | .newFungible f symId =>
    Collection.fungibles.add E
      ⟨f.name, f.symName, f.sym, symId, f.creator, f.issue, f.manage, [], E.now⟩
  | .updateFungible f =>
    some (Collection.fungibles.change E f.symId (fun x => { x with
      issue := f.issue.getD x.issue
      manage := f.manage.getD x.manage }) fun _ => rfl)
  | .addMeta m target => some ((E.addNote m).attach E.nextId target)

def takeAction (a : Action) : Option Entities :=
  match Change.of? a with
  | some c => E.apply c
  | none => some E

/-- The entities after actions, or the number of the first action that would repeat a key. -/
def takeActions : List Action → Entities → Except Nat Entities
  | [], E => .ok E
  | a :: as, E =>
    match E.takeAction a with
    | none => .error 0
    | some E => (takeActions as E).mapError (· + 1)

end Entities

end ChainArchive.Entity
