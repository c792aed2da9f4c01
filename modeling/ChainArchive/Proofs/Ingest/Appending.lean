import ChainArchive.Ingest.Rules
import Mathlib.Data.List.Forall2

namespace ChainArchive.Ingest

open ChainArchive.Record

namespace Appending

def single {α : Type} (name : String) (check : Check α) (plan : String) (args : α → List Value)
    (a : Action) : Program Batch Unit := do
  let x ← .lift (payload name check a)
  modify (·.add plan (args x))

def newDomain : Action → Program Batch Unit :=
  single "NewDomain" NewDomain.check "insert_domain" fun d =>
    [.text d.name, .text d.creator, jsonText d.issue, jsonText d.transfer, jsonText d.manage]

def updateDomain : Action → Program Batch Unit :=
  single "UpdateDomain" UpdateDomain.check "update_domain" fun d =>
    [.text d.name, jsonText? d.issue, jsonText? d.transfer, jsonText? d.manage]

def issueToken (a : Action) : Program Batch Unit := do
  let t ← .lift (payload "IssueToken" IssueToken.check a)
  forM t.names fun name => modify (·.add "insert_token"
    [.text (tokenId t.domain name), .text t.domain, .text name, .texts t.owner])

def setOwnership (id : String) : Ownership → Program Batch Unit
  | .burned => modify (·.add "destroy_token" [.text id, .text burnedOwner])
  | .owned owners => modify (·.add "transfer_token" [.text id, .texts owners])

def transferToken (a : Action) : Program Batch Unit := do
  let t ← .lift (payload "TransferToken" TransferToken.check a)
  setOwnership (tokenId t.domain t.name) (.owned t.receivers)

def destroyToken (a : Action) : Program Batch Unit := do
  let t ← .lift (payload "DestroyToken" DestroyToken.check a)
  setOwnership (tokenId t.domain t.name) .burned

def newGroup : Action → Program Batch Unit :=
  single "NewGroup" GroupChange.check "insert_group" fun g =>
    [.text g.name, .text g.group.key, jsonText g.group.root]

def updateGroup : Action → Program Batch Unit :=
  single "UpdateGroup" GroupChange.check "update_group" fun g =>
    [.text g.name, jsonText g.group.root]

def newFungible (a : Action) : Program Batch Unit := do
  let f ← .lift (payload "NewFungible" NewFungible.check a)
  let id ← .lift (symbolId f.sym)
  modify (·.add "insert_fungible"
    [.text f.name, .text f.symName, .text f.sym, .int id, .text f.creator, jsonText f.issue,
      jsonText f.manage])

def updateFungible : Action → Program Batch Unit :=
  single "UpdateFungible" UpdateFungible.check "update_fungible" fun f =>
    [.int f.symId, jsonText? f.issue, jsonText? f.manage]

def addMeta (a : Action) : Program Batch Unit := do
  let m ← .lift (payload "AddMeta" AddMeta.check a)
  let (plan, owner) ← .lift (metaTarget a.domain a.key)
  modify (·.addChained "insert_meta" [.text m.key, .text m.value, .text m.creator] ⟨plan, [owner]⟩)

def rules : List (String × (Action → Program Batch Unit)) := [
  ("newdomain", newDomain),
  ("updatedomain", updateDomain),
  ("issuetoken", issueToken),
  ("transfer", transferToken),
  ("destroytoken", destroyToken),
  ("newgroup", newGroup),
  ("updategroup", updateGroup),
  ("newfungible", newFungible),
  ("updfungible", updateFungible),
  ("addmeta", addMeta)]

def rule? (name : String) : Option (Action → Program Batch Unit) :=
  (rules.find? (·.1 == name)).map (·.2)

end Appending

/-- Appends the calls of an action; false if no entity is affected. The steps of a rule that may
fail and the calls that it appends follow one another, and what was appended before a failure
stays. -/
def appendCalls (a : Action) : Program Batch Bool :=
  match Appending.rule? a.name with
  | none => return false
  | some rule => do
    rule a
    return true

/-- The batch after actions were offered to it one after another, and failures passed over. -/
def appendEach (b : Batch) (as : List Action) : Batch :=
  as.foldl (fun b a => ((appendCalls a).runFrom b).2) b

def appendedAlone (a : Action) : Batch :=
  match (appendCalls a).runFrom [] with
  | (.ok _, b) => b
  | (.error _, _) => []

/-- A program over batches that appends the calls of a result, and leaves the batch as it is if
the result is a failure. -/
def Appends (p : Program Batch Unit) : Except Failure (List Call) → Prop
  | .ok calls => ∀ b, p.runFrom b = (.ok (), b ++ calls)
  | .error f => ∀ b, p.runFrom b = (.error f, b)

theorem appends_add (plan : String) (args : List Value) :
    Appends (modify (·.add plan args)) (.ok [⟨plan, args, none⟩]) :=
  fun _ => rfl

theorem appends_addChained (plan : String) (args : List Value) (next : Invocation) :
    Appends (modify (·.addChained plan args next)) (.ok [⟨plan, args, some next⟩]) :=
  fun _ => rfl

theorem Appends.lift_bind {α : Type} {f : α → Program Batch Unit}
    {g : α → Except Failure (List Call)} (h : ∀ x, Appends (f x) (g x)) (r : Except Failure α) :
    Appends (.lift r >>= f) (r >>= g) := by
  cases r with
  | error e => exact fun b => Program.runFrom_bind_error rfl f
  | ok x =>
    have hrun (b : Batch) : (Program.lift (.ok x) >>= f).runFrom b = (f x).runFrom b :=
      Program.runFrom_bind_ok rfl f
    show Appends _ (g x)
    have hx := h x
    cases hg : g x with
    | error e =>
      rw [hg] at hx
      exact fun b => (hrun b).trans (hx b)
    | ok calls =>
      rw [hg] at hx
      exact fun b => (hrun b).trans (hx b)

theorem appends_forM {α : Type} {f : α → Program Batch Unit} {g : α → Call}
    (h : ∀ x, Appends (f x) (.ok [g x])) (xs : List α) :
    Appends (forM xs f) (.ok (xs.map g)) := by
  induction xs with
  | nil => exact fun b => by simp
  | cons x xs ih =>
    intro b
    rw [List.forM_cons, Program.runFrom_bind_ok (h x b), ih]
    simp

theorem appends_single {α : Type} (name : String) (check : Check α) (plan : String)
    (args : α → List Value) (a : Action) :
    Appends (Appending.single name check plan args a)
      (payload name check a >>= fun x => pure [⟨plan, args x, none⟩]) :=
  .lift_bind (fun x => appends_add plan (args x)) _

theorem appends_setOwnership (id : String) (o : Ownership) :
    Appends (Appending.setOwnership id o) (.ok [ownershipCall id o]) := by
  cases o <;> exact appends_add _ _

theorem appends_issueToken (a : Action) : Appends (Appending.issueToken a) (issueToken a) := by
  unfold Appending.issueToken issueToken
  refine .lift_bind (fun t => ?_) _
  exact appends_forM (fun name => appends_add _ _) t.names

theorem appends_transferToken (a : Action) :
    Appends (Appending.transferToken a) (transferToken a) := by
  unfold Appending.transferToken transferToken
  refine .lift_bind (fun t => ?_) _
  exact appends_setOwnership _ _

theorem appends_destroyToken (a : Action) :
    Appends (Appending.destroyToken a) (destroyToken a) := by
  unfold Appending.destroyToken destroyToken
  refine .lift_bind (fun t => ?_) _
  exact appends_setOwnership _ _

theorem appends_newFungible (a : Action) : Appends (Appending.newFungible a) (newFungible a) := by
  unfold Appending.newFungible newFungible
  refine .lift_bind (fun f => ?_) _
  refine .lift_bind (fun id => ?_) _
  exact appends_add _ _

theorem appends_addMeta (a : Action) : Appends (Appending.addMeta a) (addMeta a) := by
  unfold Appending.addMeta addMeta
  refine .lift_bind (fun m => ?_) _
  refine .lift_bind (fun target => ?_) _
  exact appends_addChained _ _ _

def AppendsAs (p : Action → Program Batch Unit) (r : Action → Except Failure (List Call)) : Prop :=
  ∀ a, Appends (p a) (r a)

/-- Every rule finishes the steps that may fail before it appends its first call. -/
theorem appends_rules : List.Forall₂ (fun x y => x.1 = y.1 ∧ AppendsAs x.2 y.2)
    Appending.rules rules :=
  .cons ⟨rfl, appends_single _ _ _ _⟩ <| .cons ⟨rfl, appends_single _ _ _ _⟩ <|
  .cons ⟨rfl, appends_issueToken⟩ <| .cons ⟨rfl, appends_transferToken⟩ <|
  .cons ⟨rfl, appends_destroyToken⟩ <| .cons ⟨rfl, appends_single _ _ _ _⟩ <|
  .cons ⟨rfl, appends_single _ _ _ _⟩ <| .cons ⟨rfl, appends_newFungible⟩ <|
  .cons ⟨rfl, appends_single _ _ _ _⟩ <| .cons ⟨rfl, appends_addMeta⟩ .nil

theorem rel_find? {α β : Type} {R : α → β → Prop} {xs : List (String × α)} {ys : List (String × β)}
    (h : List.Forall₂ (fun x y => x.1 = y.1 ∧ R x.2 y.2) xs ys) (name : String) :
    Option.Rel R ((xs.find? (·.1 == name)).map (·.2)) ((ys.find? (·.1 == name)).map (·.2)) := by
  induction h with
  | nil => exact .none
  | @cons x y xs ys hxy _ ih =>
    simp only [List.find?_cons, hxy.1]
    cases y.1 == name with
    | true => exact .some hxy.2
    | false => exact ih

theorem appendCalls_cases (a : Action) :
    (a.name ∉ Appending.rules.map (·.1) ∧ render a = .ok none ∧
      ∀ b, (appendCalls a).runFrom b = (.ok false, b)) ∨
    (a.name ∈ Appending.rules.map (·.1) ∧ ∃ calls, render a = .ok (some calls) ∧
      ∀ b, (appendCalls a).runFrom b = (.ok true, b ++ calls)) ∨
    (a.name ∈ Appending.rules.map (·.1) ∧ ∃ f, render a = .error f ∧
      ∀ b, (appendCalls a).runFrom b = (.error f, b)) := by
  have hrel := rel_find? appends_rules a.name
  have hmem : a.name ∈ Appending.rules.map (·.1) ↔ (Appending.rule? a.name).isSome := by
    simp [Appending.rule?, List.find?_isSome]
  unfold appendCalls render
  rw [hmem]
  change Option.Rel AppendsAs (Appending.rule? a.name) (rule? a.name) at hrel
  generalize Appending.rule? a.name = p, rule? a.name = r at hrel ⊢
  cases hrel with
  | none => exact .inl ⟨by simp, rfl, fun b => rfl⟩
  | @some p r hpr =>
    have ha := hpr a
    refine .inr ?_
    cases hr : r a with
    | error f =>
      rw [hr] at ha
      exact .inr ⟨rfl, f, by simp [hr, Except.map], fun b => Program.runFrom_bind_error (ha b) _⟩
    | ok calls =>
      rw [hr] at ha
      exact .inl ⟨rfl, calls, by simp [hr, Except.map], fun b => Program.runFrom_bind_ok (ha b) _⟩

theorem appendCalls_step (a : Action) (b : Batch) :
    ((appendCalls a).runFrom b).2 = b ++ appendedAlone a := by
  unfold appendedAlone
  obtain ⟨-, -, h⟩ | ⟨-, calls, -, h⟩ | ⟨-, f, -, h⟩ := appendCalls_cases a <;> simp [h]

theorem appendEach_eq (b : Batch) (as : List Action) :
    appendEach b as = b ++ as.flatMap appendedAlone := by
  induction as generalizing b with
  | nil => simp [appendEach]
  | cons a as ih =>
    rw [appendEach, List.foldl_cons, appendCalls_step, ← appendEach, ih, List.flatMap_cons,
      List.append_assoc]

/-- An action fails and leaves every batch as it is, or appends calls that do not depend on the
batch. So actions that are offered to a batch one after another leave in it, in order, what each of
them appends alone. Only actions without a rule have no effect on an entity, and these append
nothing. The calls are those that are rendered. -/
theorem appendCalls_atomic :
    (∀ a, (∃ f, ∀ b, (appendCalls a).runFrom b = (.error f, b)) ∨
      ∃ affects calls, ∀ b, (appendCalls a).runFrom b = (.ok affects, b ++ calls)) ∧
    (∀ b as, appendEach b as = b ++ as.flatMap appendedAlone) ∧
    (∀ a b, (((appendCalls a).runFrom b).1 = .ok false ↔ a.name ∉ Appending.rules.map (·.1)) ∧
      ((appendCalls a).runFrom b = (.ok false, b) ↔ a.name ∉ Appending.rules.map (·.1))) ∧
    ∀ a b, (appendCalls a).runFrom b = match renderOn b a with
      | .ok (b', affects) => (.ok affects, b')
      | .error f => (.error f, b) := by
  refine ⟨fun a => ?_, appendEach_eq, fun a b => ?_, fun a b => ?_⟩
  · obtain ⟨-, -, h⟩ | ⟨-, calls, -, h⟩ | ⟨-, f, -, h⟩ := appendCalls_cases a
    · exact .inr ⟨false, [], by simpa using h⟩
    · exact .inr ⟨true, calls, h⟩
    · exact .inl ⟨f, h⟩
  · obtain ⟨hn, -, h⟩ | ⟨hn, calls, -, h⟩ | ⟨hn, f, -, h⟩ := appendCalls_cases a <;> simp [h, hn]
  · obtain ⟨-, hr, h⟩ | ⟨-, calls, hr, h⟩ | ⟨-, f, hr, h⟩ := appendCalls_cases a <;>
      simp [renderOn, hr, h, Except.map]

end ChainArchive.Ingest
