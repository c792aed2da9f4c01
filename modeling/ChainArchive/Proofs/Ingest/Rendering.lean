import ChainArchive.Proofs.Ingest.Contents
import ChainArchive.Proofs.Session.Parameters

namespace ChainArchive

def entityPlans : List String :=
  (Statement.ofDomains ++ Statement.ofTokens ++ Statement.ofGroups ++ Statement.ofFungibles ++
    Statement.ofMetas).map (·.name)

/-- A call of a statement on entities, and of another one after it if there is one. -/
def Call.OnEntities (c : Call) : Prop :=
  c.plan ∈ entityPlans ∧ ∀ next, c.next = some next → next.plan ∈ entityPlans

namespace Ingest

open ChainArchive.Record

inductive Attaches : String → Value → Prop
  | fungible (id : Int) : Attaches "append_fungible_meta" (.int id)
  | group (key : String) : Attaches "append_group_meta" (.text key)
  | domain (name : String) : Attaches "append_domain_meta" (.text name)
  | token (id : String) : Attaches "append_token_meta" (.text id)

/-- The calls that actions make. -/
inductive Rendered : Call → Prop
  | domain (name creator : String) (issue transfer manage : Members) :
      Rendered ⟨"insert_domain",
        [.text name, .text creator, jsonText issue, jsonText transfer, jsonText manage], none⟩
  | updatedDomain (name : String) (issue transfer manage : Option Members) :
      Rendered ⟨"update_domain",
        [.text name, jsonText? issue, jsonText? transfer, jsonText? manage], none⟩
  | token (id domain name : String) (owners : List String) :
      Rendered ⟨"insert_token", [.text id, .text domain, .text name, .texts owners], none⟩
  | owned (id : String) (ownership : Ownership) : Rendered (ownershipCall id ownership)
  | group (name key : String) (root : Members) :
      Rendered ⟨"insert_group", [.text name, .text key, jsonText root], none⟩
  | updatedGroup (name : String) (root : Members) :
      Rendered ⟨"update_group", [.text name, jsonText root], none⟩
  | fungible (name symName sym : String) (id : Int) (creator : String) (issue manage : Members) :
      Rendered ⟨"insert_fungible",
        [.text name, .text symName, .text sym, .int id, .text creator, jsonText issue,
          jsonText manage], none⟩
  | updatedFungible (id : Int) (issue manage : Option Members) :
      Rendered ⟨"update_fungible", [.int id, jsonText? issue, jsonText? manage], none⟩
  | metadata (key value creator : String) {plan : String} {owner : Value} : Attaches plan owner →
      Rendered ⟨"insert_meta", [.text key, .text value, .text creator], some ⟨plan, [owner]⟩⟩

theorem metaTarget_attaches {domain key plan : String} {owner : Value}
    (h : metaTarget domain key = .ok (plan, owner)) : Attaches plan owner := by
  unfold metaTarget at h
  split at h
  · cases hn : numeral key with
    | error e =>
      rw [hn] at h
      cases h
    | ok n =>
      rw [hn] at h
      cases h
      exact .fungible n
  · split at h
    · cases h
      exact .group key
    · split at h
      · cases h
        exact .domain domain
      · cases h
        exact .token _

theorem rendered_of_rule {α : Type} {p : Except Failure α} {f : α → List Call} {calls : List Call}
    (h : (p >>= fun x => pure (f x)) = .ok calls) (hf : ∀ x, ∀ c ∈ f x, Rendered c) :
    ∀ c ∈ calls, Rendered c := by
  obtain ⟨x, -, hx⟩ := bind_eq_ok h
  cases hx
  exact hf x

theorem rendered_of_mem_rules {name : String} {rule : Action → Except Failure (List Call)}
    (hr : (name, rule) ∈ rules) {a : Action} {calls : List Call} (h : rule a = .ok calls) :
    ∀ c ∈ calls, Rendered c := by
  have hone : ∀ {c}, Rendered c → ∀ c' ∈ [c], Rendered c' := by
    intro c hc c' hmem
    cases List.mem_singleton.mp hmem
    exact hc
  simp only [rules, List.mem_cons, Prod.mk.injEq, List.not_mem_nil, or_false] at hr
  rcases hr with ⟨-, rfl⟩ | ⟨-, rfl⟩ | ⟨-, rfl⟩ | ⟨-, rfl⟩ | ⟨-, rfl⟩ | ⟨-, rfl⟩ | ⟨-, rfl⟩ |
    ⟨-, rfl⟩ | ⟨-, rfl⟩ | ⟨-, rfl⟩
  · exact rendered_of_rule h fun d => hone (.domain ..)
  · exact rendered_of_rule h fun d => hone (.updatedDomain ..)
  · refine rendered_of_rule h fun t c hc => ?_
    obtain ⟨n, -, rfl⟩ := List.mem_map.mp hc
    exact .token ..
  · exact rendered_of_rule h fun t => hone (.owned ..)
  · exact rendered_of_rule h fun t => hone (.owned ..)
  · exact rendered_of_rule h fun g => hone (.group ..)
  · exact rendered_of_rule h fun g => hone (.updatedGroup ..)
  · obtain ⟨f, -, h⟩ := bind_eq_ok h
    exact rendered_of_rule (p := symbolId f.sym) h fun id => hone (.fungible ..)
  · exact rendered_of_rule h fun f => hone (.updatedFungible ..)
  · obtain ⟨m, -, h⟩ := bind_eq_ok h
    obtain ⟨⟨plan, owner⟩, ht, h⟩ := bind_eq_ok h
    cases h
    exact hone (.metadata _ _ _ (metaTarget_attaches ht))

theorem exists_rule_of_render {a : Action} {calls : List Call} (h : render a = .ok (some calls)) :
    ∃ rule, (a.name, rule) ∈ rules ∧ rule a = .ok calls := by
  unfold render at h
  cases hr : rule? a.name with
  | none =>
    rw [hr] at h
    cases h
  | some rule =>
    obtain ⟨⟨name, rule'⟩, hf, rfl⟩ := Option.map_eq_some_iff.mp hr
    have hname : name = a.name := by simpa using List.find?_some hf
    simp only [hr] at h
    cases hc : rule' a with
    | error e =>
      rw [hc] at h
      cases h
    | ok calls' =>
      rw [hc] at h
      cases h
      exact ⟨rule', hname ▸ List.mem_of_find?_eq_some hf, hc⟩

theorem rule?_eq_none_of_render {a : Action} (h : render a = .ok none) : rule? a.name = none := by
  unfold render at h
  cases hr : rule? a.name with
  | none => rfl
  | some rule =>
    simp only [hr] at h
    cases hc : rule a <;> rw [hc] at h <;> cases h

theorem rendered_of_render {a : Action} {calls : List Call} (h : render a = .ok (some calls)) :
    ∀ c ∈ calls, Rendered c := by
  obtain ⟨rule, hr, hc⟩ := exists_rule_of_render h
  exact rendered_of_mem_rules hr hc

theorem callsOf_rendered (a : Action) : ∀ c ∈ callsOf a, Rendered c := by
  unfold callsOf
  split
  · next calls h => exact rendered_of_render h
  · simp

theorem Rendered.onEntities {c : Call} (h : Rendered c) : c.OnEntities := by
  have hplain : ∀ {plan : String} {args : List Value}, plan ∈ entityPlans →
      Call.OnEntities ⟨plan, args, none⟩ := fun hp => ⟨hp, fun _ hn => by cases hn⟩
  cases h with
  | owned id ownership => cases ownership <;> exact hplain (by decide)
  | metadata key value creator h =>
    refine ⟨(by decide : "insert_meta" ∈ entityPlans), ?_⟩
    rintro _ ⟨⟩
    cases h with
    | fungible => exact (by decide : "append_fungible_meta" ∈ entityPlans)
    | group => exact (by decide : "append_group_meta" ∈ entityPlans)
    | domain => exact (by decide : "append_domain_meta" ∈ entityPlans)
    | token => exact (by decide : "append_token_meta" ∈ entityPlans)
  | domain | updatedDomain | token | group | updatedGroup | fungible | updatedFungible =>
    exact hplain (by decide)

theorem callsOf_onEntities (a : Action) : ∀ c ∈ callsOf a, c.OnEntities :=
  fun c hc => (callsOf_rendered a c hc).onEntities

@[simp] theorem isNull_jsonText (members : Members) : (jsonText members).isNull = false := rfl

theorem Attaches.suits {plan : String} {owner id : Value} (h : Attaches plan owner)
    (hid : id.isNull = false) : Suits plan [id, owner] := by
  cases h <;> exact .of_present (by rfl) rfl (by simp [hid])

/-- The calls that actions make suit their statements. -/
theorem Rendered.within_suits {c : Call} (h : Rendered c) : c.Within Suits := by
  have hplain : ∀ {plan : String} {args : List Value}, Suits plan args →
      Call.Within Suits ⟨plan, args, none⟩ := fun hs => ⟨hs, fun _ hn => by cases hn⟩
  cases h with
  | domain => exact hplain (.of_present (by rfl) rfl (by simp))
  | updatedDomain =>
    exact hplain (.of_update (n := 3) (by rfl) (by decide) (by rfl) rfl (by rfl) (by decide))
  | token => exact hplain (.of_present (by rfl) rfl (by simp))
  | owned id ownership =>
    cases ownership <;> exact hplain (.of_present (by rfl) rfl (by simp))
  | group => exact hplain (.of_present (by rfl) rfl (by simp))
  | updatedGroup => exact hplain (.of_present (by rfl) rfl (by simp))
  | fungible => exact hplain (.of_present (by rfl) rfl (by simp))
  | updatedFungible =>
    exact hplain (.of_update (n := 2) (by rfl) (by decide) (by rfl) rfl (by rfl) (by decide))
  | metadata key value creator h =>
    refine ⟨.of_present (by rfl) rfl (by simp), ?_⟩
    rintro _ ⟨⟩ id hid
    exact h.suits hid

end Ingest

end ChainArchive
