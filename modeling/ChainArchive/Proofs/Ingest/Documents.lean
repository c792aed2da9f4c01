import ChainArchive.Proofs.Copy.Arrays
import ChainArchive.Proofs.Ingest.Rendering
import ChainArchive.Proofs.Json.RoundTrip

namespace ChainArchive

namespace Json

def part? : List String → Json → Option Json
  | [], j => some j
  | key :: path, j => (j.get? key).bind (part? path)

theorem Exact.get? {j k : Json} {key : String} (hj : j.Exact) (h : j.get? key = some k) :
    k.Exact := by
  cases hj with
  | object hmembers =>
    obtain ⟨m, hm, rfl⟩ := Option.map_eq_some_iff.mp h
    exact hmembers m (List.mem_of_find?_eq_some hm)
  | null | bool | int | text | array => cases h

theorem Exact.part? {path : List String} {j k : Json} (hj : j.Exact) (h : j.part? path = some k) :
    k.Exact := by
  induction path generalizing j with
  | nil =>
    cases h
    exact hj
  | cons key path ih =>
    obtain ⟨i, hi, hk⟩ := Option.bind_eq_some_iff.mp h
    exact ih (hj.get? hi) hk

theorem render?_eq_some {j : Json} (h : j.isNull = false) : j.render? = some j.render := by
  simp [render?, h]

end Json

def Value.document? : Value → Option Json
  | .plain .null => some .null
  | .plain (.text s) => Json.read? s
  | _ => none

namespace Record

section Checked

variable {α β : Type} {m : Members} {name : String}

theorem Checked.eq_valid_of_map {f : α → β} {c : Checked α} {y : β} (h : f <$> c = .valid y) :
    ∃ x, y = f x ∧ c = .valid x := by
  cases c with
  | invalid ps => cases h
  | valid x =>
    cases h
    exact ⟨x, rfl, rfl⟩

theorem Checked.eq_valid_of_seq {f : Checked (α → β)} {c : Checked α} {y : β}
    (h : f <*> c = .valid y) : ∃ g x, y = g x ∧ f = .valid g ∧ c = .valid x := by
  cases f with
  | invalid ps => cases c <;> cases h
  | valid g =>
    cases c with
    | invalid ps => cases h
    | valid x =>
      cases h
      exact ⟨g, x, rfl, rfl, rfl⟩

theorem Checked.eq_valid_of_under {s : Step} {c : Checked α} {x : α} (h : c.under s = .valid x) :
    c = .valid x := by
  cases c with
  | invalid ps => cases h
  | valid y =>
    cases h
    rfl

theorem eq_object_of_valid {j : Json} {members : Members} (h : object j = .valid members) :
    j = .object members := by
  cases j <;> cases h
  rfl

theorem lookup_of_required {check : Check α} {x : α} (h : required name check m = .valid x) :
    ∃ j, Json.lookup name m = some j ∧ check j = .valid x := by
  unfold required at h
  split at h
  · next j hj => exact ⟨j, hj, Checked.eq_valid_of_under h⟩
  · cases h

end Checked

/-- The data holds the object at the path, or holds nothing there, or `null`, if there is none. -/
def Gives (m : Members) (path : List String) (o : Option Members) : Prop :=
  ((Json.object m).part? path).getD .null = o.elim .null .object

section Gives

variable {m : Members} {name : String}

theorem gives_of_lookup {path : List String} {j : Json} (hj : Json.lookup name m = some j)
    {o : Option Members} (h : (j.part? path).getD .null = o.elim .null .object) :
    Gives m (name :: path) o := by
  rw [Gives, Json.part?, Json.get?, hj, Option.bind_some, h]

theorem gives_of_required {members : Members} (h : required name object m = .valid members) :
    Gives m [name] (some members) := by
  obtain ⟨j, hj, hcheck⟩ := lookup_of_required h
  cases eq_object_of_valid hcheck
  exact gives_of_lookup hj rfl

theorem gives_of_defaulted {o : Option Members}
    (h : defaulted name none (optional object) m = .valid o) : Gives m [name] o := by
  unfold defaulted at h
  split at h
  · next j hj =>
    refine gives_of_lookup hj ?_
    have hcheck := Checked.eq_valid_of_under h
    cases j with
    | null =>
      cases hcheck
      rfl
    | object members =>
      cases hcheck
      rfl
    | bool | int | float | text | array => cases hcheck
  · next hnone =>
    cases h
    rw [Gives, Json.part?, Json.get?, hnone]
    rfl

theorem NewDomain.gives {d : NewDomain} (h : NewDomain.check (.object m) = .valid d) :
    Gives m ["issue"] (some d.issue) ∧ Gives m ["transfer"] (some d.transfer) ∧
      Gives m ["manage"] (some d.manage) := by
  obtain ⟨_, manage, rfl, h, hmanage⟩ := Checked.eq_valid_of_seq h
  obtain ⟨_, transfer, rfl, h, htransfer⟩ := Checked.eq_valid_of_seq h
  obtain ⟨_, issue, rfl, h, hissue⟩ := Checked.eq_valid_of_seq h
  obtain ⟨_, creator, rfl, h, -⟩ := Checked.eq_valid_of_seq h
  obtain ⟨name, rfl, -⟩ := Checked.eq_valid_of_map h
  exact ⟨gives_of_required hissue, gives_of_required htransfer, gives_of_required hmanage⟩

theorem UpdateDomain.gives {d : UpdateDomain} (h : UpdateDomain.check (.object m) = .valid d) :
    Gives m ["issue"] d.issue ∧ Gives m ["transfer"] d.transfer ∧ Gives m ["manage"] d.manage := by
  obtain ⟨_, manage, rfl, h, hmanage⟩ := Checked.eq_valid_of_seq h
  obtain ⟨_, transfer, rfl, h, htransfer⟩ := Checked.eq_valid_of_seq h
  obtain ⟨_, issue, rfl, h, hissue⟩ := Checked.eq_valid_of_seq h
  obtain ⟨name, rfl, -⟩ := Checked.eq_valid_of_map h
  exact ⟨gives_of_defaulted hissue, gives_of_defaulted htransfer, gives_of_defaulted hmanage⟩

theorem GroupChange.gives {g : GroupChange} (h : GroupChange.check (.object m) = .valid g) :
    Gives m ["group", "root"] (some g.group.root) := by
  obtain ⟨_, group, rfl, h, hgroup⟩ := Checked.eq_valid_of_seq h
  obtain ⟨name, rfl, -⟩ := Checked.eq_valid_of_map h
  obtain ⟨j, hj, hcheck⟩ := lookup_of_required hgroup
  cases j with
  | object members =>
    obtain ⟨_, root, rfl, h, hroot⟩ := Checked.eq_valid_of_seq hcheck
    obtain ⟨_, key, rfl, h, -⟩ := Checked.eq_valid_of_seq h
    obtain ⟨name, rfl, -⟩ := Checked.eq_valid_of_map h
    exact gives_of_lookup hj (gives_of_required hroot)
  | null | bool | int | float | text | array => cases hcheck

theorem NewFungible.gives {f : NewFungible} (h : NewFungible.check (.object m) = .valid f) :
    Gives m ["issue"] (some f.issue) ∧ Gives m ["manage"] (some f.manage) := by
  obtain ⟨_, totalSupply, rfl, h, -⟩ := Checked.eq_valid_of_seq h
  obtain ⟨_, manage, rfl, h, hmanage⟩ := Checked.eq_valid_of_seq h
  obtain ⟨_, issue, rfl, h, hissue⟩ := Checked.eq_valid_of_seq h
  obtain ⟨_, creator, rfl, h, -⟩ := Checked.eq_valid_of_seq h
  obtain ⟨_, sym, rfl, h, -⟩ := Checked.eq_valid_of_seq h
  obtain ⟨_, symName, rfl, h, -⟩ := Checked.eq_valid_of_seq h
  obtain ⟨name, rfl, -⟩ := Checked.eq_valid_of_map h
  exact ⟨gives_of_required hissue, gives_of_required hmanage⟩

theorem UpdateFungible.gives {f : UpdateFungible}
    (h : UpdateFungible.check (.object m) = .valid f) :
    Gives m ["issue"] f.issue ∧ Gives m ["manage"] f.manage := by
  obtain ⟨_, manage, rfl, h, hmanage⟩ := Checked.eq_valid_of_seq h
  obtain ⟨_, issue, rfl, h, hissue⟩ := Checked.eq_valid_of_seq h
  obtain ⟨symId, rfl, -⟩ := Checked.eq_valid_of_map h
  exact ⟨gives_of_defaulted hissue, gives_of_defaulted hmanage⟩

end Gives

end Record

namespace Ingest

open ChainArchive.Copy ChainArchive.Record

/-- The parameters of a statement that are JSON documents: the place among its values, and the path
to the part of an action's data that they stand for. -/
def documents : String → List (Nat × List String)
  | "insert_domain" => [(2, ["issue"]), (3, ["transfer"]), (4, ["manage"])]
  | "update_domain" => [(1, ["issue"]), (2, ["transfer"]), (3, ["manage"])]
  | "insert_group" => [(2, ["group", "root"])]
  | "update_group" => [(1, ["group", "root"])]
  | "insert_fungible" => [(5, ["issue"]), (6, ["manage"])]
  | "update_fungible" => [(1, ["issue"]), (2, ["manage"])]
  | _ => []

theorem filter_isJson_parameters : ∀ p ∈ Statement.standard,
    p.parameters.filter (·.isJson) = (documents p.name).map fun d => .json (d.1 + 1) := by
  have hshapes : ∀ x ∈ Statement.shapes,
      x.2.filter (·.isJson) = (documents x.1).map fun d => .json (d.1 + 1) := by decide +kernel
  intro p hp
  refine hshapes (p.name, p.parameters) ?_
  rw [← Statement.map_parameters_standard]
  exact List.mem_map_of_mem hp

/-- The documents of a call are read as the parts of the data that they stand for; a part that is
not given is `null`. -/
def Carries (data : Json) (c : Call) : Prop :=
  ∀ d ∈ documents c.plan,
    (c.args[d.1]?).bind Value.document? = some ((data.part? d.2).getD .null)

theorem document?_jsonText? {m : Members} (hm : (Json.object m).Exact) {path : List String}
    {o : Option Members} (h : Gives m path o) :
    (jsonText? o).document? = some (((Json.object m).part? path).getD .null) := by
  unfold Gives at h
  cases o with
  | none =>
    rw [h]
    rfl
  | some members =>
    cases hpart : (Json.object m).part? path with
    | none =>
      rw [hpart] at h
      cases h
    | some j =>
      rw [hpart] at h
      cases (h : j = .object members)
      exact Json.read?_render (hm.part? hpart)

theorem payload_eq_ok {α : Type} {name : String} {check : Check α} {a : Action} {x : α}
    (h : payload name check a = .ok x) : check (.object a.data) = .valid x := by
  unfold payload at h
  split at h
  · next y hy =>
    cases h
    exact hy
  · cases h

section Rules

variable {a : Action} {calls : List Call}

theorem carries_of_documents_eq_nil {data : Json} {c : Call} (h : documents c.plan = []) :
    Carries data c := by
  intro d hd
  rw [h] at hd
  cases hd

theorem carries_of_rule {α : Type} {name : String} {check : Check α} {f : α → Call}
    (h : (payload name check a >>= fun x => pure [f x]) = .ok calls)
    (hf : ∀ x, check (.object a.data) = .valid x → Carries (.object a.data) (f x)) :
    ∀ c ∈ calls, Carries (.object a.data) c := by
  obtain ⟨x, hx, hcalls⟩ := bind_eq_ok h
  cases hcalls
  intro c hc
  cases List.mem_singleton.mp hc
  exact hf x (payload_eq_ok hx)

variable (ha : (Json.object a.data).Exact)

include ha

theorem newDomain_carries (h : newDomain a = .ok calls) :
    ∀ c ∈ calls, Carries (.object a.data) c := by
  refine carries_of_rule h fun d hd => ?_
  obtain ⟨hissue, htransfer, hmanage⟩ := NewDomain.gives hd
  refine List.forall_mem_cons.mpr ⟨document?_jsonText? ha hissue, ?_⟩
  refine List.forall_mem_cons.mpr ⟨document?_jsonText? ha htransfer, ?_⟩
  exact List.forall_mem_singleton.mpr (document?_jsonText? ha hmanage)

theorem updateDomain_carries (h : updateDomain a = .ok calls) :
    ∀ c ∈ calls, Carries (.object a.data) c := by
  refine carries_of_rule h fun d hd => ?_
  obtain ⟨hissue, htransfer, hmanage⟩ := UpdateDomain.gives hd
  refine List.forall_mem_cons.mpr ⟨document?_jsonText? ha hissue, ?_⟩
  refine List.forall_mem_cons.mpr ⟨document?_jsonText? ha htransfer, ?_⟩
  exact List.forall_mem_singleton.mpr (document?_jsonText? ha hmanage)

theorem newGroup_carries (h : newGroup a = .ok calls) :
    ∀ c ∈ calls, Carries (.object a.data) c :=
  carries_of_rule h fun _ hg =>
    List.forall_mem_singleton.mpr (document?_jsonText? ha (GroupChange.gives hg))

theorem updateGroup_carries (h : updateGroup a = .ok calls) :
    ∀ c ∈ calls, Carries (.object a.data) c :=
  carries_of_rule h fun _ hg =>
    List.forall_mem_singleton.mpr (document?_jsonText? ha (GroupChange.gives hg))

theorem newFungible_carries (h : newFungible a = .ok calls) :
    ∀ c ∈ calls, Carries (.object a.data) c := by
  obtain ⟨f, hf, hid⟩ := bind_eq_ok h
  obtain ⟨id, -, hcalls⟩ := bind_eq_ok hid
  cases hcalls
  obtain ⟨hissue, hmanage⟩ := NewFungible.gives (payload_eq_ok hf)
  refine List.forall_mem_singleton.mpr (List.forall_mem_cons.mpr ⟨?_, ?_⟩)
  · exact document?_jsonText? ha hissue
  · exact List.forall_mem_singleton.mpr (document?_jsonText? ha hmanage)

theorem updateFungible_carries (h : updateFungible a = .ok calls) :
    ∀ c ∈ calls, Carries (.object a.data) c := by
  refine carries_of_rule h fun d hd => ?_
  obtain ⟨hissue, hmanage⟩ := UpdateFungible.gives hd
  refine List.forall_mem_cons.mpr ⟨document?_jsonText? ha hissue, ?_⟩
  exact List.forall_mem_singleton.mpr (document?_jsonText? ha hmanage)

theorem carries_of_mem_rules {name : String} {rule : Action → Except Failure (List Call)}
    (hr : (name, rule) ∈ rules) (h : rule a = .ok calls) :
    ∀ c ∈ calls, Carries (.object a.data) c := by
  simp only [rules, List.mem_cons, Prod.mk.injEq, List.not_mem_nil, or_false] at hr
  rcases hr with ⟨-, rfl⟩ | ⟨-, rfl⟩ | ⟨-, rfl⟩ | ⟨-, rfl⟩ | ⟨-, rfl⟩ | ⟨-, rfl⟩ | ⟨-, rfl⟩ |
    ⟨-, rfl⟩ | ⟨-, rfl⟩ | ⟨-, rfl⟩
  · exact newDomain_carries ha h
  · exact updateDomain_carries ha h
  · obtain ⟨t, -, hcalls⟩ := bind_eq_ok h
    cases hcalls
    intro c hc
    obtain ⟨n, -, rfl⟩ := List.mem_map.mp hc
    exact carries_of_documents_eq_nil rfl
  · exact carries_of_rule h fun _ _ => carries_of_documents_eq_nil rfl
  · exact carries_of_rule h fun _ _ => carries_of_documents_eq_nil rfl
  · exact newGroup_carries ha h
  · exact updateGroup_carries ha h
  · exact newFungible_carries ha h
  · exact updateFungible_carries ha h
  · obtain ⟨m, -, htarget⟩ := bind_eq_ok h
    obtain ⟨⟨plan, owner⟩, -, hcalls⟩ := bind_eq_ok htarget
    cases hcalls
    exact List.forall_mem_singleton.mpr (carries_of_documents_eq_nil rfl)

theorem render_carries (h : render a = .ok (some calls)) :
    ∀ c ∈ calls, Carries (.object a.data) c := by
  obtain ⟨rule, hr, hc⟩ := exists_rule_of_render h
  exact carries_of_mem_rules ha hr hc

end Rules

/-- A value without floats is read back from its JSON text as it was, with the members of every
object in order, and under the escapes of a transfer an object stands as just that text. So the data
of an action is read back from its row, wherever the row stands in a transfer, and every parameter
that a statement casts to JSON as the part of the data that it stands for. -/
theorem documents_read_back :
    (∀ j : Json, j.Exact → j.isNull = false → j.render?.bind Json.read? = some j) ∧
    (∀ members : Members, (unescape? (encodeField (.plain (.object members)))).map String.ofList =
      (Json.object members).render?) ∧
    (∀ (before after : List (RowTable × List Value)) (b : Block) (trxId : String) (a : Action)
      (n : Int), (Json.object a.data).Exact →
      let offers := before ++ (.actions, actionRow b trxId a n) :: after
      ∃ row, (readRows? ((RowBuffer.empty.offerAll offers).payload .actions)).bind
          (·[(RowBuffer.accepted .actions before).length]?) = some row ∧
        ((RowTable.actions.column? "data" row).join.map String.ofList).bind Json.read? =
          some (.object a.data)) ∧
    (∀ p ∈ Statement.standard,
      p.parameters.filter (·.isJson) = (documents p.name).map fun d => .json (d.1 + 1)) ∧
    ∀ a calls, render a = .ok (some calls) → (Json.object a.data).Exact →
      ∀ c ∈ calls, Carries (.object a.data) c := by
  refine ⟨fun j hj hnull => ?_, fun members => ?_, fun before after b trxId a n ha => ?_,
    filter_isJson_parameters, fun a calls h ha => render_carries ha h⟩
  · rw [Json.render?_eq_some hnull, Option.bind_some, Json.read?_render hj]
  · have htext : encodeField (.plain (.object members)) = escape (Json.object members).write := rfl
    rw [htext, unescape?_escape]
    rfl
  · have hwidth : (actionRow b trxId a n).length = RowTable.actions.columns.length :=
      length_actionRow b trxId a n
    exact ⟨_, RowBuffer.readRows?_payload_at before after hwidth, Json.read?_render ha⟩

theorem documents_read_back_update :
    let issue : Json := .object [("name", .text "say \"no\"\n\tor\\"), ("threshold", .int (-12)),
      ("authorizers", .array [.object [("ref", .null), ("weight", .bool true)], .array []])]
    let a : Action :=
      ⟨"updatedomain", "cars", "", [("name", .text "cars"), ("issue", issue), ("manage", .null)]⟩
    (Json.object a.data).Exact ∧ issue.render?.bind Json.read? = some issue ∧
      ∃ c, render a = .ok (some [c]) ∧
        (c.args[1]?).bind Value.document? = some issue ∧
        (c.args[2]?).bind Value.document? = some .null ∧
        (c.args[3]?).bind Value.document? = some .null := by
  intro issue a
  obtain ⟨hread, -, -, -, hcarries⟩ := documents_read_back
  have hissue : issue.Exact := by
    refine .object ?_
    simp only [List.forall_mem_cons, List.not_mem_nil, false_implies, implies_true, and_true]
    refine ⟨.text _, .int _, .array ?_⟩
    simp only [List.forall_mem_cons, List.not_mem_nil, false_implies, implies_true, and_true]
    refine ⟨.object ?_, .array fun _ h => by cases h⟩
    simp only [List.forall_mem_cons, List.not_mem_nil, false_implies, implies_true, and_true]
    exact ⟨.null, .bool true⟩
  have ha : (Json.object a.data).Exact := by
    refine .object ?_
    simp only [a, List.forall_mem_cons, List.not_mem_nil, false_implies, implies_true, and_true]
    exact ⟨.text _, hissue, .null⟩
  obtain ⟨c, hcall⟩ : ∃ c, render a = .ok (some [c]) := ⟨_, by rfl⟩
  have hc : Carries (.object a.data) c := hcarries a [c] hcall ha c List.mem_cons_self
  have hplan : c.plan = "update_domain" := by
    cases hcall
    rfl
  unfold Carries at hc
  rw [hplan] at hc
  exact ⟨ha, hread issue hissue rfl, c, hcall, hc (1, ["issue"]) (by decide),
    hc (2, ["transfer"]) (by decide), hc (3, ["manage"]) (by decide)⟩

end Ingest

end ChainArchive
