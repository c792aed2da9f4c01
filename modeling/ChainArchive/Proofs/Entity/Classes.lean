import ChainArchive.Proofs.Entity.Refinement
import ChainArchive.Proofs.Ingest.Documents
import ChainArchive.Proofs.Numeral.Agreement

namespace ChainArchive.Entity

open ChainArchive.Ingest ChainArchive.Numeral ChainArchive.Record ChainArchive.Sql

theorem symbolId_append {p : String} (hp : '#' ∉ p.toList) (s : String) :
    symbolId (p ++ "#" ++ s) = numeral s := by
  have hcut : Text.cut '#' (p ++ "#" ++ s).toList = (p.toList, some s.toList) := by
    have happend : Text.cut '#' (p.toList ++ '#' :: s.toList) = (p.toList, some s.toList) :=
      Text.cut_append hp
    simpa using happend
  simp only [symbolId, hcut, String.ofList_toList]

theorem metaTarget_fungible (s : String) : metaTarget fungibleNamespace s =
    (numeral s).map fun n => ("append_fungible_meta", .int n) :=
  if_pos rfl

theorem numeral_eq_ok {s : String} {n : Int} : numeral s = .ok n ↔ readInteger s = .ok n := by
  unfold numeral
  cases readInteger s <;> simp

theorem toClass_of_numeral {s : String} {f : Failure} (h : numeral s = .error f) :
    f.toClass = .value := by
  unfold numeral at h
  split at h
  · cases h
  · cases h
    rfl

theorem integer_text_eq_valid {s : String} {n : Int} :
    integer (.text s) = .valid n ↔ readLenient s = .ok n := by
  rw [integer]
  split <;> simp_all [Checked.fault]

theorem UpdateFungible.accepted_symId {m : Members} {u : UpdateFungible} {s : String}
    (h : UpdateFungible.check (.object m) = .valid u)
    (hs : Json.lookup "sym_id" m = some (.text s)) :
    readLenient s = .ok u.symId := by
  obtain ⟨_, manage, rfl, h, -⟩ := Checked.eq_valid_of_seq h
  obtain ⟨_, issue, rfl, h, -⟩ := Checked.eq_valid_of_seq h
  obtain ⟨id, rfl, hid⟩ := Checked.eq_valid_of_map h
  obtain ⟨j, hj, hcheck⟩ := lookup_of_required hid
  cases hs.symm.trans hj
  exact integer_text_eq_valid.mp hcheck

theorem UpdateFungible.check_of_symId {m : Members} {s : String} {n : Int}
    {issue manage : Option Members} (hs : Json.lookup "sym_id" m = some (.text s))
    (hread : readLenient s = .ok n)
    (hissue : defaulted "issue" none (optional object) m = .valid issue)
    (hmanage : defaulted "manage" none (optional object) m = .valid manage) :
    UpdateFungible.check (.object m) = .valid ⟨n, issue, manage⟩ := by
  have hid : required "sym_id" integer m = .valid n := by
    rw [required, hs]
    simp only [integer_text_eq_valid.mpr hread, Checked.under]
  simp only [UpdateFungible.check, record, hid, hissue, hmanage]
  rfl

def Change.class? : Change → Option Int
  | .newFungible _ id => some id
  | .updateFungible u => some u.symId
  | .addMeta _ (.fungible id) => some id
  | _ => none

def namedClass? (a : Action) : Option Int := (Change.of? a).bind Change.class?

/-- An action names a fungible class by a numeral. -/
inductive NamesClass (s : String) : Action → Prop
  | created {a : Action} {f : NewFungible} {p : String} : a.name = "newfungible" →
      NewFungible.check (.object a.data) = .valid f → '#' ∉ p.toList → f.sym = p ++ "#" ++ s →
      NamesClass s a
  | updated {a : Action} : a.name = "updfungible" →
      Json.lookup "sym_id" a.data = some (.text s) → NamesClass s a
  | described {a : Action} : a.name = "addmeta" → a.domain = fungibleNamespace → a.key = s →
      NamesClass s a

/-- The class of an action is the number that its numeral is read as in free form or, in a change of
a class, in lenient form. -/
theorem exists_of_namesClass {s : String} {a : Action} {r : Option (List Call)}
    (h : NamesClass s a) (hr : render a = .ok r) :
    ∃ n, namedClass? a = some n ∧ (readInteger s = .ok n ∨ readLenient s = .ok n) := by
  have hrule : ∀ rule, rule? a.name = some rule → ∃ calls, rule a = .ok calls := by
    intro rule hrule
    rw [render, hrule] at hr
    obtain ⟨calls, hcalls, -⟩ := map_eq_ok hr
    exact ⟨calls, hcalls⟩
  -- The action was accepted, so its rule has read the numeral where it stands.
  cases h with
  | @created f p hname hf hp hsym =>
    obtain ⟨calls, hcalls⟩ := hrule newFungible (by rw [hname]; rfl)
    obtain ⟨f', hf', hcalls⟩ := bind_eq_ok hcalls
    obtain ⟨n, hn, -⟩ := bind_eq_ok hcalls
    cases hf.symm.trans (Ingest.payload_eq_ok hf')
    have hc : Change.of? a = some (.newFungible f n) := by
      rw [Change.of?, hname]
      simp [payload_eq_ok hf', hn, Except.toOption]
    rw [hsym, symbolId_append hp, numeral_eq_ok] at hn
    exact ⟨n, by rw [namedClass?, hc]; rfl, .inl hn⟩
  | updated hname hs =>
    obtain ⟨calls, hcalls⟩ := hrule updateFungible (by rw [hname]; rfl)
    obtain ⟨u, hu, -⟩ := bind_eq_ok hcalls
    have hc : Change.of? a = some (.updateFungible u) := by
      rw [Change.of?, hname]
      simp [payload_eq_ok hu]
    refine ⟨u.symId, by rw [namedClass?, hc]; rfl, .inr ?_⟩
    exact UpdateFungible.accepted_symId (Ingest.payload_eq_ok hu) hs
  | described hname hdomain hkey =>
    obtain ⟨calls, hcalls⟩ := hrule addMeta (by rw [hname]; rfl)
    obtain ⟨m, hm, hcalls⟩ := bind_eq_ok hcalls
    obtain ⟨x, hx, -⟩ := bind_eq_ok hcalls
    rw [hdomain, hkey, metaTarget_fungible] at hx
    obtain ⟨n, hn, -⟩ := map_eq_ok hx
    have ht : Target.of? a.domain a.key = some (.fungible n) := by
      rw [hdomain, hkey, fungibleNamespace, Target.of?, hn]
      rfl
    have hc : Change.of? a = some (.addMeta m (.fungible n)) := by
      rw [Change.of?, hname]
      simp [payload_eq_ok hm, ht]
    exact ⟨n, by rw [namedClass?, hc]; rfl, .inl (numeral_eq_ok.mp hn)⟩

namespace Keyed

variable {α κ : Type} [DecidableEq κ] {key : α → κ} {K K' : Keyed key}

theorem filter_add {x : α} (h : K.add x = some K') :
    K'.items.filter (key · ≠ key x) = K.items.filter (key · ≠ key x) := by
  unfold add at h
  split at h
  · cases h
  · cases h
    simp

theorem filter_change (k : κ) (f : α → α) (hf : ∀ x, key (f x) = key x) :
    (K.change k f hf).items.filter (key · ≠ k) = K.items.filter (key · ≠ k) := by
  change (K.items.map fun x => if key x = k then f x else x).filter _ = _
  induction K.items with
  | nil => rfl
  | cons x xs ih =>
    by_cases hx : key x = k
    · simpa [hx, hf] using ih
    · simpa [hx] using ih

end Keyed

theorem filter_fungibles_change (E : Entities) (n : Int) (f : Fungible → Fungible)
    (hf : ∀ x, (f x).symId = x.symId) :
    (Collection.fungibles.change E n f hf).fungibles.items.filter (·.symId ≠ n) =
      E.fungibles.items.filter (·.symId ≠ n) :=
  Keyed.filter_change n f hf

theorem filter_fungibles_takeAction {a : Action} {n : Int} {E E' : Entities}
    (hn : namedClass? a = some n) (h : E.takeAction a = some E') :
    E'.fungibles.items.filter (·.symId ≠ n) = E.fungibles.items.filter (·.symId ≠ n) := by
  obtain ⟨c, hc, hclass⟩ := Option.bind_eq_some_iff.mp hn
  rw [Entities.takeAction, hc] at h
  cases c with
  | newFungible f id =>
    cases hclass
    obtain ⟨K, hK, rfl⟩ := Option.map_eq_some_iff.mp h
    exact Keyed.filter_add hK
  | updateFungible u =>
    cases hclass
    cases h
    exact filter_fungibles_change E u.symId _ _
  | addMeta m target =>
    cases h
    cases target with
    | fungible id =>
      cases hclass
      exact filter_fungibles_change (E.addNote m) n _ _
    | group | domain | token => cases hclass
  | newDomain | updateDomain | issueToken | transferToken | destroyToken | newGroup | updateGroup =>
    cases hclass

/-- Numerals of fungible classes agree. Behind the first number sign of a symbol and as the key of
added metadata a text is the same number or the same refusal. As the id of a change it is that
number if it is accepted there, too, and the decimal text of a natural number within the limit of
digits is that number in all three places. So the actions that are accepted with one numeral name
one class; the calls do what the actions mean, and leave every other class as it was. -/
theorem class_numerals_agree {p : String} (hp : '#' ∉ p.toList) (s : String) :
    ((∃ n, symbolId (p ++ "#" ++ s) = .ok n ∧
        metaTarget fungibleNamespace s = .ok ("append_fungible_meta", .int n)) ∨
      ∃ f, symbolId (p ++ "#" ++ s) = .error f ∧ metaTarget fungibleNamespace s = .error f ∧
        f.toClass = .value) ∧
    (∀ m u n, Json.lookup "sym_id" m = some (.text s) →
      UpdateFungible.check (.object m) = .valid u → symbolId (p ++ "#" ++ s) = .ok n →
        u.symId = n) ∧
    (∀ k : Nat, s = toString k → s.length ≤ digitLimit →
      symbolId (p ++ "#" ++ s) = .ok (k : Int) ∧
        metaTarget fungibleNamespace s = .ok ("append_fungible_meta", .int k) ∧
        ∀ m issue manage, Json.lookup "sym_id" m = some (.text s) →
          defaulted "issue" none (optional object) m = .valid issue →
          defaulted "manage" none (optional object) m = .valid manage →
            UpdateFungible.check (.object m) = .valid ⟨k, issue, manage⟩) ∧
    ∀ a a' r r', NamesClass s a → NamesClass s a' → render a = .ok r → render a' = .ok r' →
      ∃ n, namedClass? a = some n ∧ namedClass? a' = some n ∧
        ∀ E : Entities, Agrees (E.takeAction a) (E.database.runCalls (callsOf a)) ∧
          ∀ E', E.takeAction a = some E' →
            E'.fungibles.items.filter (·.symId ≠ n) = E.fungibles.items.filter (·.symId ≠ n) := by
  rw [symbolId_append hp, metaTarget_fungible]
  refine ⟨?_, fun m u n hs hu hn => ?_, ?_, fun a a' r r' ha ha' hr hr' => ?_⟩
  · cases hn : numeral s with
    | ok n => exact .inl ⟨n, rfl, rfl⟩
    | error f => exact .inr ⟨f, rfl, rfl, toClass_of_numeral hn⟩
  · exact readers_agree (numeral_eq_ok.mp hn) (UpdateFungible.accepted_symId hu hs)
  · rintro k rfl hk
    obtain ⟨hfree, hlenient⟩ := read_toString hk
    rw [numeral_eq_ok.mpr hfree]
    exact ⟨rfl, rfl, fun m issue manage hs => UpdateFungible.check_of_symId hs hlenient⟩
  · obtain ⟨n, hn, hread⟩ := exists_of_namesClass ha hr
    obtain ⟨n', hn', hread'⟩ := exists_of_namesClass ha' hr'
    -- Both actions hold the same text, though different readers may have read it.
    obtain rfl : n = n' := by
      obtain hread | hread := hread <;> obtain hread' | hread' := hread'
      · exact Except.ok.inj (hread.symm.trans hread')
      · exact (readers_agree hread hread').symm
      · exact readers_agree hread' hread
      · exact Except.ok.inj (hread.symm.trans hread')
    exact ⟨n, hn, hn', fun E => ⟨callsOf_agrees hr E, fun E' => filter_fungibles_takeAction hn⟩⟩

def createTen : Action :=
  ⟨"newfungible", ".fungible", "EVT", [("name", .text "EVT"), ("sym_name", .text "EVT"),
    ("sym", .text "5,S# 0_10"), ("creator", .text "EVT1"), ("issue", .object []),
    ("manage", .object [])]⟩

def changeTen : Action :=
  ⟨"updfungible", ".fungible", "EVT", [("sym_id", .text " 0_10"), ("manage", .object [])]⟩

theorem class_numerals_agree_spaced :
    '#' ∉ "5,S".toList ∧ NamesClass " 0_10" createTen ∧ NamesClass " 0_10" changeTen ∧
      symbolId "5,S# 0_10" = .ok 10 ∧
      (∃ u, UpdateFungible.check (.object changeTen.data) = .valid u ∧ u.symId = 10) ∧
      (∃ k : Nat, "10" = toString k ∧ "10".length ≤ digitLimit ∧
        metaTarget fungibleNamespace "10" = .ok ("append_fungible_meta", .int k)) ∧
      ∃ r r' n, render createTen = .ok r ∧ render changeTen = .ok r' ∧
        namedClass? createTen = some n ∧ namedClass? changeTen = some n := by
  have hp : '#' ∉ "5,S".toList := by decide
  have hcreated : NamesClass " 0_10" createTen := .created (p := "5,S") rfl rfl hp (by decide)
  have hupdated : NamesClass " 0_10" changeTen := .updated rfl rfl
  have hid : symbolId "5,S# 0_10" = .ok 10 := rfl
  obtain ⟨-, hsame, -, hclass⟩ := class_numerals_agree hp " 0_10"
  obtain ⟨-, -, hdecimal, -⟩ := class_numerals_agree hp "10"
  obtain ⟨u, hu⟩ : ∃ u, UpdateFungible.check (.object changeTen.data) = .valid u := ⟨_, rfl⟩
  obtain ⟨n, hn, hn', -⟩ := hclass createTen changeTen _ _ hcreated hupdated rfl rfl
  refine ⟨hp, hcreated, hupdated, hid, ⟨u, hu, ?_⟩, ⟨10, by decide, by decide, ?_⟩, _, _, n, rfl,
    rfl, hn, hn'⟩
  · exact hsame changeTen.data u 10 rfl hu hid
  · exact (hdecimal 10 (by decide) (by decide)).2.1

end ChainArchive.Entity
