import ChainArchive.Proofs.Entity.Refinement

namespace ChainArchive.Entity

open ChainArchive.Ingest ChainArchive.Record ChainArchive.Sql

@[ext]
structure TokenName where
  domain : String
  name : String
  deriving DecidableEq, Repr

def TokenName.id (t : TokenName) : String := tokenId t.domain t.name

/-- The domain of `t'` goes on after that of `t` and a colon, with what the name of `t` starts
with. -/
def TokenName.Extends (t' t : TokenName) : Prop :=
  ∃ u, t'.domain = t.domain ++ ":" ++ u ∧ t.name = u ++ ":" ++ t'.name

def TokenName.Alike (t t' : TokenName) : Prop := t = t' ∨ t'.Extends t ∨ t.Extends t'

theorem exists_of_append_cons {d d' n n' : List Char} {c : Char} (h : d ++ c :: n = d' ++ c :: n') :
    (d = d' ∧ n = n') ∨ (∃ u, d' = d ++ c :: u ∧ n = u ++ c :: n') ∨
      ∃ u, d = d' ++ c :: u ∧ n' = u ++ c :: n := by
  obtain ⟨u, hd, hn⟩ | ⟨u, hd, hn⟩ := List.append_eq_append_iff.mp h
  · cases u with
    | nil => exact .inl ⟨by simpa using hd.symm, by simpa using hn⟩
    | cons x u =>
      obtain ⟨rfl, htail⟩ := List.cons.inj hn
      exact .inr (.inl ⟨u, hd, htail⟩)
  · cases u with
    | nil => exact .inl ⟨by simpa using hd, by simpa using hn.symm⟩
    | cons x u =>
      obtain ⟨rfl, htail⟩ := List.cons.inj hn
      exact .inr (.inr ⟨u, hd, htail⟩)

theorem TokenName.toList_id (t : TokenName) :
    t.id.toList = t.domain.toList ++ ':' :: t.name.toList := by
  simp [TokenName.id, tokenId]

theorem TokenName.extends_iff {t t' : TokenName} :
    t'.Extends t ↔ ∃ u, t'.domain.toList = t.domain.toList ++ ':' :: u ∧
      t.name.toList = u ++ ':' :: t'.name.toList := by
  constructor
  · rintro ⟨u, hd, hn⟩
    exact ⟨u.toList, by simp [hd], by simp [hn]⟩
  · rintro ⟨u, hd, hn⟩
    refine ⟨String.ofList u, ?_, ?_⟩ <;> rw [← String.toList_inj] <;> simp [hd, hn]

/-- Tokens have one id exactly if they are alike. -/
theorem TokenName.id_eq_iff {t t' : TokenName} : t.id = t'.id ↔ t.Alike t' := by
  rw [← String.toList_inj, toList_id, toList_id, Alike, extends_iff, extends_iff]
  constructor
  · intro h
    obtain ⟨hd, hn⟩ | h | h := exists_of_append_cons h
    · exact .inl (TokenName.ext (String.toList_inj.mp hd) (String.toList_inj.mp hn))
    · exact .inr (.inl h)
    · exact .inr (.inr h)
  · rintro (rfl | ⟨u, hd, hn⟩ | ⟨u, hd, hn⟩)
    · rfl
    · simp [hd, hn]
    · simp [hd, hn]

theorem TokenName.alike_iff_eq {t t' : TokenName} (h : ':' ∉ t.domain.toList)
    (h' : ':' ∉ t'.domain.toList) : t.Alike t' ↔ t = t' := by
  have hnot : ∀ {s s' : TokenName}, ':' ∉ s'.domain.toList → ¬ s'.Extends s := by
    rintro s s' hs ⟨u, hd, -⟩
    simp [hd] at hs
  exact ⟨fun h => h.resolve_right fun h => h.elim (hnot ‹_›) (hnot ‹_›), .inl⟩

def Change.tokens (a : Action) : Change → List TokenName
  | .issueToken t => t.names.map fun name => ⟨t.domain, name⟩
  | .transferToken t => [⟨t.domain, t.name⟩]
  | .destroyToken t => [⟨t.domain, t.name⟩]
  | .addMeta _ (.token _) => [⟨a.domain, a.key⟩]
  | _ => []

def namedTokens (a : Action) : List TokenName := (Change.of? a).elim [] (Change.tokens a)

def tokenKey? (plan : String) (args : List Value) : Option Value :=
  match Edit.ofEntities.lookup plan with
  | some (.insert "tokens" values _) =>
    match values.lookup "id" with
    | some (.param n) => args[n - 1]?
    | _ => none
  | some (.update "tokens" _ "id" (.param n)) => args[n - 1]?
  | _ => none

/-- The token keys of a call. A second statement has the result of the first as its first
parameter. -/
def callKeys (c : Call) : List Value :=
  (tokenKey? c.plan c.args).toList ++
    (c.next.bind fun i => tokenKey? i.plan (.null :: i.args)).toList

def tokenKeys (calls : List Call) : List Value := calls.flatMap callKeys

theorem tokenKeys_insertToken (t : IssueToken) :
    tokenKeys (t.names.map fun name => ⟨"insert_token",
      [.text (tokenId t.domain name), .text t.domain, .text name, .texts t.owner], none⟩) =
      t.names.map fun name => .text (tokenId t.domain name) := by
  rw [tokenKeys, List.flatMap_map, List.map_eq_flatMap]
  rfl

theorem tokenKeys_ownershipCall (id : String) (o : Ownership) :
    tokenKeys [ownershipCall id o] = [.text id] := by
  cases o <;> rfl

theorem of?_eq_token {domain key id : String} (h : Target.of? domain key = some (.token id)) :
    id = tokenId domain key := by
  unfold Target.of? at h
  split at h
  · cases hn : (numeral key).toOption <;> simp [hn] at h
  · cases h
  · cases h
  · cases h
    rfl

theorem target_of_change {a : Action} {m : AddMeta} {t : Target}
    (h : Change.of? a = some (.addMeta m t)) : Target.of? a.domain a.key = some t := by
  unfold Change.of? at h
  split at h
  case h_10 =>
    obtain ⟨m', -, h⟩ := Option.bind_eq_some_iff.mp h
    obtain ⟨t', ht, h⟩ := Option.bind_eq_some_iff.mp h
    cases h
    exact ht
  case h_8 =>
    obtain ⟨f, -, h⟩ := Option.bind_eq_some_iff.mp h
    obtain ⟨id, -, h⟩ := Option.bind_eq_some_iff.mp h
    cases h
  all_goals simp at h

def Addresses (a : Action) (calls : List Call) : Prop :=
  tokenKeys calls = (namedTokens a).map fun t => .text t.id

theorem addresses_of_change {a : Action} {c : Change} {calls : List Call}
    (hc : Change.of? a = some c) (h : tokenKeys calls = (c.tokens a).map fun t => .text t.id) :
    Addresses a calls := by
  rw [Addresses, namedTokens, hc]
  exact h

theorem addresses_of_payload {α : Type} {name : String} {check : Check α} {a : Action}
    (change : α → Change) {f : α → List Call} {calls : List Call}
    (h : (payload name check a >>= fun x => pure (f x)) = .ok calls)
    (hc : Change.of? a = (validOf? check a).map change)
    (hf : ∀ x, tokenKeys (f x) = ((change x).tokens a).map fun t => .text t.id) :
    Addresses a calls := by
  obtain ⟨x, hx, hcalls⟩ := bind_eq_ok h
  cases hcalls
  exact addresses_of_change (by rw [hc, payload_eq_ok hx]; rfl) (hf x)

theorem addMeta_addresses {a : Action} {calls : List Call} (hn : a.name = "addmeta")
    (h : addMeta a = .ok calls) : Addresses a calls := by
  obtain ⟨m, hm, h⟩ := bind_eq_ok h
  obtain ⟨x, hx, h⟩ := bind_eq_ok h
  obtain ⟨t, ht, rfl⟩ := metaTarget_eq_ok hx
  cases h
  have hc : Change.of? a = some (.addMeta m t) := by
    rw [Change.of?, hn]
    simp [payload_eq_ok hm, ht]
  refine addresses_of_change hc ?_
  cases t with
  | token id =>
    obtain rfl := of?_eq_token ht
    rfl
  | fungible | group | domain => rfl

theorem rule_addresses {a : Action} {rule : Action → Except Failure (List Call)}
    {calls : List Call} (hrule : (a.name, rule) ∈ rules) (h : rule a = .ok calls) :
    Addresses a calls := by
  simp only [rules, List.mem_cons, Prod.mk.injEq, List.not_mem_nil, or_false] at hrule
  obtain ⟨hn, rfl⟩ | ⟨hn, rfl⟩ | ⟨hn, rfl⟩ | ⟨hn, rfl⟩ | ⟨hn, rfl⟩ | ⟨hn, rfl⟩ | ⟨hn, rfl⟩ |
    ⟨hn, rfl⟩ | ⟨hn, rfl⟩ | ⟨hn, rfl⟩ := hrule
  · exact addresses_of_payload .newDomain h (by simp only [Change.of?, hn]) fun _ => rfl
  · exact addresses_of_payload .updateDomain h (by simp only [Change.of?, hn]) fun _ => rfl
  · refine addresses_of_payload .issueToken h (by simp only [Change.of?, hn]) fun t => ?_
    rw [tokenKeys_insertToken, Change.tokens, List.map_map]
    rfl
  · exact addresses_of_payload .transferToken h (by simp only [Change.of?, hn])
      fun t => tokenKeys_ownershipCall _ _
  · exact addresses_of_payload .destroyToken h (by simp only [Change.of?, hn])
      fun t => tokenKeys_ownershipCall _ _
  · exact addresses_of_payload .newGroup h (by simp only [Change.of?, hn]) fun _ => rfl
  · exact addresses_of_payload .updateGroup h (by simp only [Change.of?, hn]) fun _ => rfl
  · obtain ⟨f, hf, h⟩ := bind_eq_ok h
    obtain ⟨id, hid, h⟩ := bind_eq_ok h
    cases h
    have hc : Change.of? a = some (.newFungible f id) := by
      rw [Change.of?, hn]
      simp [payload_eq_ok hf, hid, Except.toOption]
    exact addresses_of_change hc rfl
  · exact addresses_of_payload .updateFungible h (by simp only [Change.of?, hn]) fun _ => rfl
  · exact addMeta_addresses hn h

theorem render_addresses {a : Action} {calls : List Call} (h : render a = .ok (some calls)) :
    Addresses a calls := by
  obtain ⟨rule, hrule, hcalls⟩ := exists_rule_of_render h
  exact rule_addresses hrule hcalls

namespace Keyed

variable {α κ : Type} [DecidableEq κ] {key : α → κ} {K K' : Keyed key} {x y : α}

theorem mem_add (hx : x ∈ K.items) (h : K.add y = some K') : x ∈ K'.items := by
  unfold add at h
  split at h
  · cases h
  · cases h
    exact List.mem_append_left _ hx

theorem mem_change (hx : x ∈ K.items) {k : κ} (hk : k ≠ key x) (f : α → α)
    (hf : ∀ x, key (f x) = key x) : x ∈ (K.change k f hf).items := by
  have hself : (if key x = k then f x else x) = x := if_neg (Ne.symm hk)
  exact List.mem_map.mpr ⟨x, hx, hself⟩

end Keyed

section Reached

variable {E E' : Entities} {x : Token}

theorem mem_tokens_of_issue {domain : String} {owner names : List String}
    (h : Entities.issue domain owner names E = some E') (hx : x ∈ E.tokens.items) :
    x ∈ E'.tokens.items := by
  induction names generalizing E with
  | nil =>
    cases h
    exact hx
  | cons name names ih =>
    obtain ⟨E₁, hadd, h⟩ := Option.bind_eq_some_iff.mp h
    obtain ⟨K, hK, rfl⟩ := Option.map_eq_some_iff.mp hadd
    exact ih h (Keyed.mem_add hx hK)

theorem mem_tokens_of_change (hx : x ∈ E.tokens.items) {k : String} (hk : k ≠ x.id)
    {f : Token → Token} {hf : ∀ x, (f x).id = x.id} :
    x ∈ (Collection.tokens.change E k f hf).tokens.items :=
  Keyed.mem_change hx hk f hf

/-- A change keeps every token row but those under the ids of the tokens that it names. -/
theorem mem_tokens_of_apply {a : Action} {c : Change} (hc : Change.of? a = some c)
    (h : E.apply c = some E') (hx : x ∈ E.tokens.items)
    (hid : ∀ t ∈ c.tokens a, t.id ≠ x.id) : x ∈ E'.tokens.items := by
  cases c with
  | issueToken t => exact mem_tokens_of_issue h hx
  | transferToken t | destroyToken t =>
    cases h
    exact mem_tokens_of_change hx (hid _ (List.mem_singleton_self _))
  | addMeta m target =>
    cases h
    cases target with
    | token id =>
      obtain rfl := of?_eq_token (target_of_change hc)
      exact mem_tokens_of_change hx (hid _ (List.mem_singleton_self _))
    | fungible | group | domain => exact hx
  | updateDomain | updateGroup | updateFungible =>
    cases h
    exact hx
  | newDomain | newGroup | newFungible =>
    obtain ⟨K, -, rfl⟩ := Option.map_eq_some_iff.mp h
    exact hx

theorem mem_tokens_of_takeAction {a : Action} (h : E.takeAction a = some E')
    (hx : x ∈ E.tokens.items) (hid : ∀ t ∈ namedTokens a, t.id ≠ x.id) : x ∈ E'.tokens.items := by
  unfold Entities.takeAction at h
  split at h
  · next c hc => exact mem_tokens_of_apply hc h hx (by simpa [namedTokens, hc] using hid)
  · cases h
    exact hx

end Reached

/-- Actions on tokens address the right rows as far as ids tell tokens apart. Each id that an
accepted action renders is the id of the token it names, in order. Two of them are equal exactly if
the tokens are alike, and so exactly if the tokens are the same where domains hold no colon. And the
calls keep the row of every token that is not alike to one that is named. -/
theorem tokens_addressed {a a' : Action} {calls calls' : List Call}
    (h : render a = .ok (some calls)) (h' : render a' = .ok (some calls')) :
    (tokenKeys calls).length = (namedTokens a).length ∧
      (∀ (i j : Nat) (t t' : TokenName),
        (namedTokens a)[i]? = some t → (namedTokens a')[j]? = some t' →
        ((tokenKeys calls)[i]? = (tokenKeys calls')[j]? ↔ t.Alike t') ∧
        (':' ∉ t.domain.toList → ':' ∉ t'.domain.toList → (t.Alike t' ↔ t = t'))) ∧
      ∀ E : Entities, Agrees (E.takeAction a) (E.database.runCalls calls) ∧
        ∀ E', E.takeAction a = some E' → ∀ x ∈ E.tokens.items,
          (∀ t ∈ namedTokens a, ¬ t.Alike ⟨x.domain, x.name⟩) → x ∈ E'.tokens.items := by
  have hkeys := render_addresses h
  have hkeys' := render_addresses h'
  refine ⟨by rw [hkeys, List.length_map], fun i j t t' ht ht' => ⟨?_, TokenName.alike_iff_eq⟩,
    fun E => ⟨?_, fun E' hE x hx hnot => ?_⟩⟩
  · rw [hkeys, hkeys', List.getElem?_map, List.getElem?_map, ht, ht', ← TokenName.id_eq_iff]
    simp [Value.text]
  · have hagrees := callsOf_agrees h E
    rwa [callsOf, h] at hagrees
  · refine mem_tokens_of_takeAction hE hx fun t ht hid => hnot t ht ?_
    exact TokenName.id_eq_iff.mp hid

def issueInside : Action :=
  ⟨"issuetoken", "a", "b:c", [("domain", .text "a"), ("names", .array [.text "b:c"]),
    ("owner", .array [.text "EVT1"])]⟩

def destroyBeside : Action :=
  ⟨"destroytoken", "a:b", "c", [("domain", .text "a:b"), ("name", .text "c")]⟩

theorem tokens_addressed_beside :
    ∃ calls calls', render issueInside = .ok (some calls) ∧
      render destroyBeside = .ok (some calls') ∧ (tokenKeys calls)[0]? = (tokenKeys calls')[0]? ∧
      (⟨"a:b", "c"⟩ : TokenName).Extends ⟨"a", "b:c"⟩ := by
  obtain ⟨calls, hcalls⟩ : ∃ calls, render issueInside = .ok (some calls) := ⟨_, rfl⟩
  obtain ⟨calls', hcalls'⟩ : ∃ calls, render destroyBeside = .ok (some calls) := ⟨_, rfl⟩
  obtain ⟨-, hiff, -⟩ := tokens_addressed hcalls hcalls'
  have hextends : (⟨"a:b", "c"⟩ : TokenName).Extends ⟨"a", "b:c"⟩ := ⟨"b", by decide, by decide⟩
  have hkeys := (hiff 0 0 _ _ rfl rfl).1.mpr (.inr (.inl hextends))
  exact ⟨calls, calls', hcalls, hcalls', hkeys, hextends⟩

/-- Ids do not tell all tokens apart. -/
theorem not_tokens_told_apart :
    ¬ ∀ (a a' : Action) (calls calls' : List Call), render a = .ok (some calls) →
      render a' = .ok (some calls') → ∀ (i j : Nat) (t t' : TokenName),
        (namedTokens a)[i]? = some t → (namedTokens a')[j]? = some t' →
        ((tokenKeys calls)[i]? = (tokenKeys calls')[j]? ↔ t = t') := by
  intro h
  have heq := (h issueInside destroyBeside _ _ rfl rfl 0 0 _ _ rfl rfl).mp rfl
  revert heq
  decide

end ChainArchive.Entity
