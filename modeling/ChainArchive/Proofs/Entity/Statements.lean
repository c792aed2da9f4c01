import ChainArchive.Proofs.Entity.Ledger
import ChainArchive.Proofs.Entity.Rows
import ChainArchive.Proofs.Ingest.Rendering

namespace ChainArchive.Entity

open ChainArchive.Ingest ChainArchive.Record ChainArchive.Sql

/-- The calls leave the entities as rows, or one of them is refused for a key that is taken. -/
def Agrees : Option Entities → Except Failure (Unit × Database) → Prop
  | some E, r => r = .ok ((), E.database)
  | none, r => ∃ plan e, r = .error (.statement plan e) ∧ e.kind = .uniqueViolation

theorem agrees_call {E : Entities} {E' : Option Entities} {plan table : String} (c : Edit)
    {args : List Value} (cells : List Cell) (hc : (plan, c) ∈ Edit.ofEntities)
    (ha : args.mapM Cell.ofValue? = some cells)
    (h : E.database.exec cells c = Stored.outcome table E') :
    Agrees E' (E.database.runCalls [⟨plan, args, none⟩]) := by
  have hcall : E.database.runCall ⟨plan, args, none⟩ =
      ((E.database.exec cells c).mapError (Batch.statementFailure plan)).map fun x => ((), x.2) := by
    rw [Database.runCall, Database.invoke_ofEntities hc ha]
    cases E.database.exec cells c <;> rfl
  rw [Database.runCalls, hcall, h]
  cases E' with
  | some E' => rfl
  | none => exact ⟨plan, _, rfl, rfl⟩

theorem Agrees.append {o : Option Entities} {f : Entities → Option Entities} {d : Database}
    {cs cs' : List Call} (h : Agrees o (d.runCalls cs))
    (h' : ∀ E, o = some E → Agrees (f E) (E.database.runCalls cs')) :
    Agrees (o.bind f) (d.runCalls (cs ++ cs')) := by
  rw [Database.runCalls_append]
  cases o with
  | none =>
    obtain ⟨plan, e, hr, he⟩ := h
    rw [hr]
    exact ⟨plan, e, rfl, he⟩
  | some E =>
    have hr : d.runCalls cs = .ok ((), E.database) := h
    rw [hr]
    exact h' E rfl

section Statements

variable (E : Entities)

theorem newDomain_agrees (d : NewDomain) : Agrees (E.apply (.newDomain d))
    (E.database.runCalls [⟨"insert_domain", [.text d.name, .text d.creator, jsonText d.issue,
      jsonText d.transfer, jsonText d.manage], none⟩]) :=
  agrees_call .insertDomain _ (by simp [Edit.ofEntities]) rfl
    (Stored.domains.exec_add E _ (by decide) (by decide) rfl)

theorem updateDomain_agrees (d : UpdateDomain) : Agrees (E.apply (.updateDomain d))
    (E.database.runCalls [⟨"update_domain", [.text d.name, jsonText? d.issue,
      jsonText? d.transfer, jsonText? d.manage], none⟩]) := by
  -- A permission is either given or kept.
  obtain ⟨name, issue, transfer, manage⟩ := d
  cases issue <;> cases transfer <;> cases manage <;>
    exact agrees_call .updateDomain _ (by simp [Edit.ofEntities]) rfl
      (Stored.domains.exec_change E name _ (by exact fun _ => rfl) (by decide) rfl fun x => rfl)

theorem ownershipCall_agrees (id : String) (o : Ownership) :
    Agrees (some (Collection.tokens.change E id (fun x => { x with owner := match o with
      | .owned owners => owners
      | .burned => [burnedOwner] }) fun _ => rfl)) (E.database.runCalls [ownershipCall id o]) := by
  cases o with
  | owned owners =>
    exact agrees_call .transferToken [.text id, .texts owners]
      (by simp [Edit.ofEntities]) (by simp)
      (Stored.tokens.exec_change E id _ (by exact fun _ => rfl) (by decide) rfl fun x => rfl)
  | burned =>
    exact agrees_call .destroyToken _ (by simp [Edit.ofEntities]) rfl
      (Stored.tokens.exec_change E id _ (by exact fun _ => rfl) (by decide) rfl fun x => rfl)

theorem newGroup_agrees (g : GroupChange) : Agrees (E.apply (.newGroup g))
    (E.database.runCalls [⟨"insert_group", [.text g.name, .text g.group.key,
      jsonText g.group.root], none⟩]) :=
  agrees_call .insertGroup _ (by simp [Edit.ofEntities]) rfl
    (Stored.groups.exec_add E _ (by decide) (by decide) rfl)

theorem updateGroup_agrees (g : GroupChange) : Agrees (E.apply (.updateGroup g))
    (E.database.runCalls [⟨"update_group", [.text g.name, jsonText g.group.root], none⟩]) :=
  agrees_call .updateGroup _ (by simp [Edit.ofEntities]) rfl
    (Stored.groups.exec_change E g.name _ (by exact fun _ => rfl) (by decide) rfl fun _ => rfl)

theorem newFungible_agrees (f : NewFungible) (id : Int) : Agrees (E.apply (.newFungible f id))
    (E.database.runCalls [⟨"insert_fungible", [.text f.name, .text f.symName, .text f.sym, .int id,
      .text f.creator, jsonText f.issue, jsonText f.manage], none⟩]) :=
  agrees_call .insertFungible _ (by simp [Edit.ofEntities]) rfl
    (Stored.fungibles.exec_add E _ (by decide) (by decide) rfl)

theorem updateFungible_agrees (f : UpdateFungible) : Agrees (E.apply (.updateFungible f))
    (E.database.runCalls [⟨"update_fungible", [.int f.symId, jsonText? f.issue,
      jsonText? f.manage], none⟩]) := by
  obtain ⟨symId, issue, manage⟩ := f
  cases issue <;> cases manage <;>
    exact agrees_call .updateFungible _ (by simp [Edit.ofEntities]) rfl
      (Stored.fungibles.exec_change E symId _ (by exact fun _ => rfl) (by decide) rfl fun x => rfl)

theorem issue_agrees (domain : String) (owner names : List String) :
    Agrees (Entities.issue domain owner names E) (E.database.runCalls (names.map fun name =>
      ⟨"insert_token", [.text (tokenId domain name), .text domain, .text name, .texts owner],
        none⟩)) := by
  induction names generalizing E with
  | nil => rfl
  | cons name names ih =>
    have hfirst : Agrees (Collection.tokens.add E ⟨domain, name, owner, [], E.now⟩)
        (E.database.runCalls [⟨"insert_token",
          [.text (tokenId domain name), .text domain, .text name, .texts owner], none⟩]) :=
      agrees_call .insertToken
        [.text (tokenId domain name), .text domain, .text name, .texts owner]
        (by simp [Edit.ofEntities]) (by simp) (Stored.tokens.exec_add E _ (by decide) (by decide) rfl)
    exact hfirst.append fun E' _ => ih E'

theorem exec_insertMeta (m : AddMeta) :
    E.database.exec [.text m.key, .text m.value, .text m.creator] .insertMeta =
      .ok (.int E.nextId, (E.addNote m).database) := by
  have hfree : E.notes.any (Kind.ofNotes.key · = E.nextId) = false := by
    rw [List.any_eq_false]
    intro n hn
    have hlt : n.id < E.nextId := E.fresh n hn
    have hne : Kind.ofNotes.key n ≠ E.nextId := Int.ne_of_lt hlt
    simpa only [decide_eq_true_eq] using hne
  refine (Kind.ofNotes.exec_insert (x := ⟨E.nextId, m.key, m.value, m.creator, E.now⟩)
    (by decide) rfl rfl).trans ?_
  rw [show Kind.ofNotes.key ⟨E.nextId, m.key, m.value, m.creator, E.now⟩ = E.nextId from rfl, hfree]
  rfl

def Target.statement : Target → String × Value
  | .fungible symId => ("append_fungible_meta", .int symId)
  | .group name => ("append_group_meta", .text name)
  | .domain name => ("append_domain_meta", .text name)
  | .token id => ("append_token_meta", .text id)

theorem invoke_append {α κ : Type} [DecidableEq κ] (S : Stored α κ) (plan : String) {id : Int}
    {v : Value} (k : κ) (f : α → α) (hkey : ∀ x, S.key (f x) = S.key x)
    (hc : (plan, .appendMeta S.table.name S.column) ∈ Edit.ofEntities)
    (hcol : Database.hasColumns S.table [S.column, "metas"] = true)
    (hv : Cell.ofValue? v = some (S.cell k))
    (hf : ∀ x, (S.row x).mapM (E.database.changeCell? [.int id, S.cell k]
      [("metas", .append (.column "metas") (.cast (.param 1) "integer"))] (S.row x)) =
        some (S.row (f x))) :
    E.database.invoke plan [.int id, v] = .ok (.null, (S.change E k f hkey).database) := by
  have hcells : [Value.int id, v].mapM Cell.ofValue? = some [.int id, S.cell k] := by simp [hv]
  have hexec : E.database.exec [.int id, S.cell k] (.appendMeta S.table.name S.column) =
      Stored.outcome S.table.name (some (S.change E k f hkey)) :=
    S.exec_change E k f hkey hcol rfl hf
  rw [Database.invoke_ofEntities hc hcells, hexec]
  rfl

theorem invoke_statement (id : Int) (t : Target) :
    E.database.invoke t.statement.1 [.int id, t.statement.2] =
      .ok (.null, (E.attach id t).database) := by
  cases t with
  | fungible symId =>
    exact invoke_append E Stored.fungibles "append_fungible_meta" symId _ (by exact fun _ => rfl)
      (by decide) (by decide) rfl fun _ => rfl
  | group name =>
    exact invoke_append E Stored.groups "append_group_meta" name _ (by exact fun _ => rfl)
      (by decide) (by decide) rfl fun _ => rfl
  | domain name =>
    exact invoke_append E Stored.domains "append_domain_meta" name _ (by exact fun _ => rfl)
      (by decide) (by decide) rfl fun _ => rfl
  | token key =>
    exact invoke_append E Stored.tokens "append_token_meta" key _ (by exact fun _ => rfl)
      (by decide) (by decide) rfl fun _ => rfl

theorem runCalls_chained {d d₁ d₂ : Database} {plan : String} {args : List Value}
    {next : Invocation} {v w : Value} (h : d.invoke plan args = .ok (v, d₁))
    (hv : v.isNull = false) (h' : d₁.invoke next.plan (v :: next.args) = .ok (w, d₂)) :
    d.runCalls [⟨plan, args, some next⟩] = .ok ((), d₂) := by
  have hcall : d.runCall ⟨plan, args, some next⟩ = .ok ((), d₂) := by
    rw [Database.runCall, h]
    simp only [bind, Except.bind, hv, Bool.false_eq_true, ↓reduceIte, h']
    rfl
  rw [Database.runCalls, hcall]
  rfl

theorem addMeta_agrees (m : AddMeta) (t : Target) : Agrees (E.apply (.addMeta m t))
    (E.database.runCalls [⟨"insert_meta", [.text m.key, .text m.value, .text m.creator],
      some ⟨t.statement.1, [t.statement.2]⟩⟩]) := by
  have hinsert : E.database.invoke "insert_meta" [.text m.key, .text m.value, .text m.creator] =
      .ok (.int E.nextId, (E.addNote m).database) := by
    have hcells : [Value.text m.key, .text m.value, .text m.creator].mapM Cell.ofValue? =
        some [.text m.key, .text m.value, .text m.creator] := rfl
    rw [Database.invoke_ofEntities (c := .insertMeta) (by simp [Edit.ofEntities]) hcells,
      exec_insertMeta]
    rfl
  exact runCalls_chained hinsert rfl (invoke_statement (E.addNote m) E.nextId t)

theorem metaTarget_eq_ok {domain key : String} {x : String × Value}
    (h : metaTarget domain key = .ok x) :
    ∃ t, Target.of? domain key = some t ∧ x = t.statement := by
  unfold Target.of?
  split
  · cases hn : numeral key with
    | error f => simp [metaTarget, fungibleNamespace, hn, Except.map] at h
    | ok n =>
      have hx : x = ("append_fungible_meta", .int n) := by
        simpa [metaTarget, fungibleNamespace, hn, Except.map] using h.symm
      exact ⟨.fungible n, rfl, hx⟩
  · have hx : x = ("append_group_meta", .text key) := by
      simpa [metaTarget, fungibleNamespace, groupNamespace] using h.symm
    exact ⟨.group key, rfl, hx⟩
  · rename_i hf hg
    have hf : domain ≠ fungibleNamespace := hf
    have hg : domain ≠ groupNamespace := hg
    rw [metaTarget, if_neg hf, if_neg hg, domainMetaKey, if_pos rfl] at h
    cases h
    exact ⟨.domain domain, rfl, rfl⟩
  · rename_i hf hg hm
    have hf : domain ≠ fungibleNamespace := hf
    have hg : domain ≠ groupNamespace := hg
    have hm : key ≠ domainMetaKey := hm
    rw [metaTarget, if_neg hf, if_neg hg, if_neg hm] at h
    cases h
    exact ⟨.token (tokenId domain key), rfl, rfl⟩

end Statements

theorem payload_eq_ok {α : Type} {name : String} {check : Check α} {a : Action} {x : α}
    (h : payload name check a = .ok x) : validOf? check a = some x := by
  unfold payload at h
  unfold validOf?
  cases hc : check (.object a.data) with
  | valid y =>
    rw [hc] at h
    cases h
    rfl
  | invalid ps =>
    rw [hc] at h
    cases h

/-- An action asks for a change, and the calls do it. -/
def Does (a : Action) (cs : List Call) : Prop :=
  ∃ c, Change.of? a = some c ∧ ∀ E : Entities, Agrees (E.apply c) (E.database.runCalls cs)

theorem does_of_payload {α : Type} {name : String} {check : Check α} {a : Action}
    (change : α → Change) {f : α → List Call} {cs : List Call}
    (h : (payload name check a >>= fun x => pure (f x)) = .ok cs)
    (hc : Change.of? a = (validOf? check a).map change)
    (hf : ∀ x (E : Entities), Agrees (E.apply (change x)) (E.database.runCalls (f x))) :
    Does a cs := by
  obtain ⟨x, hx, hcs⟩ := bind_eq_ok h
  cases hcs
  exact ⟨change x, by rw [hc, payload_eq_ok hx]; rfl, hf x⟩

theorem rule_does {a : Action} {rule : Action → Except Failure (List Call)} {cs : List Call}
    (hrule : (a.name, rule) ∈ rules) (h : rule a = .ok cs) : Does a cs := by
  simp only [rules, List.mem_cons, Prod.mk.injEq, List.not_mem_nil, or_false] at hrule
  -- Two rules read more than the payload: the number of a symbol, and the target of metadata.
  obtain ⟨hn, rfl⟩ | ⟨hn, rfl⟩ | ⟨hn, rfl⟩ | ⟨hn, rfl⟩ | ⟨hn, rfl⟩ | ⟨hn, rfl⟩ | ⟨hn, rfl⟩ |
    ⟨hn, rfl⟩ | ⟨hn, rfl⟩ | ⟨hn, rfl⟩ := hrule
  · exact does_of_payload _ h (by simp only [Change.of?, hn]) fun d E => newDomain_agrees E d
  · exact does_of_payload _ h (by simp only [Change.of?, hn]) fun d E => updateDomain_agrees E d
  · exact does_of_payload .issueToken h (by simp only [Change.of?, hn])
      fun t E => issue_agrees E t.domain t.owner t.names
  · exact does_of_payload .transferToken h (by simp only [Change.of?, hn])
      fun t E => ownershipCall_agrees E _ (.owned t.receivers)
  · exact does_of_payload .destroyToken h (by simp only [Change.of?, hn])
      fun t E => ownershipCall_agrees E _ .burned
  · exact does_of_payload _ h (by simp only [Change.of?, hn]) fun g E => newGroup_agrees E g
  · exact does_of_payload _ h (by simp only [Change.of?, hn]) fun g E => updateGroup_agrees E g
  · obtain ⟨f, hf, h⟩ := bind_eq_ok h
    obtain ⟨id, hid, h⟩ := bind_eq_ok h
    cases h
    refine ⟨.newFungible f id, ?_, fun E => newFungible_agrees E f id⟩
    rw [Change.of?, hn]
    simp [payload_eq_ok hf, hid, Except.toOption]
  · exact does_of_payload _ h (by simp only [Change.of?, hn]) fun f E => updateFungible_agrees E f
  · obtain ⟨m, hm, h⟩ := bind_eq_ok h
    obtain ⟨x, hx, h⟩ := bind_eq_ok h
    obtain ⟨t, ht, rfl⟩ := metaTarget_eq_ok hx
    cases h
    refine ⟨.addMeta m t, ?_, fun E => addMeta_agrees E m t⟩
    rw [Change.of?, hn]
    simp [payload_eq_ok hm, ht]

theorem change_of_unruled {a : Action} (h : rule? a.name = none) : Change.of? a = none := by
  unfold Change.of?
  split
  case h_11 => rfl
  all_goals
    rename_i hn
    rw [hn] at h
    cases h

end ChainArchive.Entity
