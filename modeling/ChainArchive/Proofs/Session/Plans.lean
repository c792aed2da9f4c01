import ChainArchive.Proofs.Session.Registering

namespace ChainArchive

open ChainArchive.Program

def Entry.registration? : Entry → Option String
  | .asked (.prepare p) (.ok _) => some p.name
  | _ => none

def registrations (es : List Entry) : List String := es.filterMap Entry.registration?

/-- The entry may follow where the statements in `known` are registered: a registration is of
another known statement, and what is run is one of those. -/
def Entry.Follows (statements : List Plan) (known : List String) : Entry → Prop
  | .asked (.prepare p) _ => Statement.find? statements p.name = some p ∧ p.name ∉ known
  | .asked (.run p _) _ => Statement.find? statements p.name = some p ∧ p.name ∈ known
  | _ => True

def InOrder (statements : List Plan) (known : List String) (es : List Entry) : Prop :=
  ∀ before e after, es = before ++ e :: after →
    e.Follows statements (known ++ registrations before)

section Entries

variable {statements : List Plan} {known : List String} {es fs : List Entry} {e : Entry}

theorem registrations_append (es fs : List Entry) :
    registrations (es ++ fs) = registrations es ++ registrations fs :=
  List.filterMap_append

theorem mem_registrations {name : String} (h : name ∈ registrations es) :
    ∃ p v, p.name = name ∧ Entry.asked (.prepare p) (.ok v) ∈ es := by
  obtain ⟨e, he, hname⟩ := List.mem_filterMap.mp h
  unfold Entry.registration? at hname
  split at hname
  · next p v => exact ⟨p, v, Option.some.inj hname, he⟩
  · cases hname

theorem InOrder.nil : InOrder statements known [] := by
  intro before e after h
  simp at h

theorem InOrder.snoc (h : InOrder statements known es)
    (he : e.Follows statements (known ++ registrations es)) :
    InOrder statements known (es ++ [e]) := by
  intro before e' after hsplit
  obtain rfl | ⟨after', last, rfl⟩ := List.eq_nil_or_concat after
  · obtain ⟨rfl, hlast⟩ := List.append_inj' hsplit rfl
    cases hlast
    exact he
  · rw [List.concat_eq_append, ← List.cons_append, ← List.append_assoc] at hsplit
    obtain ⟨rfl, -⟩ := List.append_inj' hsplit rfl
    exact h before e' after' rfl

theorem InOrder.tail (h : InOrder statements known (e :: es)) :
    InOrder statements (known ++ registrations [e]) es := by
  intro before e' after hsplit
  have he := h (e :: before) e' after (by rw [hsplit, List.cons_append])
  rwa [← List.singleton_append, registrations_append, ← List.append_assoc] at he

theorem InOrder.nodup (h : InOrder statements known es) :
    (registrations es).Nodup ∧ ∀ name ∈ registrations es, name ∉ known := by
  -- What is registered first is known to the entries after it, so `known` grows on the way.
  induction es generalizing known with
  | nil => exact ⟨List.nodup_nil, List.forall_mem_nil _⟩
  | cons e es ih =>
    obtain ⟨hnodup, hnew⟩ := ih h.tail
    have hfollows := h [] e es rfl
    cases hreg : e.registration? with
    | none =>
      have hnone : registrations (e :: es) = registrations es := by simp [registrations, hreg]
      rw [hnone]
      exact ⟨hnodup, fun n hn hk => hnew n hn (List.mem_append_left _ hk)⟩
    | some name =>
      have hone : registrations (e :: es) = name :: registrations es := by
        simp [registrations, hreg]
      have hname : name ∉ known := by
        unfold Entry.registration? at hreg
        split at hreg
        · cases hreg
          simpa [registrations] using hfollows.2
        · cases hreg
      have hlast : name ∈ registrations [e] := by simp [registrations, hreg]
      rw [hone, List.nodup_cons]
      refine ⟨⟨fun hm => hnew name hm (List.mem_append_right _ hlast), hnodup⟩, ?_⟩
      refine List.forall_mem_cons.mpr ⟨hname, fun n hn hk => ?_⟩
      exact hnew n hn (List.mem_append_left _ hk)

theorem InOrder.find?_of_mem {p : Plan} {reply : Reply} (h : InOrder statements known es)
    (hp : .asked (.prepare p) reply ∈ es) : Statement.find? statements p.name = some p := by
  obtain ⟨before, after, hsplit⟩ := List.append_of_mem hp
  exact (h before _ after hsplit).1

theorem InOrder.exists_find? {name : String} (h : InOrder statements known es)
    (hname : name ∈ registrations es) : ∃ p, Statement.find? statements name = some p := by
  obtain ⟨p, v, rfl, hp⟩ := mem_registrations hname
  exact ⟨p, h.find?_of_mem hp⟩

theorem InOrder.prepared_of_run {before after : List Entry} {p : Plan} {args : List Value}
    {reply : Reply} (h : InOrder statements [] es)
    (hsplit : es = before ++ .asked (.run p args) reply :: after) :
    ∃ v, Entry.asked (.prepare p) (.ok v) ∈ before := by
  obtain ⟨hfind, hmem⟩ := h before _ after hsplit
  rw [List.nil_append] at hmem
  obtain ⟨q, v, hname, hq⟩ := mem_registrations hmem
  -- The registration is of the statement with that name, which is the one that is run.
  have hprepare := h.find?_of_mem (hsplit ▸ List.mem_append_left _ hq)
  rw [hname, hfind] at hprepare
  cases hprepare
  exact ⟨v, hq⟩

end Entries

namespace Link

variable {σ : Type} [Server σ] {α : Type}

/-- One link goes on to another by entries in order, and holds what they register. -/
structure Traced (l : Link σ) (es : List Entry) (m : Link σ) : Prop where
  sends : Sends l es m
  registered_eq : m.session.registered = l.session.registered ++ registrations es
  inOrder : InOrder l.session.statements l.session.registered es

def TracedFrom (l m : Link σ) : Prop := ∃ es, Traced l es m

variable {l m : Link σ} {es : List Entry} {name : String} {p : Plan}

theorem Traced.refl (l : Link σ) : Traced l [] l :=
  ⟨.refl l, (List.append_nil _).symm, .nil⟩

theorem Traced.statements_eq (h : Traced l es m) : m.session.statements = l.session.statements :=
  h.sends.statements_eq

theorem Traced.mem_registrations_iff (h : Traced l es m) (hall : m.AllRegistered) (name : String) :
    name ∈ registrations es ↔
      name ∉ l.session.registered ∧ ∃ p ∈ l.session.statements, p.name = name := by
  constructor
  · intro hname
    obtain ⟨p, hp⟩ := h.inOrder.exists_find? hname
    exact ⟨h.inOrder.nodup.2 name hname, p, List.mem_of_find?_eq_some hp,
      Statement.name_of_find? hp⟩
  · rintro ⟨hname, p, hp, rfl⟩
    have hmem := hall p (h.statements_eq ▸ hp)
    rw [h.registered_eq] at hmem
    exact (List.mem_append.mp hmem).resolve_left hname

theorem Traced.snoc {n : Link σ} {e : Entry} (h : Traced l es m) (hs : Sends l (es ++ [e]) n)
    (hn : n.session.registered = m.session.registered) (hnone : e.registration? = none)
    (he : e.Follows m.session.statements m.session.registered) : Traced l (es ++ [e]) n := by
  have hsame : registrations (es ++ [e]) = registrations es := by simp [registrations, hnone]
  refine ⟨hs, by rw [hn, hsame, h.registered_eq], h.inOrder.snoc ?_⟩
  rwa [← h.registered_eq, ← h.statements_eq]

theorem Traced.mark (h : Traced l es m) (k : Mark) (hc : m.session.connection ≠ .released) :
    Traced l (es ++ [.marked k]) (m.mark k) :=
  h.snoc (h.sends.mark k hc) rfl rfl trivial

theorem Traced.ask (h : Traced l es m) {r : Request}
    (hr : ∀ reply, (Entry.asked r reply).registration? = none ∧
      (Entry.asked r reply).Follows m.session.statements m.session.registered) :
    TracedFrom l ((Link.ask r).runFrom m).2 := by
  by_cases hc : m.session.connection = .released
  · rw [runFrom_ask_released r hc]
    exact ⟨es, h⟩
  · obtain ⟨hnone, hfollows⟩ := hr (m.line.ask r).1
    rw [runFrom_ask_connected r hc]
    exact ⟨_, h.snoc (h.sends.ask r hc) rfl hnone hfollows⟩

theorem Traced.plan (h : Traced l es m) (name : String) :
    TracedFrom l ((Link.plan name).runFrom m).2 := by
  cases hf : Statement.find? m.session.statements name with
  | none =>
    rw [runFrom_plan_unknown hf]
    exact ⟨es, h⟩
  | some p =>
    cases hr : m.session.isRegistered name with
    | true =>
      rw [runFrom_plan_registered hf hr]
      exact ⟨es, h⟩
    | false =>
      by_cases hc : m.session.connection = .released
      · rw [runFrom_plan_released hf hr hc]
        exact ⟨es, h⟩
      · have hname : p.name = name := Statement.name_of_find? hf
        have hfollows (reply : Reply) : (Entry.asked (.prepare p) reply).Follows
            m.session.statements m.session.registered :=
          ⟨hname ▸ hf, hname ▸ Session.isRegistered_eq_false.mp hr⟩
        have hsends := h.sends.ask (.prepare p) hc
        rw [runFrom_plan_unregistered hf hr hc]
        refine ⟨es ++ [.asked (.prepare p) (m.line.ask (.prepare p)).1], ?_⟩
        cases hreply : (m.line.ask (.prepare p)).1 with
        | error e =>
          rw [hreply] at hsends
          exact h.snoc hsends rfl rfl (hfollows (.error e))
        | ok v =>
          rw [hreply] at hsends
          have horder := h.inOrder.snoc (e := .asked (.prepare p) (.ok v)) (by
            rw [← h.registered_eq, ← h.statements_eq]
            exact hfollows (.ok v))
          refine ⟨.register name hsends, ?_, horder⟩
          simp [registrations, Entry.registration?, h.registered_eq, hname]

theorem Traced.run (h : Traced l es m) (name : String) (args : List Value) :
    TracedFrom l ((Link.run name args).runFrom m).2 := by
  have hplanned := h.plan name
  unfold Link.run
  rw [runFrom_bind]
  cases hp : (Link.plan name).runFrom m with
  | mk r m' =>
    rw [hp] at hplanned
    cases r with
    | error e => exact hplanned
    | ok p =>
      obtain ⟨fs, h'⟩ := hplanned
      obtain ⟨hfind, hmem⟩ := plan_registers hp
      have hname : p.name = name := Statement.name_of_find? hfind
      have hstatements : m'.session.statements = m.session.statements :=
        h'.statements_eq.trans h.statements_eq.symm
      have hasked := h'.ask (r := .run p args) fun reply =>
        ⟨rfl, by rw [hname, hstatements]; exact hfind, hname ▸ hmem⟩
      change TracedFrom l ((passing (.run p args)).runFrom m').2
      rwa [runFrom_passing_snd]

theorem inTransaction_traced {q : Program (Link σ) α} (hq : Maintains (TracedFrom l) q) :
    Maintains (TracedFrom l) (inTransaction q) := by
  rintro m ⟨es, h⟩
  by_cases hc : m.session.connection = .released
  · have hrun : (inTransaction q).runFrom m = (.error .noConnection, m) := by
      simp only [inTransaction, runFrom_of, hc]
    rw [hrun]
    exact ⟨es, h⟩
  · obtain ⟨fs, h'⟩ := hq (m.mark .start) ⟨_, h.mark .start hc⟩
    have hc' : (q.runFrom (m.mark .start)).2.session.connection ≠ .released := by
      have hterms := congrArg Terms.connection (h'.sends.terms_eq.trans h.sends.terms_eq.symm)
      exact fun hr => hc (hterms.symm.trans hr)
    simp only [inTransaction, runFrom_of]
    cases hr : q.runFrom (m.mark .start) with
    | mk r n =>
      rw [hr] at h' hc'
      cases r with
      | ok x => exact ⟨_, h'.mark .commit hc'⟩
      | error e => exact ⟨_, h'.mark .rollback hc'⟩

theorem traced_of_composed {writes : String → List Value → Prop} {q : Program (Link σ) α}
    (hq : Composed writes q) (l : Link σ) : TracedFrom l (q.runFrom l).2 := by
  refine hq.maintains_of_uses (P := TracedFrom l) ?_ ?_ ?_ inTransaction_traced l ⟨[], .refl l⟩
  · rintro r hp hr m ⟨es, h⟩
    refine h.ask fun reply => ?_
    cases r with
    | prepare q => exact absurd rfl (hp q)
    | run q args => exact absurd rfl (hr q args)
    | connect | execute | fetchValue | fetchRow | fetchAll | copy => exact ⟨rfl, trivial⟩
  · rintro name m ⟨es, h⟩
    exact h.plan name
  · rintro name args m ⟨es, h⟩
    exact h.run name args

/-- A use of the statements of a session. -/
inductive Use where
  | plan (name : String)
  | run (name : String) (args : List Value)
  | planAll

def Use.program : Use → Program (Link σ) Unit
  | .plan name => do
    let _ ← Link.plan name
    return
  | .run name args => do
    let _ ← Link.run name args
    return
  | .planAll => Link.planAll

def useAll (us : List Use) (l : Link σ) : Link σ :=
  us.foldl (fun l u => (u.program.runFrom l).2) l

theorem Traced.planEach (h : Traced l es m) (names : List String) :
    TracedFrom l ((Link.planEach names).runFrom m).2 := by
  induction names generalizing es m with
  | nil => exact ⟨es, h⟩
  | cons name names ih =>
    have hplanned := h.plan name
    rw [Link.planEach, runFrom_bind]
    cases hp : (Link.plan name).runFrom m with
    | mk r n =>
      rw [hp] at hplanned
      cases r with
      | error e => exact hplanned
      | ok p =>
        obtain ⟨fs, h'⟩ := hplanned
        exact ih h'

theorem Traced.use (h : Traced l es m) (u : Use) : TracedFrom l (u.program.runFrom m).2 := by
  cases u with
  | plan name =>
    rw [Use.program, runFrom_bind_pure]
    exact h.plan name
  | run name args =>
    rw [Use.program, runFrom_bind_pure]
    exact h.run name args
  | planAll => exact h.planEach _

theorem useAll_traced (us : List Use) (l : Link σ) : TracedFrom l (useAll us l) := by
  suffices hfrom : ∀ m, TracedFrom l m → TracedFrom l (useAll us m) from hfrom l ⟨[], .refl l⟩
  induction us with
  | nil => exact fun _ h => h
  | cons u us ih =>
    rintro m ⟨es, h⟩
    exact ih _ (h.use u)

theorem session_of_plan_error {f : Failure} (hf : Statement.find? l.session.statements name = some p)
    (h : (plan name).runFrom l = (.error f, m)) :
    m.session = l.session ∧ l.session.isRegistered name = false := by
  cases hr : l.session.isRegistered name with
  | true =>
    rw [runFrom_plan_registered hf hr] at h
    cases h
  | false =>
    by_cases hc : l.session.connection = .released
    · rw [runFrom_plan_released hf hr hc] at h
      cases h
      exact ⟨rfl, rfl⟩
    · rw [runFrom_plan_unregistered hf hr hc] at h
      split at h
      · cases h
      · cases h
        exact ⟨rfl, rfl⟩

theorem planEach_stops {names : List String} {f : Failure}
    (hknown : ∀ n ∈ names, ∃ p, Statement.find? l.session.statements n = some p)
    (h : (planEach names).runFrom l = (.error f, m)) :
    ∃ done name rest, names = done ++ name :: rest ∧
      (∀ n ∈ done, m.session.isRegistered n = true) ∧ m.session.isRegistered name = false := by
  induction names generalizing l with
  | nil => cases h
  | cons name names ih =>
    rw [planEach, runFrom_bind] at h
    split at h
    · next p l' hplan =>
      obtain ⟨es, hs⟩ := (Traced.refl l).plan name
      rw [hplan] at hs
      obtain ⟨fs, hs'⟩ := (Traced.refl l').planEach names
      rw [h] at hs'
      obtain ⟨done, stop, rest, rfl, hdone, hstop⟩ := ih (fun n hn => by
        rw [hs.statements_eq]
        exact hknown n (List.mem_cons_of_mem _ hn)) h
      refine ⟨name :: done, stop, rest, rfl, List.forall_mem_cons.mpr ⟨?_, hdone⟩, hstop⟩
      -- No later registration is able to undo this one.
      have hname := (plan_registers hplan).2
      exact Session.isRegistered_eq_true.mpr (hs'.sends.registered_subset hname)
    · next f' l' hplan =>
      cases h
      obtain ⟨p, hp⟩ := hknown name List.mem_cons_self
      obtain ⟨hsession, hr⟩ := session_of_plan_error hp hplan
      exact ⟨[], name, names, rfl, List.forall_mem_nil _, hsession ▸ hr⟩

/-- Registering all statements stops at the first that fails; nothing is forgotten. -/
theorem planAll_stops {f : Failure} (h : planAll.runFrom l = (.error f, m)) :
    ∃ done name rest, l.session.statements.map (·.name) = done ++ name :: rest ∧
      (∀ n ∈ done, m.session.isRegistered n = true) ∧ m.session.isRegistered name = false ∧
      ∀ n, l.session.isRegistered n = true → m.session.isRegistered n = true := by
  have heach : (planEach (l.session.statements.map (·.name))).runFrom l = (.error f, m) := h
  obtain ⟨done, name, rest, hsplit, hdone, hstop⟩ := planEach_stops (fun n hn => by
    obtain ⟨p, hp, rfl⟩ := List.mem_map.mp hn
    exact Statement.exists_find?_of_mem hp) heach
  refine ⟨done, name, rest, hsplit, hdone, hstop, fun n hn => ?_⟩
  obtain ⟨es, hs⟩ := (Traced.refl l).planEach (l.session.statements.map (·.name))
  rw [heach] at hs
  rw [Session.isRegistered_eq_true] at hn ⊢
  exact hs.sends.registered_subset hn

theorem isRegistered_close (hc : l.session.connection ≠ .released) (name : String) :
    l.close.session.isRegistered name = false := by
  have hclosed : l.close.session.registered = [] := by
    unfold close
    split
    · next h => exact absurd h hc
    · rfl
  rw [Session.isRegistered_eq_false, hclosed]
  exact List.not_mem_nil

/-- In every sequence of uses of a new session, whatever the server answers and whichever of them
fail: no statement is registered twice, it is sent for registration only while it is not registered,
and run only after it was; and registered are just the statements whose registration was accepted.
An unknown statement is refused without a request, and one that is known and not registered is sent
for registration at each use, until it is accepted. Registering all of them stops at the first that
fails and keeps those before it. Closing the session forgets all registrations. -/
theorem registered_once (ps : List Plan) (line : Line σ) (us : List Use) :
    let l := useAll us ⟨.ofStatements ps, line⟩
    ∃ es, l.line.log = line.log ++ es ∧
      (registrations es).Nodup ∧
      (∀ before p reply after, es = before ++ .asked (.prepare p) reply :: after →
        Statement.find? ps p.name = some p ∧ p.name ∉ registrations before) ∧
      (∀ before p args reply after, es = before ++ .asked (.run p args) reply :: after →
        ∃ v, Entry.asked (.prepare p) (.ok v) ∈ before) ∧
      (∀ name, l.session.isRegistered name = true ↔ name ∈ registrations es) ∧
      (∀ name args, Statement.find? ps name = none →
        l.session.isRegistered name = false ∧
        (plan name).runFrom l = (.error (.register name none), l) ∧
        (run name args).runFrom l = (.error (.register name none), l)) ∧
      (∀ name args p, Statement.find? ps name = some p → l.session.isRegistered name = false →
        let asked := { l with line := (l.line.ask (.prepare p)).2 }
        match (l.line.ask (.prepare p)).1 with
        | .ok _ =>
          let ready :=
            { asked with session.registered := l.session.registered ++ [name] }
          (plan name).runFrom l = (.ok p, ready) ∧
          (run name args).runFrom l = (passing (.run p args)).runFrom ready
        | .error e =>
          (plan name).runFrom l = (.error (registrationFailure name e), asked) ∧
          (run name args).runFrom l = (.error (registrationFailure name e), asked)) ∧
      (∀ f m, planAll.runFrom l = (.error f, m) → ∃ done name rest,
        ps.map (·.name) = done ++ name :: rest ∧
        (∀ n ∈ done, m.session.isRegistered n = true) ∧ m.session.isRegistered name = false ∧
        ∀ n, l.session.isRegistered n = true → m.session.isRegistered n = true) ∧
      ∀ name, l.close.session.isRegistered name = false := by
  intro l
  -- All that the uses leave in the session can be read off their entries.
  obtain ⟨es, h⟩ : TracedFrom _ l := useAll_traced us ⟨.ofStatements ps, line⟩
  have hstatements : l.session.statements = ps := h.statements_eq
  have hregistered : l.session.registered = registrations es := h.registered_eq
  have hconnection : l.session.connection ≠ .released := by
    rw [show l.session.connection = .live from congrArg Terms.connection h.sends.terms_eq]
    decide
  have horder : InOrder ps [] es := h.inOrder
  refine ⟨es, h.sends.log_eq, ?_, ?_, ?_, ?_, ?_, ?_, ?_, ?_⟩
  · exact horder.nodup.1
  · intro before p reply after hsplit
    exact horder before _ after hsplit
  · intro before p args reply after hsplit
    exact horder.prepared_of_run hsplit
  · intro name
    rw [Session.isRegistered_eq_true, hregistered]
  · intro name args hf
    rw [← hstatements] at hf
    have hplan := runFrom_plan_unknown hf
    refine ⟨?_, hplan, runFrom_bind_error hplan _⟩
    -- An unknown statement is never sent for registration.
    rw [Session.isRegistered_eq_false, hregistered]
    intro hmem
    obtain ⟨p, hp⟩ := horder.exists_find? hmem
    rw [← hstatements, hf] at hp
    cases hp
  · intro name args p hf hr
    rw [← hstatements] at hf
    have hplan := runFrom_plan_unregistered hf hr hconnection
    cases hreply : (l.line.ask (.prepare p)).1 with
    | ok v =>
      rw [hreply] at hplan
      exact ⟨hplan, runFrom_bind_ok hplan _⟩
    | error e =>
      rw [hreply] at hplan
      exact ⟨hplan, runFrom_bind_error hplan _⟩
  · intro f m hall
    rw [← hstatements]
    exact planAll_stops hall
  · exact isRegistered_close hconnection

end Link

end ChainArchive
