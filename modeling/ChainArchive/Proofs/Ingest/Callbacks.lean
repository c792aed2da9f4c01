import ChainArchive.Proofs.Ingest.Commit

namespace ChainArchive.Ingest

open ChainArchive.Record

def bare (t : Transaction) : Transaction := { t with actions := [] }

def called (ts : List Transaction) : List Addition := ts.map (.transaction · none)

def singly (trxId : String) : List Action → (n : Nat) → List Addition
  | [], _ => []
  | a :: as, n => .action trxId a n :: singly trxId as (n + 1)

def parted (ts : List Transaction) : List Addition :=
  ts.flatMap fun t => .transaction (bare t) none :: singly t.trxId t.actions 0

def Delivered.Renders (x : Delivered) : Prop := ∃ calls, render x.action = .ok calls

/-- The same actions are delivered, of transactions that are numbered alike and are the same apart
from what they carry. -/
structure SameRecords (xs ys : List Addition) : Prop where
  deliveries_eq : deliveries xs = deliveries ys
  numbered_eq : (numbered xs 0).map (fun p => (bare p.1, p.2)) =
    (numbered ys 0).map fun p => (bare p.1, p.2)

theorem SameRecords.refl (xs : List Addition) : SameRecords xs xs := ⟨rfl, rfl⟩

theorem SameRecords.trans {xs ys zs : List Addition} (h : SameRecords xs ys)
    (h' : SameRecords ys zs) : SameRecords xs zs :=
  ⟨h.deliveries_eq.trans h'.deliveries_eq, h.numbered_eq.trans h'.numbered_eq⟩

theorem deliveries_listed (ts : List Transaction) (n : Nat) :
    deliveries (listed ts n) = deliveries (called ts) := by
  induction ts generalizing n with
  | nil => rfl
  | cons t ts ih => exact congrArg (carried t.trxId t.actions 0 ++ ·) (ih (n + 1))

theorem numbered_listed (ts : List Transaction) (n : Nat) :
    numbered (listed ts n) n = numbered (called ts) n := by
  induction ts generalizing n with
  | nil => rfl
  | cons t ts ih => exact congrArg ((t, (n : Int)) :: ·) (ih (n + 1))

theorem listed_called (ts : List Transaction) : SameRecords (listed ts 0) (called ts) :=
  ⟨deliveries_listed ts 0, by rw [numbered_listed]⟩

theorem deliveries_singly (trxId : String) (as : List Action) (n : Nat) :
    deliveries (singly trxId as n) = carried trxId as n := by
  induction as generalizing n with
  | nil => rfl
  | cons a as ih => exact congrArg (⟨trxId, a, n⟩ :: ·) (ih (n + 1))

theorem numbered_singly (trxId : String) (as : List Action) (n k : Nat) :
    numbered (singly trxId as n) k = [] := by
  induction as generalizing n with
  | nil => rfl
  | cons a as ih => exact ih (n + 1)

theorem deliveries_append (xs ys : List Addition) :
    deliveries (xs ++ ys) = deliveries xs ++ deliveries ys :=
  List.flatMap_append ..

theorem deliveries_parted (ts : List Transaction) :
    deliveries (parted ts) = deliveries (called ts) := by
  induction ts with
  | nil => rfl
  | cons t ts ih =>
    have hsplit : parted (t :: ts) =
        [.transaction (bare t) none] ++ (singly t.trxId t.actions 0 ++ parted ts) := by
      simp [parted]
    rw [hsplit, deliveries_append, deliveries_append, deliveries_singly, ih]
    rfl

theorem numbered_parted (ts : List Transaction) (n : Nat) :
    numbered (parted ts) n = (numbered (called ts) n).map fun p => (bare p.1, p.2) := by
  induction ts generalizing n with
  | nil => rfl
  | cons t ts ih =>
    have hsplit : parted (t :: ts) =
        [.transaction (bare t) none] ++ (singly t.trxId t.actions 0 ++ parted ts) := by
      simp [parted]
    rw [hsplit, numbered_append, numbered_append, numbered_singly, List.nil_append, ih]
    rfl

theorem called_parted (ts : List Transaction) : SameRecords (called ts) (parted ts) := by
  refine ⟨(deliveries_parted ts).symm, ?_⟩
  rw [numbered_parted, List.map_map]
  rfl

/-- Either everything can be rendered, or there is a first action that cannot. -/
theorem renders_or_first (zs : List Delivered) : (∀ z ∈ zs, z.Renders) ∨
    ∃ D x E f, zs = D ++ x :: E ∧ (∀ z ∈ D, z.Renders) ∧ render x.action = .error f := by
  induction zs with
  | nil => exact .inl (by simp)
  | cons z zs ih =>
    cases hz : render z.action with
    | error f => exact .inr ⟨[], z, zs, f, rfl, by simp, hz⟩
    | ok calls =>
      have hren : z.Renders := ⟨calls, hz⟩
      obtain h | ⟨D, x, E, f, rfl, hD, hx⟩ := ih
      · exact .inl (List.forall_mem_cons.mpr ⟨hren, h⟩)
      · exact .inr ⟨z :: D, x, E, f, rfl, List.forall_mem_cons.mpr ⟨hren, hD⟩, hx⟩

namespace Draft

theorem addAction_of_renders {d : Draft} {x : Delivered} (hd : d.discarded = false)
    (hx : x.Renders) : d.addAction x.trxId x.action x.seqNum = (.ok (), d.extend x) := by
  obtain ⟨calls, hr⟩ := hx
  obtain ⟨ht, -⟩ | ⟨-, e, he, -⟩ | ⟨-, -, ho⟩ := addAction_cases d x.trxId x.action x.seqNum
  · simp [hd] at ht
  · simp [hr] at he
  · exact ho

theorem addAction_of_error {d : Draft} {x : Delivered} {f : Failure} (hd : d.discarded = false)
    (hx : render x.action = .error f) :
    d.addAction x.trxId x.action x.seqNum = (.error f, d.discard) := by
  obtain ⟨ht, -⟩ | ⟨-, e, he, ho⟩ | ⟨-, ⟨calls, hr⟩, -⟩ :=
    addAction_cases d x.trxId x.action x.seqNum
  · simp [hd] at ht
  · cases hx.symm.trans he
    exact ho
  · simp [hx] at hr

theorem addActions_of_renders {d : Draft} (hd : d.discarded = false) (trxId : String)
    (as : List Action) (n : Nat) (h : ∀ z ∈ carried trxId as n, z.Renders) :
    (d.addActions trxId as n).1 = .ok () := by
  induction as generalizing d n with
  | nil => rfl
  | cons a as ih =>
    obtain ⟨ha, has⟩ := List.forall_mem_cons.mp h
    have hfirst := addAction_of_renders (x := ⟨trxId, a, n⟩) hd ha
    simp only [addActions, hfirst]
    exact ih (d := d.extend ⟨trxId, a, n⟩) hd (n + 1) has

theorem addActions_of_error {d : Draft} (hd : d.discarded = false) (trxId : String)
    (as : List Action) (n : Nat) {D E : List Delivered} {x : Delivered} {f : Failure}
    (h : carried trxId as n = D ++ x :: E) (hD : ∀ z ∈ D, z.Renders)
    (hx : render x.action = .error f) : (d.addActions trxId as n).1 = .error f := by
  induction as generalizing d n D with
  | nil => cases D <;> cases h
  | cons a as ih =>
    cases D with
    | nil =>
      obtain ⟨rfl, -⟩ := List.cons.inj h
      have hfirst := addAction_of_error (x := ⟨trxId, a, n⟩) hd hx
      simp only [addActions, hfirst]
    | cons z D =>
      obtain ⟨rfl, hrest⟩ := List.cons.inj h
      obtain ⟨ha, hD⟩ := List.forall_mem_cons.mp hD
      have hfirst := addAction_of_renders (x := ⟨trxId, a, n⟩) hd ha
      simp only [addActions, hfirst]
      exact ih (d := d.extend ⟨trxId, a, n⟩) hd (n + 1) hrest hD

theorem takeUp_of_renders {d : Draft} {y : Addition} (hd : d.discarded = false)
    (h : ∀ z ∈ y.delivered, z.Renders) : (d.takeUp y).1 = .ok () := by
  cases y with
  | transaction t n =>
    rw [takeUp, addTransaction_eq hd]
    exact addActions_of_renders (d := d.enlist t n) hd t.trxId t.actions 0 h
  | action trxId a n =>
    have ha : Delivered.Renders ⟨trxId, a, n⟩ := h ⟨trxId, a, n⟩ (by simp [Addition.delivered])
    exact congrArg Prod.fst (addAction_of_renders hd ha)

theorem takeUp_of_error {d : Draft} {y : Addition} (hd : d.discarded = false)
    {D E : List Delivered} {x : Delivered} {f : Failure} (h : y.delivered = D ++ x :: E)
    (hD : ∀ z ∈ D, z.Renders) (hx : render x.action = .error f) : (d.takeUp y).1 = .error f := by
  cases y with
  | transaction t n =>
    rw [takeUp, addTransaction_eq hd]
    exact addActions_of_error (d := d.enlist t n) hd t.trxId t.actions 0 h hD hx
  | action trxId a n =>
    have hone : D = [] ∧ x = ⟨trxId, a, n⟩ := by
      cases D with
      | nil => exact ⟨rfl, (List.cons.inj h).1.symm⟩
      | cons z D => simp [Addition.delivered] at h
    obtain ⟨rfl, rfl⟩ := hone
    exact congrArg Prod.fst (addAction_of_error hd hx)

theorem discarded_takeUp {d : Draft} (hd : d.discarded = false) (y : Addition) :
    (d.takeUp y).2.discarded = !(d.takeUp y).1.isOk := by
  cases y with
  | transaction t n =>
    rw [takeUp, addTransaction_eq hd]
    exact discarded_addActions (d := d.enlist t n) hd t.trxId t.actions 0
  | action trxId a n =>
    rw [takeUp]
    obtain ⟨ht, -⟩ | ⟨-, e, -, he⟩ | ⟨-, -, ho⟩ := addAction_cases d trxId a n
    · simp [hd] at ht
    · rw [he]
      exact d.discarded_discard
    · rw [ho]
      exact hd

end Draft

namespace Pipeline

variable {p : Pipeline} {id : DraftId} {d : Draft}

theorem takeUp_of_renders {y : Addition} (hp : p.draft? id = some d) (hd : d.discarded = false)
    (h : ∀ z ∈ y.delivered, z.Renders) : ∃ d', d'.discarded = false ∧
      p.takeUp id y = (.ok (), p.setDraft id d') := by
  have hr := Draft.takeUp_of_renders hd h
  have hlive : (d.takeUp y).2.discarded = false := by
    rw [Draft.discarded_takeUp hd, hr]
    rfl
  refine ⟨(d.takeUp y).2, hlive, ?_⟩
  rw [takeUp_eq, onDraft, hp]
  dsimp only
  rw [hlive, hr]
  rfl

theorem takeUp_of_error {y : Addition} (hp : p.draft? id = some d) (hd : d.discarded = false)
    {D E : List Delivered} {x : Delivered} {f : Failure} (h : y.delivered = D ++ x :: E)
    (hD : ∀ z ∈ D, z.Renders) (hx : render x.action = .error f) :
    ∃ q, p.takeUp id y = (.error f, q) ∧ q.current ≠ some id := by
  have hr := Draft.takeUp_of_error hd h hD hx
  have hgone : (d.takeUp y).2.discarded = true := by
    rw [Draft.discarded_takeUp hd, hr]
    rfl
  refine ⟨(p.setDraft id (d.takeUp y).2).release id, ?_, release_ne _ id⟩
  rw [takeUp_eq, onDraft, hp]
  dsimp only
  rw [hgone, hd, hr]
  rfl

theorem takeUpAll_of_renders {xs : List Addition} (hp : p.draft? id = some d)
    (hd : d.discarded = false) (h : ∀ z ∈ deliveries xs, z.Renders) :
    ∃ d', d'.discarded = false ∧ p.takeUpAll id xs = (.ok (), p.setDraft id d') := by
  induction xs generalizing p d with
  | nil => exact ⟨d, hd, by rw [takeUpAll, setDraft_self hp]⟩
  | cons y xs ih =>
    rw [show y :: xs = [y] ++ xs from rfl, deliveries_append, List.forall_mem_append] at h
    obtain ⟨d₁, hd₁, hy⟩ := takeUp_of_renders hp hd (by simpa [deliveries] using h.1)
    obtain ⟨d', hd', hxs⟩ := ih (draft?_setDraft_self hp) hd₁ h.2
    refine ⟨d', hd', ?_⟩
    simp only [takeUpAll, hy, hxs]
    rw [Intake.setDraft_setDraft]

/-- Given one after another, records fail with the call that delivers `x` after `D`. -/
def FailsAt (p : Pipeline) (id : DraftId) (xs : List Addition) (D : List Delivered)
    (x : Delivered) (f : Failure) : Prop :=
  ∃ done y rest before after q q', xs = done ++ y :: rest ∧ y.delivered = before ++ x :: after ∧
    D = deliveries done ++ before ∧ p.takeUpAll id done = (.ok (), q) ∧
    q.takeUp id y = (.error f, q')

theorem FailsAt.cons {q : Pipeline} {y : Addition} {xs : List Addition} {D : List Delivered}
    {x : Delivered} {f : Failure} (h : q.FailsAt id xs D x f) (hy : p.takeUp id y = (.ok (), q)) :
    p.FailsAt id (y :: xs) (y.delivered ++ D) x f := by
  obtain ⟨done, z, rest, before, after, q, q', rfl, hz, rfl, hdone, hfail⟩ := h
  refine ⟨y :: done, z, rest, before, after, q, q', rfl, hz, ?_, ?_, hfail⟩
  · rw [← List.append_assoc]
    rfl
  · simp only [takeUpAll, hy, hdone]

theorem takeUpAll_of_error {xs : List Addition} (hp : p.draft? id = some d)
    (hd : d.discarded = false) {D E : List Delivered} {x : Delivered} {f : Failure}
    (h : deliveries xs = D ++ x :: E) (hD : ∀ z ∈ D, z.Renders) (hx : render x.action = .error f) :
    (∃ q, p.takeUpAll id xs = (.error f, q) ∧ q.current ≠ some id) ∧ p.FailsAt id xs D x f := by
  induction xs generalizing p d D with
  | nil => cases D <;> cases h
  | cons y xs ih =>
    -- The action is delivered after this record, or by it.
    have hwhere : (∃ D', D = y.delivered ++ D' ∧ deliveries xs = D' ++ x :: E) ∨
        ∃ after, y.delivered = D ++ x :: after := by
      obtain ⟨D', hD', hxs⟩ | ⟨after, hy, hxs⟩ := List.append_eq_append_iff.mp h
      · exact .inl ⟨D', hD', hxs⟩
      · cases after with
        | nil => exact .inl ⟨[], by simpa using hy.symm, hxs.symm⟩
        | cons z after =>
          obtain ⟨rfl, -⟩ := List.cons.inj hxs
          exact .inr ⟨after, hy⟩
    obtain ⟨D', rfl, hxs⟩ | ⟨after, hy⟩ := hwhere
    · obtain ⟨hy, hD'⟩ := List.forall_mem_append.mp hD
      obtain ⟨d', hd', hok⟩ := takeUp_of_renders hp hd hy
      obtain ⟨⟨q, hq, hc⟩, hfails⟩ := ih (draft?_setDraft_self hp) hd' hxs hD'
      exact ⟨⟨q, by simp only [takeUpAll, hok, hq], hc⟩, hfails.cons hok⟩
    · obtain ⟨q, hq, hc⟩ := takeUp_of_error hp hd hy hD hx
      refine ⟨⟨q, by simp only [takeUpAll, hq], hc⟩, ?_⟩
      exact ⟨[], y, xs, D, after, p, q, rfl, hy, rfl, rfl, hq⟩

/-- Transactions that are added at once are added one after another, with their numbers. -/
theorem onDraft_addTransactions (hp : p.draft? id = some d) (hd : d.discarded = false)
    (ts : List Transaction) (n : Nat) :
    p.onDraft id (·.addTransactions ts n) = p.takeUpAll id (listed ts n) := by
  induction ts generalizing p d n with
  | nil =>
    simp only [onDraft, hp, Draft.addTransactions, listed, takeUpAll, hd, setDraft_self hp]
    rfl
  | cons t ts ih =>
    obtain ⟨r, d', h⟩ : ∃ r d', d.addTransaction t (some n) = (r, d') := ⟨_, _, rfl⟩
    have hgone := Draft.discarded_takeUp hd (.transaction t (some n))
    simp only [listed, takeUpAll, takeUp_eq, onDraft, hp, Draft.addTransactions, Draft.takeUp, h]
      at hgone ⊢
    cases r with
    | error f => rfl
    | ok _ =>
      have hd' : d'.discarded = false := hgone
      have hp' : (p.setDraft id d').draft? id = some d' := draft?_setDraft_self hp
      simp only [hd', Bool.false_and, Bool.false_eq_true, ↓reduceIte]
      rw [← ih hp' hd' (n + 1), onDraft, hp']
      simp only [Intake.setDraft_setDraft, hd', hd]

end Pipeline

end ChainArchive.Ingest
