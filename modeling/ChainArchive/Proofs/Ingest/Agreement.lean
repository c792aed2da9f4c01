import ChainArchive.Proofs.Ingest.Callbacks
import ChainArchive.Proofs.Ingest.Rendering
import ChainArchive.Proofs.Session.Alike

namespace ChainArchive.Ingest

open ChainArchive.Copy ChainArchive.Link ChainArchive.Record

namespace Draft

theorem countedRow_bare (d : Draft) (p : Transaction × Int) :
    d.countedRow (bare p.1, p.2) = d.countedRow p := by
  have hrow : ∀ (t : Transaction) (n c : Int), transactionRow d.block (bare t) n (some c) =
      transactionRow d.block t n (some c) := by
    intro t n c
    have hcount : (t.actionCount <|> some c).getD (bare t).actions.length =
        (t.actionCount <|> some c).getD t.actions.length := by
      cases t.actionCount <;> rfl
    simp only [transactionRow, bare] at hcount ⊢
    rw [hcount]
  exact congrArg encodeRow (hrow p.1 p.2 _)

theorem Holds.flushed_eq {d e : Draft} {b : Block} {xs ys : List Addition} (h : d.Holds b xs)
    (h' : e.Holds b ys) (hxy : SameRecords xs ys) : d.flushed = e.flushed := by
  have hdel : d.delivered = e.delivered := by
    rw [h.delivered_eq, h'.delivered_eq, hxy.deliveries_eq]
  have hcount : d.trxCount = e.trxCount := by
    rw [h.trxCount_eq, h'.trxCount_eq]
    simpa using congrArg List.length hxy.numbered_eq
  have hrow : d.countedRow = e.countedRow := by
    funext p
    simp only [countedRow, actionsOf, hdel, h.block_eq, h'.block_eq]
  have hpending : d.pending.map d.countedRow = e.pending.map e.countedRow := by
    have hbare := congrArg (List.map d.countedRow) hxy.numbered_eq
    simp only [List.map_map, Function.comp_def, countedRow_bare] at hbare
    rw [h.pending_eq, h'.pending_eq, ← hrow]
    exact hbare
  have hrows : d.flushed.rows = e.flushed.rows := by
    refine congrArg RowBuffer.mk (funext fun u => ?_)
    cases u with
    | blocks => simp only [h.blocks_eq, h'.blocks_eq, h.block_eq, h'.block_eq, hcount]
    | transactions => simp only [h.transactions_eq, h'.transactions_eq, hpending]
    | actions => simp only [h.actions_eq, h'.actions_eq, hxy.deliveries_eq]
  have hbatch : d.batch = e.batch := by rw [h.batch_eq, h'.batch_eq, hxy.deliveries_eq]
  simp only [flushed] at hrows ⊢
  rw [hrows, h.block_eq, h'.block_eq, hbatch, hcount, hdel, h.discarded_eq, h'.discarded_eq]

theorem Holds.batch_spared {d : Draft} {b : Block} {xs : List Addition} (h : d.Holds b xs) :
    Parallel.Spared "block_exists" d.flushed.advance.batch := by
  have hentity : "block_exists" ∉ entityPlans := by decide
  intro c hc
  obtain hc | hc := List.mem_append.mp hc
  · rw [show d.flushed.batch = d.batch from rfl, h.batch_eq] at hc
    obtain ⟨x, -, hx⟩ := List.mem_flatMap.mp hc
    obtain ⟨hplan, hnext⟩ := callsOf_onEntities x.action c hx
    exact ⟨fun e => hentity (e ▸ hplan), fun next hn e => hentity (e ▸ hnext next hn)⟩
  · cases List.mem_singleton.mp hc
    exact ⟨by simp, nofun⟩

end Draft

namespace Pipeline

/-- How the draft of a block fares with these records, in whatever way they are given. -/
inductive Fare (p : Pipeline) (b : Block) (xs : List Addition) : Prop
  | unopened {f : Failure} : p.beginBlock b = (.error f, p) → Fare p b xs
  | spoiled {id : DraftId} {q : Pipeline} {D : List Delivered} {x : Delivered} {f : Failure} :
      p.beginBlock b = (.ok id, q) → render x.action = .error f →
      (∀ ys, SameRecords xs ys → q.FailsAt id ys D x f ∧
        ∃ q', q.takeUpAll id ys = (.error f, q') ∧ q.Kept q' ∧ q'.current = none) → Fare p b xs
  | filled {id : DraftId} {q : Pipeline} : p.beginBlock b = (.ok id, q) →
      (∀ ys, SameRecords xs ys → ∃ d, q.takeUpAll id ys = (.ok (), q.setDraft id d) ∧
        (q.setDraft id d).Carries id b ys) → Fare p b xs

theorem fare (p : Pipeline) (b : Block) (xs : List Addition) : Fare p b xs := by
  cases hb : p.beginBlock b with
  | mk r q =>
    cases r with
    | error f =>
      cases beginBlock_error hb
      exact .unopened hb
    | ok id =>
      obtain ⟨-, -, -, -, rfl, rfl⟩ := beginBlock_eq_ok.mp hb
      have hp := p.draft?_opened b
      obtain hren | ⟨D, x, E, f, hxs, hD, hx⟩ := renders_or_first (deliveries xs)
      · refine .filled hb fun ys h => ?_
        obtain ⟨d, -, hd⟩ := takeUpAll_of_renders hp rfl (h.deliveries_eq ▸ hren)
        exact ⟨d, hd, by simpa using (p.carries_opened b).takeUpAll hd⟩
      · refine .spoiled (D := D) hb hx fun ys h => ?_
        obtain ⟨⟨q', hq, hc⟩, hfails⟩ :=
          takeUpAll_of_error hp rfl (h.deliveries_eq ▸ hxs) hD hx
        have hk := (p.opened b).takeUpAll_kept p.drafts.length ys
        rw [hq] at hk
        -- The draft was the open one, so the place is empty now.
        have hclosed : q'.current = none := by
          obtain he | he := hk.current_eq
          · exact absurd he hc
          · exact he
        exact ⟨hfails, q', hq, hk, hclosed⟩

end Pipeline

variable {σ : Type} [Server σ]

namespace Intake

def deliver (id : DraftId) : List Addition → Program (Intake σ) Unit
  | [] => return
  | x :: xs => do
    onPipeline (·.takeUp id x)
    deliver id xs

def callbacks (b : Block) (xs : List Addition) : Program (Intake σ) Unit := do
  let id ← onPipeline (·.beginBlock b)
  deliver id xs
  commit id

omit [Server σ] in
theorem deliver_runFrom (id : DraftId) (xs : List Addition) (s : Intake σ) :
    (deliver id xs).runFrom s =
      ((s.pipeline.takeUpAll id xs).1, { s with pipeline := (s.pipeline.takeUpAll id xs).2 }) := by
  induction xs generalizing s with
  | nil => rfl
  | cons x xs ih =>
    simp only [deliver, Program.runFrom_bind, onPipeline, Program.runFrom_of, Pipeline.takeUpAll]
    obtain ⟨r, q, h⟩ : ∃ r q, s.pipeline.takeUp id x = (r, q) := ⟨_, _, rfl⟩
    rw [h]
    cases r with
    | error f => rfl
    | ok _ => exact ih { s with pipeline := q }

theorem callbacks_of_opened {p q q' : Pipeline} {b : Block} {id : DraftId} {xs : List Addition}
    {r : Except Failure Unit} (hb : p.beginBlock b = (.ok id, q))
    (hx : q.takeUpAll id xs = (r, q')) (l : Link σ) :
    (callbacks b xs).runFrom ⟨p, l⟩ = match r with
      | .ok _ => (commit id).runFrom ⟨q', l⟩
      | .error f => (.error f, ⟨q', l⟩) := by
  have hbegin : (onPipeline (·.beginBlock b)).runFrom (⟨p, l⟩ : Intake σ) = (.ok id, ⟨q, l⟩) := by
    simp [onPipeline, hb]
  have hdeliver : (deliver id xs).runFrom (⟨q, l⟩ : Intake σ) = (r, ⟨q', l⟩) := by
    rw [deliver_runFrom, hx]
  rw [callbacks, Program.runFrom_bind_ok hbegin, Program.runFrom_bind, hdeliver]
  cases r <;> rfl

theorem callbacks_of_unopened {p : Pipeline} {b : Block} {f : Failure}
    (hb : p.beginBlock b = (.error f, p)) (xs : List Addition) (l : Link σ) :
    (callbacks b xs).runFrom ⟨p, l⟩ = (.error f, ⟨p, l⟩) := by
  have hbegin : (onPipeline (·.beginBlock b)).runFrom (⟨p, l⟩ : Intake σ) =
      (.error f, ⟨p, l⟩) := by
    simp [onPipeline, hb]
  rw [callbacks, Program.runFrom_bind_error hbegin]

theorem ingestBlock_runFrom {s : Intake σ} {b : Block} {l : Link σ}
    (hn : s.pipeline.lastSync ≠ some b.blockId)
    (hp : (Checkpoint.blockExists b.blockId).runFrom s.link = (.ok false, l)) :
    (ingestBlock b).runFrom s =
      (((callbacks b (listed b.transactions 0)).runFrom ⟨s.pipeline, l⟩).1.map fun _ => true,
        ((callbacks b (listed b.transactions 0)).runFrom ⟨s.pipeline, l⟩).2) := by
  have hprobe : (onLink (Checkpoint.blockExists b.blockId)).runFrom s =
      (.ok false, ⟨s.pipeline, l⟩) := by
    rw [onLink_runFrom, hp]
  have hrun : (ingestBlock b).runFrom s = (do
      let id ← onPipeline (·.beginBlock b)
      onPipeline fun p => p.onDraft id (·.addTransactions b.transactions 0)
      commit id
      return true : Program (Intake σ) Bool).runFrom ⟨s.pipeline, l⟩ := by
    rw [ingestBlock, Program.runFrom_bind, Program.runFrom_get]
    dsimp only
    rw [if_neg hn, Program.runFrom_bind_ok hprobe]
    rfl
  rw [hrun]
  cases hb : s.pipeline.beginBlock b with
  | mk r q =>
    have hbegin : (onPipeline (·.beginBlock b)).runFrom (⟨s.pipeline, l⟩ : Intake σ) =
        (r, ⟨q, l⟩) := by
      simp [onPipeline, hb]
    cases r with
    | error f =>
      cases Pipeline.beginBlock_error hb
      rw [Program.runFrom_bind_error hbegin, callbacks_of_unopened hb]
      rfl
    | ok id =>
      obtain ⟨-, -, -, -, rfl, rfl⟩ := Pipeline.beginBlock_eq_ok.mp hb
      obtain ⟨r, q', hx⟩ : ∃ r q', (s.pipeline.opened b).takeUpAll s.pipeline.drafts.length
          (listed b.transactions 0) = (r, q') := ⟨_, _, rfl⟩
      have hfill : (onPipeline fun p => p.onDraft s.pipeline.drafts.length
          (·.addTransactions b.transactions 0)).runFrom (⟨s.pipeline.opened b, l⟩ : Intake σ) =
            (r, ⟨q', l⟩) := by
        have hat := Pipeline.onDraft_addTransactions (s.pipeline.draft?_opened b) rfl
          b.transactions 0
        simp only [onPipeline, Program.runFrom_of, hat, hx]
      rw [Program.runFrom_bind_ok hbegin, Program.runFrom_bind, hfill, callbacks_of_opened hb hx]
      cases r with
      | error f => rfl
      | ok _ => exact Program.runFrom_bind_pure (commit _) (fun _ => true) ⟨q', l⟩

def sendFlushed (id : DraftId) (d : Draft) : Program (Intake σ) Unit := do
  let rows ← onLink d.rows.commit
  let d := { d with rows }
  update (·.setDraft id d)
  let batch ← onLink (Batch.commit d.batch)
  update (·.setDraft id { d with batch })

theorem commit_eq_flushed {p : Pipeline} {id : DraftId} {d : Draft} (hc : p.current = some id)
    (hid : p.draft? id = some d) (hd : d.discarded = false) (l : Link σ) :
    (commit id).runFrom ⟨p, l⟩ =
      (concluding d.block (sendFlushed id d.flushed.advance)).runFrom
        ⟨p.setDraft id d.flushed.advance, l⟩ := by
  have hflush : (Program.lift d.flush).runFrom (⟨p, l⟩ : Intake σ) = (.ok d.flushed, ⟨p, l⟩) := by
    rw [Program.runFrom_lift, Draft.flush_eq hd]
  have hsend : (send id d).runFrom (⟨p, l⟩ : Intake σ) =
      (sendFlushed id d.flushed.advance).runFrom ⟨p.setDraft id d.flushed.advance, l⟩ := by
    rw [send, Program.runFrom_bind_ok hflush]
    rfl
  rw [commit_eq hc hid, concluding_runFrom, concluding_runFrom, hsend]

def Together {α : Type} (R : σ → σ → Prop) (aside : String) (P : Program (Intake σ) α) : Prop :=
  ∀ p l m, Alike R aside l m → ∃ r es p' l' m', P.runFrom ⟨p, l⟩ = (r, ⟨p', l'⟩) ∧
    P.runFrom ⟨p, m⟩ = (r, ⟨p', m'⟩) ∧ GoAlike R aside l m es l' m'

namespace Together

variable {R : σ → σ → Prop} {aside : String} {α β : Type}

omit [Server σ] in
theorem onLink {P : Program (Link σ) α} (h : Parallel R aside P) :
    Together R aside (onLink P) := by
  intro p l m hlm
  obtain ⟨r, es, l', m', hl, hm, hgo⟩ := h l m hlm
  exact ⟨r, es, p, l', m', by rw [onLink_runFrom, hl], by rw [onLink_runFrom, hm], hgo⟩

omit [Server σ] in
theorem update (f : Pipeline → Pipeline) : Together (σ := σ) R aside (update f) :=
  fun p l m h => ⟨.ok (), [], f p, l, m, rfl, rfl, h.stay⟩

omit [Server σ] in
theorem bind {P : Program (Intake σ) α} {f : α → Program (Intake σ) β} (hP : Together R aside P)
    (hf : ∀ x, Together R aside (f x)) : Together R aside (P >>= f) := by
  intro p l m h
  obtain ⟨r, es, p', l', m', hl, hm, hgo⟩ := hP p l m h
  cases r with
  | error e =>
    exact ⟨.error e, es, p', l', m', Program.runFrom_bind_error hl f,
      Program.runFrom_bind_error hm f, hgo⟩
  | ok x =>
    obtain ⟨r, fs, q, n, o, hn, ho, hgo'⟩ := hf x p' l' m' hgo.alike
    refine ⟨r, es ++ fs, q, n, o, ?_, ?_, hgo.trans hgo'⟩
    · rw [Program.runFrom_bind_ok hl, hn]
    · rw [Program.runFrom_bind_ok hm, ho]

omit [Server σ] in
theorem concluding {P : Program (Intake σ) Unit} (hP : Together R aside P) (b : Block) :
    Together R aside (concluding b P) := by
  intro p l m h
  obtain ⟨r, es, p', l', m', hl, hm, hgo⟩ := hP p l m h
  refine ⟨r, es, concluded b r p', l', m', ?_, ?_, hgo⟩
  · rw [concluding_runFrom, hl]
  · rw [concluding_runFrom, hm]

theorem sendFlushed (hR : Bisimulation R) (id : DraftId) {d : Draft}
    (hd : Parallel.Spared aside d.batch) : Together R aside (sendFlushed (σ := σ) id d) :=
  (onLink (Parallel.transfer hR d.rows)).bind fun _ => (update _).bind fun _ =>
    (onLink (Parallel.commit hR hd)).bind fun _ => update _

end Together

/-- The pipelines go on from the same place: nothing is open, and they resume and halt alike. -/
structure SamePlace (p q : Pipeline) : Prop where
  lastSync_eq : p.lastSync = q.lastSync
  halted_eq : p.halted = q.halted
  started_eq : p.started = q.started
  left_closed : p.current = none
  right_closed : q.current = none

theorem commit_alike {R : σ → σ → Prop} (hR : Bisimulation R) {p : Pipeline} {id : DraftId}
    {b : Block} {d e : Draft} {xs ys : List Addition} (hd : (p.setDraft id d).Carries id b xs)
    (he : (p.setDraft id e).Carries id b ys) (hxy : SameRecords xs ys) {l m : Link σ}
    (hlm : Alike R "block_exists" l m) :
    ∃ r es q l' m', (commit id).runFrom ⟨p.setDraft id d, l⟩ = (r, ⟨q, l'⟩) ∧
      (commit id).runFrom ⟨p.setDraft id e, m⟩ = (r, ⟨q, m'⟩) ∧ q.current = none ∧
      GoAlike R "block_exists" l m es l' m' := by
  obtain ⟨hcd, d₁, hd₁, hhd⟩ := hd
  obtain ⟨hce, e₁, he₁, hhe⟩ := he
  have hflushed : d₁.flushed.advance = e₁.flushed.advance :=
    congrArg Draft.advance (hhd.flushed_eq hhe hxy)
  obtain ⟨r, es, q, l', m', hl, hm, hgo⟩ :=
    (Together.sendFlushed hR id hhd.batch_spared).concluding b (p.setDraft id d₁.flushed.advance)
      l m hlm
  have hleft := commit_eq_flushed hcd hd₁ hhd.discarded_eq l
  have hright := commit_eq_flushed hce he₁ hhe.discarded_eq m
  rw [setDraft_setDraft, hhd.block_eq] at hleft
  rw [setDraft_setDraft, hhe.block_eq, ← hflushed] at hright
  obtain ⟨fs, d', -, -, hq, -⟩ := commit_runFrom ⟨p.setDraft id d, l⟩ hcd hd₁ hhd.discarded_eq
  rw [hleft, hl] at hq
  refine ⟨r, es, q, l', m', hleft.trans hl, hright.trans hm, ?_, hgo⟩
  rw [show q = _ from hq]
  exact settled_current ..

/-- What decides how the records of a block come out, given in any of these ways: the block is
not opened, or the same record fails each time, or all records are taken up. Nothing is sent unless
they are. -/
inductive Verdict (p : Pipeline) (b : Block) (ways : List (List Addition)) :
    Except Failure Unit → List Entry → Prop
  | refused {f : Failure} : (p.beginBlock b).1 = .error f → Verdict p b ways (.error f) []
  | invalid {id : DraftId} {q : Pipeline} {D : List Delivered} {x : Delivered} {f : Failure} :
      p.beginBlock b = (.ok id, q) → render x.action = .error f →
      (∀ xs ∈ ways, q.FailsAt id xs D x f) → Verdict p b ways (.error f) []
  | sent {id : DraftId} {q : Pipeline} {r : Except Failure Unit} {es : List Entry} :
      p.beginBlock b = (.ok id, q) → (∀ xs ∈ ways, (q.takeUpAll id xs).1 = .ok ()) →
      Verdict p b ways r es

theorem callbacks_alike {R : σ → σ → Prop} (hR : Bisimulation R) {p : Pipeline} (b : Block)
    {ways : List (List Addition)} {xs : List Addition} (hways : ∀ ys ∈ ways, SameRecords xs ys)
    (hc : p.current = none) (l : Link σ) :
    ∃ r es q l', (callbacks b xs).runFrom ⟨p, l⟩ = (r, ⟨q, l'⟩) ∧ Verdict p b ways r es ∧
      l'.line.log = l.line.log ++ es ∧
      ∀ ys ∈ ways, ∀ m, Alike R "block_exists" l m → ∃ q' m',
        (callbacks b ys).runFrom ⟨p, m⟩ = (r, ⟨q', m'⟩) ∧ m'.line.log = m.line.log ++ es ∧
          SamePlace q q' := by
  cases p.fare b xs with
  | unopened hb =>
    refine ⟨_, [], p, l, callbacks_of_unopened hb xs l, .refused (congrArg Prod.fst hb),
      (List.append_nil _).symm, fun ys _ m hlm => ⟨p, m, callbacks_of_unopened hb ys m, ?_, ?_⟩⟩
    · exact hlm.stay.log_right
    · exact ⟨rfl, rfl, rfl, hc, hc⟩
  | @spoiled id q D x f hb hx hfare =>
    obtain ⟨-, q₁, hq₁, hk₁, hc₁⟩ := hfare xs (.refl xs)
    refine ⟨.error f, [], q₁, l, callbacks_of_opened hb hq₁ l,
      .invalid hb hx fun ys hy => (hfare ys (hways ys hy)).1, (List.append_nil _).symm,
      fun ys hy m hlm => ?_⟩
    obtain ⟨-, q₂, hq₂, hk₂, hc₂⟩ := hfare ys (hways ys hy)
    refine ⟨q₂, m, callbacks_of_opened hb hq₂ m, hlm.stay.log_right, ?_⟩
    exact ⟨hk₁.lastSync_eq.trans hk₂.lastSync_eq.symm, hk₁.halted_eq.trans hk₂.halted_eq.symm,
      hk₁.started_eq.trans hk₂.started_eq.symm, hc₁, hc₂⟩
  | @filled id q hb hfare =>
    obtain ⟨d, hd, hcd⟩ := hfare xs (.refl xs)
    obtain ⟨hcur, d', hd', hh⟩ := hcd
    obtain ⟨es, -, hsends, -⟩ := commit_runFrom ⟨q.setDraft id d, l⟩ hcur hd' hh.discarded_eq
    obtain ⟨r, q', l', hrun⟩ :
        ∃ r q' l', (commit id).runFrom ⟨q.setDraft id d, l⟩ = (r, ⟨q', l'⟩) := ⟨_, _, _, rfl⟩
    rw [hrun] at hsends
    refine ⟨r, es, q', l', (callbacks_of_opened hb hd l).trans hrun, .sent hb fun ys hy => ?_,
      hsends.log_eq, fun ys hy m hlm => ?_⟩
    · obtain ⟨e, he, -⟩ := hfare ys (hways ys hy)
      rw [he]
    · obtain ⟨e, he, hce⟩ := hfare ys (hways ys hy)
      obtain ⟨r₂, fs, q₂, l₂, m₂, hrun₁, hrun₂, hclosed, hgo⟩ :=
        commit_alike hR ⟨hcur, d', hd', hh⟩ hce (hways ys hy) hlm
      obtain ⟨rfl, ht⟩ := Prod.mk.inj (hrun.symm.trans hrun₁)
      obtain ⟨rfl, rfl⟩ := Intake.mk.inj ht
      -- Both came from the same log, so the entries are the same.
      have hes : es = fs := List.append_cancel_left (hsends.log_eq.symm.trans hgo.log_left)
      refine ⟨q', m₂, (callbacks_of_opened hb he m).trans hrun₂, hes ▸ hgo.log_right, ?_⟩
      exact ⟨rfl, rfl, rfl, hclosed, hclosed⟩

/-- A block that is neither the last committed nor stored yet comes out alike, whether it is
ingested as a whole, given transaction by transaction, or with its actions one by one: with the same
result, the same entries after the probe, and the pipeline in the same place. -/
theorem ingestBlock_agrees {R : σ → σ → Prop} (hR : Bisimulation R) {s : Intake σ} {b : Block}
    {l m : Link σ} (hc : s.pipeline.current = none)
    (hn : s.pipeline.lastSync ≠ some b.blockId)
    (hp : (Checkpoint.blockExists b.blockId).runFrom s.link = (.ok false, l))
    (hm : Alike R "block_exists" l m) :
    ∃ r es whole byCall split,
      (ingestBlock b).runFrom s = (r.map fun _ => true, whole) ∧
      (callbacks b (called b.transactions)).runFrom ⟨s.pipeline, m⟩ = (r, byCall) ∧
      (callbacks b (parted b.transactions)).runFrom ⟨s.pipeline, m⟩ = (r, split) ∧
      whole.link.line.log = l.line.log ++ es ∧ byCall.link.line.log = m.line.log ++ es ∧
      split.link.line.log = m.line.log ++ es ∧ SamePlace whole.pipeline byCall.pipeline ∧
      SamePlace whole.pipeline split.pipeline ∧
      Verdict s.pipeline b
        [listed b.transactions 0, called b.transactions, parted b.transactions] r es := by
  have hways : ∀ xs ∈ [listed b.transactions 0, called b.transactions, parted b.transactions],
      SameRecords (listed b.transactions 0) xs := by
    have hcalled := listed_called b.transactions
    have hparted := hcalled.trans (called_parted b.transactions)
    simp [hcalled, hparted, SameRecords.refl]
  obtain ⟨r, es, q, l', hrun, hverdict, hlog, hall⟩ := callbacks_alike hR b hways hc l
  obtain ⟨p₁, m₁, hcalled, hlog₁, hsame₁⟩ := hall (called b.transactions) (by simp) m hm
  obtain ⟨p₂, m₂, hparted, hlog₂, hsame₂⟩ := hall (parted b.transactions) (by simp) m hm
  have hwhole := ingestBlock_runFrom hn hp
  rw [hrun] at hwhole
  exact ⟨r, es, ⟨q, l'⟩, ⟨p₁, m₁⟩, ⟨p₂, m₂⟩, hwhole, hcalled, hparted, hlog, hlog₁, hlog₂, hsame₁,
    hsame₂, hverdict⟩

theorem ingestBlock_agrees_destroyed_token :
    ∃ (b : Block) (s : Intake Script) (r : Except Failure Unit) (es : List Entry)
      (whole byCall split : Intake Script), r.isOk = true ∧ b.transactions.length = 1 ∧
      (ingestBlock b).runFrom s = (r.map fun _ => true, whole) ∧
      (callbacks b (called b.transactions)).runFrom s = (r, byCall) ∧
      (callbacks b (parted b.transactions)).runFrom s = (r, split) ∧
      byCall.link.line.log = s.link.line.log ++ es ∧
      split.link.line.log = s.link.line.log ++ es ∧
      SamePlace whole.pipeline byCall.pipeline ∧ SamePlace whole.pipeline split.pipeline := by
  let a : Action :=
    ⟨"destroytoken", "cars", "t1", [("domain", .text "cars"), ("name", .text "t1")]⟩
  let b : Block :=
    { bareBlock "b1" 1 "" with transactions := [{ bareTransaction "x1" with actions := [a] }] }
  let link : Link Script :=
    ⟨.ofStatements Statement.standard, ⟨{ Script.empty with knownBlocks := some [] }, []⟩⟩
  let s : Intake Script := ⟨.resumingAt ⟨"1", []⟩ "1" "", link⟩
  let probed : Link Script := ((Link.run "block_exists" [.text b.blockId]).runFrom link).2
  have hp : (Checkpoint.blockExists b.blockId).runFrom link = (.ok false, probed) := rfl
  have hm : Alike (· = ·) "block_exists" probed link := .of_run rfl
  obtain ⟨r, es, whole, byCall, split, hwhole, hcalled, hparted, -, hlog₁, hlog₂, hsame₁, hsame₂,
    -⟩ := ingestBlock_agrees .eq (s := s) rfl (by decide) hp hm
  have hok : r.isOk = true := by
    have hrun : ((ingestBlock b).runFrom s).1.isOk = true := by decide +kernel
    rw [hwhole] at hrun
    cases r with
    | ok _ => rfl
    | error f => cases hrun
  exact ⟨b, s, r, es, whole, byCall, split, hok, rfl, hwhole, hcalled, hparted, hlog₁, hlog₂, hsame₁,
    hsame₂⟩

end Intake

end ChainArchive.Ingest
