import ChainArchive.Proofs.Ingest.Unread
import ChainArchive.Proofs.Recovery.Backed

namespace ChainArchive

open ChainArchive.Link ChainArchive.Program ChainArchive.Record

variable {σ : Type}

/-- Whether an entry is a question whether a block is stored. -/
def Entry.asksBlock : Entry → Bool
  | .asked (.run p _) _ => p.name == "block_exists"
  | _ => false

namespace Link

variable [Server σ]

theorem blockExists_retained {l : Link (Backed σ)} {blockId : String} (hl : l.Equipped)
    (hc : l.session.connection ≠ .released) (hs : l.line.server.store.Retains blockId) :
    ∃ e : Entry, e.asksBlock = true ∧ (Checkpoint.blockExists blockId).runFrom l =
      (.ok true, { l with line.log := l.line.log ++ [e] }) := by
  obtain ⟨p, hp⟩ : ∃ p, Statement.find? Statement.standard "block_exists" = some p := ⟨_, rfl⟩
  have hname := Statement.name_of_find? hp
  have hanswer : l.line.server.store.blockAnswer? (.run p [.text blockId]) =
      some (.bool true) := by
    simp [Store.blockAnswer?, hname, textArg?, Value.text, hs.durable]
  have hask : l.line.ask (.run p [.text blockId]) = (.ok (.bool true),
      ⟨l.line.server, l.line.log ++ [.asked (.run p [.text blockId]) (.ok (.bool true))]⟩) := by
    simp only [Line.ask, Server.answer, hanswer]
  refine ⟨.asked (.run p [.text blockId]) (.ok (.bool true)), by simp [Entry.asksBlock, hname], ?_⟩
  rw [← hl.statements_eq] at hp
  rw [Checkpoint.blockExists, runFrom_bind_pure, run,
    runFrom_bind_ok (hl.registered.plan_runFrom hp), passing, runFrom_bind]
  simp only [ask, runFrom_of, hask]
  cases hconnection : l.session.connection with
  | released => exact absurd hconnection hc
  | live | severed => rfl

end Link

namespace Ingest

/-- The event skips a block: nothing but the log has changed, and nothing was asked but whether the
block is stored. -/
structure Event.Skips (e : Event σ) : Prop where
  result_eq : e.result = .ok (.flag false)
  after_eq : e.after.unlogged = e.before.unlogged
  asks : ∀ x ∈ e.entries, x.asksBlock = true

structure Round where
  op : Op
  again : List Block

def Round.ops (rs : List Round) : List Op := rs.map (·.op)

def Round.allOps (rs : List Round) : List Op :=
  rs.flatMap fun r => r.op :: r.again.map .ingestBlock

variable {s t : Intake (Backed σ)}

theorem Intake.recognizes_unlogged {blockId : String} :
    s.unlogged.Recognizes blockId ↔ s.Recognizes blockId :=
  ⟨fun h => ⟨⟨h.equipped.statements_eq, h.equipped.registered⟩, h.connected, h.retained⟩,
    fun h => ⟨⟨h.equipped.statements_eq, h.equipped.registered⟩, h.connected, h.retained⟩⟩

theorem Intake.Recognizes.of_unlogged {blockId : String} (h : s.Recognizes blockId)
    (ht : t.unlogged = s.unlogged) : t.Recognizes blockId := by
  rw [← recognizes_unlogged, ht, recognizes_unlogged]
  exact h

variable [Server σ]

theorem Intake.Recognizes.ingestBlock {b : Block} (h : s.Recognizes b.blockId) :
    ∃ es, (Intake.ingestBlock b).runFrom s =
      (.ok false, { s with link.line.log := s.link.line.log ++ es }) ∧
        ∀ x ∈ es, x.asksBlock = true := by
  rw [Intake.ingestBlock, runFrom_bind, runFrom_get]
  dsimp only
  split
  · exact ⟨[], by rw [List.append_nil]; rfl, by simp⟩
  · obtain ⟨e, he, hfound⟩ := blockExists_retained h.equipped h.connected h.retained
    refine ⟨[e], ?_, by simpa using he⟩
    rw [runFrom_bind, onLink_runFrom, hfound]
    rfl

theorem Op.perform_skips {b : Block} (h : s.Recognizes b.blockId) :
    ((Op.ingestBlock b).perform s).Skips := by
  obtain ⟨es, hrun, hasks⟩ := h.ingestBlock
  have hperform : (Op.ingestBlock b).perform s =
      ⟨.ingestBlock b, s, .ok (.flag false),
        { s with link.line.log := s.link.line.log ++ es }⟩ := by
    simp only [Op.perform, Op.program, runFrom_bind_pure, hrun]
    rfl
  have hentries : ((Op.ingestBlock b).perform s).entries = es := by
    rw [hperform]
    exact List.drop_left
  refine ⟨by rw [hperform], by rw [hperform]; rfl, ?_⟩
  rwa [hentries]

theorem skips_of_recognizes (bs : List Block) (h : ∀ b ∈ bs, s.Recognizes b.blockId) :
    (after (bs.map .ingestBlock) s).unlogged = s.unlogged ∧
      ∀ e ∈ history (bs.map .ingestBlock) s, e.Skips := by
  induction bs generalizing s with
  | nil => exact ⟨rfl, fun _ he => by cases he⟩
  | cons b bs ih =>
    have hskips := Op.perform_skips (h b List.mem_cons_self)
    obtain ⟨hafter, hall⟩ := ih fun b hb =>
      (h b (List.mem_cons_of_mem _ hb)).of_unlogged hskips.after_eq
    refine ⟨hafter.trans hskips.after_eq, fun e he => ?_⟩
    obtain rfl | he := List.mem_cons.mp he
    · exact hskips
    · exact hall e he

theorem Round.matches_of_recognizes (rs : List Round) (r : Round) (h : t.unlogged = s.unlogged)
    (hrs : ∀ xs x ys, rs ++ [r] = xs ++ x :: ys → ∀ b ∈ x.again,
      (after (Round.ops (xs ++ [x])) s).Recognizes b.blockId) :
    let e := r.op.perform (after (Round.allOps rs) t)
    (r.op.perform (after (Round.ops rs) s)).Matches e ∧
      ∀ f ∈ history (r.again.map .ingestBlock) e.after, f.Skips := by
  induction rs generalizing s t with
  | nil =>
    have hmatches := r.op.perform_matches h
    exact ⟨hmatches, (skips_of_recognizes r.again fun b hb =>
      (hrs [] r [] rfl b hb).of_unlogged hmatches.after_eq).2⟩
  | cons x rs ih =>
    have hmatches := x.op.perform_matches h
    have hskips := (skips_of_recognizes x.again fun b hb =>
      (hrs [] x (rs ++ [r]) rfl b hb).of_unlogged hmatches.after_eq).1
    -- What is delivered after `x` adds to the log alone, so the rounds after it start alike.
    have hall : after (Round.allOps (x :: rs)) t =
        after (Round.allOps rs) (after (x.again.map .ingestBlock) (x.op.perform t).after) :=
      after_append _ _ _
    dsimp only
    rw [hall]
    exact ih (hskips.trans hmatches.after_eq) fun xs y ys hsplit =>
      hrs (x :: xs) y ys (congrArg (x :: ·) hsplit)

/-- Blocks that are delivered again after they were committed, wherever that happens in a run and
however often, are skipped, and every other operation of the run does what it does without them. -/
theorem redelivery_harmless (p : Pipeline) (layout : Schema.Layout) (version : String)
    (l : Link (Backed σ)) (hl : l.session.statements = Statement.standard)
    (hc : l.line.server.store.bracket = none) (rs : List Round)
    (hrs : ∀ xs r ys, rs = xs ++ r :: ys → ∀ b ∈ r.again,
      ∃ e ∈ history (Round.ops (xs ++ [r])) ⟨p.succeed layout version, l⟩,
        ∃ i c, e.committed? = some (i, c) ∧ c.blockId = b.blockId) :
    let s : Intake (Backed σ) := ⟨p.succeed layout version, l⟩
    ∀ xs r ys, rs = xs ++ r :: ys →
      let e := r.op.perform (after (Round.allOps xs) s)
      (r.op.perform (after (Round.ops xs) s)).Matches e ∧
        ∀ f ∈ history (r.again.map .ingestBlock) e.after, f.Skips := by
  intro s xs r ys hsplit
  have hs : s.Steady := Intake.steady_succeed p layout version hl hc
  refine Round.matches_of_recognizes xs r rfl fun xs' x ys' hsplit' b hb => ?_
  have hrest : rs = xs' ++ x :: (ys' ++ ys) := by
    rw [hsplit, List.append_cons, hsplit', List.append_assoc]
    rfl
  obtain ⟨e, he, i, c, hcommitted, hid⟩ := hrs xs' x (ys' ++ ys) hrest b hb
  exact hid ▸ recognizes_of_mem _ hs he hcommitted

theorem redelivery_harmless_halted :
    let b₁ := bareBlock "b1" 1 ""
    let b₂ := bareBlock "b2" 2 "b1"
    let rs : List Round := [⟨.startup, []⟩, ⟨.beginBlock b₁, []⟩, ⟨.commit 0, [b₁]⟩,
      ⟨.ingestBlock b₂, [b₁, b₂]⟩, ⟨.beginBlock (bareBlock "b3" 3 "b2"), [b₁, b₂]⟩,
      ⟨.addTransaction 2 (bareTransaction "x1") none, [b₁]⟩, ⟨.commit 2, [b₁, b₂, b₁]⟩]
    let s : Intake (Backed Script) := ⟨.succeed (.ofLayout statsLayout "1") statsLayout "1",
      .ofStatements Statement.standard,
      ⟨{ Script.empty with failCopy := [("transactions", .database)] }, .empty, none⟩, []⟩
    (after (Round.ops rs) s).pipeline.halted.isSome = true ∧
      ∀ xs r ys, rs = xs ++ r :: ys →
        let e := r.op.perform (after (Round.allOps xs) s)
        (r.op.perform (after (Round.ops xs) s)).Matches e ∧
          ∀ f ∈ history (r.again.map .ingestBlock) e.after, f.Skips := by
  intro b₁ b₂ rs s
  have hcommitted : ((List.range rs.length).all fun n => rs[n]?.all fun r => r.again.all fun b =>
      (history (Round.ops (rs.take (n + 1))) s).any fun e =>
        e.committed?.any fun c => c.2.blockId == b.blockId) = true := by decide +kernel
  refine ⟨by decide +kernel, ?_⟩
  refine redelivery_harmless (.ofLayout statsLayout "1") statsLayout "1" s.link rfl rfl rs ?_
  intro xs r ys hsplit b hb
  -- A way to split the rounds is known by the number of those before `r`.
  have htake : rs.take (xs.length + 1) = xs ++ [r] := by
    rw [hsplit, List.append_cons, List.take_left' (by simp)]
  have hlength : xs.length < rs.length := by
    rw [hsplit]
    simp
  have hr : rs[xs.length]? = some r := by
    rw [hsplit]
    simp
  have hany := List.all_eq_true.mp hcommitted xs.length (List.mem_range.mpr hlength)
  simp only [hr, htake, Option.all_some] at hany
  obtain ⟨e, he, hmatch⟩ := List.any_eq_true.mp (List.all_eq_true.mp hany b hb)
  cases hc : e.committed? with
  | none =>
    rw [hc] at hmatch
    cases hmatch
  | some c =>
    rw [hc] at hmatch
    exact ⟨e, he, c.1, c.2, hc, by simpa using hmatch⟩

end Ingest

end ChainArchive
