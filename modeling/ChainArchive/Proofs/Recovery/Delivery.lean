import ChainArchive.Proofs.Recovery.Cut

namespace ChainArchive

open ChainArchive.Ingest ChainArchive.Link ChainArchive.Record

inductive Delivery where
  | whole (b : Block)
  | parts (b : Block) (xs : List Addition)

namespace Delivery

def block : Delivery → Block
  | whole b => b
  | parts b _ => b

def program {σ : Type} [Server σ] : Delivery → Program (Intake σ) Unit
  | whole b => do
    let _ ← Intake.ingestBlock b
  | parts b xs => do
    let id ← Intake.onPipeline (·.beginBlock b)
    Intake.onPipeline (·.takeUpAll id xs)
    Intake.commit id

def run {σ : Type} [Server σ] : List Delivery → Program (Intake σ) Unit
  | [] => return
  | d :: ds => do
    d.program
    run ds

end Delivery

variable {version : String} {done rest : List Block} {b : Block} {es : List Entry}

theorem lastId_eq_or_mem (done : List Block) :
    lastId done = "" ∨ lastId done ∈ done.map (·.blockId) := by
  unfold lastId
  cases hl : (done.map (·.blockId)).getLast? with
  | none => exact .inl rfl
  | some id => exact .inr (List.mem_of_getLast? hl)

theorem lastId_ne {id : String} (hne : id ≠ "") (hnew : id ∉ done.map (·.blockId)) :
    lastId done ≠ id := by
  rintro rfl
  obtain he | hm := lastId_eq_or_mem done
  · exact hne he
  · exact hnew hm

theorem not_mem_of_nodup_ids (hids : ((done ++ rest).map (·.blockId)).Nodup) (hb : b ∈ rest) :
    b.blockId ∉ done.map (·.blockId) := by
  rw [List.map_append] at hids
  intro hm
  exact (List.nodup_append.mp hids).2.2 _ hm _ (List.mem_map_of_mem hb) rfl

theorem Holdings.Keeps.hasBlock_eq {h : Holdings} {stored : List Block} {last : String}
    (hk : h.Keeps version stored last) (id : String) :
    h.hasBlock id = (stored.map (·.blockId)).contains id := by
  rw [hasBlock, hk.keys_eq, List.any_map, Bool.eq_iff_iff]
  simp

def Link.books (l : Link Disk) : Books := Books.empty.takeAll l.line.log

theorem Link.Sends.books_eq {l m : Link Disk} (h : Sends l es m) :
    m.books = l.books.takeAll es := by
  rw [Link.books, h.log_eq, Books.takeAll_append]
  rfl

/-- A session on a disk between two blocks: its books are settled and tell what is stored. -/
structure Link.Rests (version : String) (done : List Block) (l : Link Disk) : Prop where
  standard : Disk.Standard l.terms
  settled : l.books.Settled version done
  store_eq : l.line.server.store = l.books.store

theorem Link.Rests.sends {l m : Link Disk} {done' : List Block} (hl : l.Rests version done)
    (h : Sends l es m) (hs : (l.books.takeAll es).Settled version done') :
    m.Rests version done' := by
  refine ⟨h.terms_eq.symm ▸ hl.standard, h.books_eq.symm ▸ hs, ?_⟩
  rw [h.store_eq.1, h.books_eq, Books.store_takeAll, hl.store_eq]

structure Ingest.Intake.Rests (version : String) (done : List Block) (s : Intake Disk) : Prop where
  sound : s.pipeline.Sound
  lastSync_eq : s.pipeline.lastSync = some (lastId done)
  link_rests : s.link.Rests version done

/-- A stretch of a run that starts with the link `l` and ends with the result `r` in `s`: wherever
it is cut, the books are recoverable, and if it succeeds, the intake rests on more blocks. -/
structure Safely (version : String) (blocks done : List Block) (l : Link Disk)
    (r : Except Failure Unit) (s : Intake Disk) (es : List Entry) : Prop where
  sends : Sends l es s.link
  throughout : l.books.Throughout (Books.Recoverable version blocks) es
  rests : r = .ok () → s.Rests version done

theorem Link.Rests.commit {s : Intake Disk} {id : DraftId} {xs : List Addition}
    (rest : List Block) (hl : s.link.Rests version done) (hst : s.pipeline.started = true)
    (hc : s.pipeline.Carries id b xs) :
    ∃ es, Safely version (done ++ b :: rest) (done ++ [b]) s.link ((Intake.commit id).runFrom s).1
      ((Intake.commit id).runFrom s).2 es := by
  obtain ⟨hc, d, hd, hh⟩ := hc
  obtain ⟨es, d', hs, hw, hp, hb⟩ := Intake.commit_runFrom s hc hd hh.discarded_eq
  have hsound := Intake.commit_sound hst hc hd hh.discarded_eq
  rw [hh.steps_eq] at hw
  obtain ⟨hthrough, hok⟩ := hl.settled.throughout_commit rest hl.standard.connected hw
  refine ⟨es, hs, hthrough, fun hr => ⟨hsound, ?_, hl.sends hs (hok hr)⟩⟩
  rw [hp, hr, Intake.settled, hb, hh.block_eq, lastId_append]

namespace Safely

variable {l m : Link Disk} {r : Except Failure Unit} {s : Intake Disk} {fs : List Entry}
  {blocks done' : List Block}

theorem failed {f : Failure} (hl : l.Rests version done) (h : Sends l es s.link)
    (hm : es.all Entry.mild = true) :
    Safely version (done ++ rest) done' l (.error f) s es :=
  ⟨h, hl.settled.throughout hm, fun hr => by cases hr⟩

theorem after_mild (hl : l.Rests version done) (h : Sends l es m) (hm : es.all Entry.mild = true)
    (hs : Safely version (done ++ rest) done' m r s fs) :
    Safely version (done ++ rest) done' l r s (es ++ fs) := by
  refine ⟨h.trans hs.sends, (hl.settled.throughout hm).append ?_, hs.rests⟩
  rw [← h.books_eq]
  exact hs.throughout

end Safely

theorem Checkpoint.blockExists_mild (l : Link Disk) (blockId : String) :
    ∃ es, Sends l es ((blockExists blockId).runFrom l).2 ∧ es.all Entry.mild = true := by
  have h : Records (σ := Disk) l.terms (blockExists blockId) fun _ es =>
      es.all Entry.mild = true := by
    refine (run_records l.terms "block_exists" [.text blockId]).bind (S := fun _ _ fs => fs = [])
      (fun _ => .pure rfl) (fun f es h => mild_ran h (.inr ⟨f, rfl⟩)) ?_
    rintro v es r fs h rfl
    rw [List.append_nil]
    exact mild_ran h (.inl ⟨by decide, by decide⟩)
  exact h l rfl

theorem Link.Rests.blockExists_ne {l m : Link Disk} (hl : l.Rests version done) {id : String}
    (hnew : id ∉ done.map (·.blockId)) :
    (Checkpoint.blockExists id).runFrom l ≠ (.ok true, m) := by
  intro h
  have hstore : l.line.server.store = ⟨l.books.store.durable, none⟩ := by
    rw [hl.store_eq, ← hl.settled.bracket_eq]
  have hblock : l.books.store.durable.hasBlock id = false := by
    rw [hl.settled.durable_keeps.hasBlock_eq]
    simpa using hnew
  obtain ⟨-, -, hr⟩ := Disk.blockExists_yields hl.standard id l rfl rfl hstore
  rw [h, hblock] at hr
  obtain ⟨hr, -⟩ | ⟨-, hr⟩ := hr <;> cases hr

theorem Ingest.Intake.Rests.ingestBlock {s : Intake Disk} (hs : s.Rests version done)
    (hne : b.blockId ≠ "") (hnew : b.blockId ∉ done.map (·.blockId)) :
    ∃ es, Safely version (done ++ b :: rest) (done ++ [b]) s.link
      (((Intake.ingestBlock b).runFrom s).1.map fun _ => ()) ((Intake.ingestBlock b).runFrom s).2
      es := by
  have hcases := Intake.ingestBlock_cases hs.sound b
  generalize ((Intake.ingestBlock b).runFrom s).1 = r, ((Intake.ingestBlock b).runFrom s).2 = s'
    at hcases ⊢
  obtain ⟨es, hsend, hmild⟩ := Checkpoint.blockExists_mild s.link b.blockId
  -- A new block is neither the resume point nor stored, so it is not passed over.
  cases hcases with
  | reached h =>
    exact absurd (Option.some.inj (hs.lastSync_eq.symm.trans h)) (lastId_ne hne hnew)
  | stored h => exact absurd h (hs.link_rests.blockExists_ne hnew)
  | refused h hk hq =>
    rw [h] at hsend
    exact ⟨es, .failed hs.link_rests hsend hmild⟩
  | @written l id p q h hb hk hc =>
    rw [h] at hsend
    obtain ⟨hst, -, -, -, -, rfl⟩ := Pipeline.beginBlock_eq_ok.mp hb
    have hl : l.Rests version done :=
      hs.link_rests.sends hsend (hs.link_rests.settled.takeAll_mild hmild)
    obtain ⟨fs, hcommit⟩ := hl.commit (s := ⟨q, l⟩) rest (hk.started_eq.trans hst) hc
    refine ⟨es ++ fs, .after_mild hs.link_rests hsend hmild ⟨hcommit.sends, hcommit.throughout, ?_⟩⟩
    intro hr
    obtain ⟨_, hr, -⟩ := map_eq_ok hr
    obtain ⟨⟨⟩, hr, -⟩ := map_eq_ok hr
    exact hcommit.rests hr

theorem Delivery.program_safely {d : Delivery} {s : Intake Disk} (rest : List Block)
    (hs : s.Rests version done)
    (hne : d.block.blockId ≠ "") (hnew : d.block.blockId ∉ done.map (·.blockId)) :
    ∃ es, Safely version (done ++ d.block :: rest) (done ++ [d.block]) s.link
      (d.program.runFrom s).1 (d.program.runFrom s).2 es := by
  cases d with
  | whole b =>
    rw [program, Program.runFrom_bind_pure (Intake.ingestBlock b) fun _ => ()]
    exact hs.ingestBlock hne hnew
  | parts b xs =>
    rw [program, Program.runFrom_bind]
    -- Nothing is sent before the commit, so a refusal before it leaves the books at rest.
    have hstop : ∀ {f q}, Safely version (done ++ b :: rest) (done ++ [b]) s.link (.error f)
        ⟨q, s.link⟩ [] := .failed hs.link_rests (.refl s.link) rfl
    cases hb : s.pipeline.beginBlock b with
    | mk r p =>
      have hbegin : (Intake.onPipeline (·.beginBlock b)).runFrom s = (r, ⟨p, s.link⟩) := by
        simp [Intake.onPipeline, hb]
      rw [hbegin]
      cases r with
      | error f => exact ⟨[], hstop⟩
      | ok id =>
        obtain ⟨hst, -, -, -, rfl, rfl⟩ := Pipeline.beginBlock_eq_ok.mp hb
        have hk := (s.pipeline.opened b).takeUpAll_kept s.pipeline.drafts.length xs
        dsimp only
        rw [Program.runFrom_bind]
        cases hx : (s.pipeline.opened b).takeUpAll s.pipeline.drafts.length xs with
        | mk r q =>
          rw [hx] at hk
          have hfill : (Intake.onPipeline (·.takeUpAll s.pipeline.drafts.length xs)).runFrom
              (⟨s.pipeline.opened b, s.link⟩ : Intake Disk) = (r, ⟨q, s.link⟩) := by
            simp [Intake.onPipeline, hx]
          rw [hfill]
          cases r with
          | error f => exact ⟨[], hstop⟩
          | ok _ =>
            have hc := (s.pipeline.carries_opened b).takeUpAll hx
            exact hs.link_rests.commit (s := ⟨q, s.link⟩) rest (hk.started_eq.trans hst) hc

/-- Wherever a run of deliveries is cut, the books are recoverable. -/
theorem Delivery.run_throughout (ds : List Delivery) {s : Intake Disk} (hs : s.Rests version done)
    (hids : ((done ++ ds.map block).map (·.blockId)).Nodup)
    (hne : ∀ d ∈ ds, d.block.blockId ≠ "") :
    ∃ es, Sends s.link es ((run ds).runFrom s).2.link ∧
      s.link.books.Throughout (Books.Recoverable version (done ++ ds.map block)) es := by
  -- Each block that is brought in moves from the deliveries to `done`.
  induction ds generalizing done s with
  | nil => exact ⟨[], .refl s.link, .nil (hs.link_rests.settled.recoverable [])⟩
  | cons d ds ih =>
    have hnew : d.block.blockId ∉ done.map (·.blockId) :=
      not_mem_of_nodup_ids hids List.mem_cons_self
    have happ : done ++ (d :: ds).map block = done ++ [d.block] ++ ds.map block := by simp
    obtain ⟨es, hd⟩ := d.program_safely (ds.map block) hs (hne d List.mem_cons_self) hnew
    rw [run, Program.runFrom_bind]
    cases hr : d.program.runFrom s with
    | mk r s' =>
      rw [hr] at hd
      cases r with
      | error f => exact ⟨es, hd.sends, hd.throughout⟩
      | ok _ =>
        obtain ⟨fs, hsend, hthrough⟩ := ih (hd.rests rfl) (happ ▸ hids)
          fun d hd => hne d (List.mem_cons_of_mem _ hd)
        refine ⟨es ++ fs, hd.sends.trans hsend, hd.throughout.append ?_⟩
        rw [← hd.sends.books_eq]
        exact happ ▸ hthrough

end ChainArchive
