import ChainArchive.Proofs.Ingest.History

namespace ChainArchive.Ingest

open ChainArchive.Copy ChainArchive.Link ChainArchive.Record ChainArchive.Schema

variable {σ : Type} [Server σ]

theorem Intake.connected_of_startup {s s' : Intake σ} {last : String}
    (h : startup.runFrom s = (.ok last, s')) : s.link.session.connection ≠ .released := by
  intro hc
  have hask : ∀ r, (passing r).runFrom s.link = (.error .noConnection, s.link) := by
    intro r
    simp [passing, ask, Program.runFrom_bind, hc]
  have hexists : ∃ f, (s.pipeline.layout.tableExists "stats").runFrom s.link =
      (.error f, s.link) := by
    unfold Layout.tableExists Layout.checkTable
    split
    · exact ⟨_, hask _⟩
    · exact ⟨_, rfl⟩
  obtain ⟨f, hf⟩ := hexists
  have hlink : (onLink (s.pipeline.layout.tableExists "stats")).runFrom s = (.error f, s) := by
    rw [onLink_runFrom, hf]
  rw [startup, Program.runFrom_bind, Program.runFrom_get] at h
  dsimp only at h
  rw [Program.runFrom_bind_error hlink] at h
  cases h

theorem Op.perform_commit_writes {s : Intake σ} (hs : s.pipeline.Sound) {id : DraftId}
    (hc : s.pipeline.current = some id) (hlink : s.link.session.connection ≠ .released) :
    ((Op.commit id).perform s).entries.any Entry.writesBlock = true := by
  obtain ⟨d, hd, hlive⟩ := hs.live id hc
  obtain ⟨es, -, hsend, hw, -⟩ := Intake.commit_runFrom s hc hd hlive
  rw [d.steps_flushed] at hw
  have hes : ((Op.commit id).perform s).entries = es := by
    apply Event.entries_eq
    simp only [Op.perform, Op.program, Program.runFrom_bind_pure _ fun _ => Answer.done]
    exact hsend
  rw [hes]
  exact hw.writesBlock_of_copy hlink

def Event.Refused (e : Event σ) : Prop :=
  e.result.isOk = false ∧ ∀ x ∈ e.entries, x.writesBlock = false ∧ x.isStart = false

/-- A draft is opened for a block, and later, while it is still open, a startup finds a point to
resume from. That every commit of the draft is refused or writes a block that follows this point is
the case exactly if the startup found the resume point that the block was compared with, or there
was none then and the block follows the new one. -/
theorem refused_or_follows {p : Pipeline} {layout : Layout} {version : String} {l : Link σ}
    {ops mid : List Op} {s t u : Intake σ} {b : Block} {id : DraftId} {q : Pipeline} {r : String}
    (hs : s = after ops ⟨p.succeed layout version, l⟩)
    (hb : s.pipeline.beginBlock b = (.ok id, q))
    (ht : t = after mid { s with pipeline := q }) (hopen : t.pipeline.current = some id)
    (hstart : Intake.startup.runFrom t = (.ok r, u)) (hr : r ≠ "") :
    (∀ later, ∀ e ∈ history later u, e.op = .commit id → e.Refused ∨ b.prevBlockId = r) ↔
      s.pipeline.lastSync.getD "" = r ∨
        s.pipeline.lastSync.getD "" = "" ∧ b.prevBlockId = r := by
  have hsound : s.pipeline.Sound := hs ▸ after_sound ops (p.succeed_sound layout version)
  obtain ⟨hst, hh, -, hprev, -, hq⟩ := Pipeline.beginBlock_eq_ok.mp hb
  have htsound : t.pipeline.Sound := by
    rw [ht]
    exact after_sound mid (hq ▸ Pipeline.opened_sound hst hh)
  have husound : u.pipeline.Sound := Intake.startup_sound htsound hstart
  obtain ⟨es, hsend, -, hrestart⟩ := Intake.startup_quietly t
  rw [hstart] at hsend hrestart
  constructor
  · intro hall
    -- The startup left the draft open, so a commit that comes next writes it.
    have hwrites : ((Op.commit id).perform u).entries.any Entry.writesBlock = true := by
      refine Op.perform_commit_writes husound ?_ ?_
      · rw [show u.pipeline = _ from hrestart]
        exact hopen
      · have hterms : u.link.session.connection = t.link.session.connection :=
          congrArg Terms.connection hsend.terms_eq
        rw [hterms]
        exact Intake.connected_of_startup hstart
    obtain hrefused | hfollows := hall [.commit id] _ List.mem_cons_self rfl
    · obtain ⟨x, hx, hwx⟩ := List.any_eq_true.mp hwrites
      cases (hrefused.2 x hx).1.symm.trans hwx
    · by_cases hlast : s.pipeline.lastSync.getD "" = ""
      · exact .inr ⟨hlast, hfollows⟩
      · exact .inl ((hprev hlast).symm.trans hfollows)
  · rintro (hlast | ⟨-, hfollows⟩) later e he hop
    · exact .inr ((hprev (hlast ▸ hr)).trans hlast)
    · exact .inr hfollows

/-- A new intake on an old database, with the checkpoints that its startups find one after another;
the latest block is always the one of the checkpoint. -/
def checkpointed (lasts : List String) : Intake Script :=
  { scripted { Script.empty with
      fetchValue := .bool true
      results := [("read_stat", lasts.flatMap fun last => [.text "1", .text last]),
        ("latest_block_id", lasts.map .text)] } with
    link.session := .ofStatements (Statement.ofStats ++ Statement.ofBlocks) }

theorem refused_or_follows_confirmed :
    let b := bareBlock "b2" 2 "b1"
    let s := after [.startup] (checkpointed ["b1", "b1"])
    let t := after [.beginBlock b] s
    (Intake.startup.runFrom t).1.toOption = some "b1" ∧
      ∀ later, ∀ e ∈ history later (Intake.startup.runFrom t).2, e.op = .commit 0 →
        e.Refused ∨ b.prevBlockId = "b1" := by
  intro b s t
  have hopen : t.pipeline.current = some 0 := by decide +kernel
  have hfound : (Intake.startup.runFrom t).1.toOption = some "b1" := by decide +kernel
  have hlast : s.pipeline.lastSync = some "b1" := by decide +kernel
  have hb : s.pipeline.beginBlock b = (.ok 0, s.pipeline.opened b) := by
    have hc : s.pipeline.current = none := by decide +kernel
    refine Pipeline.beginBlock_eq_ok.mpr ⟨by decide +kernel, by decide +kernel,
      Pipeline.openDraft?_of_closed hc, fun _ => ?_, by decide +kernel, rfl⟩
    rw [hlast]
    rfl
  have hs : s = after [.startup] ⟨(Pipeline.ofLayout statsLayout "1").succeed statsLayout "1",
      (checkpointed ["b1", "b1"]).link⟩ := rfl
  have ht : t = after [] { s with pipeline := s.pipeline.opened b } := Op.after_beginBlock hb
  refine ⟨hfound, ?_⟩
  clear_value t s
  cases hstart : Intake.startup.runFrom t with
  | mk r u =>
    rw [hstart] at hfound
    cases r with
    | error f => cases hfound
    | ok last =>
      cases hfound
      refine (refused_or_follows hs hb ht hopen hstart (by decide)).mpr (.inl ?_)
      rw [hlast]
      rfl

/-- The database was moved on by someone else while a draft was open: a startup resumes from there,
and the draft is written behind a block that it does not follow. -/
theorem not_refused_or_follows_moved :
    let b := bareBlock "b1" 1 "b0"
    let t := after [.startup, .beginBlock b] (checkpointed ["", "c9"])
    let u := (Intake.startup.runFrom t).2
    t.pipeline.current = some 0 ∧ (Intake.startup.runFrom t).1.toOption = some "c9" ∧
      ((Op.commit 0).perform u).result.isOk = true ∧
      ¬ ∀ later, ∀ e ∈ history later u, e.op = .commit 0 → e.Refused ∨ b.prevBlockId = "c9" := by
  intro b t u
  have hopen : t.pipeline.current = some 0 := by decide +kernel
  have hlast : (Intake.startup.runFrom t).1.toOption = some "c9" := by decide +kernel
  have hdone : ((Op.commit 0).perform u).result.isOk = true := by decide +kernel
  refine ⟨hopen, hlast, hdone, fun hall => ?_⟩
  obtain hrefused | hfollows := hall [.commit 0] _ List.mem_cons_self rfl
  · cases hrefused.1.symm.trans hdone
  · exact absurd hfollows (by decide)

end ChainArchive.Ingest
