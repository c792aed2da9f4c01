import ChainArchive.Proofs.Ingest.History
import ChainArchive.Proofs.Session.Outcome

namespace ChainArchive.Ingest

open ChainArchive.Link ChainArchive.Program ChainArchive.Record

/-- What a part of an operation does to a pipeline. -/
inductive Pipeline.Step : Pipeline → Pipeline → Prop
  | change {p : Pipeline} {id : DraftId} {d e : Draft} : p.draft? id = some d → d.Change e →
      e.discarded = false → Step p (p.setDraft id e)
  | drop {p : Pipeline} {id : DraftId} {d : Draft} : p.draft? id = some d → d.discarded = false →
      Step p ((p.release id).setDraft id d.discard)
  | opened {p q : Pipeline} {b : Block} {id : DraftId} : p.beginBlock b = (.ok id, q) → Step p q
  | settled {p : Pipeline} {id : DraftId} {d e : Draft} (r : Except Failure Unit) :
      p.current = some id → p.draft? id = some d → e.block = d.block →
      Step p (Intake.settled p id e r)
  | resumed {p : Pipeline} (last : String) : Step p { p with lastSync := some last }
  | readied {p : Pipeline} : Step p { p with halted := none, started := true }

abbrev Pipeline.Walks : Pipeline → Pipeline → Prop := Relation.ReflTransGen Pipeline.Step

namespace Pipeline

variable {p q : Pipeline} {id : DraftId} {d e : Draft}

theorem setDraft_release (p : Pipeline) (id : DraftId) (d : Draft) :
    (p.setDraft id d).release id = (p.release id).setDraft id d := by
  unfold release setDraft
  by_cases h : p.current = some id
  · rw [if_pos h, if_pos h]
  · rw [if_neg h, if_neg h]

theorem release_of_ne (h : p.current ≠ some id) : p.release id = p := if_neg h

theorem Sound.ne_of_discarded (hp : p.Sound) (hd : p.draft? id = some d)
    (hdrop : d.discarded = true) : p.current ≠ some id := by
  intro hc
  obtain ⟨e, he, hlive⟩ := hp.live id hc
  cases hd.symm.trans he
  cases hdrop.symm.trans hlive

/-- What calls make of a draft, the pipeline follows; a draft that is dropped leaves the open
place. -/
theorem walks_of_leads (hd : p.draft? id = some d) (h : d.Leads e) :
    p.Walks (if e.discarded && !d.discarded then (p.setDraft id e).release id
      else p.setDraft id e) := by
  induction h with
  | refl =>
    rw [Bool.and_not_self, if_neg Bool.false_ne_true, setDraft_self hd]
  | @tail e f h hf ih =>
    have he := hf.live
    -- Only the last call of a sequence can have dropped the draft.
    have hlive : d.discarded = false := by
      induction h using Relation.ReflTransGen.head_induction_on with
      | refl => exact he
      | head h => exact h.live
    rw [he, Bool.false_and, if_neg Bool.false_ne_true] at ih
    have hid : (p.setDraft id e).draft? id = some e := draft?_setDraft_self hd
    cases hdrop : f.discarded with
    | false =>
      have hstep := Step.change hid hf hdrop
      rw [Intake.setDraft_setDraft] at hstep
      exact ih.tail hstep
    | true =>
      have hstep := Step.drop hid he
      rw [setDraft_release, Intake.setDraft_setDraft, ← hf.eq_discard hdrop] at hstep
      rw [hlive, setDraft_release]
      exact ih.tail hstep

theorem walks_onDraft (p : Pipeline) (id : DraftId) {f : Draft → Except Failure Unit × Draft}
    (hf : ∀ d, Draft.Leads d (f d).2) : p.Walks (p.onDraft id f).2 := by
  unfold onDraft
  cases hd : p.draft? id with
  | none => exact .refl
  | some d => exact walks_of_leads hd (hf d)

theorem Sound.walks_abort (hp : p.Sound) (id : DraftId) : p.Walks (p.abort id) := by
  unfold abort
  cases hd : p.draft? id with
  | none => exact .refl
  | some d =>
    cases hdrop : d.discarded with
    | false => exact .single (.drop hd hdrop)
    | true =>
      dsimp only
      rw [release_of_ne (hp.ne_of_discarded hd hdrop), Draft.discard_of_discarded hdrop,
        setDraft_self hd]

theorem walks_restarts {r : Except Failure String} (h : p.Restarts r q) : p.Walks q := by
  cases r with
  | ok last =>
    rw [show q = _ from h]
    exact .tail (.single (.resumed last)) .readied
  | error f =>
    obtain rfl | ⟨last, rfl⟩ := h
    · exact .refl
    · exact .single (.resumed last)

theorem Step.sound (h : p.Step q) (hp : p.Sound) : q.Sound := by
  cases h with
  | @change id d e hd hstep hlive =>
    refine hp.of_kept (setDraft_kept hd hstep.block_eq) fun j hj => ?_
    by_cases hij : id = j
    · subst hij
      exact ⟨e, draft?_setDraft_self hd, hlive⟩
    · rw [draft?_setDraft_ne hij]
      exact hp.live j hj
  | @drop id d hd hlive =>
    have habort := abort_sound hp id
    rwa [abort, hd] at habort
  | opened hb =>
    obtain ⟨hst, hh, -, -, rfl, rfl⟩ := beginBlock_eq_ok.mp hb
    exact opened_sound hst hh
  | settled r hc =>
    refine .of_closed (Intake.settled_current ..) fun _ => ?_
    rw [Intake.settled_started]
    exact (hp.ready (by simp [hc])).1
  | resumed last => exact ⟨hp.live, hp.ready, hp.running⟩
  | readied => exact ⟨hp.live, fun _ => ⟨rfl, rfl⟩, fun _ => rfl⟩

theorem draft?_settled_ne {j : DraftId} (h : id ≠ j) (r : Except Failure Unit) :
    (Intake.settled p id d r).draft? j = p.draft? j := by
  cases r <;> exact draft?_setDraft_ne h

theorem Step.draft?_dropped (h : p.Step q) (hp : p.Sound) (hd : p.draft? id = some d)
    (hdrop : d.discarded = true) : q.draft? id = some d := by
  have hne : ∀ {j e}, p.draft? j = some e → e.discarded = false → j ≠ id := by
    rintro j e he hlive rfl
    cases hd.symm.trans he
    cases hdrop.symm.trans hlive
  cases h with
  | change he hstep _ => rw [draft?_setDraft_ne (hne he hstep.live), hd]
  | drop he hlive => rw [draft?_setDraft_ne (hne he hlive), draft?_release, hd]
  | opened hb =>
    obtain ⟨-, -, -, -, rfl, rfl⟩ := beginBlock_eq_ok.mp hb
    obtain ⟨hlt, -⟩ := List.getElem?_eq_some_iff.mp hd
    rw [← hd]
    exact List.getElem?_append_left hlt
  | @settled j e f r hc =>
    have hj : j ≠ id := by
      rintro rfl
      exact hp.ne_of_discarded hd hdrop hc
    rw [draft?_settled_ne hj, hd]
  | resumed | readied => exact hd

theorem Step.draft_open {P : Draft → Prop} (hnew : ∀ b, P (.ofBlock b))
    (hcall : ∀ d e, d.Change e → e.discarded = false → P d → P e) (h : p.Step q)
    (hp : ∀ id d, p.current = some id → p.draft? id = some d → P d) :
    ∀ id d, q.current = some id → q.draft? id = some d → P d := by
  intro j f hj hf
  cases h with
  | @change id d e hd hstep hlive =>
    by_cases hij : id = j
    · subst hij
      rw [draft?_setDraft_self hd] at hf
      cases hf
      exact hcall _ _ hstep hlive (hp id d hj hd)
    · rw [draft?_setDraft_ne hij] at hf
      exact hp j f hj hf
  | @drop id d hd hlive =>
    -- The draft that is dropped is open no longer.
    have hij : id ≠ j := by
      rintro rfl
      exact release_ne p id hj
    rw [draft?_setDraft_ne hij, draft?_release] at hf
    obtain hc | hc := (p.release_kept id).current_eq
    · exact hp j f (hc.symm.trans hj) hf
    · cases hc.symm.trans hj
  | opened hb =>
    obtain ⟨-, -, -, -, rfl, rfl⟩ := beginBlock_eq_ok.mp hb
    cases hj
    cases (p.draft?_opened _).symm.trans hf
    exact hnew _
  | settled r => cases (Intake.settled_current ..).symm.trans hj
  | resumed | readied => exact hp j f hj hf

/-- What the steps keep of a sound pipeline, a walk keeps. -/
theorem Walks.induct {P : Pipeline → Prop} (h : p.Walks q) (hp : p.Sound)
    (hstep : ∀ a b, a.Sound → a.Step b → P a → P b) (h₀ : P p) : q.Sound ∧ P q := by
  induction h with
  | refl => exact ⟨hp, h₀⟩
  | tail _ h ih => exact ⟨h.sound ih.1, hstep _ _ ih.1 h ih.2⟩

theorem Walks.sound (h : p.Walks q) (hp : p.Sound) : q.Sound :=
  (h.induct (P := fun _ => True) hp (fun _ _ _ _ _ => trivial) trivial).1

theorem Walks.draft?_dropped (h : p.Walks q) (hp : p.Sound) (hd : p.draft? id = some d)
    (hdrop : d.discarded = true) : q.draft? id = some d :=
  (h.induct hp (fun _ _ ha hs hd => hs.draft?_dropped ha hd hdrop) hd).2

theorem Walks.draft_open {P : Draft → Prop} (h : p.Walks q) (hp : p.Sound)
    (hnew : ∀ b, P (.ofBlock b)) (hcall : ∀ d e, d.Change e → e.discarded = false → P d → P e)
    (ho : ∀ id d, p.current = some id → p.draft? id = some d → P d) :
    ∀ id d, q.current = some id → q.draft? id = some d → P d :=
  (h.induct hp (fun _ _ _ hs ho => hs.draft_open hnew hcall ho) ho).2

end Pipeline

namespace Intake

variable {σ : Type} {p₀ : Pipeline} {α : Type}

theorem onLink_walks (p : Program (Link σ) α) :
    Maintains (fun s : Intake σ => p₀.Walks s.pipeline) (onLink p) :=
  fun _ h => h

theorem onPipeline_walks (hp₀ : p₀.Sound) {f : Pipeline → Except Failure α × Pipeline}
    (hf : ∀ p : Pipeline, p.Sound → p.Walks (f p).2) :
    Maintains (fun s : Intake σ => p₀.Walks s.pipeline) (onPipeline f) :=
  fun s h => h.trans (hf s.pipeline (h.sound hp₀))

theorem update_walks (hp₀ : p₀.Sound) {f : Pipeline → Pipeline}
    (hf : ∀ p : Pipeline, p.Sound → p.Walks (f p)) :
    Maintains (fun s : Intake σ => p₀.Walks s.pipeline) (update f) :=
  fun s h => h.trans (hf s.pipeline (h.sound hp₀))

theorem beginBlock_walks (hp₀ : p₀.Sound) (b : Block) :
    Maintains (fun s : Intake σ => p₀.Walks s.pipeline) (onPipeline (·.beginBlock b)) := by
  refine onPipeline_walks hp₀ fun p _ => ?_
  cases hb : p.beginBlock b with
  | mk r q =>
    cases r with
    | ok id => exact .single (.opened hb)
    | error f =>
      cases Pipeline.beginBlock_error hb
      exact .refl

theorem onDraft_walks (hp₀ : p₀.Sound) (id : DraftId)
    {f : Draft → Except Failure Unit × Draft} (hf : ∀ d, Draft.Leads d (f d).2) :
    Maintains (fun s : Intake σ => p₀.Walks s.pipeline) (onPipeline (·.onDraft id f)) :=
  onPipeline_walks hp₀ fun p _ => p.walks_onDraft id hf

variable [Server σ]

theorem Quietly.walks {p : Program (Intake σ) α} {P : Pipeline → Except Failure α → Pipeline → Prop}
    (h : Quietly p P) (hP : ∀ a r b, P a r b → a.Walks b) :
    Maintains (fun s => p₀.Walks s.pipeline) p := by
  intro s hs
  obtain ⟨-, -, -, hp⟩ := h s
  exact hs.trans (hP _ _ _ hp)

theorem commit_walks (hp₀ : p₀.Sound) (id : DraftId) :
    Maintains (fun s : Intake σ => p₀.Walks s.pipeline) (commit id) := by
  intro s h
  by_cases hc : s.pipeline.current = some id
  · obtain ⟨d, hd, hlive⟩ := (h.sound hp₀).live id hc
    obtain ⟨-, e, -, -, hq, hblock⟩ := commit_runFrom s hc hd hlive
    rw [hq]
    exact h.tail (.settled _ hc hd hblock)
  · rw [commit_refused hc]
    exact h

theorem ingestBlock_walks (hp₀ : p₀.Sound) (b : Block) :
    Maintains (fun s : Intake σ => p₀.Walks s.pipeline) (ingestBlock b) := by
  refine Maintains.get_bind fun s => ?_
  split
  · exact .pure false
  · refine (onLink_walks _).bind fun found => ?_
    cases found with
    | true => exact .pure false
    | false =>
      refine (beginBlock_walks hp₀ b).bind fun id => ?_
      refine (onDraft_walks hp₀ id fun d => d.leads_addTransactions _ _).bind fun _ => ?_
      exact (commit_walks hp₀ id).bind fun _ => .pure true

end Intake

variable {σ : Type} [Server σ]

open Intake in
/-- Every operation is a walk. -/
theorem Op.program_walks {p₀ : Pipeline} (hp₀ : p₀.Sound) (op : Op) :
    Maintains (fun s => p₀.Walks s.pipeline) (op.program (σ := σ)) := by
  cases op with
  | startup =>
    exact (startup_quietly.walks fun _ _ _ h => Pipeline.walks_restarts h).bind fun _ => .pure _
  | needsBootstrap =>
    refine (needsBootstrap_quietly.walks ?_).bind fun _ => .pure _
    rintro a - _ rfl
    exact .refl
  | beginBlock b => exact (beginBlock_walks hp₀ b).bind fun _ => .pure _
  | addTransaction id t seqNum =>
    exact (onDraft_walks hp₀ id fun d => d.leads_addTransaction t seqNum).bind fun _ => .pure _
  | addAction id trxId a seqNum =>
    exact (onDraft_walks hp₀ id fun d => d.leads_addAction trxId a seqNum).bind fun _ => .pure _
  | flush id =>
    refine (onDraft_walks hp₀ id fun d => ?_).bind fun _ => .pure _
    split
    · next h => exact Draft.leads_of_flush h
    · exact .refl
  | discard id => exact (onDraft_walks hp₀ id fun d => d.leads_discard).bind fun _ => .pure _
  | abort id => exact (update_walks hp₀ fun p hp => hp.walks_abort id).bind fun _ => .pure _
  | commit id => exact (commit_walks hp₀ id).bind fun _ => .pure _
  | ingestBlock b => exact (ingestBlock_walks hp₀ b).bind fun _ => .pure _
  | markIrreversible blockId =>
    refine ((markIrreversible_quietly blockId).walks ?_).bind fun _ => .pure _
    rintro a - _ rfl
    exact .refl

theorem after_walks (ops : List Op) {s : Intake σ} (hs : s.pipeline.Sound) :
    s.pipeline.Walks (after ops s).pipeline := by
  induction ops generalizing s with
  | nil => exact .refl
  | cons op ops ih =>
    have hop : s.pipeline.Walks (op.perform s).after.pipeline := op.program_walks hs s .refl
    exact hop.trans (ih (hop.sound hs))

end ChainArchive.Ingest
