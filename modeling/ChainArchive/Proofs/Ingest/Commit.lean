import ChainArchive.Proofs.Ingest.Frame
import ChainArchive.Proofs.Session.Steps
import ChainArchive.Server.Scripted

namespace ChainArchive.Ingest

open ChainArchive.Copy ChainArchive.Record ChainArchive.Link

variable {σ : Type} [Server σ]

/-- The steps that write what a draft holds. -/
def Draft.steps (d : Draft) : List Step :=
  (RowTable.all.flatMap fun u => copyStep u (d.rows.rows u)) ++ bracketSteps d.batch

def blockLine (b : Block) (xs : List Addition) : List Char :=
  encodeRow (blockRow b (some (numbered xs 0).length))

def transactionLine (b : Block) (xs : List Addition) (p : Transaction × Int) : List Char :=
  encodeRow (transactionRow b p.1 p.2 (some (((deliveries xs).map (·.trxId)).count p.1.trxId)))

def blockCalls (b : Block) (xs : List Addition) : Batch :=
  (deliveries xs).flatMap (callsOf ·.action) ++
    [⟨"update_stat", [.text Checkpoint.lastSyncKey, .text b.blockId], none⟩]

def commitSteps (b : Block) (xs : List Addition) : List Step :=
  .copy .blocks [blockLine b xs] ::
    (copyStep .transactions ((numbered xs 0).map (transactionLine b xs)) ++
      (copyStep .actions ((deliveries xs).map (Delivered.row b)) ++
        bracketSteps (blockCalls b xs)))

theorem Draft.Holds.steps_eq {d : Draft} {b : Block} {xs : List Addition} (h : d.Holds b xs) :
    d.flushed.advance.steps = commitSteps b xs := by
  have hblocks : d.flushed.advance.rows.rows .blocks = [blockLine b xs] := by
    simp [advance, flushed, h.blocks_eq, h.block_eq, h.trxCount_eq, blockLine]
  have htrxs : d.flushed.advance.rows.rows .transactions =
      (numbered xs 0).map (transactionLine b xs) := by
    simp only [advance, flushed, h.transactions_eq, h.pending_eq, List.nil_append]
    refine List.map_congr_left fun p _ => ?_
    simp [countedRow, actionsOf, h.block_eq, h.delivered_eq, transactionLine]
  have hacts : d.flushed.advance.rows.rows .actions = (deliveries xs).map (Delivered.row b) := by
    simp [advance, flushed, h.actions_eq]
  have hbatch : d.flushed.advance.batch = blockCalls b xs := by
    simp [advance, flushed, h.batch_eq, h.block_eq, blockCalls, Checkpoint.advance,
      Checkpoint.updateStat, Batch.add]
  simp [steps, RowTable.all, hblocks, htrxs, hacts, hbatch, commitSteps, copyStep]

/-- The writes of an open draft begin with the transfer of its own row. -/
theorem Draft.steps_flushed (d : Draft) : d.flushed.advance.steps =
    .copy .blocks (d.flushed.rows.rows .blocks) ::
      (copyStep .transactions (d.flushed.rows.rows .transactions) ++
        (copyStep .actions (d.flushed.rows.rows .actions) ++
          bracketSteps d.flushed.advance.batch)) := by
  have hrows : d.flushed.rows.rows .blocks ≠ [] := by
    change d.rows.rows .blocks ++ [_] ≠ []
    simp
  have hcopy : copyStep .blocks (d.flushed.rows.rows .blocks) =
      [.copy .blocks (d.flushed.rows.rows .blocks)] := if_neg (by simpa using hrows)
  have hadvance : d.flushed.advance.rows = d.flushed.rows := rfl
  simp [steps, RowTable.all, hadvance, hcopy]

namespace Intake

/-- The outcome of writing a draft: steps `ss` were written and the draft keeps its block. -/
structure Sent (s : Intake σ) (id : DraftId) (d : Draft) (ss : List Step) (r : Except Failure Unit)
    (s' : Intake σ) (es : List Entry) : Prop where
  link_sends : Sends s.link es s'.link
  written : Written s.link.terms ss r es
  pipeline_eq : ∃ d', s'.pipeline = s.pipeline.setDraft id d' ∧ d'.block = d.block ∧
    d'.discarded = d.discarded

omit [Server σ] in
theorem onLink_runFrom {α : Type} (p : Program (Link σ) α) (s : Intake σ) :
    (onLink p).runFrom s = ((p.runFrom s.link).1, { s with link := (p.runFrom s.link).2 }) := rfl

omit [Server σ] in
theorem update_runFrom (f : Pipeline → Pipeline) (s : Intake σ) :
    (update f).runFrom s = (.ok (), { s with pipeline := f s.pipeline }) := rfl

theorem setDraft_setDraft (p : Pipeline) (id : DraftId) (d d' : Draft) :
    (p.setDraft id d).setDraft id d' = p.setDraft id d' := by
  simp [Pipeline.setDraft, List.set_set]

theorem rowsCommit_records (t : Terms) (b : RowBuffer) :
    Records (σ := σ) t b.commit fun r es =>
      InTurn t (RowTable.all.flatMap fun u => copyStep u (b.rows u)) (r.map fun _ => ()) es :=
  (RowBuffer.transferEach_records t b RowTable.all).bind
    (S := fun _ r fs => r = .ok .empty ∧ fs = []) (fun _ => .pure ⟨rfl, rfl⟩)
    (fun _ _ h => h) (by rintro x es r fs h ⟨rfl, rfl⟩; simpa [Except.map] using h)

theorem isStart_of_copied {t : Terms} {us : List RowTable} {b : RowBuffer}
    {r : Except Failure Unit} {es : List Entry}
    (h : InTurn t (us.flatMap fun u => copyStep u (b.rows u)) r es) :
    es.any Entry.isStart = false := by
  have hall : es.all (!Entry.isStart ·) = true := by
    refine h.all_entries fun s hs r es hsent => ?_
    obtain ⟨u, -, hu⟩ := List.mem_flatMap.mp hs
    unfold copyStep at hu
    split at hu
    · cases hu
    · cases List.mem_singleton.mp hu
      cases hsent with
      | copy hsent => cases hsent <;> rfl
  simpa using hall

theorem send_runFrom (s : Intake σ) {d : Draft} (id : DraftId) (hd : d.discarded = false) :
    ∃ es, Sent s id d d.flushed.advance.steps ((send id d).runFrom s).1
      ((send id d).runFrom s).2 es := by
  simp only [send, Program.runFrom_bind, Program.runFrom_lift, Draft.flush_eq hd, update_runFrom,
    onLink_runFrom]
  have he : d.flushed.advance.batch ≠ [] := by
    change d.flushed.batch ++ _ ≠ []
    simp
  have hblock : d.flushed.advance.block = d.block := rfl
  have hdisc : d.flushed.advance.discarded = d.discarded := rfl
  generalize d.flushed.advance = e at he hblock hdisc
  obtain ⟨es, hs, hw⟩ := rowsCommit_records s.link.terms e.rows s.link rfl
  -- Transfers start no transaction, so the batch alone decides how the entries are closed.
  have hcl : ∀ r sent, closing r (es ++ sent) = closing r sent := by
    intro r sent
    cases r <;> simp [closing, isStart_of_copied hw]
  cases hr : (e.rows.commit).runFrom s.link with
  | mk r m =>
    rw [hr] at hs hw
    cases r with
    | error f =>
      refine ⟨es, hs, ⟨es, hw.append_stop, ?_⟩, e, rfl, hblock, hdisc⟩
      simp [closing, isStart_of_copied hw]
    | ok rows =>
      obtain ⟨fs, hs', sent, hw', rfl⟩ := Batch.commit_records s.link.terms e.batch he m hs.terms_eq
      cases hb : (Batch.commit e.batch).runFrom m with
      | mk r n =>
        rw [hb] at hs' hw'
        simp only [hb]
        cases r with
        | error f =>
          refine ⟨_, hs.trans hs', ⟨es ++ sent, hw.append hw', ?_⟩, { e with rows }, ?_, hblock,
            hdisc⟩
          · rw [hcl, List.append_assoc]
            rfl
          · exact setDraft_setDraft ..
        | ok b =>
          refine ⟨_, hs.trans hs', ⟨es ++ sent, hw.append hw', ?_⟩, { e with rows, batch := b }, ?_,
            hblock, hdisc⟩
          · rw [hcl, List.append_assoc]
            rfl
          · simp only [setDraft_setDraft]

def concluded (b : Block) : Except Failure Unit → Pipeline → Pipeline
  | .ok (), p => { p with current := none, lastSync := some b.blockId }
  | .error f, p =>
    { p with
      current := none
      halted := if f.isDatabase then some (haltReason b f) else p.halted }

def concluding (b : Block) (P : Program (Intake σ) Unit) : Program (Intake σ) Unit := do
  (P.onFailure (haltOn b)).ensuring fun s => { s with pipeline.current := none }
  update fun p => { p with lastSync := some b.blockId }

omit [Server σ] in
theorem concluding_runFrom (b : Block) (P : Program (Intake σ) Unit) (s : Intake σ) :
    (concluding b P).runFrom s = ((P.runFrom s).1,
      ⟨concluded b (P.runFrom s).1 (P.runFrom s).2.pipeline, (P.runFrom s).2.link⟩) := by
  simp only [concluding, Program.runFrom_bind, Program.runFrom_ensuring,
    Program.runFrom_onFailure, update_runFrom]
  cases P.runFrom s with
  | mk r t =>
    cases r with
    | ok _ => rfl
    | error f =>
      cases hf : f.isDatabase with
      | true => simp only [haltOn, concluded, hf, ↓reduceIte]
      | false => simp only [haltOn, concluded, hf, Bool.false_eq_true, ↓reduceIte]

theorem commit_eq {s : Intake σ} {id : DraftId} {d : Draft} (hc : s.pipeline.current = some id)
    (hid : s.pipeline.draft? id = some d) :
    (commit id).runFrom s = (concluding d.block (send id d)).runFrom s := by
  simp only [commit, concluding, Program.runFrom_bind, Program.runFrom_get, hid, hc, ne_eq,
    not_true_eq_false, ↓reduceIte]

def settled (p : Pipeline) (id : DraftId) (d : Draft) : Except Failure Unit → Pipeline
  | .ok () => { p.setDraft id d with current := none, lastSync := some d.block.blockId }
  | .error f =>
    { p.setDraft id d with
      current := none
      halted := if f.isDatabase then some (haltReason d.block f) else p.halted }

theorem settled_current (p : Pipeline) (id : DraftId) (d : Draft) (r : Except Failure Unit) :
    (settled p id d r).current = none := by
  cases r <;> rfl

theorem settled_started (p : Pipeline) (id : DraftId) (d : Draft) (r : Except Failure Unit) :
    (settled p id d r).started = p.started := by
  cases r <;> rfl

theorem commit_unknown {s : Intake σ} {id : DraftId} (h : s.pipeline.draft? id = none) :
    (commit id).runFrom s = (.error .notTheOpenUnit, s) := by
  simp only [commit, Program.runFrom_bind, Program.runFrom_get, h]
  rfl

theorem commit_refused {s : Intake σ} {id : DraftId} (h : s.pipeline.current ≠ some id) :
    (commit id).runFrom s = (.error .notTheOpenUnit, s) := by
  simp only [commit, Program.runFrom_bind, Program.runFrom_get]
  cases s.pipeline.draft? id with
  | none => rfl
  | some d =>
    simp only [ne_eq, h, not_false_eq_true, ↓reduceIte]
    rfl

theorem commit_runFrom (s : Intake σ) {id : DraftId} {d : Draft}
    (hc : s.pipeline.current = some id) (hid : s.pipeline.draft? id = some d)
    (hd : d.discarded = false) :
    ∃ es d', Sends s.link es ((commit id).runFrom s).2.link ∧
      Written s.link.terms d.flushed.advance.steps ((commit id).runFrom s).1 es ∧
      ((commit id).runFrom s).2.pipeline = settled s.pipeline id d' ((commit id).runFrom s).1 ∧
      d'.block = d.block := by
  obtain ⟨es, hs, hw, d', hp, hb, -⟩ := send_runFrom s id hd
  rw [commit_eq hc hid, concluding_runFrom]
  refine ⟨es, d', hs, hw, ?_, hb⟩
  rw [hp, ← hb]
  cases ((send id d).runFrom s).1 <;> rfl

end Intake

end ChainArchive.Ingest
