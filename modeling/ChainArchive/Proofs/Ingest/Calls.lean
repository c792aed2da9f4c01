import ChainArchive.Proofs.Ingest.Contents
import Mathlib.Logic.Relation

namespace ChainArchive.Ingest

open ChainArchive.Record

/-- What a call does to a draft that was not dropped. -/
inductive Draft.Change : Draft → Draft → Prop
  | enlist {d : Draft} (t : Transaction) (seqNum : Option Int) : d.discarded = false →
      Change d (d.enlist t seqNum)
  | extend {d : Draft} (x : Delivered) : d.discarded = false → Change d (d.extend x)
  | flush {d : Draft} : d.discarded = false → Change d d.flushed
  | discard {d : Draft} : d.discarded = false → Change d d.discard

abbrev Draft.Leads : Draft → Draft → Prop := Relation.ReflTransGen Draft.Change

namespace Draft

variable {d e : Draft}

theorem block_discard (d : Draft) : d.discard.block = d.block := by
  unfold discard
  split <;> rfl

theorem discarded_discard (d : Draft) : d.discard.discarded = true := by
  unfold discard
  split
  · assumption
  · rfl

theorem Change.live (h : d.Change e) : d.discarded = false := by
  cases h <;> assumption

theorem Change.block_eq (h : d.Change e) : e.block = d.block := by
  cases h with
  | discard => exact d.block_discard
  | enlist | extend | flush => rfl

theorem Change.eq_discard (h : d.Change e) (he : e.discarded = true) : e = d.discard := by
  cases h with
  | discard => rfl
  | enlist _ _ hd | extend _ hd | flush hd => cases hd.symm.trans he

/-- What holds of the calls of all actions and of those that a draft collected, holds of those that
it collects. -/
theorem Change.forall_calls {P : Call → Prop} (hP : ∀ a, ∀ c ∈ callsOf a, P c) (h : d.Change e)
    (hd : ∀ c ∈ d.batch, P c) : ∀ c ∈ e.batch, P c := by
  cases h with
  | enlist | flush => exact hd
  | extend x =>
    intro c hc
    obtain hc | hc := List.mem_append.mp hc
    · exact hd c hc
    · exact hP x.action c hc
  | discard hlive => simp [Draft.discard, hlive]

theorem discard_of_discarded (hd : d.discarded = true) : d.discard = d := by
  rw [discard, if_pos hd]

theorem leads_discard (d : Draft) : d.Leads d.discard := by
  cases hd : d.discarded with
  | true => rw [discard_of_discarded hd]
  | false => exact .single (.discard hd)

theorem leads_addAction (d : Draft) (trxId : String) (a : Action) (n : Int) :
    d.Leads (d.addAction trxId a n).2 := by
  obtain ⟨-, h⟩ | ⟨-, e, -, h⟩ | ⟨hd, -, h⟩ := addAction_cases d trxId a n
  · rw [h]
  · rw [h]
    exact d.leads_discard
  · rw [h]
    exact .single (.extend _ hd)

theorem leads_addActions (d : Draft) (trxId : String) (as : List Action) (n : Nat) :
    d.Leads (d.addActions trxId as n).2 := by
  induction as generalizing d n with
  | nil => exact .refl
  | cons a as ih =>
    have ha := d.leads_addAction trxId a n
    rw [addActions]
    split
    · next d' h =>
      rw [h] at ha
      exact ha.trans (ih d' (n + 1))
    · next e d' h =>
      rw [h] at ha
      exact ha

theorem leads_addTransaction (d : Draft) (t : Transaction) (seqNum : Option Int) :
    d.Leads (d.addTransaction t seqNum).2 := by
  cases hd : d.discarded with
  | true =>
    simp only [addTransaction, checkOpen, hd, ↓reduceIte]
    exact .refl
  | false =>
    rw [addTransaction_eq hd]
    exact .head (.enlist t seqNum hd) (leads_addActions _ t.trxId t.actions 0)

theorem leads_addTransactions (d : Draft) (ts : List Transaction) (n : Nat) :
    d.Leads (d.addTransactions ts n).2 := by
  induction ts generalizing d n with
  | nil => exact .refl
  | cons t ts ih =>
    have ht := d.leads_addTransaction t (some n)
    rw [addTransactions]
    split
    · next d' h =>
      rw [h] at ht
      exact ht.trans (ih d' (n + 1))
    · next e d' h =>
      rw [h] at ht
      exact ht

theorem leads_takeUp (d : Draft) (x : Addition) : d.Leads (d.takeUp x).2 := by
  cases x with
  | transaction t seqNum => exact d.leads_addTransaction t seqNum
  | action trxId a n => exact d.leads_addAction trxId a n

theorem leads_of_flush (h : d.flush = .ok e) : d.Leads e := by
  cases hd : d.discarded with
  | true => simp [flush, checkOpen, hd, bind, Except.bind] at h
  | false =>
    rw [flush_eq hd] at h
    cases h
    exact .single (.flush hd)

theorem Leads.block_eq (h : d.Leads e) : e.block = d.block := by
  induction h with
  | refl => rfl
  | tail _ hstep ih => exact hstep.block_eq.trans ih

end Draft

end ChainArchive.Ingest
