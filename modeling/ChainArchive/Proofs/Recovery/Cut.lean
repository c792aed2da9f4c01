import ChainArchive.Proofs.Recovery.Phases

namespace ChainArchive

open ChainArchive.Copy ChainArchive.Ingest ChainArchive.Link ChainArchive.Record

variable {version : String} {done rest : List Block} {b : Block} {x : Books} {es fs : List Entry}
  {t : Terms} {r : Except Failure Unit}

def Books.Throughout (P : Books → Prop) (x : Books) (es : List Entry) : Prop :=
  ∀ pre, pre <+: es → P (x.takeAll pre)

namespace Books.Throughout

variable {P : Books → Prop}

theorem nil (h : P x) : x.Throughout P [] := by
  intro pre hpre
  cases List.prefix_nil.mp hpre
  exact h

theorem cons {e : Entry} (h : P x) (hs : (x.take e).Throughout P es) :
    x.Throughout P (e :: es) := by
  intro pre hpre
  cases pre with
  | nil => exact h
  | cons e' pre =>
    obtain ⟨rfl, htail⟩ := List.cons_prefix_cons.mp hpre
    exact hs pre htail

theorem append (h : x.Throughout P es) (hs : (x.takeAll es).Throughout P fs) :
    x.Throughout P (es ++ fs) := by
  intro pre hpre
  obtain hp | ⟨tail, rfl⟩ := List.prefix_or_prefix_of_prefix hpre (List.prefix_append es fs)
  · exact h pre hp
  · rw [Books.takeAll_append]
    exact hs tail ((List.prefix_append_right_inj es).mp hpre)

theorem of_mild (h : ∀ fs, fs.all Entry.mild = true → P (x.takeAll fs))
    (hm : es.all Entry.mild = true) : x.Throughout P es := by
  intro pre hpre
  refine h pre ?_
  rw [List.all_eq_true] at hm ⊢
  exact fun e he => hm e (hpre.subset he)

end Books.Throughout

theorem Books.Settled.throughout (hx : x.Settled version done) (hm : es.all Entry.mild = true) :
    x.Throughout (Recoverable version (done ++ rest)) es :=
  .of_mild (fun _ hm => (hx.takeAll_mild hm).recoverable rest) hm

theorem Books.Torn.throughout (hx : x.Torn version done b) (hm : es.all Entry.mild = true) :
    x.Throughout (Recoverable version (done ++ b :: rest)) es :=
  .of_mild (fun _ hm => (hx.takeAll_mild hm).recoverable rest) hm

def mildPlan (plan : String) : Prop := plan ≠ "insert_stat" ∧ plan ≠ "update_stat"

theorem mild_registered {p : Plan} (h : Registered t p es) : es.all Entry.mild = true := by
  cases h <;> rfl

theorem mild_ran {raise : ServerError → Failure} {plan : String} {args : List Value}
    {r : Except Failure Value} (h : Ran t raise plan args r es)
    (hp : mildPlan plan ∨ ∃ f, r = .error f) : es.all Entry.mild = true := by
  cases h with
  | unknown | cutOff | refused => rfl
  | failed p es e hf hr => simp [mild_registered hr, Entry.mild]
  | answered p es v hf hr =>
    obtain ⟨hi, hu⟩ | ⟨f, hr⟩ := hp
    · have hname := Statement.name_of_find? hf
      simp [mild_registered hr, Entry.mild, hname, hi, hu]
    · cases hr

theorem mild_called {c : Call} (h : Batch.Called t c r es) (hp : mildPlan c.plan)
    (hn : ∀ next, c.next = some next → mildPlan next.plan) : es.all Entry.mild = true := by
  cases h with
  | first h => exact mild_ran h (.inl hp)
  | plain _ h => exact mild_ran h (.inl hp)
  | absent _ _ h => exact mild_ran h (.inl hp)
  | second hnext _ h h' =>
    rw [List.all_append, mild_ran h (.inl hp), mild_ran h' (.inl (hn _ hnext))]
    rfl
  | chained hnext _ h h' =>
    rw [List.all_append, mild_ran h (.inl hp), mild_ran h' (.inl (hn _ hnext))]
    rfl

theorem mildPlan_of_mem {plan : String} (h : plan ∈ entityPlans) : mildPlan plan := by
  have hall : ∀ p ∈ entityPlans, p ≠ "insert_stat" ∧ p ≠ "update_stat" := by decide
  exact hall plan h

theorem mild_copyStep {table : RowTable} {rows : List (List Char)} (ht : table ≠ .blocks)
    (h : InTurn t (copyStep table rows) r es) : es.all Entry.mild = true := by
  refine h.all_entries fun s hs r es hsent => ?_
  unfold copyStep at hs
  split at hs
  · cases hs
  · cases List.mem_singleton.mp hs
    cases hsent with
    | copy hsent =>
      cases hsent with
      | cutOff | failed => rfl
      | done v =>
        cases table with
        | blocks => exact absurd rfl ht
        | transactions | actions => rfl

theorem mild_entityCalls {xs : List Delivered}
    (h : InTurn t ((xs.flatMap (callsOf ·.action)).map .call) r es) :
    es.all Entry.mild = true := by
  refine h.all_entries fun s hs r es hsent => ?_
  obtain ⟨c, hc, rfl⟩ := List.mem_map.mp hs
  obtain ⟨a, -, ha⟩ := List.mem_flatMap.mp hc
  obtain ⟨hp, hn⟩ := callsOf_onEntities a.action c ha
  cases hsent with
  | call hsent => exact mild_called hsent (mildPlan_of_mem hp) fun n h => mildPlan_of_mem (hn n h)

def moveCall (b : Block) : Call :=
  ⟨"update_stat", [.text Checkpoint.lastSyncKey, .text b.blockId], none⟩

inductive Tail : Except Failure Unit → List Entry → Prop
  | done : Tail (.ok ()) []
  | bare (f : Failure) : Tail (.error f) []
  | rolledBack (f : Failure) : Tail (.error f) [.marked .rollback]

theorem tail_closing (r : Except Failure Unit) (sent : List Entry) : Tail r (closing r sent) := by
  cases r with
  | ok _ => exact .done
  | error f =>
    simp only [closing]
    split
    · exact .rolledBack f
    · exact .bare f

/-- The books can be cut anywhere in the rest of a commit, and are settled on its block if that
succeeds. -/
def Books.Survives (t : Terms) (version : String) (done : List Block) (b : Block)
    (rest : List Block) (x : Books) (ss : List Step) : Prop :=
  ∀ r es tail, InTurn t ss r es → Tail r tail →
    x.Throughout (Recoverable version (done ++ b :: rest)) (es ++ tail) ∧
      (r = .ok () → (x.takeAll es).Settled version (done ++ [b]))

namespace Books

theorem Throughout.tail {P : Books → Prop} {f : Failure} {tail : List Entry}
    (ht : Tail (.error f) tail) (h : P x) (hr : P (x.take (.marked .rollback))) :
    x.Throughout P tail := by
  cases ht with
  | bare => exact .nil h
  | rolledBack => exact .cons h (.nil hr)

theorem Torn.throughout_tail {f : Failure} {tail : List Entry} (hx : x.Torn version done b)
    (ht : Tail (.error f) tail) :
    x.Throughout (Recoverable version (done ++ b :: rest)) tail :=
  .tail ht (hx.recoverable rest) ((hx.take_mark (by decide)).recoverable rest)

theorem Settled.throughout_tail {f : Failure} {tail : List Entry} (hx : x.Settled version done)
    (ht : Tail (.error f) tail) :
    x.Throughout (Recoverable version (done ++ rest)) tail :=
  .tail ht (hx.recoverable rest) (hx.take_rollback.recoverable rest)

theorem Survives.append {I : Books → Prop}
    (hI : ∀ {x es}, I x → es.all Entry.mild = true → I (x.takeAll es))
    (hT : ∀ {x}, I x → x.Torn version done b) {ss ss' : List Step}
    (hm : ∀ r es, InTurn t ss r es → es.all Entry.mild = true)
    (hs : ∀ x, I x → x.Survives t version done b rest ss') (hx : I x) :
    x.Survives t version done b rest (ss ++ ss') := by
  intro r es tail h ht
  obtain ⟨h, f, rfl⟩ | ⟨fs, gs, hf, hg, rfl⟩ := h.of_append
  · have hmild := hm _ _ h
    refine ⟨((hT hx).throughout hmild).append ?_, fun hr => by cases hr⟩
    exact ((hT hx).takeAll_mild hmild).throughout_tail ht
  · have hmild := hm _ _ hf
    obtain ⟨hthrough, hok⟩ := hs _ (hI hx hmild) r gs tail hg ht
    refine ⟨?_, fun hr => ?_⟩
    · rw [List.append_assoc]
      exact ((hT hx).throughout hmild).append hthrough
    · rw [takeAll_append]
      exact hok hr

/-- The end of a commit: the move of the checkpoint in the open transaction, and its commit. -/
theorem Torn.survives_move (hx : x.Torn version done b) (hb : x.store.bracket.isSome = true)
    (hc : t.connection ≠ .released) :
    x.Survives t version done b rest [.call (moveCall b), .mark .commit] := by
  intro r es tail h ht
  cases h with
  | stop h =>
    -- A call that failed is mild, even one that would have moved the checkpoint.
    cases h with
    | call h =>
      have hmild : es.all Entry.mild = true := by
        cases h with
        | first h => exact mild_ran h (.inr ⟨_, rfl⟩)
        | absent hn => cases hn
        | second hn => cases hn
      refine ⟨(hx.throughout hmild).append ?_, fun hr => by cases hr⟩
      exact (hx.takeAll_mild hmild).throughout_tail ht
  | cons hcall hcommit =>
    cases hcall with
    | call hcall =>
      cases hcall with
      | chained hn => cases hn
      | @plain v _ hn hran =>
        cases hran with
        | answered p es _ hf hreg =>
          have hmild := mild_registered hreg
          have hmoved : ((x.takeAll es).take (.asked (.run p (moveCall b).args) (.ok v))).Moved
              version done b :=
            (hx.takeAll_mild hmild).take_moved (isSome_bracket_takeAll hb hmild)
              (Statement.name_of_find? hf)
          have hsettled := hmoved.take_commit
          cases hcommit with
          | stop h =>
            cases h with
            | unmarked h => exact absurd h hc
          | cons hmark hnil =>
            cases hmark
            cases hnil
            cases ht
            refine ⟨?_, fun _ => ?_⟩
            · rw [List.append_assoc, List.append_assoc]
              refine (hx.throughout hmild).append ?_
              refine .cons ((hx.takeAll_mild hmild).recoverable rest) ?_
              -- The moved checkpoint is not durable before the commit.
              refine .cons (hmoved.recoverable rest) (.nil ?_)
              simpa using hsettled.recoverable rest
            · rw [List.append_nil, takeAll_append, takeAll_append]
              exact hsettled

theorem Torn.survives_start {ss : List Step} (hc : t.connection ≠ .released)
    (hs : ∀ x : Books, x.Torn version done b → x.store.bracket.isSome = true →
      x.Survives t version done b rest ss) (hx : x.Torn version done b) :
    x.Survives t version done b rest (.mark .start :: ss) := by
  intro r es tail h ht
  cases h with
  | stop h =>
    cases h with
    | unmarked h => exact absurd h hc
  | cons hmark h =>
    cases hmark
    have hstarted : (x.take (.marked .start)).Torn version done b := hx.take_mark (by decide)
    obtain ⟨hthrough, hok⟩ := hs _ hstarted rfl r _ tail h ht
    exact ⟨.cons (hx.recoverable rest) hthrough, hok⟩

theorem Torn.survives_calls {xs : List Delivered} (hx : x.Torn version done b)
    (hb : x.store.bracket.isSome = true) (hc : t.connection ≠ .released) :
    x.Survives t version done b rest ((xs.flatMap (callsOf ·.action)).map .call ++
      [.call (moveCall b), .mark .commit]) := by
  refine Survives.append (I := fun x => x.Torn version done b ∧ x.store.bracket.isSome = true)
    (fun hx hm => ⟨hx.1.takeAll_mild hm, isSome_bracket_takeAll hx.2 hm⟩) (fun hx => hx.1)
    (fun r es h => mild_entityCalls h) (fun x hx => hx.1.survives_move hx.2 hc) ⟨hx, hb⟩

theorem Torn.survives_copy (table : RowTable) {rows : List (List Char)} {ss : List Step}
    (htable : table ≠ .blocks)
    (hs : ∀ x : Books, x.Torn version done b → x.Survives t version done b rest ss)
    (hx : x.Torn version done b) :
    x.Survives t version done b rest (copyStep table rows ++ ss) :=
  Survives.append (I := fun x => x.Torn version done b) Torn.takeAll_mild id
    (fun _ _ h => mild_copyStep htable h) hs hx

end Books

/-- Wherever a commit is cut, the books are recoverable, and if it succeeds, they are settled on
its block. -/
theorem Books.Settled.throughout_commit {xs : List Addition} (hx : x.Settled version done)
    (rest : List Block) (hc : t.connection ≠ .released) (h : Written t (commitSteps b xs) r es) :
    x.Throughout (Recoverable version (done ++ b :: rest)) es ∧
      (r = .ok () → (x.takeAll es).Settled version (done ++ [b])) := by
  obtain ⟨sent, h, rfl⟩ := h
  have hsteps : commitSteps b xs = .copy .blocks [blockLine b xs] ::
      (copyStep .transactions ((numbered xs 0).map (transactionLine b xs)) ++
        (copyStep .actions ((deliveries xs).map (Delivered.row b)) ++
          (.mark .start :: (((deliveries xs).flatMap (callsOf ·.action)).map .call ++
            [.call (moveCall b), .mark .commit])))) := by
    simp [commitSteps, bracketSteps, blockCalls, moveCall]
  rw [hsteps] at h
  have htail := tail_closing r sent
  cases h with
  | stop h =>
    -- The row of the block was not transferred, so nothing else was sent.
    refine ⟨?_, fun hr => by cases hr⟩
    cases h with
    | copy h =>
      cases h with
      | cutOff => exact hx.throughout_tail htail
      | failed f =>
        exact .cons (hx.recoverable (b :: rest)) ((hx.take_mild rfl).throughout_tail htail)
  | cons hcopy h =>
    cases hcopy with
    | copy hcopy =>
      cases hcopy with
      | done v =>
        have htorn := hx.take_blockRow (v := v) b (some (numbered xs 0).length)
        -- From here on the block is ahead of the checkpoint, up to the commit.
        have hcalls : ∀ x : Books, x.Torn version done b → x.store.bracket.isSome = true →
            x.Survives t version done b rest
              (((deliveries xs).flatMap (callsOf ·.action)).map .call ++
                [.call (moveCall b), .mark .commit]) :=
          fun x hx hb => hx.survives_calls hb hc
        have hsurvives := htorn.survives_copy .transactions (by decide)
          (fun x hx => hx.survives_copy .actions (by decide)
            (fun x hx => hx.survives_start hc hcalls)) r _ _ h htail
        refine ⟨.cons (hx.recoverable (b :: rest)) hsurvives.1, ?_⟩
        rintro rfl
        rw [closing, List.append_nil]
        exact hsurvives.2 rfl

end ChainArchive
