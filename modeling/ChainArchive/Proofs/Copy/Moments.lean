import ChainArchive.Proofs.Copy.Decode
import ChainArchive.Proofs.Ingest.Documents
import ChainArchive.Proofs.Time.RoundTrip
import ChainArchive.Record.Chain

namespace ChainArchive

namespace Copy

open ChainArchive.Time ChainArchive.Time.Moment

theorem escape_eq_self {cs : List Char} (h : ∀ c ∈ cs, c ∉ ['\\', '\t', '\n', '\r']) :
    escape cs = cs := by
  induction cs with
  | nil => rfl
  | cons c cs ih =>
    rw [List.forall_mem_cons] at h
    obtain ⟨hc, -⟩ | ⟨-, he⟩ := escapeChar_cases c
    · exact absurd hc h.1
    · rw [escape_cons, he, ih h.2, List.singleton_append]

theorem escape_padded (width n : Nat) : escape (padded width n) = padded width n := by
  have hseparators : ∀ c ∈ ['\\', '\t', '\n', '\r'], c.isDigit = false := by simp [Char.isDigit]
  refine escape_eq_self fun c hc hsep => ?_
  exact Bool.false_ne_true ((hseparators c hsep).symm.trans (isDigit_of_mem_padded hc))

theorem escapeChar_mark : escapeChar '-' = ['-'] ∧ escapeChar '+' = ['+'] ∧
    escapeChar ':' = [':'] ∧ escapeChar '.' = ['.'] ∧ escapeChar 'T' = ['T'] := by
  decide

theorem escape_offsetText (o : Int) : escape (offsetText o) = offsetText o := by
  simp only [offsetText]
  split <;> split <;>
    simp [escape_append, escape_cons, escape_padded, escapeChar_mark]

theorem encodeField_moment (t : Moment) : encodeField (.moment t) = t.textWith 'T' := by
  have hmicro : escape (if t.micro = 0 then [] else '.' :: padded 6 t.micro) =
      if t.micro = 0 then [] else '.' :: padded 6 t.micro := by
    split
    · rfl
    · rw [escape_cons, escape_padded, escapeChar_mark.2.2.2.1, List.singleton_append]
  simp only [encodeField, fieldText, writeField, textWith, dateText, timeText]
  cases t.offset <;>
    simp [escape_append, escape_cons, escape_padded, escape_offsetText, escapeChar_mark, hmicro]

/-- The field of a moment carries the offset, and it reads as the moment in a record. -/
structure Keeps (t : Moment) : Prop where
  offset : ∃ o, t.offset = some o ∧
    encodeField (.moment t) = t.dateText ++ 'T' :: (t.timeText ++ offsetText o)
  moment : Record.moment (.text (String.ofList (encodeField (.moment t)))) = .valid t

theorem keeps_of_zoned {t : Moment} (h : t.Zoned) : Keeps t := by
  have hread := readMoment_iso h
  obtain ⟨o, ho, -⟩ := h
  refine ⟨⟨o, ho, ?_⟩, ?_⟩
  · rw [encodeField_moment, textWith_of_offset ho]
  · rw [encodeField_moment, ← iso, Record.moment, hread]

end Copy

namespace Record

open ChainArchive.Copy ChainArchive.Time

theorem zoned_of_inRange {m : Option Moment} {t : Moment} (hm : ∀ u, m = some u → u.Zoned)
    (h : inRange m = .valid t) : t.Zoned := by
  cases m with
  | none => cases h
  | some u =>
    cases h
    exact hm _ rfl

theorem zoned_of_moment {j : Json} {t : Moment} (h : moment j = .valid t) : t.Zoned := by
  cases j with
  | int n => exact zoned_of_inRange (fun _ => Moment.zoned_of_ofUnixMicros?) h
  | float x =>
    refine zoned_of_inRange (fun u hu => ?_) h
    obtain ⟨n, -, hn⟩ := Option.bind_eq_some_iff.mp hu
    exact Moment.zoned_of_ofUnixMicros? hn
  | text s =>
    rw [moment] at h
    split at h
    · next hread =>
      cases h
      exact zoned_of_readMoment hread
    all_goals cases h
  | null | bool | array | object => cases h

theorem zoned_of_required {name : String} {m : Members} {t : Moment}
    (h : required name moment m = .valid t) : t.Zoned := by
  obtain ⟨j, -, hj⟩ := lookup_of_required h
  exact zoned_of_moment hj

theorem exists_of_mem_sequence {α : Type} {cs : List (Checked α)} {xs : List α}
    (h : Checked.sequence cs = .valid xs) : ∀ x ∈ xs, .valid x ∈ cs := by
  induction cs generalizing xs with
  | nil =>
    cases h
    simp
  | cons c cs ih =>
    obtain ⟨_, ys, rfl, hc, hcs⟩ := Checked.eq_valid_of_seq (f := c.map List.cons) h
    obtain ⟨y, rfl, rfl⟩ := Checked.eq_valid_of_map hc
    rw [List.forall_mem_cons]
    exact ⟨List.mem_cons_self, fun x hx => List.mem_cons_of_mem _ (ih hcs x hx)⟩

theorem exists_of_mem_list {α : Type} {check : Check α} {j : Json} {xs : List α}
    (h : list check j = .valid xs) : ∀ x ∈ xs, ∃ i, check i = .valid x := by
  cases j with
  | array items =>
    intro x hx
    obtain ⟨k, hk, hcheck⟩ := List.mem_mapIdx.mp (exists_of_mem_sequence h x hx)
    exact ⟨items[k], Checked.eq_valid_of_under hcheck⟩
  | null | bool | int | float | text | object => cases h

/-- The members of a record with the field of a moment in place of one of them. -/
def rewritten (name : String) (t : Moment) (m : Members) : Members :=
  m.map fun x => if x.1 = name then (x.1, .text (String.ofList (encodeField (.moment t)))) else x

section Rewritten

variable {name key : String} {t : Moment} {m : Members}

theorem lookup_rewritten (name key : String) (t : Moment) (m : Members) :
    Json.lookup key (rewritten name t m) =
      if key = name then
        (Json.lookup key m).map fun _ => .text (String.ofList (encodeField (.moment t)))
      else Json.lookup key m := by
  induction m with
  | nil => simp [rewritten, Json.lookup]
  | cons x m ih =>
    by_cases hx : x.1 = key
    · by_cases hkey : key = name <;> simp [rewritten, Json.lookup, hx, hkey]
    · have hne : (if x.1 = name then
          (x.1, Json.text (String.ofList (encodeField (.moment t)))) else x).1 ≠ key := by
        split <;> exact hx
      simpa [rewritten, Json.lookup, List.find?_cons, hx, hne] using ih

theorem required_rewritten {α : Type} {check : Check α} (h : key ≠ name) :
    required key check (rewritten name t m) = required key check m := by
  rw [required, required, lookup_rewritten, if_neg h]

theorem defaulted_rewritten {α : Type} {absent : α} {check : Check α} (h : key ≠ name) :
    defaulted key absent check (rewritten name t m) = defaulted key absent check m := by
  rw [defaulted, defaulted, lookup_rewritten, if_neg h]

theorem required_rewritten_self (h : required name moment m = .valid t) :
    required name moment (rewritten name t m) = required name moment m := by
  obtain ⟨j, hj, hcheck⟩ := lookup_of_required h
  have hread := (keeps_of_zoned (zoned_of_moment hcheck)).moment
  rw [h, required, lookup_rewritten, if_pos rfl, hj, Option.map_some]
  simp only [hread, Checked.under]

end Rewritten

theorem Transaction.required_expiration {m : Members} {trx : Transaction}
    (h : Transaction.check (.object m) = .valid trx) :
    required "expiration" moment m = .valid trx.expiration := by
  obtain ⟨_, actions, rfl, h, -⟩ := Checked.eq_valid_of_seq h
  obtain ⟨_, count, rfl, h, -⟩ := Checked.eq_valid_of_seq h
  obtain ⟨_, suspendName, rfl, h, -⟩ := Checked.eq_valid_of_seq h
  obtain ⟨_, charge, rfl, h, -⟩ := Checked.eq_valid_of_seq h
  obtain ⟨_, elapsed, rfl, h, -⟩ := Checked.eq_valid_of_seq h
  obtain ⟨_, keys, rfl, h, -⟩ := Checked.eq_valid_of_seq h
  obtain ⟨_, signatures, rfl, h, -⟩ := Checked.eq_valid_of_seq h
  obtain ⟨_, status, rfl, h, -⟩ := Checked.eq_valid_of_seq h
  obtain ⟨_, kind, rfl, h, -⟩ := Checked.eq_valid_of_seq h
  obtain ⟨_, payer, rfl, h, -⟩ := Checked.eq_valid_of_seq h
  obtain ⟨_, maxCharge, rfl, h, -⟩ := Checked.eq_valid_of_seq h
  obtain ⟨_, expiration, rfl, h, hexpiration⟩ := Checked.eq_valid_of_seq h
  obtain ⟨id, rfl, -⟩ := Checked.eq_valid_of_map h
  exact hexpiration

theorem Block.accepted_parts {m : Members} {b : Block}
    (h : Block.check (.object m) = .valid b) :
    required "timestamp" moment m = .valid b.timestamp ∧
      defaulted "transactions" [] (list Transaction.check) m = .valid b.transactions := by
  obtain ⟨_, transactions, rfl, h, htransactions⟩ := Checked.eq_valid_of_seq h
  obtain ⟨_, count, rfl, h, -⟩ := Checked.eq_valid_of_seq h
  obtain ⟨_, producer, rfl, h, -⟩ := Checked.eq_valid_of_seq h
  obtain ⟨_, root, rfl, h, -⟩ := Checked.eq_valid_of_seq h
  obtain ⟨_, timestamp, rfl, h, htimestamp⟩ := Checked.eq_valid_of_seq h
  obtain ⟨_, previous, rfl, h, -⟩ := Checked.eq_valid_of_seq h
  obtain ⟨_, number, rfl, h, -⟩ := Checked.eq_valid_of_seq h
  obtain ⟨id, rfl, -⟩ := Checked.eq_valid_of_map h
  exact ⟨htimestamp, htransactions⟩

theorem Transaction.check_rewritten {m : Members} {trx : Transaction}
    (h : Transaction.check (.object m) = .valid trx) :
    Transaction.check (.object (rewritten "expiration" trx.expiration m)) = .valid trx := by
  rw [← h]
  simp only [Transaction.check, record, required_rewritten_self (required_expiration h)]
  simp (disch := decide) only [required_rewritten, defaulted_rewritten]

theorem Block.check_rewritten {m : Members} {b : Block} (h : Block.check (.object m) = .valid b) :
    Block.check (.object (rewritten "timestamp" b.timestamp m)) = .valid b := by
  rw [← h]
  simp only [Block.check, record, required_rewritten_self (accepted_parts h).1]
  simp (disch := decide) only [required_rewritten, defaulted_rewritten]

theorem Transaction.keeps {j : Json} {trx : Transaction} (h : Transaction.check j = .valid trx) :
    Keeps trx.expiration := by
  cases j with
  | object m => exact keeps_of_zoned (zoned_of_required (required_expiration h))
  | null | bool | int | float | text | array => cases h

theorem Block.keeps {m : Members} {b : Block} (h : Block.check (.object m) = .valid b) :
    Keeps b.timestamp ∧ ∀ trx ∈ b.transactions, Keeps trx.expiration := by
  obtain ⟨htimestamp, htransactions⟩ := accepted_parts h
  refine ⟨keeps_of_zoned (zoned_of_required htimestamp), fun trx hmem => ?_⟩
  unfold defaulted at htransactions
  split at htransactions
  · obtain ⟨j, hj⟩ := exists_of_mem_list (Checked.eq_valid_of_under htransactions) trx hmem
    exact Transaction.keeps hj
  · rw [← Checked.valid.inj htransactions] at hmem
    cases hmem

/-- Whatever form the time of a block or the expiration of a transaction was delivered in, its field
in a transfer is its ISO 8601 text with the offset from universal time. The field is accepted as a
moment, and it is the moment that was delivered, to the microsecond and with the same offset; so a
block or a transaction that is delivered with the field in place of the moment is the same. -/
theorem moments_kept :
    (∀ m b, Block.check (.object m) = .valid b →
      Keeps b.timestamp ∧ (∀ trx ∈ b.transactions, Keeps trx.expiration) ∧
        Block.check (.object (rewritten "timestamp" b.timestamp m)) = .valid b) ∧
    ∀ m trx, Transaction.check (.object m) = .valid trx →
      Keeps trx.expiration ∧
        Transaction.check (.object (rewritten "expiration" trx.expiration m)) = .valid trx := by
  refine ⟨fun m b h => ?_, fun m trx h => ⟨Transaction.keeps h, Transaction.check_rewritten h⟩⟩
  obtain ⟨htimestamp, hexpirations⟩ := Block.keeps h
  exact ⟨htimestamp, hexpirations, Block.check_rewritten h⟩

theorem moments_kept_west :
    let trx : Members := [("trx_id", .text "t"), ("expiration", .int 20000000001),
      ("max_charge", .int 1), ("payer", .text "p")]
    let block : Members := [("block_id", .text "b1"), ("block_num", .int 1),
      ("prev_block_id", .text "b0"), ("timestamp", .text "0987-06-05 04:03:02,1234567-0030"),
      ("trx_merkle_root", .text "m"), ("producer", .text "p"),
      ("transactions", .array [.object trx])]
    ∃ b t, Block.check (.object block) = .valid b ∧ Transaction.check (.object trx) = .valid t ∧
      String.ofList (encodeField (.moment b.timestamp)) = "0987-06-05T04:03:02.123456-00:30" ∧
      String.ofList (encodeField (.moment t.expiration)) = "1970-08-20T11:33:20.001000+00:00" ∧
      Keeps b.timestamp ∧ Keeps t.expiration := by
  intro trx block
  obtain ⟨b, hb⟩ : ∃ b, Block.check (.object block) = .valid b := ⟨_, by rfl⟩
  obtain ⟨t, ht⟩ : ∃ t, Transaction.check (.object trx) = .valid t := ⟨_, by rfl⟩
  refine ⟨b, t, hb, ht, ?_, ?_, (moments_kept.1 block b hb).1, (moments_kept.2 trx t ht).1⟩
  · cases hb
    rfl
  · cases ht
    rfl

end Record

end ChainArchive
