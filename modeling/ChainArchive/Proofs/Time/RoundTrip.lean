import ChainArchive.Proofs.Json.RoundTrip
import ChainArchive.Time.Reader

namespace ChainArchive.Time

open ChainArchive.Json ChainArchive.Numeral

namespace Moment

theorem natOfDigits_zeros (k : Nat) (ds : List Char) :
    natOfDigits (List.replicate k '0' ++ ds) = natOfDigits ds := by
  induction k with
  | zero => rfl
  | succ k ih => exact ih

theorem natOfDigits_padded (width n : Nat) : natOfDigits (padded width n) = n := by
  rw [padded, padLeft, natOfDigits_zeros, natOfDigits_toDigits]

theorem length_padded {width n : Nat} (hwidth : 0 < width) (hn : n < Nat.pow 10 width) :
    (padded width n).length = width := by
  have hlength : (Nat.toDigits 10 n).length ≤ width :=
    (Nat.length_toDigits_le_iff (by decide) hwidth).mpr hn
  rw [padded, padLeft, List.length_append, List.length_replicate]
  omega

theorem isDigit_of_mem_padded {width n : Nat} {c : Char} (hc : c ∈ padded width n) :
    c.isDigit = true := by
  rw [padded, padLeft, List.mem_append] at hc
  rcases hc with hc | hc
  · rw [List.eq_of_mem_replicate hc]
    decide
  · exact Nat.isDigit_of_mem_toDigits (by decide) (by decide) hc

end Moment

open Moment

theorem fixedDigits?_padded {width n : Nat} (hwidth : 0 < width) (hn : n < Nat.pow 10 width)
    (rest : List Char) : fixedDigits? width (padded width n ++ rest) = some (n, rest) := by
  have hlength := length_padded hwidth hn
  have htake : (padded width n ++ rest).take width = padded width n := List.take_left' hlength
  have hdrop : (padded width n ++ rest).drop width = rest := List.drop_left' hlength
  have hdigits : (padded width n).all Char.isDigit = true :=
    List.all_eq_true.mpr fun c => isDigit_of_mem_padded
  simp only [fixedDigits?, htake, hdrop, hlength, hdigits, and_self, ↓reduceIte,
    natOfDigits_padded]

theorem fixedDigits?_two {n : Nat} (hn : n < 100) (rest : List Char) :
    fixedDigits? 2 (padded 2 n ++ rest) = some (n, rest) :=
  fixedDigits?_padded (by decide) hn rest

theorem microsOf_padded {n : Nat} (hn : n < 1000000) : microsOf (padded 6 n) = n := by
  have hlength : (padded 6 n).length = 6 := length_padded (by decide) hn
  rw [microsOf, List.take_left' hlength, natOfDigits_padded]

theorem afterOne?_cons {marks : List Char} {c : Char} (hc : c ∈ marks) (rest : List Char) :
    afterOne? marks (c :: rest) = some rest := by
  simp [afterOne?, hc]

theorem readDate?_dateText (t : Moment) (rest : List Char) :
    readDate? (t.dateText ++ rest) = some ((t.year, t.month, t.day), rest) := by
  obtain ⟨-, hyear, -, hmonth, hday, hlast, -⟩ := t.exist
  have hdays : daysInMonth t.year t.month ≤ 31 := by
    unfold daysInMonth
    split <;> (try split) <;> decide
  have hdash : '-' ∈ ['-'] := List.mem_cons_self
  simp [readDate?, dateText, afterOne?_cons hdash,
    fixedDigits?_padded (show 0 < 4 by decide) (show t.year < 10000 by omega),
    fixedDigits?_two (show t.month < 100 by omega),
    fixedDigits?_two (show t.day < 100 by omega), hday, hlast]

theorem offsetText_eq_cons (o : Int) : ∃ c cs, offsetText o = c :: cs ∧ c ∈ ['+', '-'] := by
  unfold offsetText
  split
  · exact ⟨'-', _, rfl, by decide⟩
  · exact ⟨'+', _, rfl, by decide⟩

theorem endsNumber_offsetText (o : Int) : EndsNumber (offsetText o) := by
  have hsigns : ∀ c ∈ ['+', '-'], c.isDigit = false ∧ c ≠ '.' ∧ c ≠ 'e' ∧ c ≠ 'E' := by
    simp [Char.isDigit]
  obtain ⟨c, cs, ho, hc⟩ := offsetText_eq_cons o
  rintro d ds h
  cases ho.symm.trans h
  exact hsigns c hc

theorem readFraction?_micro {n : Nat} (hn : n < 1000000) (o : Int) :
    readFraction? ((if n = 0 then [] else '.' :: padded 6 n) ++ offsetText o) =
      some (n, offsetText o) := by
  split
  · next h =>
    obtain ⟨c, cs, ho, hc⟩ := offsetText_eq_cons o
    have hpoint : ∀ c ∈ ['+', '-'], (c == '.' || c == ',') = false := by simp
    rw [List.nil_append, ho, readFraction?, hpoint c hc, h]
    rfl
  · have hsix : padded 6 n ≠ [] :=
      List.ne_nil_of_length_eq_add_one (length_padded (by decide) hn)
    have hspan : spanDigits (padded 6 n ++ offsetText o) = (padded 6 n, offsetText o) :=
      spanDigits_append (fun _ => isDigit_of_mem_padded) (endsNumber_offsetText o)
    simp [readFraction?, hspan, hsix, microsOf_padded hn]

theorem readSeconds?_padded {s us : Nat} (hs : s < 60) (hus : us < 1000000) (o : Int) :
    readSeconds? (':' :: (padded 2 s ++ ((if us = 0 then [] else '.' :: padded 6 us) ++
      offsetText o))) = some ((s, us), offsetText o) := by
  rw [readSeconds?, fixedDigits?_two (show s < 100 by omega)]
  simp [readFraction?_micro hus, hs]

theorem readTime?_timeText (t : Moment) (o : Int) :
    readTime? (t.timeText ++ offsetText o) =
      some ((t.hour, t.minute, t.second, t.micro), offsetText o) := by
  obtain ⟨-, -, -, -, -, -, hhour, hminute, hsecond, hmicro, -⟩ := t.exist
  have hcolon : ':' ∈ [':'] := List.mem_cons_self
  simp [readTime?, timeText, afterOne?_cons hcolon,
    fixedDigits?_two (show t.hour < 100 by omega),
    fixedDigits?_two (show t.minute < 100 by omega),
    readSeconds?_padded hsecond hmicro, hhour, hminute]

theorem offsetText_of_dvd {o : Int} (h : 60 ∣ o) :
    offsetText o = (if o < 0 then '-' else '+') ::
      (padded 2 (o.natAbs / 3600) ++ ':' :: padded 2 (o.natAbs / 60 % 60)) := by
  have hseconds : o.natAbs % 60 = 0 := by omega
  simp [offsetText, hseconds]

theorem readOffsetSize?_padded {h m : Nat} (hh : h < 24) (hm : m < 60) :
    readOffsetSize? (padded 2 h ++ ':' :: padded 2 m) = some ((h * 3600 + m * 60 : Nat) : Int) := by
  have hend : fixedDigits? 2 (padded 2 m) = some (m, []) := by
    simpa using fixedDigits?_two (show m < 100 by omega) []
  simp [readOffsetSize?, fixedDigits?_two (show h < 100 by omega),
    afterOne?, hend, hh, hm]

theorem readOffset?_plus (cs : List Char) :
    readOffset? ('+' :: cs) = (readOffsetSize? cs).map some := by
  simp [readOffset?]

theorem readOffset?_minus (cs : List Char) :
    readOffset? ('-' :: cs) = (readOffsetSize? cs).map (some <| -·) := by
  simp [readOffset?]

theorem readOffset?_offsetText {o : Int} (hminutes : 60 ∣ o) (hday : o.natAbs < 86400) :
    readOffset? (offsetText o) = some (some o) := by
  have hsize := readOffsetSize?_padded (show o.natAbs / 3600 < 24 by omega)
    (show o.natAbs / 60 % 60 < 60 by omega)
  have hsum : o.natAbs / 3600 * 3600 + o.natAbs / 60 % 60 * 60 = o.natAbs := by omega
  rw [hsum] at hsize
  rw [offsetText_of_dvd hminutes]
  split
  · next hneg =>
    have hvalue : o = -(o.natAbs : Int) := by omega
    rw [readOffset?_minus, hsize, Option.map_some, ← hvalue]
  · next hpos =>
    have hvalue : o = (o.natAbs : Int) := by omega
    rw [readOffset?_plus, hsize, Option.map_some, ← hvalue]

/-- The offset of a moment is known, and no seconds are in it. -/
def Moment.Zoned (t : Moment) : Prop :=
  ∃ o, t.offset = some o ∧ 60 ∣ o

theorem Moment.textWith_of_offset {t : Moment} {o : Int} (h : t.offset = some o) (mark : Char) :
    t.textWith mark = t.dateText ++ mark :: (t.timeText ++ offsetText o) := by
  simp [textWith, h]

theorem readCalendar?_textWith {t : Moment} {o : Int} (ho : t.offset = some o)
    (hminutes : 60 ∣ o) : readCalendar? (t.textWith 'T') =
      some ((t.year, t.month, t.day), (t.hour, t.minute, t.second, t.micro), some o) := by
  have hday : o.natAbs < 86400 := by
    obtain ⟨-, -, -, -, -, -, -, -, -, -, hoffset⟩ := t.exist
    simpa [ho] using hoffset
  rw [textWith_of_offset ho, readCalendar?, readDate?_dateText]
  simp [afterOne?, readTime?_timeText, readOffset?_offsetText hminutes hday]

theorem Moment.ofFields?_self (t : Moment) :
    ofFields? t.year t.month t.day t.hour t.minute t.second t.micro t.offset = some t := by
  rw [ofFields?, dif_pos t.exist]

/-- A moment with an offset of whole minutes is read back from its text. -/
theorem readMoment_iso {t : Moment} (h : t.Zoned) : readMoment t.iso = .ok t := by
  obtain ⟨o, ho, hminutes⟩ := h
  have hself := t.ofFields?_self
  rw [ho] at hself
  rw [readMoment, iso, String.toList_ofList, readCalendar?_textWith ho hminutes]
  simp only [hself, orOutOfRange]

theorem dvd_of_readOffsetSize? {cs : List Char} {o : Int} (h : readOffsetSize? cs = some o) :
    60 ∣ o := by
  simp only [readOffsetSize?, Option.bind_eq_bind, Option.bind_eq_some_iff] at h
  obtain ⟨⟨hours, cs⟩, -, ⟨minutes, rest⟩, -, h⟩ := h
  split at h
  · cases h
    omega
  · cases h

theorem dvd_of_readOffset? {cs : List Char} {o : Int} (h : readOffset? cs = some (some o)) :
    60 ∣ o := by
  cases cs with
  | nil => cases h
  | cons c rest =>
    simp only [readOffset?] at h
    split at h
    · split at h
      · cases h
        exact Int.dvd_zero 60
      · cases h
    · split at h
      · obtain ⟨size, hsize, hvalue⟩ := Option.map_eq_some_iff.mp h
        cases hvalue
        exact dvd_of_readOffsetSize? hsize
      · split at h
        · obtain ⟨size, hsize, hvalue⟩ := Option.map_eq_some_iff.mp h
          cases hvalue
          exact Int.dvd_neg.mpr (dvd_of_readOffsetSize? hsize)
        · cases h

theorem dvd_of_readCalendar? {cs : List Char} {date : Nat × Nat × Nat}
    {time : Nat × Nat × Nat × Nat} {o : Int} (h : readCalendar? cs = some (date, time, some o)) :
    60 ∣ o := by
  simp only [readCalendar?, Option.bind_eq_bind, Option.bind_eq_some_iff] at h
  obtain ⟨⟨_, cs⟩, -, h⟩ := h
  split at h
  · cases h
  · simp only [Option.bind_eq_some_iff] at h
    obtain ⟨cs, -, ⟨_, cs⟩, -, offset, hoffset, h⟩ := h
    cases h
    exact dvd_of_readOffset? hoffset

theorem Moment.offset_of_ofFields? {y mo d h mi s us : Nat} {offset : Option Int} {t : Moment}
    (ht : ofFields? y mo d h mi s us offset = some t) : t.offset = offset := by
  unfold ofFields? at ht
  split at ht
  · cases ht
    rfl
  · cases ht

theorem Moment.zoned_of_ofUnixMicros? {n : Int} {t : Moment} (h : ofUnixMicros? n = some t) :
    t.Zoned := by
  unfold ofUnixMicros? at h
  simp only at h
  split at h
  · cases h
  · exact ⟨0, offset_of_ofFields? h, Int.dvd_zero 60⟩

theorem eq_some_of_orOutOfRange {m : Option Moment} {t : Moment} (h : orOutOfRange m = .ok t) :
    m = some t := by
  cases m with
  | none => cases h
  | some u =>
    cases h
    rfl

theorem zoned_of_readMoment {s : String} {t : Moment} (h : readMoment s = .ok t) : t.Zoned := by
  unfold readMoment at h
  simp only at h
  split at h
  · cases h
  · next hcalendar =>
    have hfields := eq_some_of_orOutOfRange h
    exact ⟨_, offset_of_ofFields? hfields, dvd_of_readCalendar? hcalendar⟩
  · split at h
    · split at h
      · exact zoned_of_ofUnixMicros? (eq_some_of_orOutOfRange h)
      · cases h
    · cases h

end ChainArchive.Time
