import ChainArchive.Settings.Load

namespace ChainArchive.Settings.Interpolation

open ChainArchive.Text

abbrev Resolver := List Char → Except Fault (List Char)

/-- A text and what it resolves to: two percent signs stand for one, a reference for the value of
its name, and any other character for itself. -/
inductive Resolves (r : Resolver) : List Char → List Char → Prop
  | nil : Resolves r [] []
  | percent {cs out : List Char} : Resolves r cs out → Resolves r ('%' :: '%' :: cs) ('%' :: out)
  | reference {cs name rest value out : List Char} : reference? cs = some (name, rest) →
      r name = .ok value → Resolves r rest out → Resolves r ('%' :: '(' :: cs) (value ++ out)
  | plain {c : Char} {cs out : List Char} : c ≠ '%' → Resolves r cs out →
      Resolves r (c :: cs) (c :: out)

theorem length_of_cut {mark : Char} {cs before after : List Char}
    (h : cut mark cs = (before, some after)) : cs.length = before.length + after.length + 1 := by
  induction cs generalizing before with
  | nil => cases h
  | cons c cs ih =>
    rw [cut] at h
    split at h
    · cases h
      rw [List.length_cons, List.length_nil, Nat.zero_add]
    · cases hrest : cut mark cs with
      | mk front back =>
        rw [hrest] at h
        cases h
        rw [List.length_cons, List.length_cons, ih hrest]
        omega

theorem length_of_reference? {cs name rest : List Char} (h : reference? cs = some (name, rest)) :
    rest.length + 3 ≤ cs.length := by
  unfold reference? at h
  split at h
  · next hcut =>
    split at h
    · cases h
    · next hempty =>
      cases h
      have hname : 0 < name.length := List.length_pos_iff.mpr (by simpa using hempty)
      have hlength := length_of_cut hcut
      rw [List.length_cons] at hlength
      omega
  · cases h

section Resolves

variable {r r' : Resolver} {fuel : Nat} {cs out : List Char}

theorem resolves_of_resolveIn (hfuel : cs.length ≤ fuel) (h : resolveIn r fuel cs = .ok out) :
    Resolves r cs out := by
  -- Every step takes at least one character, so the fuel lasts.
  induction fuel, cs using resolveIn.induct generalizing out with
  | case1 fuel =>
    rw [resolveIn] at h
    cases h
    exact .nil
  | case2 cs hne => exact absurd (List.length_eq_zero_iff.mp (Nat.le_zero.mp hfuel)) hne
  | case3 fuel rest ih =>
    rw [resolveIn] at h
    obtain ⟨out, hout, rfl⟩ := map_eq_ok h
    simp only [List.length_cons] at hfuel
    exact .percent (ih (by omega) hout)
  | case4 fuel rest href =>
    rw [resolveIn, href] at h
    cases h
  | case5 fuel cs name rest href ih =>
    rw [resolveIn, href] at h
    obtain ⟨value, hvalue, h⟩ := bind_eq_ok h
    obtain ⟨out, hout, h⟩ := bind_eq_ok h
    cases h
    have hrest := length_of_reference? href
    simp only [List.length_cons] at hfuel
    exact .reference href hvalue (ih (by omega) hout)
  | case6 fuel c rest hpercent hbracket hc =>
    rw [resolveIn.eq_5 _ _ _ _ hpercent hbracket, if_pos hc] at h
    cases h
  | case7 fuel c rest hpercent hbracket hc ih =>
    rw [resolveIn.eq_5 _ _ _ _ hpercent hbracket, if_neg hc] at h
    obtain ⟨out, hout, rfl⟩ := map_eq_ok h
    simp only [List.length_cons] at hfuel
    exact .plain (by simpa using hc) (ih (by omega) hout)

theorem Resolves.resolveIn (h : Resolves r cs out) (hfuel : cs.length ≤ fuel) :
    resolveIn r fuel cs = .ok out := by
  induction h generalizing fuel with
  | nil => rw [Interpolation.resolveIn]
  | percent h ih =>
    obtain ⟨fuel, rfl⟩ : ∃ n, fuel = n + 1 := Nat.exists_eq_add_one.mpr (by simp at hfuel; omega)
    simp only [List.length_cons] at hfuel
    rw [Interpolation.resolveIn, ih (by omega)]
    rfl
  | reference href hvalue h ih =>
    obtain ⟨fuel, rfl⟩ : ∃ n, fuel = n + 1 := Nat.exists_eq_add_one.mpr (by simp at hfuel; omega)
    have hrest := length_of_reference? href
    simp only [List.length_cons] at hfuel
    rw [Interpolation.resolveIn, href]
    simp only [hvalue, ih (show _ ≤ fuel by omega)]
    rfl
  | plain hc h ih =>
    obtain ⟨fuel, rfl⟩ : ∃ n, fuel = n + 1 := Nat.exists_eq_add_one.mpr (by simp at hfuel; omega)
    simp only [List.length_cons] at hfuel
    rw [resolveIn.eq_5 _ _ _ _ (fun _ he _ => hc he) (fun _ he _ => hc he),
      if_neg (by simpa using hc), ih (by omega)]
    rfl

theorem resolveIn_lone {front rest : List Char} {c : Char} (hfront : '%' ∉ front)
    (hpercent : c ≠ '%') (hbracket : c ≠ '(') (hfuel : front.length < fuel) :
    resolveIn r fuel (front ++ '%' :: c :: rest) =
      .error (.lonePercent (String.ofList ('%' :: c :: rest))) := by
  induction front generalizing fuel with
  | nil =>
    obtain ⟨fuel, rfl⟩ : ∃ n, fuel = n + 1 := Nat.exists_eq_add_one.mpr hfuel
    rw [List.nil_append, resolveIn.eq_5 _ _ _ _ (fun _ _ he => hpercent (List.cons.inj he).1)
      (fun _ _ he => hbracket (List.cons.inj he).1), if_pos (by decide)]
  | cons d front ih =>
    have hd : d ≠ '%' := (List.ne_of_not_mem_cons hfront).symm
    obtain ⟨fuel, rfl⟩ : ∃ n, fuel = n + 1 :=
      Nat.exists_eq_add_one.mpr (Nat.lt_of_le_of_lt (Nat.zero_le _) hfuel)
    rw [List.length_cons, Nat.add_lt_add_iff_right] at hfuel
    rw [List.cons_append, resolveIn.eq_5 _ _ _ _ (fun _ he _ => hd he) (fun _ he _ => hd he),
      if_neg (by simpa using hd), ih (List.not_mem_of_not_mem_cons hfront) hfuel]
    rfl

theorem resolves_self (h : '%' ∉ cs) : Resolves r cs cs := by
  induction cs with
  | nil => exact .nil
  | cons c cs ih =>
    exact .plain (List.ne_of_not_mem_cons h).symm (ih (List.not_mem_of_not_mem_cons h))

theorem Resolves.mono (hr : ∀ name v, r name = .ok v → r' name = .ok v) (h : Resolves r cs out) :
    Resolves r' cs out := by
  induction h with
  | nil => exact .nil
  | percent _ ih => exact .percent ih
  | reference href hvalue _ ih => exact .reference href (hr _ _ hvalue) ih
  | plain hc _ ih => exact .plain hc ih

/-- A reference takes at least five characters. So if no value has more than four, a text with a
percent sign gets shorter. -/
theorem Resolves.length (hr : ∀ name v, r name = .ok v → v.length ≤ 4) (h : Resolves r cs out) :
    out.length ≤ cs.length ∧ ('%' ∈ cs → out.length < cs.length) := by
  induction h with
  | nil => simp
  | percent _ ih =>
    have hshort := ih.1
    simp only [List.length_cons]
    omega
  | reference href hvalue _ ih =>
    have hrest := length_of_reference? href
    have hshort := hr _ _ hvalue
    simp only [List.length_cons, List.length_append]
    omega
  | plain hc _ ih =>
    simpa [hc.symm] using ih

end Resolves

def resolver (options : List (String × String)) (option raw : String) (depth : Nat) : Resolver :=
  fun name =>
    let name := lower (String.ofList name)
    match options.find? (·.1 == name) with
    | none => .error (.unknownName option name raw)
    | some (_, v) =>
      if v.toList.contains '%' then valueAt options option raw depth v.toList else .ok v.toList

section ValueAt

variable {options : List (String × String)} {option raw url : String} {depth : Nat}
  {name v : List Char}

theorem valueAt_eq_ok_iff {cs out : List Char} :
    valueAt options option raw (depth + 1) cs = .ok out ↔
      Resolves (resolver options option raw depth) cs out :=
  ⟨resolves_of_resolveIn (Nat.le_succ _), fun h => h.resolveIn (Nat.le_succ _)⟩

theorem resolver_eq_ok_iff : resolver options option raw depth name = .ok v ↔
    ∃ x, options.find? (·.1 == lower (String.ofList name)) = some x ∧
      if '%' ∈ x.2.toList then valueAt options option raw depth x.2.toList = .ok v
      else x.2.toList = v := by
  cases hfind : options.find? (·.1 == lower (String.ofList name)) with
  | none => simp [resolver, hfind]
  | some x => by_cases hx : '%' ∈ x.2.toList <;> simp [resolver, hfind, hx]

theorem resolver_of_zero (h : resolver options option raw 0 name = .ok v) (depth : Nat) :
    resolver options option raw depth name = .ok v := by
  obtain ⟨x, hx, h⟩ := resolver_eq_ok_iff.mp h
  refine resolver_eq_ok_iff.mpr ⟨x, hx, ?_⟩
  split at h
  · cases h
  · next hplain => rwa [if_neg hplain]

/-- A text that no other value needs resolves, if at all, without a reference to itself. -/
theorem resolves_zero (hothers : ∀ x ∈ options, x.2 = url ∨ '%' ∉ x.2.toList)
    (h : valueAt options option raw (depth + 1) url.toList = .ok v) :
    Resolves (resolver options option raw 0) url.toList v := by
  induction depth generalizing v with
  | zero => exact valueAt_eq_ok_iff.mp h
  | succ depth ih =>
    cases hbelow : valueAt options option raw (depth + 1) url.toList with
    | ok w =>
      -- One step closer to the limit it resolves too, and then to the same.
      have hw := valueAt_eq_ok_iff.mpr
        ((ih hbelow).mono fun _ _ hr => resolver_of_zero hr (depth + 1))
      cases h.symm.trans hw
      exact ih hbelow
    | error e =>
      refine (valueAt_eq_ok_iff.mp h).mono fun name v hr => ?_
      obtain ⟨x, hx, hvalue⟩ := resolver_eq_ok_iff.mp hr
      refine resolver_eq_ok_iff.mpr ⟨x, hx, ?_⟩
      rcases hothers x (List.mem_of_find?_eq_some hx) with hself | hplain
      · rw [hself] at hvalue ⊢
        split at hvalue
        · cases hbelow.symm.trans hvalue
        · next hplain => rwa [if_neg hplain]
      · rw [if_neg hplain] at hvalue ⊢
        exact hvalue

theorem value_of_plain (options : List (String × String)) (option : String)
    (h : '%' ∉ raw.toList) : value options option raw = .ok raw := by
  have hself := valueAt_eq_ok_iff.mpr (resolves_self (r := resolver options option raw 9) h)
  rw [value, maxDepth, hself]
  exact congrArg Except.ok String.ofList_toList

/-- A text with percent signs does not resolve to itself, if the other values are plain and have at
most four characters. -/
theorem value_eq_self_iff
    (hothers : ∀ x ∈ options, x.2 = url ∨ '%' ∉ x.2.toList ∧ x.2.toList.length ≤ 4) :
    value options option url = .ok url ↔ '%' ∉ url.toList := by
  refine ⟨fun h hpercent => ?_, value_of_plain options option⟩
  obtain ⟨v, hv, heq⟩ := map_eq_ok h
  have hresolves := resolves_zero (fun x hx => (hothers x hx).imp_right And.left) hv
  have hshort : ∀ name v, resolver options option url 0 name = .ok v → v.length ≤ 4 := by
    intro name v hr
    obtain ⟨x, hx, hvalue⟩ := resolver_eq_ok_iff.mp hr
    rcases hothers x (List.mem_of_find?_eq_some hx) with hself | ⟨hplain, hlength⟩
    · rw [hself, if_pos hpercent] at hvalue
      cases hvalue
    · rw [if_neg hplain] at hvalue
      rwa [← hvalue]
  have hlength := (hresolves.length hshort).2 hpercent
  rw [← heq, String.toList_ofList] at hlength
  exact absurd hlength (Nat.lt_irrefl _)

theorem value_of_lone (options : List (String × String)) (option : String) {front rest : List Char}
    {c : Char} (hraw : raw.toList = front ++ '%' :: c :: rest) (hfront : '%' ∉ front)
    (hpercent : c ≠ '%') (hbracket : c ≠ '(') :
    value options option raw = .error (.lonePercent (String.ofList ('%' :: c :: rest))) := by
  have hfuel : front.length < raw.toList.length + 1 := by
    rw [hraw, List.length_append]
    omega
  have hlone : valueAt options option raw maxDepth raw.toList =
      .error (.lonePercent (String.ofList ('%' :: c :: rest))) := by
    show resolveIn (resolver options option raw 9) (raw.toList.length + 1) raw.toList = _
    rw [hraw] at hfuel ⊢
    exact resolveIn_lone hfront hpercent hbracket hfuel
  rw [value, hlone]
  rfl

theorem resolveAll_append_of_plain (options : List (String × String))
    {plain : List (String × String)} (h : ∀ x ∈ plain, '%' ∉ x.2.toList)
    (rest : List (String × String)) :
    resolveAll options (plain ++ rest) = (plain ++ ·) <$> resolveAll options rest := by
  induction plain with
  | nil => simp
  | cons x plain ih =>
    obtain ⟨hx, hplain⟩ := List.forall_mem_cons.mp h
    rw [List.cons_append, resolveAll, value_of_plain options x.1 hx, ih hplain]
    cases resolveAll options rest <;> rfl

end ValueAt

end ChainArchive.Settings.Interpolation
