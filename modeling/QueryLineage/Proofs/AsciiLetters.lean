import QueryLineage.Proofs.LowerCase
import QueryLineage.Text.Basic

/-!
# ASCII letters and lower case

Lower case over all of Unicode and lower case of `A` to `Z` alone are two functions, but a text of
small ASCII letters comes out of both or of neither (`lower_eq_iff`): outside of ASCII only the
Kelvin sign becomes such a letter, a `k`, and the dotted capital I brings a mark with its `i`. Texts
that are the same in the second way are so in the first (`lower_eq_of_eqIgnoringCase`), as letter
case around a capital sigma does not depend on the case of the letters there; the other way round
this holds within ASCII.
-/

namespace QueryLineage.Text

/-! ## The case of one ASCII letter -/

theorem toNat_toUpper (c : Char) :
    c.toUpper.toNat = if 97 ≤ c.toNat ∧ c.toNat ≤ 122 then c.toNat - 32 else c.toNat := by
  unfold Char.toUpper
  split
  · rename_i h
    have hrange : 97 ≤ c.val.toNat ∧ c.val.toNat ≤ 122 := h
    have hval : (c.val + ('A'.val - 'a'.val)).toNat = (c.val.toNat + (2 ^ 32 - 32)) % 2 ^ 32 :=
      UInt32.toNat_add ..
    refine Eq.trans ?_ (if_pos hrange).symm
    change (c.val + ('A'.val - 'a'.val)).toNat = c.val.toNat - 32
    omega
  · rename_i h
    exact (if_neg h).symm

theorem toNat_toLower (c : Char) :
    c.toLower.toNat = if 65 ≤ c.toNat ∧ c.toNat ≤ 90 then c.toNat + 32 else c.toNat := by
  unfold Char.toLower
  split
  · rename_i h
    have hrange : 65 ≤ c.val.toNat ∧ c.val.toNat ≤ 90 := h
    have hval : (c.val + ('a'.val - 'A'.val)).toNat = (c.val.toNat + 32) % 2 ^ 32 :=
      UInt32.toNat_add ..
    refine Eq.trans ?_ (if_pos hrange).symm
    change (c.val + ('a'.val - 'A'.val)).toNat = c.val.toNat + 32
    omega
  · rename_i h
    exact (if_neg h).symm

/-! ## Capitals of other scripts -/

/-- The code points of `a` to `z` without `k`. -/
def plainLetters : List Nat := (List.range' 0x61 26).erase 0x6B

theorem plainLetters_disjoint :
    bits (capitalRuns.tail.flatMap CapitalRun.codePoints
        ++ capitalRuns.tail.flatMap CapitalRun.smallPoints) &&& bits plainLetters = 0 := by
  decide +kernel

theorem lowerChar_eq_iff {c l : Char} (hl : l.toNat ∈ plainLetters) :
    lowerChar c = l ↔ c.toLower = l := by
  have hruns : capitalRuns = ⟨0x41, 0x5A, 1, 32⟩ :: capitalRuns.tail := rfl
  by_cases hascii : 65 ≤ c.toNat ∧ c.toNat ≤ 90
  · -- The first run holds the ASCII capitals.
    have hholds : CapitalRun.holds ⟨0x41, 0x5A, 1, 32⟩ c.toNat = true := by
      simpa [CapitalRun.holds, Nat.mod_one] using hascii
    have hlower : lowerChar c = c.toLower := by
      have hfound : capitalRuns.find? (·.holds c.toNat) = some ⟨0x41, 0x5A, 1, 32⟩ := by
        rw [hruns, List.find?_cons, hholds]
      rw [lowerChar, hfound, ← Char.ofNat_toNat c.toLower, toNat_toLower, if_pos hascii]
      rfl
    rw [hlower]
  · have hkept : c.toLower = c := by
      rw [← Char.toNat_inj, toNat_toLower, if_neg hascii]
    rw [hkept]
    cases hfound : capitalRuns.find? (·.holds c.toNat) with
    | none => rw [lowerChar, hfound]
    | some r =>
        obtain ⟨hpoint, hsmall⟩ := mem_points_of_find? hfound
        have hr : r ∈ capitalRuns.tail := by
          have hmem := List.mem_of_find?_eq_some hfound
          rw [hruns, List.mem_cons] at hmem
          refine hmem.resolve_left fun hfirst => hascii ?_
          have hholds : r.holds c.toNat = true := by simpa using List.find?_some hfound
          have hbounds := CapitalRun.bounds_of_holds hholds
          rw [hfirst] at hbounds
          exact ⟨hbounds.1, hbounds.2.1⟩
        have hother : ∀ d : Char, d.toNat ∈ r.codePoints ∨ d.toNat ∈ r.smallPoints → d ≠ l := by
          rintro d hd rfl
          refine not_mem_of_bits_and_eq_zero plainLetters_disjoint (List.mem_append.mpr ?_) hl
          exact hd.imp (fun h => List.mem_flatMap.mpr ⟨r, hr, h⟩)
            fun h => List.mem_flatMap.mpr ⟨r, hr, h⟩
        exact iff_of_false (hother _ (.inr hsmall)) (hother _ (.inl hpoint))

/-! ## Texts -/

theorem lowerAfter_eq_iff {before cs t : List Char} (ht : ∀ l ∈ t, l.toNat ∈ plainLetters) :
    lowerAfter before cs = t ↔ cs.map Char.toLower = t := by
  induction cs generalizing before t with
  | nil => rfl
  | cons c rest ih =>
      cases t with
      | nil =>
          refine iff_of_false (fun h => ?_) (List.cons_ne_nil _ _)
          rw [lowerAfter, List.append_eq_nil_iff] at h
          have hsmall := h.1
          split at hsmall
          · cases hsmall
          · split at hsmall <;> cases hsmall
      | cons l t =>
          obtain ⟨hl, ht⟩ := List.forall_mem_cons.mp ht
          have hne : ∀ d : Char, d.toNat ∉ plainLetters → d ≠ l := fun d hd heq => hd (heq ▸ hl)
          rw [lowerAfter, List.map_cons, List.cons.injEq]
          split
          · rename_i hsigma
            obtain rfl := beq_iff_eq.mp hsigma
            refine iff_of_false (fun h => ?_) fun h => hne 'Σ' (by decide) h.1
            have hhead := (List.cons.inj h).1
            split at hhead
            · exact hne 'ς' (by decide) hhead
            · exact hne 'σ' (by decide) hhead
          · split
            · rename_i hdotted
              obtain rfl := beq_iff_eq.mp hdotted
              refine iff_of_false (fun h => ?_) fun h => hne 'İ' (by decide) h.1
              -- The dot over the capital comes out as a character of its own.
              have hdot : '\u0307' ∈ t := (List.cons.inj h).2 ▸ List.mem_cons_self
              exact absurd (ht _ hdot) (by decide)
            · rw [List.singleton_append, List.cons.injEq, lowerChar_eq_iff hl, ih ht]

/-- A text of small ASCII letters is the lower case of a text in both ways or in neither. -/
theorem lower_eq_iff {s t : String} (ht : ∀ l ∈ t.toList, l.toNat ∈ plainLetters) :
    lower s = t ↔ lowerAscii s = t := by
  have hlist : ∀ cs : List Char, String.ofList cs = t ↔ cs = t.toList := by
    intro cs
    rw [← String.toList_inj, String.toList_ofList]
  rw [lower, lowerAscii, hlist, hlist, lowerAfter_eq_iff ht]

/-! ## Texts that differ in the case of ASCII letters -/

/-- Letter case sees an ASCII capital and its small letter alike. The 26 capitals are checked one by
one; any other character is its own small letter. -/
theorem isCased_toLower (c : Char) :
    isCased c.toLower = isCased c ∧ isCaseIgnorable c.toLower = isCaseIgnorable c := by
  by_cases hascii : 65 ≤ c.toNat ∧ c.toNat ≤ 90
  · have hletters : ∀ n ∈ List.range' 65 26, isCased (Char.ofNat n).toLower = isCased (Char.ofNat n)
        ∧ isCaseIgnorable (Char.ofNat n).toLower = isCaseIgnorable (Char.ofNat n) := by
      decide +kernel
    have hmem : c.toNat ∈ List.range' 65 26 := List.mem_range'_1.mpr ⟨hascii.1, by omega⟩
    simpa only [Char.ofNat_toNat] using hletters c.toNat hmem
  · have hkept : c.toLower = c := by
      rw [← Char.toNat_inj, toNat_toLower, if_neg hascii]
    rw [hkept]
    exact ⟨rfl, rfl⟩

theorem meetsCased_map_toLower (cs : List Char) :
    meetsCased (cs.map Char.toLower) = meetsCased cs := by
  have hcompose : isCaseIgnorable ∘ Char.toLower = isCaseIgnorable :=
    funext fun c => (isCased_toLower c).2
  rw [meetsCased, meetsCased, List.dropWhile_map, hcompose]
  cases cs.dropWhile isCaseIgnorable with
  | nil => rfl
  | cons c rest => exact (isCased_toLower c).1

theorem lowerChar_of_ascii {c : Char} (h : c.toNat < 128) : lowerChar c = c.toLower := by
  have hall : ∀ n < 128, lowerChar (Char.ofNat n) = (Char.ofNat n).toLower := by decide +kernel
  simpa only [Char.ofNat_toNat] using hall c.toNat h

theorem lowerChar_toLower (c : Char) : lowerChar c.toLower = lowerChar c := by
  by_cases hascii : 65 ≤ c.toNat ∧ c.toNat ≤ 90
  · rw [← lowerChar_of_ascii (by omega)]
    exact lowerChar_of_isNoCapital (isNoCapital_lowerChar c)
  · have hkept : c.toLower = c := by
      rw [← Char.toNat_inj, toNat_toLower, if_neg hascii]
    rw [hkept]

theorem toLower_eq_iff {c d : Char} (hd : 128 ≤ d.toNat) : c.toLower = d ↔ c = d := by
  rw [← Char.toNat_inj, ← Char.toNat_inj, toNat_toLower]
  split <;> omega

theorem lowerAfter_map_toLower (before cs : List Char) :
    lowerAfter (before.map Char.toLower) (cs.map Char.toLower) = lowerAfter before cs := by
  induction cs generalizing before with
  | nil => rfl
  | cons c rest ih =>
      have hsigma : (c.toLower == 'Σ') = (c == 'Σ') := by
        rw [Bool.eq_iff_iff, beq_iff_eq, beq_iff_eq, toLower_eq_iff (by decide)]
      have hdotted : (c.toLower == 'İ') = (c == 'İ') := by
        rw [Bool.eq_iff_iff, beq_iff_eq, beq_iff_eq, toLower_eq_iff (by decide)]
      have hrest := ih (c :: before)
      rw [List.map_cons] at hrest
      rw [List.map_cons, lowerAfter, lowerAfter, hsigma, hdotted, lowerChar_toLower,
        meetsCased_map_toLower, meetsCased_map_toLower, hrest]

theorem lower_lowerAscii (s : String) : lower (lowerAscii s) = lower s := by
  have h := lowerAfter_map_toLower [] s.toList
  rw [List.map_nil] at h
  rw [lower, lowerAscii, String.toList_ofList, h, lower]

/-- Texts that differ in the case of ASCII letters alone have one lower case. -/
theorem lower_eq_of_eqIgnoringCase {a b : String} (h : eqIgnoringCase a b = true) :
    lower a = lower b := by
  rw [← lower_lowerAscii a, beq_iff_eq.mp h, lower_lowerAscii]

/-- All characters of the text are in ASCII. -/
def IsAscii (s : String) : Prop := ∀ c ∈ s.toList, c.toNat < 128

instance (s : String) : Decidable (IsAscii s) := List.decidableBAll _ _

theorem lowerAfter_of_ascii {before cs : List Char} (h : ∀ c ∈ cs, c.toNat < 128) :
    lowerAfter before cs = cs.map Char.toLower := by
  induction cs generalizing before with
  | nil => rfl
  | cons c rest ih =>
      obtain ⟨hc, hrest⟩ := List.forall_mem_cons.mp h
      have hne : ∀ d : Char, 128 ≤ d.toNat → ¬(c == d) = true := fun d hd heq => by
        rw [beq_iff_eq.mp heq] at hc
        omega
      rw [lowerAfter, if_neg (hne 'Σ' (by decide)), if_neg (hne 'İ' (by decide)),
        lowerChar_of_ascii hc, ih hrest]
      rfl

theorem lower_of_isAscii {s : String} (h : IsAscii s) : lower s = lowerAscii s := by
  rw [lower, lowerAfter_of_ascii h, lowerAscii]

theorem eqIgnoringCase_iff_of_isAscii {a b : String} (ha : IsAscii a) (hb : IsAscii b) :
    eqIgnoringCase a b = true ↔ lower a = lower b := by
  rw [eqIgnoringCase, beq_iff_eq, lower_of_isAscii ha, lower_of_isAscii hb]

end QueryLineage.Text
