import Mathlib.Data.List.Basic
import QueryLineage.Text.Basic
import QueryLineage.Text.LowerCase

/-!
# Small letters stay small

A text in lower case stays as it is when it is put in lower case again (`lower_lower`), and lower
case neither makes blanks nor takes them away (`isBlankText_lower`). Both come down to three sets
of code points having nothing in common: the capitals of the table, their small letters, and the
blanks. A set is written as a number with one bit for each of its code points (`bits`), so that
comparing two sets is one operation on numbers and not a search for each letter.
-/

namespace QueryLineage.Text

/-! ## Sets of code points as numbers -/

/-- The number with the bits of these places. -/
def bits (l : List Nat) : Nat := l.foldr (fun n b => 1 <<< n ||| b) 0

theorem testBit_bits {l : List Nat} {n : Nat} : (bits l).testBit n = true ↔ n ∈ l := by
  induction l with
  | nil => simp [bits]
  | cons m rest ih =>
      rw [bits, List.foldr_cons, ← bits, Nat.testBit_or, Bool.or_eq_true, ih, Nat.one_shiftLeft,
        Nat.testBit_two_pow, decide_eq_true_eq, List.mem_cons, eq_comm]

theorem not_mem_of_bits_and_eq_zero {l other : List Nat} (h : bits l &&& bits other = 0) {n : Nat}
    (hn : n ∈ l) : n ∉ other := by
  intro hother
  have hboth : (bits l &&& bits other).testBit n = true := by
    rw [Nat.testBit_and, testBit_bits.mpr hn, testBit_bits.mpr hother, Bool.and_self]
  rw [h, Nat.zero_testBit] at hboth
  cases hboth

/-! ## Capitals, small letters and blanks -/

namespace CapitalRun

def codePoints (r : CapitalRun) : List Nat :=
  List.range' r.first ((r.last - r.first) / r.step + 1) r.step

/-- The code points of the small letters of a run. -/
def smallPoints (r : CapitalRun) : List Nat :=
  r.codePoints.map fun n : Nat => (n + r.shift).toNat

def IsScalar (r : CapitalRun) : Prop :=
  0 ≤ r.first + r.shift ∧ r.last + r.shift < 0xD800
    ∨ 0xDFFF < r.first + r.shift ∧ r.last + r.shift < 0x110000

instance (r : CapitalRun) : Decidable r.IsScalar := inferInstanceAs (Decidable (_ ∨ _))

theorem bounds_of_holds {r : CapitalRun} {n : Nat} (h : r.holds n = true) :
    r.first ≤ n ∧ n ≤ r.last ∧ (n - r.first) % r.step = 0 := by
  simpa [holds, and_assoc] using h

theorem mem_codePoints_of_holds {r : CapitalRun} {n : Nat} (h : r.holds n = true) :
    n ∈ r.codePoints := by
  obtain ⟨hfirst, hlast, hstep⟩ := bounds_of_holds h
  refine List.mem_range'.mpr ⟨(n - r.first) / r.step, ?_, ?_⟩
  · exact Nat.lt_succ_of_le (Nat.div_le_div_right (Nat.sub_le_sub_right hlast _))
  · rw [Nat.mul_div_cancel' (Nat.dvd_of_mod_eq_zero hstep)]
    omega

theorem IsScalar.isValidChar {r : CapitalRun} (hscalar : r.IsScalar) {n : Nat}
    (h : r.holds n = true) : (n + r.shift).toNat.isValidChar := by
  obtain ⟨hfirst, hlast, -⟩ := bounds_of_holds h
  unfold Nat.isValidChar
  rcases hscalar with ⟨hnonneg, hlow⟩ | ⟨hsurrogate, hhigh⟩ <;> omega

end CapitalRun

theorem capitalRuns_isScalar : ∀ r ∈ capitalRuns, r.IsScalar := by decide +kernel

/-- The code points that have a small letter. -/
def capitals : List Nat := capitalRuns.flatMap CapitalRun.codePoints

/-- The code points of the small letters of capitals. -/
def smallLetters : List Nat := capitalRuns.flatMap CapitalRun.smallPoints

def blanks : List Nat :=
  List.range' 9 5 ++ [0x20, 0x85, 0xA0, 0x1680] ++ List.range' 0x2000 11
    ++ [0x2028, 0x2029, 0x202F, 0x205F, 0x3000]

theorem isBlank_iff_mem_blanks (c : Char) : isBlank c = true ↔ c.toNat ∈ blanks := by
  simp only [isBlank, blanks, List.mem_append, List.mem_range'_1, List.mem_cons, List.not_mem_nil,
    Bool.or_eq_true, Bool.and_eq_true, decide_eq_true_eq, beq_iff_eq, or_false]
  omega

/-- No small letter of a capital is a capital, a blank or the dotted capital I. Each is one
comparison of numbers, with a bit for every code point. -/
theorem smallLetters_disjoint : bits smallLetters &&& bits (0x130 :: blanks ++ capitals) = 0 := by
  decide +kernel

theorem capitals_disjoint_blanks : bits capitals &&& bits blanks = 0 := by decide +kernel

/-! ## One character -/

/-- No run of capitals holds the character. -/
def IsNoCapital (c : Char) : Prop := ∀ r ∈ capitalRuns, r.holds c.toNat = false

instance (c : Char) : Decidable (IsNoCapital c) := inferInstanceAs (Decidable (∀ r ∈ _, _))

theorem mem_points_of_find? {c : Char} {r : CapitalRun}
    (hfound : capitalRuns.find? (·.holds c.toNat) = some r) :
    c.toNat ∈ r.codePoints ∧ (lowerChar c).toNat ∈ r.smallPoints := by
  have hholds : r.holds c.toNat = true := by simpa using List.find?_some hfound
  have hpoint := CapitalRun.mem_codePoints_of_holds hholds
  have hvalid := (capitalRuns_isScalar r (List.mem_of_find?_eq_some hfound)).isValidChar hholds
  have hlower : lowerChar c = Char.ofNatAux _ hvalid := by
    rw [lowerChar, hfound]
    exact dif_pos hvalid
  rw [hlower]
  exact ⟨hpoint, List.mem_map.mpr ⟨c.toNat, hpoint, rfl⟩⟩

/-- A character without a small letter stays; a capital becomes a small letter. This is all that is
said about single characters: the rest is about the three sets. -/
theorem lowerChar_cases (c : Char) :
    IsNoCapital c ∧ lowerChar c = c
      ∨ c.toNat ∈ capitals ∧ (lowerChar c).toNat ∈ smallLetters := by
  cases hfound : capitalRuns.find? (·.holds c.toNat) with
  | none =>
      refine .inl ⟨fun r hr => ?_, by rw [lowerChar, hfound]⟩
      simpa using List.find?_eq_none.mp hfound r hr
  | some r =>
      have hr := List.mem_of_find?_eq_some hfound
      obtain ⟨hpoint, hsmall⟩ := mem_points_of_find? hfound
      exact .inr ⟨List.mem_flatMap.mpr ⟨r, hr, hpoint⟩, List.mem_flatMap.mpr ⟨r, hr, hsmall⟩⟩

theorem isNoCapital_lowerChar (c : Char) : IsNoCapital (lowerChar c) := by
  rcases lowerChar_cases c with ⟨hnone, heq⟩ | ⟨-, hsmall⟩
  · rwa [heq]
  · intro r hr
    rw [Bool.eq_false_iff]
    intro hholds
    have hcapital : (lowerChar c).toNat ∈ capitals :=
      List.mem_flatMap.mpr ⟨r, hr, CapitalRun.mem_codePoints_of_holds hholds⟩
    exact not_mem_of_bits_and_eq_zero smallLetters_disjoint hsmall
      (List.mem_append_right _ hcapital)

theorem lowerChar_of_isNoCapital {c : Char} (h : IsNoCapital c) : lowerChar c = c := by
  have hnone : capitalRuns.find? (·.holds c.toNat) = none :=
    List.find?_eq_none.mpr fun r hr => by simp [h r hr]
  rw [lowerChar, hnone]

theorem lowerChar_ne_dottedI {c : Char} (h : c ≠ 'İ') : lowerChar c ≠ 'İ' := by
  rcases lowerChar_cases c with ⟨-, heq⟩ | ⟨-, hsmall⟩
  · rwa [heq]
  · intro hdotted
    rw [hdotted] at hsmall
    exact not_mem_of_bits_and_eq_zero smallLetters_disjoint hsmall List.mem_cons_self

theorem isBlank_lowerChar (c : Char) : isBlank (lowerChar c) = isBlank c := by
  rcases lowerChar_cases c with ⟨-, heq⟩ | ⟨hcapital, hsmall⟩
  · rw [heq]
  · have hnot : isBlank c = false := by
      rw [Bool.eq_false_iff, ne_eq, isBlank_iff_mem_blanks]
      exact not_mem_of_bits_and_eq_zero capitals_disjoint_blanks hcapital
    have hnot' : isBlank (lowerChar c) = false := by
      rw [Bool.eq_false_iff, ne_eq, isBlank_iff_mem_blanks]
      intro hblank
      exact not_mem_of_bits_and_eq_zero smallLetters_disjoint hsmall
        (List.mem_cons_of_mem _ (List.mem_append_left _ hblank))
    rw [hnot, hnot']

/-! ## Texts -/

/-- Lower case leaves the character alone wherever it stands. -/
def IsSettled (c : Char) : Prop := c ≠ 'Σ' ∧ c ≠ 'İ' ∧ IsNoCapital c

instance (c : Char) : Decidable (IsSettled c) := inferInstanceAs (Decidable (_ ∧ _))

theorem isSettled_lowerChar {c : Char} (h : c ≠ 'İ') : IsSettled (lowerChar c) := by
  have hsmall := isNoCapital_lowerChar c
  refine ⟨fun hsigma => ?_, lowerChar_ne_dottedI h, hsmall⟩
  rw [hsigma] at hsmall
  exact absurd hsmall (by decide +kernel)

theorem isSettled_of_mem_lowerAfter {before cs : List Char} {c : Char}
    (h : c ∈ lowerAfter before cs) : IsSettled c := by
  induction cs generalizing before with
  | nil => cases h
  | cons d rest ih =>
      rw [lowerAfter, List.mem_append] at h
      rcases h with hhere | hrest
      · split at hhere
        · split at hhere <;> obtain rfl := List.mem_singleton.mp hhere <;> decide +kernel
        · split at hhere
          · have hcases : c = 'i' ∨ c = '\u0307' := by simpa using hhere
            rcases hcases with rfl | rfl <;> decide +kernel
          · rename_i hdotted
            obtain rfl := List.mem_singleton.mp hhere
            exact isSettled_lowerChar (by simpa using hdotted)
      · exact ih hrest

theorem lowerAfter_of_isSettled {cs : List Char} (h : ∀ c ∈ cs, IsSettled c)
    (before : List Char) : lowerAfter before cs = cs := by
  induction cs generalizing before with
  | nil => rfl
  | cons c rest ih =>
      obtain ⟨hsigma, hdotted, hsmall⟩ := h c List.mem_cons_self
      have hrest := ih (fun d hd => h d (List.mem_cons_of_mem c hd)) (c :: before)
      simp [lowerAfter, hsigma, hdotted, lowerChar_of_isNoCapital hsmall, hrest]

/-- **Lower case is settled by one pass.** Every character that comes out is settled, those that the
rules for the sigma and the dotted capital I put in included, and a text of settled characters stays
as it is. -/
theorem lower_lower (s : String) : lower (lower s) = lower s := by
  have hsettled : ∀ c ∈ lowerAfter [] s.toList, IsSettled c := fun c => isSettled_of_mem_lowerAfter
  rw [lower, lower, String.toList_ofList, lowerAfter_of_isSettled hsettled]

theorem all_isBlank_lowerAfter (before cs : List Char) :
    (lowerAfter before cs).all isBlank = cs.all isBlank := by
  induction cs generalizing before with
  | nil => rfl
  | cons c rest ih =>
      rw [lowerAfter, List.all_append, ih, List.all_cons]
      congr 1
      split
      · rename_i hsigma
        rw [beq_iff_eq.mp hsigma]
        split <;> decide
      · split
        · rename_i hdotted
          rw [beq_iff_eq.mp hdotted]
          decide
        · simp [isBlank_lowerChar]

/-- A text is blank in lower case just when it is blank. -/
theorem isBlankText_lower (s : String) : isBlankText (lower s) = isBlankText s := by
  rw [isBlankText, lower, String.toList_ofList, all_isBlank_lowerAfter, isBlankText]

end QueryLineage.Text
