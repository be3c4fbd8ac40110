import Mathlib.Data.List.Infix
import QueryLineage.Aggregation
import QueryLineage.Proofs.AsciiLetters
import QueryLineage.Proofs.ReadingNames

/-!
# Calls of aggregate functions

An expression is taken for an aggregation just when it is one call: a name in any letter case, then
an argument between the first parenthesis and the last, and blanks around these
(`Aggregation.IsCall`). That the two parentheses belong together is checked by a scan of the
argument, which is balanced if no start of it closes more parentheses than it opens and the whole
closes as many (`isBalanced_iff`). A scan that is under way is described by what must be true of the
rest (`Nesting.Closes`), so that each character is one step of the proof.
-/

namespace QueryLineage

/-! ## Balanced parentheses -/

/-- The characters outside of quotations, where the text starts in a quotation that ends with the
mark, or in none. -/
def outsideQuotes : Option Char → List Char → List Char
  | _, [] => []
  | some mark, c :: cs => outsideQuotes (if c = mark then none else some mark) cs
  | none, c :: cs =>
    if c = '\'' ∨ c = '\x22' ∨ c = '\x60' then outsideQuotes (some c) cs
    else c :: outsideQuotes none cs

/-- How many parentheses are opened outside of quotations. -/
def openCount (quoted : Option Char) (cs : List Char) : Nat := (outsideQuotes quoted cs).count '('

/-- How many parentheses are closed outside of quotations. -/
def closeCount (quoted : Option Char) (cs : List Char) : Nat := (outsideQuotes quoted cs).count ')'

/-- No start of a text closes more parentheses than it opens, and the whole closes as many as it
opens. -/
structure IsBalanced (cs : List Char) : Prop where
  starts : ∀ start, start <+: cs → closeCount none start ≤ openCount none start
  whole : closeCount none cs = openCount none cs

namespace Nesting

/-- What follows a place closes what is open there, and nothing that is not open. -/
structure Closes (n : Nesting) (cs : List Char) : Prop where
  starts : ∀ start, start <+: cs → closeCount n.quoted start ≤ n.depth + openCount n.quoted start
  whole : closeCount n.quoted cs = n.depth + openCount n.quoted cs

theorem closes_nil_iff {n : Nesting} : n.Closes [] ↔ n.depth = 0 := by
  constructor
  · intro h
    exact h.whole.symm
  · intro h
    refine ⟨fun start hstart => ?_, h.symm⟩
    rw [List.prefix_nil.mp hstart]
    exact Nat.zero_le _

/-- A step keeps what is open and what follows in balance: an opened parenthesis is one more to
close, a closed one is one less, and nothing counts between quotation marks. One case for each
branch of `step`. -/
theorem balance_of_step {n m : Nesting} {c : Char} (hstep : n.step c = some m) (rest : List Char) :
    closeCount n.quoted (c :: rest) + m.depth + openCount m.quoted rest
      = n.depth + openCount n.quoted (c :: rest) + closeCount m.quoted rest := by
  obtain ⟨depth, quoted⟩ := n
  cases quoted with
  | some mark =>
      simp only [step, Option.some.injEq] at hstep
      subst hstep
      simp only [openCount, closeCount, outsideQuotes]
      split <;> simp only <;> omega
  | none =>
      simp only [step] at hstep
      simp only [openCount, closeCount, outsideQuotes]
      split at hstep
      · rename_i hmark
        obtain rfl := Option.some.inj hstep
        rw [if_pos hmark]
        dsimp only
        omega
      · rename_i hmark
        rw [if_neg hmark]
        split at hstep
        · rename_i hopen
          obtain rfl := Option.some.inj hstep
          simp [hopen]
          omega
        · rename_i hopen
          split at hstep
          · rename_i hclose
            split at hstep
            · obtain rfl := Option.some.inj hstep
              simp [hclose]
              omega
            · cases hstep
          · rename_i hclose
            obtain rfl := Option.some.inj hstep
            simp [hopen, hclose]
            omega

/-- The scan stops only at a parenthesis that closes nothing. -/
theorem of_step_eq_none {n : Nesting} {c : Char} (h : n.step c = none) : n = {} ∧ c = ')' := by
  obtain ⟨depth, _ | mark⟩ := n
  · simp only [step] at h
    split at h
    · cases h
    · split at h
      · cases h
      · split at h
        · rename_i hclose
          split at h
          · cases h
          · exact ⟨rfl, hclose⟩
        · cases h
  · cases h

theorem closes_cons_iff {n : Nesting} {c : Char} {cs : List Char} :
    n.Closes (c :: cs) ↔ ∃ m, n.step c = some m ∧ m.Closes cs := by
  cases hstep : n.step c with
  | none =>
      obtain ⟨rfl, rfl⟩ := of_step_eq_none hstep
      simp only [reduceCtorEq, false_and, exists_false, iff_false]
      intro h
      exact absurd (h.starts [')'] (List.prefix_append [')'] cs)) (by decide)
  | some m =>
      have hbalance := balance_of_step hstep
      simp only [Option.some.injEq, exists_eq_left']
      constructor
      · intro h
        refine ⟨fun start hstart => ?_, ?_⟩
        · have hlonger := h.starts (c :: start) (List.cons_prefix_cons.mpr ⟨rfl, hstart⟩)
          have := hbalance start
          omega
        · have := h.whole
          have := hbalance cs
          omega
      · intro h
        refine ⟨fun start hstart => ?_, ?_⟩
        · rcases List.prefix_cons_iff.mp hstart with rfl | ⟨rest, rfl, hrest⟩
          · exact Nat.zero_le _
          · have := h.starts rest hrest
            have := hbalance rest
            omega
        · have := h.whole
          have := hbalance cs
          omega

/-- A scan that goes through ends with nothing open just when the text closes what was open. By
induction on the text, for every nesting, as each character hands over another one. -/
theorem closes_iff {n : Nesting} {cs : List Char} :
    n.Closes cs ↔ (cs.foldlM step n).any (·.depth = 0) = true := by
  induction cs generalizing n with
  | nil => simp [closes_nil_iff, pure]
  | cons c rest ih =>
      rw [closes_cons_iff, List.foldlM_cons]
      cases n.step c with
      | none => simp
      | some m => simp [ih]

end Nesting

theorem isBalanced_iff {cs : List Char} : isBalanced cs = true ↔ IsBalanced cs := by
  rw [isBalanced, ← Nesting.closes_iff]
  constructor
  · intro h
    exact ⟨fun start hstart => by simpa using h.starts start hstart, by simpa using h.whole⟩
  · intro h
    exact ⟨fun start hstart => by simpa using h.starts start hstart, by simpa using h.whole⟩

/-! ## Blanks around a text -/

namespace Text

variable {p : Char → Bool} {cs : List Char}

theorem dropWhile_eq_cons_iff {c : Char} {rest : List Char} :
    cs.dropWhile p = c :: rest
      ↔ p c = false ∧ ∃ before, (∀ b ∈ before, p b = true) ∧ cs = before ++ c :: rest := by
  constructor
  · intro h
    refine ⟨?_, cs.takeWhile p, fun b hb => List.mem_takeWhile_imp hb, ?_⟩
    · have hhead := List.head?_dropWhile_not p cs
      rw [h] at hhead
      simpa using hhead
    · rw [← h, List.takeWhile_append_dropWhile]
  · rintro ⟨hc, before, hbefore, rfl⟩
    rw [List.dropWhile_append_of_pos hbefore, List.dropWhile_cons_of_neg (by simp [hc])]

/-- What is taken off stands before and after what is left. -/
theorem exists_stripBoth_append (p : Char → Bool) (cs : List Char) :
    ∃ before after, (∀ c ∈ before, p c = true) ∧ (∀ c ∈ after, p c = true)
      ∧ cs = before ++ stripBoth p cs ++ after := by
  refine ⟨cs.takeWhile p, (cs.dropWhile p).rtakeWhile p, fun c hc => List.mem_takeWhile_imp hc,
    fun c hc => List.mem_rtakeWhile_imp hc, ?_⟩
  have hlast : stripBoth p cs ++ (cs.dropWhile p).rtakeWhile p = cs.dropWhile p :=
    List.rdropWhile_append_rtakeWhile
  rw [List.append_assoc, hlast, List.takeWhile_append_dropWhile]

theorem stripBoth_stripBoth (p : Char → Bool) (cs : List Char) :
    stripBoth p (stripBoth p cs) = stripBoth p cs := by
  have hfirst : (stripBoth p cs).dropWhile p = stripBoth p cs := by
    obtain ⟨after, hafter⟩ : stripBoth p cs <+: cs.dropWhile p := List.rdropWhile_prefix p _
    cases hstrip : stripBoth p cs with
    | nil => rfl
    | cons c rest =>
        rw [hstrip, List.cons_append] at hafter
        have hc := (dropWhile_eq_cons_iff.mp hafter.symm).1
        exact List.dropWhile_cons_of_neg (by simp [hc])
  calc stripBoth p (stripBoth p cs)
      = (stripBoth p cs).rdropWhile p := congrArg (List.rdropWhile p) hfirst
    _ = stripBoth p cs := List.rdropWhile_idempotent p _

theorem trim_trim (s : String) : trim (trim s) = trim s := by
  rw [trim, trim, String.toList_ofList, stripBoth_stripBoth]

end Text

theorem outsideQuotes_sublist (quoted : Option Char) (cs : List Char) :
    (outsideQuotes quoted cs).Sublist cs := by
  induction cs generalizing quoted with
  | nil => cases quoted <;> exact List.Sublist.refl []
  | cons c rest ih =>
      cases quoted with
      | some mark => exact (ih _).cons c
      | none =>
          rw [outsideQuotes]
          split
          · exact (ih _).cons c
          · exact (ih none).cons_cons c

theorem outsideQuotes_append_of_blank {before : List Char} (hbefore : ∀ c ∈ before, Text.isBlank c)
    (cs : List Char) : outsideQuotes none (before ++ cs) = before ++ outsideQuotes none cs := by
  induction before with
  | nil => rfl
  | cons c rest ih =>
      obtain ⟨hc, hrest⟩ := List.forall_mem_cons.mp hbefore
      have hmark : ¬(c = '\'' ∨ c = '\x22' ∨ c = '\x60') := by
        rintro (rfl | rfl | rfl) <;> exact absurd hc (by decide)
      rw [List.cons_append, outsideQuotes, if_neg hmark, ih hrest, List.cons_append]

theorem count_outsideQuotes_append_blank {mark : Char} (hmark : Text.isBlank mark = false)
    {after : List Char} (hafter : ∀ c ∈ after, Text.isBlank c) (quoted : Option Char)
    (cs : List Char) :
    (outsideQuotes quoted (cs ++ after)).count mark = (outsideQuotes quoted cs).count mark := by
  induction cs generalizing quoted with
  | nil =>
      have hnot : mark ∉ outsideQuotes quoted after := fun hmem =>
        absurd (hafter mark ((outsideQuotes_sublist quoted after).subset hmem)) (by simp [hmark])
      rw [List.nil_append, List.count_eq_zero.mpr hnot]
      cases quoted <;> rfl
  | cons c rest ih =>
      cases quoted with
      | some q => exact ih _
      | none =>
          rw [List.cons_append, outsideQuotes, outsideQuotes]
          split
          · exact ih _
          · rw [List.count_cons, List.count_cons, ih]

/-- A balanced text is balanced without the blanks around it. Each start of what is left is, with
the blanks in front, a start of the text, and blanks neither open nor close anything. -/
theorem IsBalanced.of_blank {before cs after : List Char} (hbefore : ∀ c ∈ before, Text.isBlank c)
    (hafter : ∀ c ∈ after, Text.isBlank c) (h : IsBalanced (before ++ cs ++ after)) :
    IsBalanced cs := by
  have hcount : ∀ {mark}, Text.isBlank mark = false → ∀ start,
      (outsideQuotes none (before ++ start)).count mark
        = (outsideQuotes none start).count mark := by
    intro mark hmark start
    have hnot : mark ∉ before := fun hmem => absurd (hbefore mark hmem) (by simp [hmark])
    rw [outsideQuotes_append_of_blank hbefore, List.count_append, List.count_eq_zero.mpr hnot,
      Nat.zero_add]
  have hopen : Text.isBlank '(' = false := by decide
  have hclose : Text.isBlank ')' = false := by decide
  refine ⟨fun start hstart => ?_, ?_⟩
  · have hlonger : before ++ start <+: before ++ cs ++ after :=
      ((List.prefix_append_right_inj before).mpr hstart).trans (List.prefix_append _ _)
    have hle := h.starts (before ++ start) hlonger
    rwa [closeCount, openCount, hcount hclose, hcount hopen] at hle
  · have hwhole := h.whole
    rwa [closeCount, openCount, count_outsideQuotes_append_blank hclose hafter,
      count_outsideQuotes_append_blank hopen hafter, hcount hclose, hcount hopen] at hwhole

/-! ## Names in any case -/

namespace AggregateFunction

/-- Simple case folding takes a character and a capital ASCII letter for the same. -/
def Folds (c letter : Char) : Prop :=
  c = letter ∨ c = letter.toLower ∨ (letter = 'S' ∧ c = '\u017f') ∨ (letter = 'K' ∧ c = '\u212a')

theorem capital_eq_iff {c letter : Char} (hcapital : 65 ≤ letter.toNat ∧ letter.toNat ≤ 90)
    (hk : letter ≠ 'K') : capital c = letter ↔ Folds c letter := by
  have htoUpper : c.toUpper = letter ↔ c = letter ∨ c = letter.toLower := by
    rw [← Char.toNat_inj, ← Char.toNat_inj, ← Char.toNat_inj, Text.toNat_toUpper,
      Text.toNat_toLower, if_pos hcapital]
    split <;> omega
  rw [capital, Folds]
  split
  · rename_i hlong
    have hsmall : ¬(c = letter ∨ c = letter.toLower) := by
      have hcode : c.toNat = 0x17F := by
        rw [hlong]
        rfl
      rw [← htoUpper, ← Char.toNat_inj, Text.toNat_toUpper]
      split <;> omega
    rw [← or_assoc, or_iff_right hsmall]
    constructor
    · rintro rfl
      exact .inl ⟨rfl, hlong⟩
    · rintro (⟨rfl, -⟩ | ⟨hletter, -⟩)
      · rfl
      · exact absurd hletter hk
  · rename_i hlong
    simp [htoUpper, hlong, hk]

theorem not_isBlank_of_folds {c letter : Char} (hcapital : 65 ≤ letter.toNat ∧ letter.toNat ≤ 90)
    (h : Folds c letter) : Text.isBlank c = false := by
  have hcode : (65 ≤ c.toNat ∧ c.toNat ≤ 122) ∨ c.toNat = 0x17F ∨ c.toNat = 0x212A := by
    rcases h with rfl | rfl | ⟨-, rfl⟩ | ⟨-, rfl⟩
    · omega
    · rw [Text.toNat_toLower, if_pos hcapital]
      omega
    · decide
    · decide
  refine Bool.eq_false_iff.mpr fun hblank => ?_
  simp only [Text.isBlank, Bool.or_eq_true, Bool.and_eq_true, decide_eq_true_eq, beq_iff_eq]
    at hblank
  omega

theorem map_capital_eq_iff {cs letters : List Char}
    (hletters : ∀ l ∈ letters, (65 ≤ l.toNat ∧ l.toNat ≤ 90) ∧ l ≠ 'K') :
    cs.map capital = letters ↔ List.Forall₂ Folds cs letters := by
  induction letters generalizing cs with
  | nil => simp
  | cons l rest ih =>
      obtain ⟨⟨hcapital, hk⟩, hrest⟩ := List.forall_mem_cons.mp hletters
      cases cs with
      | nil => simp
      | cons c cs => simp [capital_eq_iff hcapital hk, ih hrest]

/-- A text spells the name of the function, each letter in either case. -/
def IsSpelledBy (f : AggregateFunction) (name : List Char) : Prop :=
  List.Forall₂ Folds name f.name.toList

theorem capital_of_mem_name {f : AggregateFunction} :
    ∀ l ∈ f.name.toList, (65 ≤ l.toNat ∧ l.toNat ≤ 90) ∧ l ≠ 'K' := by
  have hall : (f.name.toList.all fun l => (65 ≤ l.toNat ∧ l.toNat ≤ 90) ∧ l ≠ 'K') = true := by
    cases f <;> decide
  simpa only [List.all_eq_true, decide_eq_true_eq] using hall

theorem isSpelledBy_iff {f : AggregateFunction} {name : List Char} :
    f.IsSpelledBy name ↔ f.name.toList = name.map capital :=
  (map_capital_eq_iff capital_of_mem_name).symm.trans eq_comm

theorem isSpelledBy_name (f : AggregateFunction) : f.IsSpelledBy f.name.toList :=
  List.forall₂_same.mpr fun _ _ => .inl rfl

theorem exists_cons_of_isSpelledBy {f : AggregateFunction} {name : List Char}
    (h : f.IsSpelledBy name) : ∃ c cs, name = c :: cs ∧ Text.isBlank c = false := by
  obtain ⟨l, ls, hname⟩ := List.exists_cons_of_ne_nil
    (show f.name.toList ≠ [] by cases f <;> decide)
  have hl := (capital_of_mem_name l (hname ▸ List.mem_cons_self)).1
  rw [IsSpelledBy, hname, List.forall₂_cons_right_iff] at h
  obtain ⟨c, cs, hfolds, -, rfl⟩ := h
  exact ⟨c, cs, rfl, not_isBlank_of_folds hl hfolds⟩

theorem eq_of_name_starts {f g : AggregateFunction} (h : f.name.toList <+: g.name.toList) :
    f = g := by
  revert h
  cases f <;> cases g <;> decide

theorem afterName?_eq_some_iff {f : AggregateFunction} {cs rest : List Char} :
    f.afterName? cs = some rest ↔ ∃ name, f.IsSpelledBy name ∧ cs = name ++ rest := by
  simp only [afterName?, isSpelledBy_iff]
  constructor
  · intro h
    split at h
    · rename_i hname
      obtain rfl := Option.some.inj h
      exact ⟨_, hname.symm, (List.take_append_drop _ cs).symm⟩
    · cases h
  · rintro ⟨name, hname, rfl⟩
    have hlength : f.name.toList.length = name.length := by
      rw [hname, List.length_map]
    rw [hlength, List.take_left, List.drop_left, if_pos hname.symm]

theorem eq_of_afterName? {f g : AggregateFunction} {cs rest rest' : List Char}
    (hf : f.afterName? cs = some rest) (hg : g.afterName? cs = some rest') : f = g := by
  obtain ⟨name, hname, rfl⟩ := afterName?_eq_some_iff.mp hf
  obtain ⟨name', hname', happend⟩ := afterName?_eq_some_iff.mp hg
  -- Both names start the text in capitals.
  have hcapitals := congrArg (List.map capital) happend
  rw [List.map_append, List.map_append, ← isSpelledBy_iff.mp hname,
    ← isSpelledBy_iff.mp hname'] at hcapitals
  exact (List.prefix_or_prefix_of_prefix ⟨_, hcapitals⟩ (List.prefix_append _ _)).elim
    eq_of_name_starts fun h => (eq_of_name_starts h).symm

theorem findSome?_afterName?_eq_some_iff {f : AggregateFunction} {cs rest : List Char} :
    all.findSome? (fun g => (g.afterName? cs).map (g, ·)) = some (f, rest)
      ↔ f.afterName? cs = some rest := by
  have hof : ∀ {g tail}, all.findSome? (fun g => (g.afterName? cs).map (g, ·)) = some (g, tail) →
      g.afterName? cs = some tail := by
    intro g tail h
    obtain ⟨g', -, hg'⟩ := List.exists_of_findSome?_eq_some h
    obtain ⟨tail', htail, heq⟩ := Option.map_eq_some_iff.mp hg'
    obtain ⟨rfl, rfl⟩ := Prod.mk.inj heq
    exact htail
  refine ⟨hof, fun h => ?_⟩
  cases hfound : all.findSome? (fun g => (g.afterName? cs).map (g, ·)) with
  | none =>
      have hnone := List.findSome?_eq_none_iff.mp hfound f (by cases f <;> decide)
      rw [h] at hnone
      cases hnone
  | some found =>
      obtain ⟨g, tail⟩ := found
      obtain rfl := eq_of_afterName? h (hof hfound)
      rw [Option.some.inj ((hof hfound).symm.trans h)]

end AggregateFunction

/-! ## Calls -/

namespace Aggregation

theorem inParentheses?_eq_some_iff {cs args : List Char} :
    inParentheses? cs = some args
      ↔ ∃ between after, (∀ c ∈ between, Text.isBlank c) ∧ (∀ c ∈ after, Text.isBlank c)
          ∧ cs = between ++ '(' :: (args ++ ')' :: after) := by
  constructor
  · intro h
    simp only [inParentheses?] at h
    split at h
    · rename_i inner hfirst
      split at h
      · rename_i reversed hlast
        obtain rfl := Option.some.inj h
        obtain ⟨-, between, hbetween, rfl⟩ := Text.dropWhile_eq_cons_iff.mp hfirst
        obtain ⟨-, after, hafter, hinner⟩ := Text.dropWhile_eq_cons_iff.mp hlast
        refine ⟨between, after.reverse, hbetween, by simpa using hafter, ?_⟩
        rw [List.reverse_eq_iff.mp hinner]
        simp
      · cases h
    · cases h
  · rintro ⟨between, after, hbetween, hafter, rfl⟩
    have hlast : (args ++ ')' :: after).reverse.dropWhile Text.isBlank = ')' :: args.reverse :=
      Text.dropWhile_eq_cons_iff.mpr
        ⟨by decide, after.reverse, by simpa using hafter, by simp⟩
    rw [inParentheses?, Text.dropWhile_eq_cons_iff.mpr ⟨by decide, between, hbetween, rfl⟩]
    simp only [hlast, List.reverse_reverse]

/-- A text is a call: a name in any case, then an argument between two parentheses that belong
together, and blanks at most around these. -/
structure IsCall (text : String) (name args : List Char) : Prop where
  named : ∃ f : AggregateFunction, f.IsSpelledBy name
  balanced : IsBalanced args
  written : ∃ before between after, (∀ c ∈ before, Text.isBlank c)
    ∧ (∀ c ∈ between, Text.isBlank c) ∧ (∀ c ∈ after, Text.isBlank c)
    ∧ text.toList = before ++ name ++ between ++ '(' :: (args ++ ')' :: after)

theorem ofText?_eq_some_iff {text : String} {a : Aggregation} :
    ofText? text = some a
      ↔ ∃ name args, IsCall text name args ∧ a.function.IsSpelledBy name
          ∧ a.args = Text.trim (String.ofList args) := by
  constructor
  · intro h
    simp only [ofText?, bind, Option.bind_eq_some_iff] at h
    obtain ⟨⟨f, rest⟩, hfound, args, hargs, h⟩ := h
    split at h
    · rename_i hbalanced
      obtain rfl := Option.some.inj h
      obtain ⟨name, hname, hstart⟩ := AggregateFunction.afterName?_eq_some_iff.mp
        (AggregateFunction.findSome?_afterName?_eq_some_iff.mp hfound)
      obtain ⟨between, after, hbetween, hafter, rfl⟩ := inParentheses?_eq_some_iff.mp hargs
      refine ⟨name, args, ⟨⟨f, hname⟩, isBalanced_iff.mp hbalanced,
        text.toList.takeWhile Text.isBlank, between, after,
        fun c hc => List.mem_takeWhile_imp hc, hbetween, hafter, ?_⟩, hname, rfl⟩
      calc text.toList
          = text.toList.takeWhile Text.isBlank ++ text.toList.dropWhile Text.isBlank :=
            List.takeWhile_append_dropWhile.symm
        _ = _ := by rw [hstart, List.append_assoc, List.append_assoc]
    · cases h
  · rintro ⟨name, args, ⟨-, hbalanced, before, between, after, hbefore, hbetween, hafter, htext⟩,
      hname, hargs⟩
    obtain ⟨c, cs, rfl, hc⟩ := AggregateFunction.exists_cons_of_isSpelledBy hname
    have hstart : text.toList.dropWhile Text.isBlank
        = (c :: cs) ++ (between ++ '(' :: (args ++ ')' :: after)) :=
      Text.dropWhile_eq_cons_iff.mpr ⟨hc, before, hbefore, by simpa using htext⟩
    have hfound := AggregateFunction.findSome?_afterName?_eq_some_iff.mpr
      (AggregateFunction.afterName?_eq_some_iff.mpr ⟨c :: cs, hname, hstart⟩)
    have hinner : inParentheses? (between ++ '(' :: (args ++ ')' :: after)) = some args :=
      inParentheses?_eq_some_iff.mpr ⟨between, after, hbetween, hafter, rfl⟩
    simp only [ofText?, hfound, hinner, bind, Option.bind_some,
      isBalanced_iff.mpr hbalanced, if_pos, ← hargs]

/-- A call that is found is found again in the text that shows it: this starts with a spelling of
the function's name, and the arguments are balanced also without the blanks around them. -/
theorem ofText?_label {text : String} {a : Aggregation} (h : ofText? text = some a) :
    ofText? a.label = some a := by
  obtain ⟨name, args, hcall, -, hargs⟩ := ofText?_eq_some_iff.mp h
  have hname := a.function.isSpelledBy_name
  have hlist : a.args.toList = Text.stripBoth Text.isBlank args := by
    rw [hargs, Text.trim, String.toList_ofList, String.toList_ofList]
  refine ofText?_eq_some_iff.mpr
    ⟨a.function.name.toList, a.args.toList, ⟨⟨_, hname⟩, ?_, [], [], [], ?_⟩, hname, ?_⟩
  · obtain ⟨before, after, hbefore, hafter, hkept⟩ :=
      Text.exists_stripBoth_append Text.isBlank args
    rw [hlist]
    exact IsBalanced.of_blank hbefore hafter (hkept ▸ hcall.balanced)
  · simp [label]
  · rw [String.ofList_toList, hargs, Text.trim_trim]

/-- An expression is taken for an aggregation just when it is one call; what is found is the
function with that name and what stands between the parentheses, and it is found again in the text
that shows it. `ofText?_eq_some_iff` says of each result when it is found; that only the letters of
the name matter is `AggregateFunction.isSpelledBy_iff`. -/
theorem detected_iff_isCall (text : String) :
    ((ofText? text).isSome ↔ ∃ name args, IsCall text name args)
      ∧ (∀ a, ofText? text = some a
          ↔ ∃ name args, IsCall text name args
              ∧ a.function.name.toList = name.map AggregateFunction.capital
              ∧ a.args = Text.trim (String.ofList args))
      ∧ ∀ a, ofText? text = some a → ofText? a.label = some a := by
  refine ⟨?_, fun a => ?_, fun a => ofText?_label⟩
  · rw [Option.isSome_iff_exists]
    constructor
    · rintro ⟨a, h⟩
      obtain ⟨name, args, hcall, -⟩ := ofText?_eq_some_iff.mp h
      exact ⟨name, args, hcall⟩
    · rintro ⟨name, args, hcall⟩
      obtain ⟨f, hf⟩ := hcall.named
      exact ⟨⟨f, Text.trim (String.ofList args)⟩,
        ofText?_eq_some_iff.mpr ⟨name, args, hcall, hf, rfl⟩⟩
  · simp only [ofText?_eq_some_iff, AggregateFunction.isSpelledBy_iff]

/-- A parenthesis in a quotation is part of the argument, two calls are none. -/
example : ofText? " sum ( concat(a, ')') ) " = some ⟨.sum, "concat(a, ')')"⟩
    ∧ ofText? "SUM(a) / SUM(b)" = none := by
  decide +kernel

end Aggregation

end QueryLineage
