import Mathlib.Data.List.Induction
import QueryLineage.ColumnLineage
import QueryLineage.Proofs.CatalogNames
import QueryLineage.Proofs.JoinRecords

/-!
# Columns by their spelling

The equalities of a join keep the text of their sides, and a side is taken for a column by its text
alone. The texts that pass are those of paths of *legible* names
(`Sql.isColumnText_iff_isSpelling`): the state of the reader tells what has been read so far
(`ColumnText.Follows`, kept by a step and so by a run), and a legible name takes the reader past it
(`Ident.foldl_of_isLegible`).

So a side need not be a column to pass, and a column need not pass. What is sure in spite of this is
told by how the text starts and ends: a text passes only if it starts like a name, and the text of a
path of *plain* names only if all of them are legible, since a plain name cannot hide its end
(`Ident.foldl_of_not_isLegible`). Names in general can: a mark after a backslash is not doubled, so
that the next names are read as if they stood inside the quotation.
-/

namespace QueryLineage

namespace Sql

/-! ## Legible names -/

/-- A name that can be read as a part of a column's text: a bare one of word characters, or one in
quotation marks that holds none of them. Dashes are allowed in the first part. -/
def Ident.IsLegible (first : Bool) (i : Ident) : Prop :=
  match i.quote with
  | none => ∃ c rest, i.value.toList = c :: rest ∧ ColumnText.startsBare c = true
      ∧ ∀ d ∈ rest, Text.isWord d = true ∨ (first = true ∧ d = '-')
  | some mark => (mark = '\x60' ∨ mark = '\x22') ∧ i.value ≠ "" ∧ mark ∉ i.value.toList

/-- All parts of a path are legible in their places. -/
def AllLegible (names : List Ident) : Prop :=
  ∀ (place : Nat) (i : Ident), names[place]? = some i → i.IsLegible (place = 0)

/-- A text that is written like a column of legible names, and is no constant. -/
def IsSpelling (text : String) : Prop :=
  (∃ names : List Ident, names ≠ [] ∧ AllLegible names ∧ text = nameText names)
    ∧ ∀ w ∈ constantWords, Text.lowerAscii w ≠ Text.lowerAscii text

theorem allLegible_concat {done : List Ident} {i : Ident} :
    AllLegible (done ++ [i]) ↔ AllLegible done ∧ i.IsLegible done.isEmpty := by
  have hplace : decide (done.length = 0) = done.isEmpty := by cases done <;> rfl
  constructor
  · intro h
    refine ⟨fun place j hj => h place j ?_, hplace ▸ h done.length i (by simp)⟩
    rw [List.getElem?_append_left (List.getElem?_eq_some_iff.mp hj).1, hj]
  · rintro ⟨hdone, hi⟩ place j hj
    rcases Nat.lt_or_ge place done.length with hlt | hge
    · rw [List.getElem?_append_left hlt] at hj
      exact hdone place j hj
    · rw [List.getElem?_append_right hge, List.getElem?_singleton] at hj
      split at hj
      · obtain rfl := Option.some.inj hj
        obtain rfl : place = done.length := by omega
        rw [hplace]
        exact hi
      · cases hj

/-! ## Texts of names -/

theorem doubleMarks_of_not_mem {mark previous : Char} {cs : List Char} (h : mark ∉ cs) :
    doubleMarks mark previous cs = cs := by
  induction cs generalizing previous with
  | nil => rfl
  | cons c rest ih =>
      rw [List.mem_cons, not_or] at h
      unfold doubleMarks
      rw [if_pos (Ne.symm h.1), ih h.2]

theorem Ident.toList_text_of_quote {i : Ident} {mark : Char} (h : i.quote = some mark) :
    i.text.toList = mark :: doubleMarks mark '\x00' i.value.toList ++ [mark] := by
  rw [text, h]
  exact String.toList_ofList

theorem Ident.toList_text_of_bare {i : Ident} (h : i.quote = none) :
    i.text.toList = i.value.toList := by
  rw [text, h]

/-- The parts of a path up to the one that is read, each with the dot after it. -/
def opened (done : List Ident) : List Char := done.flatMap fun i => i.text.toList ++ ['.']

theorem opened_concat (done : List Ident) (i : Ident) :
    opened (done ++ [i]) = opened done ++ i.text.toList ++ ['.'] := by
  simp [opened]

theorem toList_nameText_cons_cons (i j : Ident) (rest : List Ident) :
    (nameText (i :: j :: rest)).toList = i.text.toList ++ '.' :: (nameText (j :: rest)).toList := by
  simp [nameText, Text.join, String.intercalate_cons_cons]

theorem toList_nameText_concat (done : List Ident) (i : Ident) :
    (nameText (done ++ [i])).toList = opened done ++ i.text.toList := by
  induction done with
  | nil => simp [nameText, Text.join, opened]
  | cons j rest ih =>
      have hcons : ∃ k later, rest ++ [i] = k :: later := by cases rest <;> simp
      obtain ⟨k, later, hk⟩ := hcons
      rw [List.cons_append, hk, toList_nameText_cons_cons, ← hk, ih]
      simp [opened]

theorem eq_nameText_concat {text : String} {done : List Ident} {i : Ident}
    (h : text.toList = opened done ++ i.text.toList) : text = nameText (done ++ [i]) :=
  String.toList_inj.mp (h.trans (toList_nameText_concat done i).symm)

theorem opened_eq {names : List Ident} (h : names ≠ []) :
    opened names = (nameText names).toList ++ ['.'] := by
  obtain ⟨done, i, rfl⟩ := (List.eq_nil_or_concat' names).resolve_left h
  rw [opened_concat, toList_nameText_concat]

end Sql

namespace ColumnText

open Sql

/-! ## What has been read -/

theorem isWord_ne_dot {c : Char} (h : Text.isWord c = true) : c ≠ '.' := by
  rintro rfl
  revert h
  decide +kernel

/-- What the reader has read when it is in a state. -/
def Follows (cs : List Char) : ColumnText → Prop
  | .start first => ∃ done, AllLegible done ∧ cs = opened done ∧ first = done.isEmpty
  | .bare first => ∃ done i, AllLegible (done ++ [i]) ∧ i.quote = none
      ∧ cs = opened done ++ i.text.toList ∧ first = done.isEmpty
  | .quoted mark empty => ∃ done inside, AllLegible done ∧ (mark = '\x60' ∨ mark = '\x22')
      ∧ mark ∉ inside ∧ cs = opened done ++ mark :: inside ∧ empty = inside.isEmpty
  | .closed => ∃ done i, AllLegible (done ++ [i]) ∧ cs = opened done ++ i.text.toList
  | .broken => True

theorem follows_start_of_concat {cs : List Char} {done : List Ident} {i : Ident}
    (h : AllLegible (done ++ [i])) (hcs : cs = opened done ++ i.text.toList) :
    Follows (cs ++ ['.']) (.start false) := by
  exact ⟨done ++ [i], h, by rw [hcs, opened_concat], by simp⟩

theorem Follows.step {cs : List Char} {s : ColumnText} (h : Follows cs s) (c : Char) :
    Follows (cs ++ [c]) (s.step c) := by
  cases s with
  | start first =>
      obtain ⟨done, hdone, rfl, rfl⟩ := h
      rw [ColumnText.step]
      split
      · rename_i hstarts
        refine ⟨done, ⟨String.ofList [c], none⟩, ?_, rfl, by simp [Ident.text], rfl⟩
        refine allLegible_concat.mpr ⟨hdone, c, [], by simp, hstarts, nofun⟩
      · split
        · rename_i hmark
          exact ⟨done, [], hdone, hmark, List.not_mem_nil, rfl, rfl⟩
        · trivial
  | bare first =>
      obtain ⟨done, i, hi, hquote, hcs, rfl⟩ := h
      rw [ColumnText.step]
      split
      · rename_i hdot
        rw [hdot]
        exact follows_start_of_concat hi hcs
      · split
        · rename_i hword
          obtain ⟨hdone, hlegible⟩ := allLegible_concat.mp hi
          rw [Ident.IsLegible, hquote] at hlegible
          obtain ⟨d, rest, hvalue, hstarts, hrest⟩ := hlegible
          refine ⟨done, ⟨String.ofList (i.value.toList ++ [c]), none⟩, ?_, rfl, ?_, rfl⟩
          · refine allLegible_concat.mpr ⟨hdone, d, rest ++ [c], by simp [hvalue], hstarts, ?_⟩
            intro e he
            rcases List.mem_append.mp he with he | he
            · exact hrest e he
            · obtain rfl := List.mem_singleton.mp he
              exact hword
          · rw [hcs, Ident.toList_text_of_bare hquote, Ident.toList_text_of_bare rfl]
            simp
        · trivial
  | quoted mark empty =>
      obtain ⟨done, inside, hdone, hmark, hinside, rfl, rfl⟩ := h
      rw [ColumnText.step]
      split
      · rename_i hc
        split
        · trivial
        · rename_i hempty
          refine ⟨done, ⟨String.ofList inside, some mark⟩, ?_, ?_⟩
          · refine allLegible_concat.mpr ⟨hdone, hmark, ?_, by simpa using hinside⟩
            rintro hnone
            simp_all
          · rw [Ident.toList_text_of_quote rfl, hc]
            simp [doubleMarks_of_not_mem hinside]
      · rename_i hc
        refine ⟨done, inside ++ [c], hdone, hmark, ?_, by simp, by simp⟩
        simp [hinside, Ne.symm hc]
  | closed =>
      obtain ⟨done, i, hi, hcs⟩ := h
      rw [ColumnText.step]
      split
      · rename_i hdot
        rw [hdot]
        exact follows_start_of_concat hi hcs
      · trivial
  | broken => trivial

theorem follows_run (cs : List Char) : Follows cs (cs.foldl ColumnText.step (.start true)) := by
  induction cs using List.reverseRecOn with
  | nil => exact ⟨[], nofun, rfl, rfl⟩
  | append_singleton cs c ih =>
      rw [List.foldl_concat]
      exact ih.step c

/-! ## Reading names -/

theorem foldl_broken (cs : List Char) : cs.foldl ColumnText.step .broken = .broken := by
  induction cs with
  | nil => rfl
  | cons c rest ih => exact ih

theorem foldl_bare {first : Bool} {cs : List Char}
    (h : ∀ d ∈ cs, Text.isWord d = true ∨ (first = true ∧ d = '-')) :
    cs.foldl ColumnText.step (.bare first) = .bare first := by
  induction cs with
  | nil => rfl
  | cons c rest ih =>
      rw [List.forall_mem_cons] at h
      have hdot : c ≠ '.' := by
        rcases h.1 with hword | ⟨-, rfl⟩
        · exact isWord_ne_dot hword
        · decide
      rw [List.foldl_cons, ColumnText.step, if_neg hdot, if_pos h.1]
      exact ih h.2

theorem foldl_quoted {mark : Char} {empty : Bool} {cs : List Char} (h : mark ∉ cs) :
    cs.foldl ColumnText.step (.quoted mark empty) = .quoted mark (empty && cs.isEmpty) := by
  induction cs generalizing empty with
  | nil => simp
  | cons c rest ih =>
      rw [List.mem_cons, not_or] at h
      rw [List.foldl_cons, ColumnText.step, if_neg (Ne.symm h.1), ih h.2]
      simp

theorem step_start_of_mark {first : Bool} {mark : Char} (h : mark = '\x60' ∨ mark = '\x22') :
    (start first).step mark = .quoted mark true := by
  rcases h with rfl | rfl
  · rfl
  · rfl

end ColumnText

namespace Sql

open ColumnText

theorem Ident.foldl_of_isLegible {first : Bool} {i : Ident} (h : i.IsLegible first) :
    i.text.toList.foldl ColumnText.step (.start first)
      = if i.quote.isNone then .bare first else .closed := by
  rw [IsLegible] at h
  cases hquote : i.quote with
  | none =>
      rw [hquote] at h
      obtain ⟨c, rest, hvalue, hstarts, hrest⟩ := h
      rw [toList_text_of_bare hquote, hvalue, List.foldl_cons, ColumnText.step, if_pos hstarts]
      exact foldl_bare hrest
  | some mark =>
      rw [hquote] at h
      obtain ⟨hmark, hvalue, hinside⟩ := h
      have hne : i.value.toList.isEmpty = false := by simpa using hvalue
      rw [toList_text_of_quote hquote, doubleMarks_of_not_mem hinside, List.cons_append,
        List.foldl_cons, step_start_of_mark hmark, List.foldl_concat, foldl_quoted hinside, hne]
      simp [ColumnText.step]

theorem foldl_opened {done : List Ident} (h : AllLegible done) :
    (opened done).foldl ColumnText.step (.start true) = .start done.isEmpty := by
  induction done using List.reverseRecOn with
  | nil => rfl
  | append_singleton done i ih =>
      obtain ⟨hdone, hi⟩ := allLegible_concat.mp h
      rw [opened_concat, List.foldl_concat, List.foldl_append, ih hdone, i.foldl_of_isLegible hi]
      split
      · simp [ColumnText.step]
      · simp [ColumnText.step]

theorem foldl_nameText {names : List Ident} (hne : names ≠ []) (h : AllLegible names) :
    (∃ first, (nameText names).toList.foldl ColumnText.step (.start true) = .bare first)
      ∨ (nameText names).toList.foldl ColumnText.step (.start true) = .closed := by
  obtain ⟨done, i, rfl⟩ := (List.eq_nil_or_concat' names).resolve_left hne
  obtain ⟨hdone, hi⟩ := allLegible_concat.mp h
  rw [toList_nameText_concat, List.foldl_append, foldl_opened hdone, i.foldl_of_isLegible hi]
  split
  · exact .inl ⟨_, rfl⟩
  · exact .inr rfl

/-- The texts that pass for columns are those written like a column of legible names. A complete
text is what the state of the reader says has been read (`follows_run`), and the other way round the
reader comes through the names one after another. -/
theorem isColumnText_iff_isSpelling {text : String} :
    isColumnText text = true ↔ IsSpelling text := by
  have hwords : (!constantWords.any (Text.eqIgnoringCase · text)) = true
      ↔ ∀ w ∈ constantWords, Text.lowerAscii w ≠ Text.lowerAscii text := by
    simp only [Bool.not_eq_true', List.any_eq_false, Text.eqIgnoringCase_iff, ne_eq]
  rw [isColumnText, Bool.and_eq_true, and_comm, hwords, IsSpelling]
  refine and_congr_left fun _ => ⟨fun hcomplete => ?_, ?_⟩
  · have hread := follows_run text.toList
    generalize text.toList.foldl ColumnText.step (.start true) = s at hcomplete hread
    cases s with
    | bare first =>
        obtain ⟨done, i, hall, -, hcs, -⟩ := hread
        exact ⟨done ++ [i], by simp, hall, eq_nameText_concat hcs⟩
    | closed =>
        obtain ⟨done, i, hall, hcs⟩ := hread
        exact ⟨done ++ [i], by simp, hall, eq_nameText_concat hcs⟩
    | start first => cases hcomplete
    | quoted mark empty => cases hcomplete
    | broken => cases hcomplete
  · rintro ⟨names, hne, hall, rfl⟩
    rcases foldl_nameText hne hall with ⟨first, h⟩ | h
    · rw [h, isComplete]
    · rw [h, isComplete]

theorem IsSpelling.isComplete {text : String} (h : IsSpelling text) :
    (text.toList.foldl ColumnText.step (.start true)).isComplete = true := by
  have hread := isColumnText_iff_isSpelling.mpr h
  rw [isColumnText, Bool.and_eq_true] at hread
  exact hread.2

/-! ## Names that are not legible -/

/-- A name in whose text one sees where it ends: it is bare and without dots and quotation marks, or
quoted and without backslashes. -/
def Ident.IsPlain (i : Ident) : Prop :=
  match i.quote with
  | none => ∀ c ∈ i.value.toList, c ≠ '.' ∧ c ≠ '\x60' ∧ c ≠ '\x22'
  | some mark => (mark = '\x60' ∨ mark = '\x22' ∨ mark = '\'') ∧ '\\' ∉ i.value.toList

theorem exists_doubleMarks_cons_self {mark previous : Char} (h : previous ≠ '\\')
    (rest : List Char) :
    ∃ more, doubleMarks mark previous (mark :: rest) = mark :: mark :: more := by
  unfold doubleMarks
  rw [if_neg (fun hne => hne rfl), if_neg h]
  cases rest with
  | nil => exact ⟨[], rfl⟩
  | cons d rest =>
      by_cases hd : d = mark
      · exact ⟨doubleMarks mark mark rest, by simp [hd]⟩
      · exact ⟨doubleMarks mark mark (d :: rest), by simp [hd]⟩

theorem foldl_doubleMarks {mark previous : Char} {empty : Bool} {cs : List Char} (hdot : mark ≠ '.')
    (hprevious : previous ≠ '\\') (hcs : '\\' ∉ cs) (hmem : mark ∈ cs) :
    (doubleMarks mark previous cs).foldl ColumnText.step (.quoted mark empty) = .broken := by
  induction cs generalizing previous empty with
  | nil => cases hmem
  | cons c rest ih =>
      by_cases hc : c = mark
      · subst hc
        -- the first of the two marks closes the quotation, or breaks an empty one
        obtain ⟨more, hmore⟩ := exists_doubleMarks_cons_self hprevious rest
        rw [hmore, List.foldl_cons, List.foldl_cons]
        cases empty with
        | true => simpa [ColumnText.step] using foldl_broken more
        | false => simpa [ColumnText.step, hdot] using foldl_broken more
      · rw [List.mem_cons, not_or] at hcs
        have hrest : mark ∈ rest := (List.mem_cons.mp hmem).resolve_left (Ne.symm hc)
        unfold doubleMarks
        rw [if_pos hc, List.foldl_cons, ColumnText.step, if_neg hc]
        exact ih (Ne.symm hcs.1) hcs.2 hrest

theorem foldl_bare_broken {first : Bool} {cs : List Char} (hdot : ∀ d ∈ cs, d ≠ '.')
    (h : ¬ ∀ d ∈ cs, Text.isWord d = true ∨ (first = true ∧ d = '-')) :
    cs.foldl ColumnText.step (.bare first) = .broken := by
  induction cs with
  | nil => exact absurd nofun h
  | cons c rest ih =>
      rw [List.forall_mem_cons] at hdot
      rw [List.foldl_cons, ColumnText.step, if_neg hdot.1]
      split
      · rename_i hc
        exact ih hdot.2 fun hrest => h (List.forall_mem_cons.mpr ⟨hc, hrest⟩)
      · exact foldl_broken rest

/-- At a plain name that is not legible the reader breaks, unless it has no text at all. A bare name
breaks it at one of its characters; a quoted one at a single mark in front, at a mark inside, or at
the end if there is nothing between the marks. -/
theorem Ident.foldl_of_not_isLegible {first : Bool} {i : Ident} (hplain : i.IsPlain)
    (h : ¬ i.IsLegible first) :
    i.text.toList.foldl ColumnText.step (.start first) = .start first
      ∨ i.text.toList.foldl ColumnText.step (.start first) = .broken := by
  rw [IsPlain] at hplain
  rw [IsLegible] at h
  cases hquote : i.quote with
  | none =>
      rw [hquote] at hplain h
      rw [toList_text_of_bare hquote]
      cases hvalue : i.value.toList with
      | nil => exact .inl rfl
      | cons c rest =>
          rw [hvalue, List.forall_mem_cons] at hplain
          refine .inr ?_
          rw [List.foldl_cons, ColumnText.step]
          split
          · rename_i hstarts
            refine foldl_bare_broken (fun d hd => (hplain.2 d hd).1) fun hrest => ?_
            exact h ⟨c, rest, hvalue, hstarts, hrest⟩
          · rw [if_neg (not_or.mpr hplain.1.2)]
            exact foldl_broken rest
  | some mark =>
      rw [hquote] at hplain h
      obtain ⟨hmark, hslash⟩ := hplain
      refine .inr ?_
      rw [toList_text_of_quote hquote, List.cons_append, List.foldl_cons, List.foldl_concat]
      by_cases hsingle : mark = '\''
      · subst hsingle
        have hbroken : (ColumnText.start first).step '\'' = .broken := rfl
        rw [hbroken, foldl_broken]
        rfl
      · have hmark' : mark = '\x60' ∨ mark = '\x22' := by
          rcases hmark with hmark | hmark | hmark
          · exact .inl hmark
          · exact .inr hmark
          · exact absurd hmark hsingle
        rw [step_start_of_mark hmark']
        by_cases hmem : mark ∈ i.value.toList
        · have hdot : mark ≠ '.' := by
            rcases hmark' with rfl | rfl
            · decide
            · decide
          rw [foldl_doubleMarks hdot (by decide) hslash hmem]
          rfl
        · have hempty : i.value = "" := by
            by_contra hne
            exact h ⟨hmark', hne, hmem⟩
          simp [hempty, doubleMarks, ColumnText.step]

section

variable {names : List Ident}

theorem foldl_nameText_of_not_allLegible (hplain : ∀ i ∈ names, i.IsPlain)
    (h : ¬ AllLegible names) :
    (∃ first, (nameText names).toList.foldl ColumnText.step (.start true) = .start first)
      ∨ (nameText names).toList.foldl ColumnText.step (.start true) = .broken := by
  induction names using List.reverseRecOn with
  | nil => exact absurd nofun h
  | append_singleton done i ih =>
      rw [List.forall_mem_append] at hplain
      rw [toList_nameText_concat, List.foldl_append]
      by_cases hdone : AllLegible done
      · have hi : ¬ i.IsLegible done.isEmpty := fun hi => h (allLegible_concat.mpr ⟨hdone, hi⟩)
        rw [foldl_opened hdone]
        exact (Ident.foldl_of_not_isLegible (hplain.2 i (by simp)) hi).imp_left fun hi => ⟨_, hi⟩
      · -- the names before break the text at their last dot, if they have not done so earlier
        have hbroken : (opened done).foldl ColumnText.step (.start true) = .broken := by
          have hne : done ≠ [] := by
            rintro rfl
            exact hdone nofun
          rw [opened_eq hne, List.foldl_concat]
          rcases ih hplain.1 hdone with ⟨first, hstate⟩ | hstate
          · rw [hstate]
            rfl
          · rw [hstate]
            rfl
        rw [hbroken, foldl_broken]
        exact .inr rfl

theorem isSpelling_nameText_iff (hplain : ∀ i ∈ names, i.IsPlain) (hne : names ≠ []) :
    IsSpelling (nameText names) ↔ AllLegible names
      ∧ ∀ w ∈ constantWords, Text.lowerAscii w ≠ Text.lowerAscii (nameText names) := by
  refine ⟨fun h => ⟨?_, h.2⟩, fun h => ⟨⟨names, hne, h.1, rfl⟩, h.2⟩⟩
  by_contra hnot
  have hcomplete := h.isComplete
  rcases foldl_nameText_of_not_allLegible hplain hnot with ⟨first, hstate⟩ | hstate
  · rw [hstate] at hcomplete
    cases hcomplete
  · rw [hstate] at hcomplete
    cases hcomplete

theorem not_isSpelling_of_paren (hplain : ∀ i ∈ names, i.IsPlain) {text : String}
    {rest : List Char} (h : text.toList = (nameText names).toList ++ '(' :: rest) :
    ¬ IsSpelling text := by
  intro hspelling
  have hcomplete := hspelling.isComplete
  have hword : Text.isWord '(' = false := by decide +kernel
  -- plain names leave no quotation open, in which the parenthesis would be one more character
  have hbroken :
      ((nameText names).toList.foldl ColumnText.step (.start true)).step '(' = .broken := by
    by_cases hall : AllLegible names
    · rcases eq_or_ne names [] with rfl | hne
      · rfl
      · rcases foldl_nameText hne hall with ⟨first, hstate⟩ | hstate
        · simp [hstate, ColumnText.step, hword]
        · rw [hstate]
          rfl
    · rcases foldl_nameText_of_not_allLegible hplain hall with ⟨first, hstate⟩ | hstate
      · rw [hstate]
        rfl
      · rw [hstate]
        rfl
  rw [h, List.foldl_append, List.foldl_cons, hbroken, foldl_broken] at hcomplete
  cases hcomplete

end

/-! ## Comparisons -/

/-- The sides of the equalities that a predicate implies by itself. -/
def Expr.comparisons : Expr → List (Expr × Expr)
  | .binary left .equals right => [(left, right)]
  | .binary left .conjunction right => left.comparisons ++ right.comparisons
  | .nested inner => inner.comparisons
  | _ => []

/-- The texts of two sides. -/
def comparedTexts (sides : Expr × Expr) : String × String := (sides.1.text, sides.2.text)

/-- An expression that is written like a column of legible names. -/
def Expr.IsSpeltAsColumn (e : Expr) : Prop := IsSpelling e.text

instance (e : Expr) : Decidable e.IsSpeltAsColumn :=
  decidable_of_iff (isColumnText e.text = true) isColumnText_iff_isSpelling

theorem Expr.sql_toTree (e : Expr) : e.toTree.sql = e.text := by
  cases e with
  | column first rest => rw [toTree, text]; rfl
  | binary left op right =>
      cases op with
      | equals => rw [toTree]
      | conjunction => rw [toTree]
      | other symbol => rw [toTree]
  | form pieces => rw [toTree, text]
  | _ => rw [toTree]

theorem Expr.equalities_toTree (e : Expr) :
    e.toTree.equalities = e.comparisons.map comparedTexts := by
  cases e with
  | column first rest => simp [toTree, comparisons, columnNode, Tree.leaf, Tree.equalities]
  | binary left op right =>
      cases op with
      | equals => simp [toTree, comparisons, Tree.equalities, sql_toTree, comparedTexts]
      | conjunction =>
          simp [toTree, comparisons, Tree.equalities, Tree.equalitiesOfAll,
            left.equalities_toTree, right.equalities_toTree]
      | other symbol => simp [toTree, comparisons, Tree.equalities]
  | nested inner =>
      simp [toTree, comparisons, Tree.equalities, Tree.equalitiesOfAll, inner.equalities_toTree]
  | _ => simp [toTree, comparisons, Tree.equalities]

theorem IsJoinNode.exists_condition {join : Tree} (h : IsJoinNode join) {kind : String}
    (hlabel : join.label = .join kind .predicate) :
    ∃ e : Expr, join.children[1]? = some e.toTree := by
  cases h with
  | join j =>
      cases j with
      | conditioned op relation condition => exact ⟨condition, by rw [Join.toTree]; rfl⟩
      | _ => simp [Join.toTree] at hlabel
  | afterComma r => cases hlabel

/-- The equalities that the condition of a record states are those of an expression, and of these
the ones whose sides are both spelt as columns become edges. -/
theorem Statement.columnPairs_of_mem_joins {s : Statement} {rs : Relations} {r : JoinRecord}
    (hr : r ∈ s.toTree.joins rs) :
    ∃ join ∈ s.toTree.findAll .join, r.toJoin.IsRecordOf rs join
      ∧ ∀ kind, join.label = .join kind .predicate →
        ∃ e : Expr, join.children[1]? = some e.toTree
          ∧ r.equalityPairs = e.comparisons.map comparedTexts
          ∧ ColumnLineage.columnPairs r = (e.comparisons.filter fun sides =>
              sides.1.IsSpeltAsColumn ∧ sides.2.IsSpeltAsColumn).map comparedTexts := by
  obtain ⟨join, hjoin, hrecord⟩ := exists_of_mem_forall₂ (s.toTree.forall₂_joins rs) hr
  have hmem : join ∈ s.toTree.findAll .join :=
    s.joinsByClause_perm_findAll.mem_iff.mp (List.mem_filter.mp hjoin).1
  refine ⟨join, hmem, hrecord, fun kind hlabel => ?_⟩
  obtain ⟨e, he⟩ := (isJoinNode_of_mem_findAll hmem).exists_condition hlabel
  have hpairs : r.equalityPairs = e.comparisons.map comparedTexts := by
    rw [(hrecord.predicate kind _ hlabel he).2, e.equalities_toTree]
  refine ⟨e, he, hpairs, ?_⟩
  rw [ColumnLineage.columnPairs, hpairs, List.filter_map]
  congr 1
  refine List.filter_congr fun sides _ => ?_
  rw [Bool.eq_iff_iff, decide_eq_true_iff]
  simp only [Function.comp_apply, comparedTexts, Bool.and_eq_true, isColumnText_iff_isSpelling,
    Expr.IsSpeltAsColumn]

/-- **The edges of joins go by spelling.** The equalities of a predicate are its comparisons, and
those with both sides spelt as columns become edges. What is written like a path of plain names, a
column or a keyword without parentheses, is spelt as a column if and only if all its parts are
legible and it is no constant. A call with parentheses is not, nor is a number, a text in single
quotation marks, or another expression that starts neither like a name nor like a quoted one. -/
theorem Statement.joinEdges_of_predicates (s : Statement) (rs : Relations) :
    (ColumnLineage.ofTree s.toTree (s.toTree.joins rs)).joinEdges
      = (s.toTree.joins rs).flatMap ColumnLineage.columnPairs
    ∧ (∀ r ∈ s.toTree.joins rs, ∃ join ∈ s.toTree.findAll .join, r.toJoin.IsRecordOf rs join
      ∧ ∀ kind, join.label = .join kind .predicate →
        ∃ e : Expr, join.children[1]? = some e.toTree
          ∧ r.equalityPairs = e.comparisons.map comparedTexts
          ∧ ColumnLineage.columnPairs r = (e.comparisons.filter fun sides =>
              sides.1.IsSpeltAsColumn ∧ sides.2.IsSpeltAsColumn).map comparedTexts)
    ∧ (∀ (e : Expr) (names : List Ident), e.text = nameText names → names ≠ [] →
      (∀ i ∈ names, i.IsPlain) → (e.IsSpeltAsColumn ↔ AllLegible names
        ∧ ∀ w ∈ constantWords, Text.lowerAscii w ≠ Text.lowerAscii (nameText names)))
    ∧ (∀ name opening args closing groupOrder rest within,
      (piecesText opening).toList = '(' :: within → (∀ i ∈ name, i.IsPlain) →
        ¬ (Expr.call name opening args closing groupOrder rest).IsSpeltAsColumn)
    ∧ ∀ (e : Expr) (c : Char) (rest : List Char), e.text.toList = c :: rest →
      startsBare c = false → c ≠ '\x60' → c ≠ '\x22' → ¬ e.IsSpeltAsColumn := by
  refine ⟨rfl, fun r => columnPairs_of_mem_joins, ?_, ?_, ?_⟩
  · intro e names htext hne hplain
    rw [Expr.IsSpeltAsColumn, htext]
    exact isSpelling_nameText_iff hplain hne
  · intro name opening args closing groupOrder rest within hopening hplain
    let more := (commaSeparated (argumentTexts args) ++ piecesText closing
      ++ piecesText groupOrder ++ piecesText rest).toList
    have htext : (Expr.call name opening args closing groupOrder rest).text.toList
        = (nameText name).toList ++ '(' :: (within ++ more) := by
      rw [Expr.text]
      simp [hopening, more]
    exact not_isSpelling_of_paren hplain htext
  · intro e c rest htext hbare hbacktick hquote hspelling
    have hcomplete := IsSpelling.isComplete hspelling
    have hbroken : (ColumnText.start true).step c = .broken := by
      simp [ColumnText.step, hbare, hbacktick, hquote]
    rw [htext, List.foldl_cons, hbroken, foldl_broken] at hcomplete
    cases hcomplete

/-- A text in double quotation marks is written like a column. -/
theorem Statement.joinEdges_of_quotedText :
    (readScript .bigquery "SELECT a.x FROM a JOIN b ON a.k = \x22north\x22").toOption.map
        (·.map fun s => ((s.toTree.findAll .equality).flatMap fun t =>
          t.children.map fun side => (side.sql, side.kind),
          (ColumnLineage.ofTree s.toTree (s.toTree.joins (.ofTree {} s.toTree))).joinEdges))
      = some [([("a.k", .column), ("\x22north\x22", .expr)], [("a.k", "\x22north\x22")])] := by
  decide +kernel

end Sql

end QueryLineage
