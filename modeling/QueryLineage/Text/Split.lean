/-!
# Splitting, joining and laying out

`split sep` cuts at every `sep`, so that a text with `n` of them has `n + 1` pieces, none of which
holds one, and joining the pieces gives the text back.

A table is laid out in rows of cells that are filled up with blanks to the width of their column,
counted in characters; a longer text stays whole.
-/

namespace QueryLineage.Text

/-- The pieces between the separators; never empty. -/
def splitChars (sep : Char) : List Char → List (List Char)
  | [] => [[]]
  | c :: cs =>
    if c = sep then [] :: splitChars sep cs
    else match splitChars sep cs with
      | piece :: rest => (c :: piece) :: rest
      | [] => [[c]]

theorem splitChars_ne_nil (sep : Char) (cs : List Char) : splitChars sep cs ≠ [] := by
  cases cs with
  | nil => simp [splitChars]
  | cons c cs =>
    simp only [splitChars]
    split
    · simp
    · split <;> simp

/-- No piece holds the separator. -/
theorem not_mem_of_mem_splitChars {sep : Char} {cs piece : List Char}
    (h : piece ∈ splitChars sep cs) : sep ∉ piece := by
  induction cs generalizing piece with
  | nil => simp_all [splitChars]
  | cons c cs ih =>
    simp only [splitChars] at h
    split at h
    · rcases List.mem_cons.1 h with rfl | h
      · simp
      · exact ih h
    · rename_i hc
      split at h
      · rename_i p rest heq
        rcases List.mem_cons.1 h with rfl | h
        · have := ih (heq ▸ List.mem_cons_self : p ∈ _)
          simp only [List.mem_cons, not_or]
          exact ⟨fun e => hc e.symm, this⟩
        · exact ih (heq ▸ List.mem_cons_of_mem _ h)
      · rename_i heq
        exact absurd heq (splitChars_ne_nil sep cs)

/-- The pieces of a text between the occurrences of a character. -/
def split (sep : Char) (s : String) : List String :=
  (splitChars sep s.toList).map String.ofList

theorem split_ne_nil (sep : Char) (s : String) : split sep s ≠ [] := by
  simp [split, splitChars_ne_nil]

theorem not_mem_of_mem_split {sep : Char} {s piece : String} (h : piece ∈ split sep s) :
    sep ∉ piece.toList := by
  obtain ⟨p, hp, rfl⟩ := List.mem_map.1 h
  simpa using not_mem_of_mem_splitChars hp

theorem splitChars_of_not_mem {sep : Char} {cs : List Char} (h : sep ∉ cs) :
    splitChars sep cs = [cs] := by
  induction cs with
  | nil => rfl
  | cons c cs ih =>
      obtain ⟨hc, hcs⟩ := not_or.mp (mt List.mem_cons.mpr h)
      simp only [splitChars, if_neg (Ne.symm hc), ih hcs]

theorem splitChars_append {sep : Char} {cs : List Char} (h : sep ∉ cs) (rest : List Char) :
    splitChars sep (cs ++ sep :: rest) = cs :: splitChars sep rest := by
  induction cs with
  | nil => simp [splitChars]
  | cons c cs ih =>
      obtain ⟨hc, hcs⟩ := not_or.mp (mt List.mem_cons.mpr h)
      simp only [List.cons_append, splitChars, if_neg (Ne.symm hc), ih hcs]

theorem split_of_not_mem {sep : Char} {s : String} (h : sep ∉ s.toList) : split sep s = [s] := by
  simp [split, splitChars_of_not_mem h]

theorem split_append {sep : Char} {a : String} (h : sep ∉ a.toList) {mark : String}
    (hmark : mark.toList = [sep]) (b : String) : split sep (a ++ mark ++ b) = a :: split sep b := by
  have hchars : (a ++ mark ++ b).toList = a.toList ++ sep :: b.toList := by
    simp [hmark]
  rw [split, hchars, splitChars_append h]
  simp [split]

/-- What follows the first occurrence of a pattern. -/
def after? (pattern : List Char) : List Char → Option (List Char)
  | [] => if pattern.isEmpty then some [] else none
  | c :: cs =>
    if pattern.isPrefixOf (c :: cs) then some ((c :: cs).drop pattern.length)
    else after? pattern cs

/-- The texts one after another with `sep` between them. -/
def join (sep : String) (parts : List String) : String := sep.intercalate parts

/-- Splitting takes apart what was joined, if no part holds the separator. By induction on the
parts, one separator at a time (`split_append`). -/
theorem split_join {sep : Char} {mark : String} (hmark : mark.toList = [sep]) {parts : List String}
    (hne : parts ≠ []) (h : ∀ p ∈ parts, sep ∉ p.toList) : split sep (join mark parts) = parts := by
  induction parts with
  | nil => exact absurd rfl hne
  | cons p rest ih =>
      have hp := h p List.mem_cons_self
      cases rest with
      | nil => rw [join, String.intercalate_singleton, split_of_not_mem hp]
      | cons q rest' =>
          have htail := ih (List.cons_ne_nil q rest')
            fun r hr => h r (List.mem_cons_of_mem p hr)
          rw [join, String.intercalate_cons_cons, split_append hp hmark, ← join, htail]

/-! ## Tables -/

/-- A text filled up with blanks to a width. -/
def padded (width : Nat) (s : String) : String :=
  s ++ String.ofList (List.replicate (width - s.toList.length) ' ')

/-- A row of cells with a blank between them: the last one as it is, the others of some widths. -/
def row (cells : List (Nat × String)) (last : String) : String :=
  join " " (cells.map (fun c => padded c.1 c.2) ++ [last])

/-- A line of dashes. -/
def rule (width : Nat) : String := String.ofList (List.replicate width '-')

/-- Lines, each with its end. -/
def lines (ls : List String) : String := String.join (ls.map (· ++ "\n"))

end QueryLineage.Text
