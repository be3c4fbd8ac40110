import QueryLineage.TableName

/-!
# Expanding what common table expressions read

Every common table expression starts with the tables it names itself. A *sweep* goes through the
expressions in order of their keys and takes the tables of what each refers to in among its own, so
that a later expression of the sweep sees what an earlier one has gained. Sweeps are repeated until
one of them brings nothing new. As no sweep brings in a table that none of the expressions has, that
happens however the expressions refer to each other.
-/

namespace QueryLineage

/-- Texts in order, each once. -/
abbrev TextSet := SortedBy (fun s : String => s)

/-- The tables of common table expressions, by key. -/
abbrev BaseTables := Dict TableName.Set

namespace BaseTables

/-- The tables of the expressions with these keys. -/
def incoming (bases : BaseTables) (refs : TextSet) : TableName.Set :=
  refs.toList.foldl
    (fun found r =>
      match bases.find? r with
      | some own => found.union own
      | none => found) ∅

/-- The tables of an expression with those of what it refers to, and whether any are new. -/
def absorb (bases : BaseTables) (k : String) (refs : TextSet) : BaseTables × Bool :=
  match bases.find? k with
  | some own =>
    let grown := own.union (bases.incoming refs)
    (bases.put k grown, grown.size ≠ own.size)
  | none => (bases, false)

/-- Goes through expressions with what they refer to, and tells whether any has gained a table. -/
def sweep : List (String × TextSet) → BaseTables → BaseTables × Bool
  | [], bases => (bases, false)
  | (k, refs) :: rest, bases =>
    let (bases, here) := bases.absorb k refs
    let (bases, later) := sweep rest bases
    (bases, here || later)

/-! ## Termination -/

/-- The expression `k` has the table `t`. -/
def Has (bases : BaseTables) (k : String) (t : TableName) : Prop :=
  ∃ own, bases.find? k = some own ∧ t ∈ own.toList

theorem mem_incoming {bases : BaseTables} {refs : TextSet} {t : TableName} :
    t ∈ (bases.incoming refs).toList ↔ ∃ r ∈ refs.toList, bases.Has r t := by
  have hfold : ∀ (l : List String) (found : TableName.Set),
      t ∈ (l.foldl
        (fun found r =>
          match bases.find? r with
          | some own => found.union own
          | none => found) found).toList
        ↔ t ∈ found.toList ∨ ∃ r ∈ l, bases.Has r t := by
    intro l
    induction l with
    | nil => simp
    | cons r rest ih =>
        intro found
        rw [List.foldl_cons, ih]
        simp only [List.mem_cons, exists_eq_or_imp, ← or_assoc]
        refine or_congr_left ?_
        cases hr : bases.find? r with
        | none => simp [Has, hr]
        | some own => simp [Has, hr, SortedBy.mem_union TableName.text_injective]
  exact (hfold refs.toList ∅).trans (or_iff_right List.not_mem_nil)

/-- What absorbing does: only the expression `k` gains tables, and only those of what it refers
to. -/
theorem has_absorb {bases : BaseTables} {k j : String} {refs : TextSet} {t : TableName} :
    (bases.absorb k refs).1.Has j t
      ↔ bases.Has j t ∨ j = k ∧ bases.hasKey k = true ∧ ∃ r ∈ refs.toList, bases.Has r t := by
  rw [Dict.hasKey_iff_find?, absorb]
  cases hown : bases.find? k with
  | none => simp
  | some own =>
      simp only [Has, Dict.find?_put]
      by_cases hj : j = k
      · subst hj
        simp [hown, SortedBy.mem_union TableName.text_injective, mem_incoming, Has]
      · simp [hj]

def tables (bases : BaseTables) : TableName.Set :=
  SortedBy.ofList (bases.values.flatMap (·.toList))

/-- How many tables the expressions have yet to gain. -/
def room (bases : BaseTables) : Nat :=
  bases.values.foldr (fun own total => bases.tables.size - own.size + total) 0

theorem mem_tables {bases : BaseTables} {t : TableName} :
    t ∈ bases.tables.toList ↔ ∃ k, bases.Has k t := by
  rw [tables, SortedBy.mem_ofList TableName.text_injective, List.mem_flatMap]
  simp only [Has, Dict.find?_eq_some_iff, Dict.values, List.mem_map]
  constructor
  · rintro ⟨_, ⟨⟨k, own⟩, hmem, rfl⟩, ht⟩
    exact ⟨k, own, hmem, ht⟩
  · rintro ⟨k, own, hmem, ht⟩
    exact ⟨own, ⟨(k, own), hmem, rfl⟩, ht⟩

/-- Absorbing brings in no table that no expression has: what one takes up another had, and what
there was stays. -/
theorem size_tables_absorb (bases : BaseTables) (k : String) (refs : TextSet) :
    (bases.absorb k refs).1.tables.size = bases.tables.size := by
  apply Nat.le_antisymm <;> apply SortedBy.size_le_of_subset <;> intro t ht
  · obtain ⟨j, hj⟩ := mem_tables.mp ht
    rcases has_absorb.mp hj with hold | ⟨-, -, r, -, hr⟩
    · exact mem_tables.mpr ⟨j, hold⟩
    · exact mem_tables.mpr ⟨r, hr⟩
  · obtain ⟨j, hj⟩ := mem_tables.mp ht
    exact mem_tables.mpr ⟨j, has_absorb.mpr (.inl hj)⟩

theorem room_absorb_le (bases : BaseTables) (k : String) (refs : TextSet) :
    (bases.absorb k refs).1.room ≤ bases.room
      ∧ ((bases.absorb k refs).2 = true → (bases.absorb k refs).1.room < bases.room) := by
  have htables := size_tables_absorb bases k refs
  have hsum : ∀ b : BaseTables,
      b.room = (b.values.map fun own => b.tables.size - own.size).sum := by
    simp [room, List.sum, List.foldr_map]
  cases hown : bases.find? k with
  | none => simp [absorb, hown]
  | some own =>
      simp only [absorb, hown] at htables ⊢
      generalize hgrown : own.union (bases.incoming refs) = grown at htables ⊢
      have hle : own.size ≤ grown.size := SortedBy.size_le_of_subset fun t ht =>
        hgrown ▸ (SortedBy.mem_union TableName.text_injective).mpr (.inl ht)
      have hbound : grown.size ≤ bases.tables.size := by
        rw [← htables]
        refine SortedBy.size_le_of_subset fun t ht => mem_tables.mpr ⟨k, grown, ?_, ht⟩
        rw [Dict.find?_put, if_pos rfl]
      obtain ⟨before, after, hold, hnew⟩ := Dict.toList_put_of_find? hown grown
      simp only [hsum, Dict.values, htables, hold, hnew, List.map_append, List.map_cons,
        List.sum_append, List.sum_cons, decide_eq_true_eq]
      omega

theorem room_sweep_le (l : List (String × TextSet)) (bases : BaseTables) :
    (sweep l bases).1.room ≤ bases.room
      ∧ ((sweep l bases).2 = true → (sweep l bases).1.room < bases.room) := by
  induction l generalizing bases with
  | nil => simp [sweep]
  | cons e rest ih =>
      obtain ⟨hle, hlt⟩ := room_absorb_le bases e.1 e.2
      obtain ⟨hle', hlt'⟩ := ih (bases.absorb e.1 e.2).1
      refine ⟨Nat.le_trans hle' hle, fun h => ?_⟩
      rcases Bool.or_eq_true_iff.mp h with here | later
      · exact Nat.lt_of_le_of_lt hle' (hlt here)
      · exact Nat.lt_of_lt_of_le (hlt' later) hle

/-- The tables of expressions once no sweep brings anything new. -/
def expand (refs : Dict TextSet) (bases : BaseTables) : BaseTables :=
  match _swept : sweep refs.toList bases with
  | (next, true) => expand refs next
  | (next, false) => next
termination_by bases.room
decreasing_by
  have hlt := (room_sweep_le refs.toList bases).2
  rw [_swept] at hlt
  exact hlt rfl

end BaseTables

end QueryLineage
