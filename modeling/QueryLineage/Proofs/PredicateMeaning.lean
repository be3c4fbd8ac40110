import Mathlib.Tactic.TypeStar
import QueryLineage.Join
import QueryLineage.Proofs.QualifiedTree

/-!
# The meaning of a predicate

What a predicate says depends on the values of operands, by their text, and on the truth of its
opaque terms, by their *place*: the way to them from the root, as the numbers of the children to
take. So the same term may be true at one place and false at another. `Tree.Holds` reads the
predicate off its nodes, `Tree.Reaches` says which nodes are reached through `AND` and parentheses;
neither knows of the equalities that are collected.

The collected equalities together with the opaque terms say all that the predicate says
(`Tree.holds_iff_equalities`). The induction is over the tree, with the assignment generalized: a
child at place `i` reads the truth of its terms behind `i`. Each node is a connective, an equality
of two operands or opaque (`Tree.isConnective_or`), and every definition has one equation for each.
-/

namespace QueryLineage

namespace Tree

variable {α : Type*}

/-! ## Meaning -/

/-- A node that is true if all of its children are. -/
def IsConnective (t : Tree) : Prop := t.label = .expr .conjunction ∨ t.label = .expr .nested

/-- The texts of the operands, if the node is an equality of two. -/
def operands? : Tree → Option (String × String)
  | ⟨.equality, _, [left, right]⟩ => some (left.sql, right.sql)
  | _ => none

/-- A term that the analyses do not look into. -/
def IsOpaque (t : Tree) : Prop := ¬ t.IsConnective ∧ t.operands? = none

mutual

/-- Whether a predicate is true, given the values of operands and the truth of opaque terms. -/
def Holds (value : String → α) (truth : List Nat → Prop) : Tree → Prop
  | ⟨.equality, _, [left, right]⟩ => value left.sql = value right.sql
  | ⟨.expr .conjunction, _, children⟩ => AllHold value truth 0 children
  | ⟨.expr .nested, _, children⟩ => AllHold value truth 0 children
  | _ => truth []

/-- Whether all predicates of a list are true, the first of which is the child at `place`. -/
def AllHold (value : String → α) (truth : List Nat → Prop) (place : Nat) : List Tree → Prop
  | [] => True
  | t :: ts => Holds value (fun way => truth (place :: way)) t ∧ AllHold value truth (place + 1) ts

end

/-- The subtree at the end of a way that goes through connectives only. -/
inductive Reaches : Tree → List Nat → Tree → Prop
  | here (t : Tree) : Reaches t [] t
  | inside {t child u : Tree} {place : Nat} {way : List Nat} (ht : t.IsConnective)
    (hchild : t.children[place]? = some child) (hu : Reaches child way u) :
    Reaches t (place :: way) u

/-! ## One equation for each sort of node -/

section

variable {t u : Tree} {pair : String × String} {value : String → α} {truth : List Nat → Prop}

theorem isConnective_or (t : Tree) :
    t.IsConnective ∨ (¬ t.IsConnective ∧ ∃ pair, t.operands? = some pair) ∨ t.IsOpaque := by
  by_cases hconnective : t.IsConnective
  · exact .inl hconnective
  · cases hoperands : t.operands? with
    | none => exact .inr (.inr ⟨hconnective, hoperands⟩)
    | some pair => exact .inr (.inl ⟨hconnective, pair, rfl⟩)

theorem IsConnective.operands?_eq (h : t.IsConnective) : t.operands? = none := by
  obtain ⟨label, sql, children⟩ := t
  rcases h with rfl | rfl <;> rfl

theorem exists_of_operands? (h : t.operands? = some pair) :
    ∃ sql left right, t = ⟨.equality, sql, [left, right]⟩ ∧ pair = (left.sql, right.sql) := by
  unfold operands? at h
  split at h
  · exact ⟨_, _, _, rfl, (Option.some.inj h).symm⟩
  · cases h

theorem IsConnective.holds_iff (h : t.IsConnective) :
    t.Holds value truth ↔ AllHold value truth 0 t.children := by
  obtain ⟨label, sql, children⟩ := t
  rcases h with rfl | rfl <;> rw [Holds]

theorem IsConnective.equalities_eq (h : t.IsConnective) :
    t.equalities = equalitiesOfAll t.children := by
  obtain ⟨label, sql, children⟩ := t
  rcases h with rfl | rfl <;> rw [equalities]

theorem IsOpaque.holds_iff (h : t.IsOpaque) : t.Holds value truth ↔ truth [] := by
  unfold Holds
  split
  · cases h.2
  · exact absurd (.inl rfl) h.1
  · exact absurd (.inr rfl) h.1
  · exact Iff.rfl

theorem IsOpaque.equalities_eq (h : t.IsOpaque) : t.equalities = [] := by
  unfold equalities
  split
  · cases h.2
  · exact absurd (.inl rfl) h.1
  · exact absurd (.inr rfl) h.1
  · rfl

theorem IsConnective.reaches_iff (h : t.IsConnective) {way : List Nat} :
    t.Reaches way u ↔ way = [] ∧ u = t
      ∨ ∃ place rest child, way = place :: rest ∧ t.children[place]? = some child
        ∧ child.Reaches rest u := by
  constructor
  case mp =>
    intro hu
    cases hu with
    | here => exact .inl ⟨rfl, rfl⟩
    | inside _ hchild hu => exact .inr ⟨_, _, _, rfl, hchild, hu⟩
  case mpr =>
    rintro (⟨rfl, rfl⟩ | ⟨place, rest, child, rfl, hchild, hu⟩)
    · exact .here _
    · exact .inside h hchild hu

theorem reaches_iff_of_not_isConnective (h : ¬ t.IsConnective) {way : List Nat} :
    t.Reaches way u ↔ way = [] ∧ u = t := by
  constructor
  case mp =>
    intro hu
    cases hu with
    | here => exact ⟨rfl, rfl⟩
    | inside ht => exact absurd ht h
  case mpr =>
    rintro ⟨rfl, rfl⟩
    exact .here _

end

/-! ## Lists of predicates -/

theorem allHold_iff {value : String → α} {truth : List Nat → Prop} {ts : List Tree} {first : Nat} :
    AllHold value truth first ts
      ↔ ∀ (place : Nat) (t : Tree), ts[place]? = some t →
        t.Holds value fun way => truth ((first + place) :: way) := by
  induction ts generalizing first with
  | nil => simp [AllHold]
  | cons t rest ih =>
      rw [AllHold, ih]
      constructor
      · rintro ⟨ht, hrest⟩ place u hu
        cases place with
        | zero =>
            obtain rfl := Option.some.inj hu
            exact ht
        | succ place =>
            rw [Nat.add_comm place, ← Nat.add_assoc]
            exact hrest place u hu
      · intro h
        refine ⟨h 0 t rfl, fun place u hu => ?_⟩
        rw [Nat.add_assoc, Nat.add_comm 1]
        exact h (place + 1) u hu

theorem mem_equalitiesOfAll {ts : List Tree} {pair : String × String} :
    pair ∈ equalitiesOfAll ts
      ↔ ∃ (place : Nat) (t : Tree), ts[place]? = some t ∧ pair ∈ t.equalities := by
  have hmem : pair ∈ equalitiesOfAll ts ↔ ∃ t ∈ ts, pair ∈ t.equalities := by
    induction ts with
    | nil => simp [equalitiesOfAll]
    | cons t rest ih => simp [equalitiesOfAll, ih]
  rw [hmem]
  constructor
  · rintro ⟨t, ht, hpair⟩
    obtain ⟨place, hplace⟩ := List.mem_iff_getElem?.mp ht
    exact ⟨place, t, hplace, hpair⟩
  · rintro ⟨place, t, hplace, hpair⟩
    exact ⟨t, List.mem_of_getElem? hplace, hpair⟩

/-! ## The collected equalities -/

/-- Nothing is collected but the equalities that are reached, and none of these is left out. By
induction on the tree, by the three kinds of node: a connective is passed, an equality is reached
and has its operands, and at anything else there is nothing. -/
theorem mem_equalities_iff {t : Tree} {pair : String × String} :
    pair ∈ t.equalities ↔ ∃ way u, t.Reaches way u ∧ u.operands? = some pair := by
  induction t using children_induction with
  | node label sql children ih =>
      rcases isConnective_or ⟨label, sql, children⟩ with h | ⟨h, pair', hpair'⟩ | h
      · simp only [h.equalities_eq, mem_equalitiesOfAll, h.reaches_iff]
        constructor
        · rintro ⟨place, child, hchild, hpair⟩
          obtain ⟨way, u, hu, hoperands⟩ := (ih child (List.mem_of_getElem? hchild)).mp hpair
          exact ⟨_, u, .inr ⟨place, way, child, rfl, hchild, hu⟩, hoperands⟩
        · rintro ⟨way, u, ⟨-, rfl⟩ | ⟨place, rest, child, -, hchild, hu⟩, hoperands⟩
          · rw [h.operands?_eq] at hoperands
            cases hoperands
          · exact ⟨place, child, hchild,
              (ih child (List.mem_of_getElem? hchild)).mpr ⟨rest, u, hu, hoperands⟩⟩
      · have hequalities : equalities ⟨label, sql, children⟩ = [pair'] := by
          obtain ⟨sql', left, right, heq, rfl⟩ := exists_of_operands? hpair'
          rw [heq, equalities]
        rw [hequalities, List.mem_singleton]
        simp only [reaches_iff_of_not_isConnective h]
        constructor
        · rintro rfl
          exact ⟨[], _, ⟨rfl, rfl⟩, hpair'⟩
        · rintro ⟨way, u, ⟨-, rfl⟩, hoperands⟩
          exact Option.some.inj (hoperands.symm.trans hpair')
      · rw [h.equalities_eq]
        simp only [reaches_iff_of_not_isConnective h.1]
        refine iff_of_false List.not_mem_nil ?_
        rintro ⟨way, u, ⟨-, rfl⟩, hoperands⟩
        rw [h.2] at hoperands
        cases hoperands

theorem holds_iff_terms {value : String → α} {truth : List Nat → Prop} {t : Tree} :
    t.Holds value truth
      ↔ (∀ pair ∈ t.equalities, value pair.1 = value pair.2)
        ∧ ∀ way u, t.Reaches way u → u.IsOpaque → truth way := by
  induction t using children_induction generalizing truth with
  | node label sql children ih =>
      rcases isConnective_or ⟨label, sql, children⟩ with h | ⟨h, pair, hpair⟩ | h
      · rw [h.holds_iff, allHold_iff]
        simp only [h.equalities_eq, mem_equalitiesOfAll, h.reaches_iff, Nat.zero_add]
        constructor
        · intro hall
          have hchild := fun place child hplace =>
            (ih child (List.mem_of_getElem? hplace)).mp (hall place child hplace)
          constructor
          · rintro pair ⟨place, child, hplace, hpair⟩
            exact (hchild place child hplace).1 pair hpair
          · rintro way u (⟨-, rfl⟩ | ⟨place, rest, child, rfl, hplace, hu⟩) hleaf
            · exact absurd h hleaf.1
            · exact (hchild place child hplace).2 rest u hu hleaf
        · rintro ⟨hpairs, hterms⟩ place child hplace
          refine (ih child (List.mem_of_getElem? hplace)).mpr
            ⟨fun pair hpair => ?_, fun way u hu hleaf => ?_⟩
          · exact hpairs pair ⟨place, child, hplace, hpair⟩
          · exact hterms _ u (.inr ⟨place, way, child, rfl, hplace, hu⟩) hleaf
      · obtain ⟨sql', left, right, heq, -⟩ := exists_of_operands? hpair
        -- nothing opaque is reached from an equality, so its truth rests on the pair alone
        have hterms : ∀ way u, Reaches ⟨label, sql, children⟩ way u → u.IsOpaque → truth way := by
          intro way u hu hleaf
          obtain ⟨-, rfl⟩ := (reaches_iff_of_not_isConnective h).mp hu
          rw [hleaf.2] at hpair
          cases hpair
        rw [and_iff_left hterms, heq, Holds, equalities, List.forall_mem_singleton]
      · rw [h.holds_iff, h.equalities_eq]
        simp only [reaches_iff_of_not_isConnective h.1]
        constructor
        · rintro htruth
          refine ⟨nofun, ?_⟩
          rintro way u ⟨rfl, rfl⟩ -
          exact htruth
        · rintro ⟨-, hterms⟩
          exact hterms [] _ ⟨rfl, rfl⟩ h

/-- **The collected equalities are what a predicate says by itself.** Whatever the operands are
worth and whichever opaque terms are true, a predicate is true if and only if the two sides of each
collected equality are worth the same and every opaque term that is reached through `AND` and
parentheses is true. And the collected equalities are those reached in this way, none besides and
none missing. Both parts go down the tree once, by the kinds of node that `isConnective_or` tells
apart. -/
theorem holds_iff_equalities (value : String → α) (truth : List Nat → Prop) (t : Tree) :
    (t.Holds value truth
      ↔ (∀ pair ∈ t.equalities, value pair.1 = value pair.2)
        ∧ ∀ way u, t.Reaches way u → u.IsOpaque → truth way)
    ∧ ∀ pair, pair ∈ t.equalities ↔ ∃ way u, t.Reaches way u ∧ u.operands? = some pair :=
  ⟨holds_iff_terms, fun _ => mem_equalities_iff⟩

end Tree

end QueryLineage
