import Mathlib.Data.List.Basic
import QueryLineage.CteResolution

/-!
# Which common table expressions a statement defines

Of the nodes that define an expression under one key the first in preorder counts
(`find?_definitions`), and a path names an expression just when it has one part whose key some node
defines (`keyOf?_definitions_eq_some_iff`). `find?_ofTree` reads the resolution of a statement entry
by entry; with these, nothing that is said about a resolution speaks of how its tables are built up.
-/

namespace QueryLineage

theorem Tree.definedKey?_eq_some_iff {t : Tree} {k : String} :
    t.definedKey? = some k ↔ ∃ name, t.label = .cte name ∧ Text.lower name = k := by
  unfold definedKey?
  split
  · rename_i name h
    simp [h]
  · rename_i h
    simpa using fun name hname => absurd hname (h name)

/-- Some node of the tree defines an expression under this key. -/
def Tree.Defines (root : Tree) (k : String) : Prop := ∃ t ∈ root.preorder, t.definedKey? = some k

theorem Tree.defines_iff {t : Tree} {k : String} :
    t.Defines k ↔ t.definedKey? = some k ∨ ∃ child ∈ t.children, child.Defines k := by
  simp only [Defines, mem_preorder_iff (t := t)]
  constructor
  · rintro ⟨u, rfl | ⟨child, hchild, hu⟩, hkey⟩
    · exact .inl hkey
    · exact .inr ⟨child, hchild, u, hu, hkey⟩
  · rintro (hkey | ⟨child, hchild, u, hu, hkey⟩)
    · exact ⟨t, .inl rfl, hkey⟩
    · exact ⟨u, .inr ⟨child, hchild, hu⟩, hkey⟩

namespace ResolvedCtes

/-! ## Definitions -/

theorem find?_addDefinition (defs : Dict Tree) (t : Tree) (k : String) :
    (addDefinition defs t).find? k
      = (defs.find? k).or (if t.definedKey? = some k then some t else none) := by
  unfold addDefinition
  cases hkey : t.definedKey? with
  | none => simp
  | some j => simp [Dict.find?_putNew, eq_comm]

/-- The first node that defines an expression under a key is its definition. By induction on the
nodes to come, for whatever definitions there are by then: these go first. -/
theorem find?_definitions (root : Tree) (k : String) :
    (definitions root).find? k = root.preorder.find? (·.definedKey? = some k) := by
  have hfold : ∀ (l : List Tree) (defs : Dict Tree),
      (l.foldl addDefinition defs).find? k
        = (defs.find? k).or (l.find? (·.definedKey? = some k)) := by
    intro l
    induction l with
    | nil => simp
    | cons t rest ih =>
        intro defs
        rw [List.foldl_cons, ih, find?_addDefinition, Option.or_assoc, List.find?_cons]
        by_cases hkey : t.definedKey? = some k <;> simp [hkey]
  rw [definitions, hfold, Dict.find?_empty, Option.none_or]

theorem hasKey_definitions {root : Tree} {k : String} :
    (definitions root).hasKey k = true ↔ root.Defines k := by
  rw [Dict.hasKey_iff_find?, find?_definitions, ← Option.isSome_iff_exists, List.find?_isSome]
  simp [Tree.Defines]

theorem find?_definitions_eq_some {root body : Tree} {k : String}
    (h : (definitions root).find? k = some body) :
    body ∈ root.preorder ∧ body.definedKey? = some k := by
  rw [find?_definitions] at h
  exact ⟨List.mem_of_find?_eq_some h, by simpa using List.find?_some h⟩

/-! ## Paths that name an expression -/

theorem keyOf?_eq_some_iff {α : Type} {ctes : Dict α} {path : List String} {k : String} :
    keyOf? ctes path = some k
      ↔ ∃ name, path = [name] ∧ Text.lower name = k ∧ ctes.hasKey k = true := by
  unfold keyOf?
  split
  · rename_i name
    split
    · rename_i h
      constructor
      · rintro ⟨⟩
        exact ⟨name, rfl, rfl, h⟩
      · rintro ⟨_, ⟨⟩, rfl, -⟩
        rfl
    · rename_i h
      simp only [reduceCtorEq, false_iff]
      rintro ⟨_, ⟨⟩, rfl, hk⟩
      exact h hk
  · rename_i h
    simp only [reduceCtorEq, false_iff]
    rintro ⟨name, rfl, -⟩
    exact h name rfl

theorem keyOf?_definitions_eq_some_iff {root : Tree} {path : List String} {k : String} :
    keyOf? (definitions root) path = some k
      ↔ ∃ name, path = [name] ∧ Text.lower name = k ∧ root.Defines k := by
  simp only [keyOf?_eq_some_iff, hasKey_definitions]

theorem keyOf?_definitions_eq_none_iff {root : Tree} {path : List String} :
    keyOf? (definitions root) path = none
      ↔ ∀ name, path = [name] → ¬root.Defines (Text.lower name) := by
  rw [Option.eq_none_iff_forall_ne_some]
  constructor
  · intro h name hpath hdef
    exact h _ (keyOf?_definitions_eq_some_iff.mpr ⟨name, hpath, rfl, hdef⟩)
  · intro h k hk
    obtain ⟨name, hpath, rfl, hdef⟩ := keyOf?_definitions_eq_some_iff.mp hk
    exact h name hpath hdef

/-- Which paths name an expression depends on the keys alone. -/
theorem keyOf?_congr {α β : Type} {ctes : Dict α} {others : Dict β}
    (h : ∀ k, ctes.hasKey k = true ↔ others.hasKey k = true) (path : List String) :
    keyOf? ctes path = keyOf? others path := by
  apply Option.ext
  intro k
  simp only [keyOf?_eq_some_iff, h]

/-! ## Keys and tables among references -/

theorem mem_referencedKeys {α : Type} {ctes : Dict α} {refs : List TableRef} {k : String} :
    k ∈ (referencedKeys ctes refs).toList ↔ ∃ ref ∈ refs, keyOf? ctes ref.path = some k := by
  rw [referencedKeys, SortedBy.mem_ofList fun _ _ h => h, List.mem_filterMap]

theorem mem_referencedTables {α : Type} {ctes : Dict α} {defaults : TableDefaults}
    {refs : List TableRef} {t : TableName} :
    t ∈ (referencedTables ctes defaults refs).toList
      ↔ ∃ ref ∈ refs, keyOf? ctes ref.path = none ∧ defaults.resolve ref.path = some t := by
  rw [referencedTables, SortedBy.mem_ofList TableName.text_injective, List.mem_filterMap]
  refine exists_congr fun ref => and_congr_right fun _ => ?_
  cases keyOf? ctes ref.path <;> simp

/-! ## The resolution of a statement -/

theorem find?_ofTree (defaults : TableDefaults) (root : Tree) (k : String) :
    (ofTree defaults root).find? k
      = ((definitions root).find? k).map fun body => {
          name := definedName? body
          references := ((references (definitions root)).find? k).getD ∅
          bases := ((BaseTables.expand (references (definitions root))
            (ownTables defaults (definitions root))).find? k).getD ∅
          cyclic := (k, k) ∈ reach (definitions root) } := by
  rw [ofTree, Dict.find?_mapValues]

theorem hasKey_ofTree {defaults : TableDefaults} {root : Tree} {k : String} :
    (ofTree defaults root).hasKey k = true ↔ root.Defines k := by
  rw [← hasKey_definitions, Dict.hasKey_iff_find?, Dict.hasKey_iff_find?, find?_ofTree]
  simp [Option.map_eq_some_iff]

theorem keyOf?_ofTree (defaults : TableDefaults) (root : Tree) (path : List String) :
    keyOf? (ofTree defaults root) path = keyOf? (definitions root) path :=
  keyOf?_congr (fun _ => hasKey_ofTree.trans hasKey_definitions.symm) path

end ResolvedCtes

end QueryLineage
