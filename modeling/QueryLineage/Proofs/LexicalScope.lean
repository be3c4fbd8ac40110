import QueryLineage.Analysis
import QueryLineage.Proofs.CteDefinitions

/-!
# Names in sight

SQL gives the name of a common table expression a scope: the definitions that come after its own and
the body of the query that defines it, with all queries nested in these. Anywhere else, its own body
included, the name is that of a table. `freeRefs` collects the references that stand for tables by
that rule, and `lexicalSources` the tables they stand for.

The resolution knows one set of keys for a whole statement instead. A reference that no expression
in sight accounts for is still taken for an expression if one of its name is defined out of sight,
so the sources may fall short of the lexical ones but never go beyond them.
-/

namespace QueryLineage

/-- The reference is by the name of an expression with one of these keys. -/
def TableRef.boundBy (visible : List String) (ref : TableRef) : Bool :=
  match ref.path with
  | [name] => Text.lower name ∈ visible
  | _ => false

theorem TableRef.boundBy_eq_true_iff {visible : List String} {ref : TableRef} :
    ref.boundBy visible = true ↔ ∃ name, ref.path = [name] ∧ Text.lower name ∈ visible := by
  unfold boundBy
  split
  · rename_i name hpath
    simp [hpath]
  · rename_i hpath
    simpa using fun name h => absurd h (hpath name)

namespace Tree

mutual

/-- The references in a tree that none of the expressions in sight accounts for, where `visible` are
the keys in sight from outside. -/
def freeRefs (visible : List String) : Tree → List TableRef
  | ⟨label, sql, children⟩ =>
    (tableRef? ⟨label, sql, children⟩).toList.filter (!·.boundBy visible)
      ++ freeRefsAll visible children

/-- The free references of siblings: what one of them defines is in sight of those after it, and not
of itself. Only a query has definitions among its children, its body after them. -/
def freeRefsAll (visible : List String) : List Tree → List TableRef
  | [] => []
  | t :: ts => freeRefs visible t ++ freeRefsAll (t.definedKey?.toList ++ visible) ts

end

/-- The tables that a statement reads by the scopes of its expressions. -/
def lexicalSources (defaults : TableDefaults) (root : Tree) : TableName.Set :=
  SortedBy.ofList ((root.freeRefs []).filterMap fun ref => defaults.resolve ref.path)

theorem mem_lexicalSources {defaults : TableDefaults} {root : Tree} {t : TableName} :
    t ∈ (root.lexicalSources defaults).toList
      ↔ ∃ ref ∈ root.freeRefs [], defaults.resolve ref.path = some t := by
  rw [lexicalSources, SortedBy.mem_ofList TableName.text_injective, List.mem_filterMap]

/-! ## Free references among all references -/

theorem mem_freeRefs_iff {visible : List String} {t : Tree} {ref : TableRef} :
    ref ∈ t.freeRefs visible
      ↔ t.tableRef? = some ref ∧ ref.boundBy visible = false
        ∨ ref ∈ freeRefsAll visible t.children := by
  cases t
  simp [freeRefs]

mutual

theorem mem_tableRefs_of_mem_freeRefs {ref : TableRef} :
    ∀ {t : Tree} {visible : List String}, ref ∈ t.freeRefs visible → ref ∈ t.tableRefs
  | ⟨label, sql, children⟩, visible, h => by
      rcases mem_freeRefs_iff.mp h with ⟨hhere, -⟩ | hbelow
      · exact mem_tableRefs_iff.mpr (.inl hhere)
      · exact mem_tableRefs_iff.mpr (.inr (exists_mem_tableRefs_of_mem_freeRefsAll hbelow))

theorem exists_mem_tableRefs_of_mem_freeRefsAll {ref : TableRef} :
    ∀ {ts : List Tree} {visible : List String}, ref ∈ freeRefsAll visible ts →
      ∃ t ∈ ts, ref ∈ t.tableRefs
  | t :: ts, visible, h => by
      rcases List.mem_append.mp h with hfirst | hrest
      · exact ⟨t, List.mem_cons_self, mem_tableRefs_of_mem_freeRefs hfirst⟩
      · obtain ⟨u, hu, href⟩ := exists_mem_tableRefs_of_mem_freeRefsAll hrest
        exact ⟨u, List.mem_cons_of_mem t hu, href⟩

end

mutual

/-- A reference whose name no expression has, in the tree or in sight of it, is free. By recursion
on the tree, for whatever is in sight: what comes in sight on the way down is defined in the
tree. -/
theorem mem_freeRefs_of_mem_tableRefs {ref : TableRef} :
    ∀ {t : Tree} {visible : List String}, ref ∈ t.tableRefs →
      (∀ name, ref.path = [name] → Text.lower name ∉ visible ∧ ¬t.Defines (Text.lower name)) →
      ref ∈ t.freeRefs visible
  | ⟨label, sql, children⟩, visible, h, hfree => by
      rw [mem_freeRefs_iff]
      rcases mem_tableRefs_iff.mp h with hhere | ⟨child, hchild, href⟩
      · refine .inl ⟨hhere, Bool.eq_false_iff.mpr fun hbound => ?_⟩
        obtain ⟨name, hpath, hvisible⟩ := TableRef.boundBy_eq_true_iff.mp hbound
        exact (hfree name hpath).1 hvisible
      · refine .inr (mem_freeRefsAll_of_mem_tableRefs ⟨child, hchild, href⟩ fun name hpath => ?_)
        obtain ⟨hvisible, hdefines⟩ := hfree name hpath
        exact ⟨hvisible, fun u hu hdef => hdefines (defines_iff.mpr (.inr ⟨u, hu, hdef⟩))⟩

theorem mem_freeRefsAll_of_mem_tableRefs {ref : TableRef} :
    ∀ {ts : List Tree} {visible : List String}, (∃ t ∈ ts, ref ∈ t.tableRefs) →
      (∀ name, ref.path = [name] →
        Text.lower name ∉ visible ∧ ∀ t ∈ ts, ¬t.Defines (Text.lower name)) →
      ref ∈ freeRefsAll visible ts
  | u :: us, visible, ⟨t, ht, href⟩, hfree => by
      rw [freeRefsAll, List.mem_append]
      rcases List.mem_cons.mp ht with heq | ht
      · rw [heq] at href
        refine .inl (mem_freeRefs_of_mem_tableRefs href fun name hpath => ?_)
        obtain ⟨hvisible, hdefines⟩ := hfree name hpath
        exact ⟨hvisible, hdefines u List.mem_cons_self⟩
      · refine .inr (mem_freeRefsAll_of_mem_tableRefs ⟨t, ht, href⟩ fun name hpath => ?_)
        obtain ⟨hvisible, hdefines⟩ := hfree name hpath
        -- The sibling in front brings its own key into sight, but that is not the reference's.
        have hkey : u.definedKey? ≠ some (Text.lower name) := fun hkey =>
          hdefines u List.mem_cons_self (defines_iff.mpr (.inl hkey))
        exact ⟨by simp [hkey, hvisible], fun v hv => hdefines v (List.mem_cons_of_mem u hv)⟩

end

end Tree

/-! ## Sources -/

namespace Relations

/-- The sources come from the references whose name no expression of the statement has. -/
theorem mem_sources {defaults : TableDefaults} {root : Tree} {t : TableName} :
    t ∈ (ofTree defaults root).sources.toList
      ↔ ∃ ref ∈ root.tableRefs, (∀ name, ref.path = [name] → ¬root.Defines (Text.lower name))
        ∧ defaults.resolve ref.path = some t := by
  rw [ofTree, ResolvedCtes.mem_referencedTables]
  simp only [ResolvedCtes.keyOf?_ofTree, ResolvedCtes.keyOf?_definitions_eq_none_iff]

/-- Such a reference is free, so of the free references alone the same holds. -/
theorem mem_sources_iff_freeRefs {defaults : TableDefaults} {root : Tree} {t : TableName} :
    t ∈ (ofTree defaults root).sources.toList
      ↔ ∃ ref ∈ root.freeRefs [], (∀ name, ref.path = [name] → ¬root.Defines (Text.lower name))
        ∧ defaults.resolve ref.path = some t := by
  rw [mem_sources]
  constructor
  · rintro ⟨ref, href, hname, hresolve⟩
    have hfree := Tree.mem_freeRefs_of_mem_tableRefs href fun name hpath =>
      ⟨List.not_mem_nil, hname name hpath⟩
    exact ⟨ref, hfree, hname, hresolve⟩
  · rintro ⟨ref, href, hname, hresolve⟩
    exact ⟨ref, Tree.mem_tableRefs_of_mem_freeRefs href, hname, hresolve⟩

/-- **Sources and scopes.** The sources of a statement are the tables of its free references, less
those by the name of some expression of the statement. They are all of the lexical sources just when
each table so passed over is a source by another reference. A bound reference has the name of an
expression, so the sources lose nothing by looking at free ones only; the second part compares two
sets of tables table by table. -/
theorem sources_of_freeRefs (defaults : TableDefaults) (root : Tree) :
    (∀ t, t ∈ (ofTree defaults root).sources.toList
        ↔ ∃ ref ∈ root.freeRefs [], (∀ name, ref.path = [name] → ¬root.Defines (Text.lower name))
          ∧ defaults.resolve ref.path = some t)
      ∧ ((ofTree defaults root).sources = root.lexicalSources defaults
        ↔ ∀ ref ∈ root.freeRefs [], ∀ name, ref.path = [name] → root.Defines (Text.lower name) →
          ∀ t, defaults.resolve ref.path = some t → t ∈ (ofTree defaults root).sources.toList) := by
  refine ⟨fun t => mem_sources_iff_freeRefs, ?_, ?_⟩
  · intro heq ref href _ _ _ t hresolve
    rw [heq]
    exact Tree.mem_lexicalSources.mpr ⟨ref, href, hresolve⟩
  · intro hcovered
    apply SortedBy.ext_mem
    intro t
    rw [Tree.mem_lexicalSources]
    constructor
    · intro ht
      obtain ⟨ref, href, -, hresolve⟩ := mem_sources_iff_freeRefs.mp ht
      exact ⟨ref, href, hresolve⟩
    · rintro ⟨ref, href, hresolve⟩
      by_cases hname : ∀ name, ref.path = [name] → ¬root.Defines (Text.lower name)
      · exact mem_sources_iff_freeRefs.mpr ⟨ref, href, hname, hresolve⟩
      · push Not at hname
        obtain ⟨name, hpath, hdefines⟩ := hname
        exact hcovered ref href name hpath hdefines t hresolve

/-- An expression named like the table it reads hides the table from the sources, even though it is
not in sight in its own body. -/
theorem sources_of_selfNamed :
    (({ sql := "WITH orders AS (SELECT * FROM orders) SELECT * FROM orders" } :
        LineageRequest).tree.map fun root =>
      ((ofTree {} root.1).sources.toList.map TableName.text,
        (root.1.lexicalSources {}).toList.map TableName.text)).toOption
      = some ([], ["orders"]) := by
  decide +kernel

end Relations

end QueryLineage
