import QueryLineage.Proofs.CteClosure
import QueryLineage.Proofs.LexicalScope

/-!
# What names stand for goes back to the sources

The sources of a statement are collected from all its nodes at once, and the tables of its common
table expressions from the definitions one by one. `sources_grounded` says that the two agree on
what a reference means: nothing a name stands for reads a table that is no source, and a source
that no expression reads is referred to outside all definitions.

Of several definitions of one key only the first counts, so what lies in a later one may well lie
outside. As equal nodes may stand in many places, inside and outside is said of places in the
preorder, where a subtree takes up the places from its root on (`prefix_drop_preorder`).
-/

namespace QueryLineage

namespace Tree

/-! ## Places in the preorder -/

mutual

/-- What is below a node comes right after it. By recursion on the tree and the place, together with
the same of a list of trees. -/
theorem prefix_drop_preorder {u : Tree} :
    ∀ {t : Tree} {i : Nat}, t.preorder[i]? = some u → u.preorder <+: t.preorder.drop i
  | t, 0, h => by
      obtain ⟨label, sql, children⟩ := t
      rw [preorder, List.getElem?_cons_zero] at h
      obtain rfl := Option.some.inj h
      exact List.prefix_rfl
  | t, i + 1, h => by
      obtain ⟨label, sql, children⟩ := t
      rw [preorder, List.getElem?_cons_succ] at h
      rw [preorder, List.drop_succ_cons]
      exact prefix_drop_preorderAll h

theorem prefix_drop_preorderAll {u : Tree} :
    ∀ {ts : List Tree} {i : Nat}, (preorderAll ts)[i]? = some u →
      u.preorder <+: (preorderAll ts).drop i
  | t :: ts, i, h => by
      rw [preorderAll] at h ⊢
      rw [List.drop_append]
      by_cases hi : i < t.preorder.length
      · rw [List.getElem?_append_left hi] at h
        exact (prefix_drop_preorder h).trans (List.prefix_append _ _)
      · have hle : t.preorder.length ≤ i := Nat.le_of_not_lt hi
        rw [List.getElem?_append_right hle] at h
        rw [List.drop_eq_nil_of_le hle, List.nil_append]
        exact prefix_drop_preorderAll h

end

/-- A node at one of the places that a subtree takes up is in the subtree. -/
theorem mem_preorder_of_place {root u v : Tree} {i m : Nat} (hu : root.preorder[i]? = some u)
    (hv : root.preorder[m]? = some v) (hle : i ≤ m) (hlt : m < i + u.preorder.length) :
    v ∈ u.preorder := by
  obtain ⟨after, hafter⟩ := prefix_drop_preorder hu
  have hplace : (u.preorder ++ after)[m - i]? = some v := by
    rw [hafter, List.getElem?_drop, Nat.add_sub_cancel' hle, hv]
  rw [List.getElem?_append_left (by omega)] at hplace
  exact List.mem_of_getElem? hplace

/-- The place lies in none of the definitions that count, those that come first under some key. -/
def Outside (root : Tree) (m : Nat) : Prop :=
  ∀ k i definition, root.preorder.findIdx? (·.definedKey? = some k) = some i →
    root.preorder[i]? = some definition → ¬(i ≤ m ∧ m < i + definition.preorder.length)

/-- A node outside the definitions refers to the table `t`: its path names no expression. -/
def NamesTableOutside (defaults : TableDefaults) (root : Tree) (t : TableName) : Prop :=
  ∃ m node ref, root.Outside m ∧ root.preorder[m]? = some node ∧ node.tableRef? = some ref
    ∧ (∀ name, ref.path = [name] → ¬root.Defines (Text.lower name))
    ∧ defaults.resolve ref.path = some t

/-- A table is referred to in the definition of some key or outside of all. The reference has a
place in the walk over the statement, and a definition takes up a run of places
(`mem_preorder_of_place`). -/
theorem namesTable_or_outside {defaults : TableDefaults} {root : Tree} {ref : TableRef}
    {t : TableName} (href : ref ∈ root.tableRefs)
    (hname : ∀ name, ref.path = [name] → ¬root.Defines (Text.lower name))
    (hresolve : defaults.resolve ref.path = some t) :
    (∃ k, root.NamesTable defaults k t) ∨ root.NamesTableOutside defaults t := by
  obtain ⟨node, hnode, htable⟩ := List.mem_filterMap.mp href
  obtain ⟨m, hm⟩ := List.getElem?_of_mem hnode
  by_cases hout : root.Outside m
  · exact .inr ⟨m, node, ref, hout, hm, htable, hname, hresolve⟩
  · unfold Outside at hout
    push Not at hout
    obtain ⟨k, i, definition, hfirst, hdefinition, hle, hlt⟩ := hout
    have hin := mem_preorder_of_place hdefinition hm hle hlt
    have hcounts : root.preorder.find? (·.definedKey? = some k) = some definition := by
      rw [List.find?_eq_bind_findIdx?_getElem?, hfirst, Option.bind_some, hdefinition]
    exact .inl ⟨k, definition, hcounts, ref, List.mem_filterMap.mpr ⟨node, hin, htable⟩, hname,
      hresolve⟩

end Tree

/-! ## Tables that expressions read -/

namespace Relations

theorem mem_sources_of_namesTable {defaults : TableDefaults} {root : Tree} {k : String}
    {t : TableName} (h : root.NamesTable defaults k t) :
    t ∈ (ofTree defaults root).sources.toList := by
  obtain ⟨body, hbody, ref, href, hname, hresolve⟩ := h
  obtain ⟨node, hnode, htable⟩ := List.mem_filterMap.mp href
  have hroot := Tree.mem_preorder_trans (List.mem_of_find?_eq_some hbody) hnode
  exact mem_sources.mpr ⟨ref, List.mem_filterMap.mpr ⟨node, hroot, htable⟩, hname, hresolve⟩

theorem reads_of_namesTable {defaults : TableDefaults} {root : Tree} {k : String} {t : TableName}
    (h : root.NamesTable defaults k t) : (ofTree defaults root).ctes.Reads k t := by
  obtain ⟨-, -, hreads, -⟩ := ResolvedCtes.reads_iff_reaches defaults root
  exact (hreads k t).mpr ⟨k, .refl, h⟩

theorem mem_sources_of_reads {defaults : TableDefaults} {root : Tree} {k : String} {t : TableName}
    (h : (ofTree defaults root).ctes.Reads k t) : t ∈ (ofTree defaults root).sources.toList := by
  obtain ⟨-, -, hreads, -⟩ := ResolvedCtes.reads_iff_reaches defaults root
  obtain ⟨m, -, hnames⟩ := (hreads k t).mp h
  exact mem_sources_of_namesTable hnames

theorem bases_subset_sources {defaults : TableDefaults} {root : Tree} {k : String}
    {cte : ResolvedCte} (h : (ofTree defaults root).ctes.find? k = some cte) :
    cte.bases.toList ⊆ (ofTree defaults root).sources.toList :=
  fun _ ht => mem_sources_of_reads ⟨cte, h, ht⟩

/-- Every source is read by some expression or referred to outside all of them. A source has a
reference, and this lies in a definition that counts or in none. -/
theorem mem_sources_iff_reads_or_outside {defaults : TableDefaults} {root : Tree}
    {t : TableName} :
    t ∈ (ofTree defaults root).sources.toList
      ↔ (∃ k, (ofTree defaults root).ctes.Reads k t) ∨ root.NamesTableOutside defaults t := by
  constructor
  · intro h
    obtain ⟨ref, href, hname, hresolve⟩ := mem_sources.mp h
    rcases Tree.namesTable_or_outside href hname hresolve with ⟨k, hnames⟩ | hout
    · exact .inl ⟨k, reads_of_namesTable hnames⟩
    · exact .inr hout
  · rintro (⟨k, hreads⟩ | ⟨m, node, ref, -, hm, htable, hname, hresolve⟩)
    · exact mem_sources_of_reads hreads
    · have href : ref ∈ root.tableRefs :=
        List.mem_filterMap.mpr ⟨node, List.mem_of_getElem? hm, htable⟩
      exact mem_sources.mpr ⟨ref, href, hname, hresolve⟩

/-! ## Aliases -/

/-- A relation goes back to the sources: a table is one of them, and an expression is one of the
statement with that name, is none that stands for its only table, and reads sources. -/
def Grounded (rs : Relations) : Relation → Prop
  | .table t => t ∈ rs.sources.toList
  | .cte name => ∃ cte, rs.ctes.named? name.text = some cte ∧ cte.name = some name
      ∧ cte.bases.size ≠ 1 ∧ cte.bases.toList ⊆ rs.sources.toList

variable {defaults : TableDefaults} {root : Tree} {relation : Relation}

/-- An expression is found again under the name it is defined with: the name in small letters is its
key. -/
theorem named?_of_name {name : String} {cte : ResolvedCte} {defined : CteName}
    (h : (ofTree defaults root).ctes.named? name = some cte) (hname : cte.name = some defined) :
    (ofTree defaults root).ctes.named? defined.text = some cte := by
  have hkey : Text.lower defined.text = Text.lower name := by
    change (ResolvedCtes.ofTree defaults root).find? (Text.lower name) = some cte at h
    rw [ResolvedCtes.find?_ofTree, Option.map_eq_some_iff] at h
    obtain ⟨body, hbody, rfl⟩ := h
    obtain ⟨-, hdefined⟩ := ResolvedCtes.find?_definitions_eq_some hbody
    obtain ⟨text, hlabel, hkey⟩ := Tree.definedKey?_eq_some_iff.mp hdefined
    simp only [ResolvedCtes.definedName?, hlabel, CteName.ofText?] at hname
    split at hname
    · obtain rfl := Option.some.inj hname
      exact hkey
    · cases hname
  rw [ResolvedCtes.named?, hkey]
  exact h

theorem relation?_of_named? {ctes : ResolvedCtes} {name : String} {cte : ResolvedCte}
    (h : ctes.named? name = some cte) :
    ctes.relation? name = match cte.bases.toList with
      | [t] => some (.table t)
      | _ => cte.name.map .cte := by
  rw [ResolvedCtes.relation?, ResolvedCtes.singleBase?, ResolvedCtes.bases?,
    ResolvedCtes.spelling?, h, Option.map_some, Option.map_some, Option.bind_some]
  rcases cte.bases.toList with _ | ⟨t, _ | ⟨u, rest⟩⟩ <;> rfl

theorem grounded_of_relation? {name : String}
    (h : (ofTree defaults root).ctes.relation? name = some relation) :
    (ofTree defaults root).Grounded relation := by
  cases hnamed : (ofTree defaults root).ctes.named? name with
  | none =>
      simp [ResolvedCtes.relation?, ResolvedCtes.singleBase?, ResolvedCtes.bases?,
        ResolvedCtes.spelling?, hnamed] at h
  | some cte =>
      have hsubset := bases_subset_sources hnamed
      rw [relation?_of_named? hnamed] at h
      split at h
      · rename_i t honly
        obtain rfl := Option.some.inj h
        exact hsubset (honly ▸ List.mem_singleton_self t)
      · rename_i hmany
        obtain ⟨defined, hname, rfl⟩ := Option.map_eq_some_iff.mp h
        refine ⟨cte, named?_of_name hnamed hname, hname, fun hsize => ?_, hsubset⟩
        obtain ⟨t, honly⟩ := List.length_eq_one_iff.mp hsize
        exact hmany t honly

theorem grounded_of_relationOfPath? {ref : TableRef} (href : ref ∈ root.tableRefs)
    (h : (ofTree defaults root).ctes.relationOfPath? defaults ref.path = some relation) :
    (ofTree defaults root).Grounded relation := by
  unfold ResolvedCtes.relationOfPath? at h
  split at h
  · exact grounded_of_relation? h
  · rename_i hkey
    obtain ⟨t, hresolve, rfl⟩ := Option.map_eq_some_iff.mp h
    exact ResolvedCtes.mem_referencedTables.mpr ⟨ref, href, hkey, hresolve⟩

/-- Whichever of the three ways an alias gets into the map, what it stands for is grounded: a
reference gives it, an expression has it for its name, or a source for its short name. -/
theorem grounded_of_find? {key : String}
    (h : (ofTree defaults root).aliases.find? key = some relation) :
    (ofTree defaults root).Grounded relation := by
  have hmem : ∀ {l : List (String × Relation)},
      (l.find? (·.1 = key)).map Prod.snd = some relation → ∃ k, (k, relation) ∈ l := by
    intro l hfound
    obtain ⟨e, he, rfl⟩ := Option.map_eq_some_iff.mp hfound
    exact ⟨e.1, List.mem_of_find?_eq_some he⟩
  rw [ofTree, AliasMap.ofTree, Dict.find?_foldl_putNew, Dict.find?_ofList] at h
  have hentry : (∃ k, (k, relation) ∈ (ofTree defaults root).ctes.givenAliases defaults root)
      ∨ ∃ k, (k, relation) ∈ (ofTree defaults root).ctes.ownAliases
        ++ shortAliases (ofTree defaults root).sources := by
    rcases Option.or_eq_some_iff.mp h with hgiven | ⟨-, hother⟩
    · obtain ⟨k, hk⟩ := hmem hgiven
      exact .inl ⟨k, List.mem_reverse.mp hk⟩
    · exact .inr (hmem hother)
  rcases hentry with ⟨k, hgiven⟩ | ⟨k, hother⟩
  · obtain ⟨ref, href, hentry⟩ := List.mem_filterMap.mp hgiven
    obtain ⟨aliasName, -, hentry⟩ := Option.bind_eq_some_iff.mp hentry
    obtain ⟨_, hrelation, heq⟩ := Option.bind_eq_some_iff.mp hentry
    obtain rfl := (Prod.mk.inj (Option.some.inj heq)).2
    exact grounded_of_relationOfPath? href hrelation
  rcases List.mem_append.mp hother with hown | hshort
  · obtain ⟨k, -, hentry⟩ := List.mem_filterMap.mp hown
    obtain ⟨_, hrelation, heq⟩ := Option.map_eq_some_iff.mp hentry
    obtain rfl := (Prod.mk.inj heq).2
    exact grounded_of_relation? hrelation
  · obtain ⟨t, ht, heq⟩ := List.mem_map.mp hshort
    obtain rfl := (Prod.mk.inj heq).2
    exact ht

/-- **Names go back to the sources.** Every expression reads sources only. The sources are what the
expressions read and what is referred to outside their definitions. And every alias stands for a
source, or for an expression that does not read exactly one table, and reads sources only. The
sources are collected from the references, the bases by the closure; that the two agree rests on
`reads_iff_reaches`. -/
theorem sources_grounded (defaults : TableDefaults) (root : Tree) :
    let rs := ofTree defaults root
    (∀ k cte, rs.ctes.find? k = some cte → cte.bases.toList ⊆ rs.sources.toList)
      ∧ (∀ t, t ∈ rs.sources.toList
          ↔ (∃ k, rs.ctes.Reads k t) ∨ root.NamesTableOutside defaults t)
      ∧ (∀ key relation, rs.aliases.find? key = some relation → rs.Grounded relation) :=
  ⟨fun _ _ => bases_subset_sources, fun _ => mem_sources_iff_reads_or_outside,
    fun _ _ => grounded_of_find?⟩

end Relations

end QueryLineage
