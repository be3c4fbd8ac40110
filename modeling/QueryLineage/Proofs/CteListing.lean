import Mathlib.Data.List.Induction
import Mathlib.Data.List.Nodup
import Mathlib.Logic.Relation
import QueryLineage.Proofs.CteClosure
import QueryLineage.Proofs.LowerCase
import QueryLineage.Report.CteListing

/-!
# What a listing of common table expressions says

A listing goes by the names that the query spells, the resolution by keys. No two expressions are
shown under one name, since a name in small letters is the key of the expression it is shown for
(`lower_shown`), so that each row speaks of one expression and each expression has its row.

Whether an expression reaches itself is read off a closure that is built one inner node at a time;
`mem_through_iff` says that it holds every path once all nodes have been passed. By strongly
connected components it comes to the same: the members of a component of several nodes reach
themselves, and that of a component of one does if it refers to itself (`mem_recurrent_iff`). An
expression that leads to a cycle without lying on one is alone in its component.
-/

open Relation (ReflTransGen TransGen)

namespace QueryLineage

namespace Closure

variable {α : Type}

/-! ## Paths by their inner nodes -/

/-- A path from one node to another whose inner nodes are all among `nodes`. -/
inductive Path (r : List (α × α)) (nodes : List α) : α → α → Prop
  | edge {a b : α} : (a, b) ∈ r → Path r nodes a b
  | cons {a m b : α} : (a, m) ∈ r → m ∈ nodes → Path r nodes m b → Path r nodes a b

variable {r : List (α × α)} {nodes : List α} {a m b : α}

theorem Path.mono {more : List α} (hmore : nodes ⊆ more) (h : Path r nodes a b) :
    Path r more a b := by
  induction h with
  | edge hab => exact .edge hab
  | cons hstep hm _ ih => exact .cons hstep (hmore hm) ih

theorem Path.trans (h : Path r nodes a m) (hm : m ∈ nodes) (h' : Path r nodes m b) :
    Path r nodes a b := by
  induction h with
  | edge hstep => exact .cons hstep hm h'
  | cons hstep hn _ ih => exact .cons hstep hn (ih hm h')

/-- A path that may pass `m` too either does not, or is one to `m` and one from there. A path may
pass `m` many times; the part after the last time and the part before the first do. -/
theorem path_concat_iff :
    Path r (nodes ++ [m]) a b ↔ Path r nodes a b ∨ Path r nodes a m ∧ Path r nodes m b := by
  constructor
  · intro h
    induction h with
    | edge hab => exact .inl (.edge hab)
    | @cons a n b hstep hn _ ih =>
        rcases List.mem_append.mp hn with hn | hn
        · exact ih.imp (.cons hstep hn) fun ⟨hto, hfrom⟩ => ⟨.cons hstep hn hto, hfrom⟩
        · -- The path passes `m` right away; of the later times only the last matters.
          obtain rfl := List.mem_singleton.mp hn
          exact .inr ⟨.edge hstep, ih.elim id And.right⟩
  · have hmore : nodes ⊆ nodes ++ [m] := List.subset_append_left ..
    rintro (h | ⟨hto, hfrom⟩)
    · exact h.mono hmore
    · exact (hto.mono hmore).trans (List.mem_append_right _ List.mem_cons_self)
        (hfrom.mono hmore)

variable [DecidableEq α]

theorem mem_through_iff_path : (a, b) ∈ through r nodes ↔ Path r nodes a b := by
  induction nodes using List.reverseRecOn generalizing a b with
  | nil =>
      refine ⟨.edge, fun h => ?_⟩
      cases h with
      | edge hab => exact hab
      | cons _ hm _ => cases hm
  | append_singleton nodes m ih =>
      have hthrough : through r (nodes ++ [m]) = passThrough (through r nodes) m := by
        simp [through]
      rw [hthrough, mem_passThrough, ih, ih, ih, path_concat_iff]

/-- **Passing every node finds every path.** Each node that a path passes is the end of a step, so
it is no loss to pass the listed ones only. -/
theorem mem_through_iff (hends : ∀ a b, (a, b) ∈ r → b ∈ nodes) :
    (a, b) ∈ through r nodes ↔ TransGen (fun a b => (a, b) ∈ r) a b := by
  rw [mem_through_iff_path]
  constructor
  · intro h
    induction h with
    | edge hab => exact .single hab
    | cons hstep _ _ ih => exact ih.head hstep
  · intro h
    induction h using TransGen.head_induction_on with
    | single hab => exact .edge hab
    | head hstep _ ih => exact .cons hstep (hends _ _ hstep) ih

/-! ## Strongly connected components -/

/-- The lists are the strongly connected components of a relation on some nodes: each node is in
one of them, which holds it once, with the nodes that it reaches and is reached from. -/
structure AreComponents (R : α → α → Prop) (nodes : List α) (components : List (List α)) :
    Prop where
  covering : ∀ a, a ∈ nodes ↔ ∃ c ∈ components, a ∈ c
  nodup : ∀ c ∈ components, c.Nodup
  connected : ∀ c ∈ components, ∀ a ∈ c, ∀ b ∈ nodes,
    b ∈ c ↔ ReflTransGen R a b ∧ ReflTransGen R b a

/-- The members of the components of several nodes, and of those of a node that refers to itself. -/
def recurrent (R : α → α → Prop) [DecidableRel R] (components : List (List α)) : List α :=
  (components.filter fun c => 1 < c.length || c.any fun a => R a a).flatten

omit [DecidableEq α] in
/-- **Components find the nodes that reach themselves.** Another node in the component of `a` is one
that `a` reaches and that leads back; alone in its component, `a` reaches itself only by a step of
its own. The other way, the first step of a cycle through `a` leads to a node of the same component:
to another one, or to `a`. -/
theorem mem_recurrent_iff {R : α → α → Prop} [DecidableRel R] {components : List (List α)}
    (h : AreComponents R nodes components) (hclosed : ∀ a b, R a b → b ∈ nodes)
    (ha : a ∈ nodes) : a ∈ recurrent R components ↔ TransGen R a a := by
  simp only [recurrent, List.mem_flatten, List.mem_filter, Bool.or_eq_true, decide_eq_true_eq,
    List.any_eq_true]
  constructor
  · rintro ⟨c, ⟨hc, hrule⟩, hac⟩
    by_cases hother : ∃ b ∈ c, b ≠ a
    · obtain ⟨b, hb, hne⟩ := hother
      have hnode := (h.covering b).mpr ⟨c, hc, hb⟩
      obtain ⟨hab, hba⟩ := (h.connected c hc a hac b hnode).mp hb
      rcases ReflTransGen.cases_head hab with rfl | ⟨d, had, hdb⟩
      · exact absurd rfl hne
      · exact TransGen.head' had (hdb.trans hba)
    · push Not at hother
      have hsubset : c ⊆ [a] := fun b hb => List.mem_singleton.mpr (hother b hb)
      have hlength : c.length ≤ 1 := (h.nodup c hc).length_le_of_subset hsubset
      rcases hrule with hmany | ⟨b, hb, hbb⟩
      · omega
      · obtain rfl := hother b hb
        exact .single hbb
  · intro hcycle
    obtain ⟨c, hc, hac⟩ := (h.covering a).mp ha
    refine ⟨c, ⟨hc, ?_⟩, hac⟩
    obtain ⟨d, had, hda⟩ := TransGen.head'_iff.mp hcycle
    have hdc := (h.connected c hc a hac d (hclosed a d had)).mpr ⟨.single had, hda⟩
    by_cases hne : d = a
    · exact .inr ⟨a, hac, hne ▸ had⟩
    · refine .inl ?_
      have hpair : [d, a].Nodup := by simp [hne]
      exact hpair.length_le_of_subset (by simp [hdc, hac])

end Closure

/-! ## Names and keys -/

namespace ResolvedCtes

variable {defaults : TableDefaults} {root : Tree} {k : String} {cte : ResolvedCte}

theorem exists_definition_of_find? (h : (ofTree defaults root).find? k = some cte) :
    ∃ definition text, root.preorder.find? (·.definedKey? = some k) = some definition
      ∧ definition.label = .cte text ∧ Text.lower text = k ∧ cte.name = CteName.ofText? text := by
  rw [find?_ofTree, Option.map_eq_some_iff] at h
  obtain ⟨definition, hfound, rfl⟩ := h
  obtain ⟨-, hdefined⟩ := find?_definitions_eq_some hfound
  obtain ⟨text, hlabel, hkey⟩ := Tree.definedKey?_eq_some_iff.mp hdefined
  exact ⟨definition, text, (find?_definitions root k).symm.trans hfound, hlabel, hkey,
    by simp only [definedName?, hlabel]⟩

/-- The name an expression is shown under: the one it is defined with, or its key. -/
def shown (k : String) (cte : ResolvedCte) : String := (cte.name.map CteName.text).getD k

theorem shown_of_ofText? {text : String} (hname : cte.name = CteName.ofText? text) :
    shown k cte = if Text.isBlankText text then k else text := by
  rw [shown, hname, CteName.ofText?]
  by_cases hblank : Text.isBlankText text = false <;> simp [hblank]

/-- A name in small letters is the key of the expression it is shown for. It is the name as defined,
or the key itself, and small letters stay as they are. -/
theorem lower_shown (h : (ofTree defaults root).find? k = some cte) :
    Text.lower (shown k cte) = k := by
  obtain ⟨-, text, -, -, hkey, hname⟩ := exists_definition_of_find? h
  rw [shown_of_ofText? hname]
  split
  · rw [← hkey, Text.lower_lower]
  · exact hkey

theorem isSome_name_iff (h : (ofTree defaults root).find? k = some cte) :
    cte.name.isSome = true ↔ Text.isBlankText (shown k cte) = false := by
  obtain ⟨-, text, -, -, hkey, hname⟩ := exists_definition_of_find? h
  rw [shown_of_ofText? hname, hname, CteName.ofText?]
  by_cases hblank : Text.isBlankText text = false
  · simp [hblank]
  · simp [hblank, ← hkey, Text.isBlankText_lower]

/-! ## Cycles -/

theorem mem_reach_iff {a b : String} :
    (a, b) ∈ reach (definitions root) ↔ TransGen root.RefersTo a b := by
  rw [reach]
  generalize hedges : List.flatMap _ (references (definitions root)).toList = edges
  have hpair : ∀ a b, (a, b) ∈ edges ↔ root.RefersTo a b := by
    intro a b
    rw [← refers_references_iff, ← hedges]
    simp [BaseTables.Refers, Dict.find?_eq_some_iff]
  rw [Closure.mem_through_iff]
  · simp only [hpair]
  · intro a b hab
    obtain ⟨-, -, -, -, -, -, -, hdefines⟩ := (hpair a b).mp hab
    exact Dict.mem_keys.mpr (hasKey_definitions.mpr hdefines)

theorem refers_ofTree (defaults : TableDefaults) (root : Tree) :
    (ofTree defaults root).Refers = root.RefersTo := by
  funext a b
  exact propext refers_ofTree_iff

theorem cyclic_iff (h : (ofTree defaults root).find? k = some cte) :
    cte.cyclic = true ↔ TransGen (ofTree defaults root).Refers k k := by
  rw [find?_ofTree, Option.map_eq_some_iff] at h
  obtain ⟨definition, -, rfl⟩ := h
  rw [refers_ofTree]
  exact decide_eq_true_iff.trans mem_reach_iff

theorem mem_keys_of_refers {a b : String} (h : (ofTree defaults root).Refers a b) :
    b ∈ (ofTree defaults root).keys := by
  obtain ⟨-, -, -, -, -, -, -, hdefines⟩ := refers_ofTree_iff.mp h
  exact Dict.mem_keys.mpr (hasKey_ofTree.mpr hdefines)

instance (ctes : ResolvedCtes) : DecidableRel ctes.Refers := fun k m =>
  decidable_of_iff ((ctes.find? k).any fun cte => m ∈ cte.references.toList)
    (by simp [Refers, Option.any_eq_true])

/-! ## Rows -/

theorem nodup_shown (defaults : TableDefaults) (root : Tree) :
    ((ofTree defaults root).toList.map fun e => shown e.1 e.2).Nodup := by
  refine List.Nodup.of_map Text.lower ?_
  have hkeys : ((ofTree defaults root).toList.map fun e => shown e.1 e.2).map Text.lower
      = (ofTree defaults root).toList.map Prod.fst := by
    rw [List.map_map]
    exact List.map_congr_left fun e he => lower_shown (Dict.find?_eq_some_iff.mpr he)
  rw [hkeys]
  exact SortedBy.nodup_keys _

theorem nodup_rows (ctes : ResolvedCtes) : ctes.rows.Nodup := by
  refine List.Nodup.of_map CteRow.name ?_
  rw [rows, List.map_map]
  exact SortedBy.nodup_keys _

theorem mem_summary_iff {e : String × List TableName} :
    e ∈ (ofTree defaults root).summary.toList
      ↔ ∃ k cte, (ofTree defaults root).find? k = some cte
        ∧ e = (shown k cte, cte.bases.toList) := by
  rw [summary, SortedBy.mem_ofList_of_nodup, List.mem_map]
  · constructor
    · rintro ⟨⟨k, cte⟩, hentry, rfl⟩
      exact ⟨k, cte, Dict.find?_eq_some_iff.mpr hentry, rfl⟩
    · rintro ⟨k, cte, hfound, rfl⟩
      exact ⟨(k, cte), Dict.find?_eq_some_iff.mp hfound, rfl⟩
  · rw [List.map_map]
    exact nodup_shown defaults root

theorem mem_rows_iff {row : CteRow} :
    row ∈ (ofTree defaults root).rows
      ↔ ∃ k cte, (ofTree defaults root).find? k = some cte
        ∧ row = ⟨shown k cte, cte.bases.toList, cte.cyclic && cte.name.isSome⟩ := by
  rw [rows, List.mem_map]
  constructor
  · rintro ⟨e, he, rfl⟩
    obtain ⟨k, cte, hfound, rfl⟩ := mem_summary_iff.mp he
    refine ⟨k, cte, hfound, ?_⟩
    simp [isCyclic, named?, lower_shown hfound, hfound]
  · rintro ⟨k, cte, hfound, rfl⟩
    refine ⟨_, mem_summary_iff.mpr ⟨k, cte, hfound, rfl⟩, ?_⟩
    simp [isCyclic, named?, lower_shown hfound, hfound]

end ResolvedCtes

/-- What a row says of the expression `k` of a statement: the name of its first definition, or its
key where that name is blank; the tables it reads, in order; and whether it reaches itself, in so
many words and by the strongly connected components. -/
structure CteRow.Describes (row : CteRow) (defaults : TableDefaults) (root : Tree)
    (components : List (List String)) (k : String) : Prop where
  spelled : ∃ definition text, root.preorder.find? (·.definedKey? = some k) = some definition
    ∧ definition.label = .cte text ∧ row.name = if Text.isBlankText text then k else text
  bases : ∃ cte, (ResolvedCtes.ofTree defaults root).find? k = some cte
    ∧ row.bases = cte.bases.toList
  ordered : (row.bases.map TableName.text).Pairwise (· < ·)
  cyclic : row.cyclic = true
    ↔ Text.isBlankText row.name = false ∧ TransGen (ResolvedCtes.ofTree defaults root).Refers k k
  recurrent : row.cyclic = true
    ↔ Text.isBlankText row.name = false
      ∧ k ∈ Closure.recurrent (ResolvedCtes.ofTree defaults root).Refers components

namespace ResolvedCtes

theorem describes_of_mem_rows {defaults : TableDefaults} {root : Tree}
    {components : List (List String)}
    (hcomponents : Closure.AreComponents (ofTree defaults root).Refers (ofTree defaults root).keys
      components) {row : CteRow} (hrow : row ∈ (ofTree defaults root).rows) :
    row.Describes defaults root components (Text.lower row.name) := by
  obtain ⟨k, cte, hfound, rfl⟩ := mem_rows_iff.mp hrow
  have hk : k ∈ (ofTree defaults root).keys :=
    Dict.mem_keys.mpr (Dict.hasKey_iff_find?.mpr ⟨cte, hfound⟩)
  have hcyclic : (cte.cyclic && cte.name.isSome) = true
      ↔ Text.isBlankText (shown k cte) = false ∧ TransGen (ofTree defaults root).Refers k k := by
    rw [Bool.and_eq_true, cyclic_iff hfound, isSome_name_iff hfound, and_comm]
  rw [show Text.lower _ = k from lower_shown hfound]
  refine ⟨?_, ⟨cte, hfound, rfl⟩, cte.bases.ascending, hcyclic, ?_⟩
  · obtain ⟨definition, text, hdefinition, hlabel, -, hname⟩ := exists_definition_of_find? hfound
    exact ⟨definition, text, hdefinition, hlabel, shown_of_ofText? hname⟩
  · rw [Closure.mem_recurrent_iff hcomponents (fun _ _ => mem_keys_of_refers) hk]
    exact hcyclic

/-- **What a listing says.** The rows have one name in small letters each, and these are the keys of
the expressions; so the spellings that the rows go by neither merge two expressions nor lose one.
Each row describes the expression of its key. By `lower_shown` a row leads back to its key, hence
rows of one key are one row; that a row describes its expression is `describes_of_mem_rows`, which
brings the components in. -/
theorem rows_describe (defaults : TableDefaults) (root : Tree) (components : List (List String))
    (hcomponents : Closure.AreComponents (ofTree defaults root).Refers (ofTree defaults root).keys
      components) :
    ((ofTree defaults root).rows.map fun row => Text.lower row.name).Nodup
      ∧ (∀ k, k ∈ (ofTree defaults root).rows.map (fun row => Text.lower row.name)
        ↔ root.Defines k)
      ∧ ∀ row ∈ (ofTree defaults root).rows,
        row.Describes defaults root components (Text.lower row.name) := by
  refine ⟨?_, fun k => ?_, fun row => describes_of_mem_rows hcomponents⟩
  · -- Rows of one key are one row, so the keys are as distinct as the spellings.
    refine List.Nodup.map_on (fun row hrow other hother hkey => ?_) (nodup_rows _)
    obtain ⟨k, cte, hfound, rfl⟩ := mem_rows_iff.mp hrow
    obtain ⟨j, cte', hfound', rfl⟩ := mem_rows_iff.mp hother
    obtain rfl : k = j := (lower_shown hfound).symm.trans (hkey.trans (lower_shown hfound'))
    obtain rfl : cte = cte' := Option.some.inj (hfound.symm.trans hfound')
    rfl
  · have hkey : (ofTree defaults root).hasKey k = true ↔ root.Defines k := hasKey_ofTree
    rw [← hkey, Dict.hasKey_iff_find?, List.mem_map]
    constructor
    · rintro ⟨row, hrow, rfl⟩
      exact (describes_of_mem_rows hcomponents hrow).bases.imp fun _ => And.left
    · rintro ⟨cte, hfound⟩
      exact ⟨_, mem_rows_iff.mpr ⟨k, cte, hfound, rfl⟩, lower_shown hfound⟩

/-- Two expressions that read each other and one that reads one of them. -/
def salesAndReturns : Tree :=
  ⟨.query, "",
    [⟨.cte "Sales", "", [.leaf (.table ⟨["returns"], none⟩) "returns"]⟩,
      ⟨.cte "returns", "",
        [.leaf (.table ⟨["SALES"], none⟩) "SALES", .leaf (.table ⟨["orders"], none⟩) "orders"]⟩,
      ⟨.cte "report", "", [.leaf (.table ⟨["sales"], none⟩) "sales"]⟩]⟩

theorem rows_describe_salesAndReturns :
    Closure.AreComponents (ofTree {} salesAndReturns).Refers (ofTree {} salesAndReturns).keys
        [["returns", "sales"], ["report"]]
      ∧ (ofTree {} salesAndReturns).rows.map (fun row => (row.name, row.cyclic))
        = [("Sales", true), ("report", false), ("returns", true)]
      ∧ ∀ row ∈ (ofTree {} salesAndReturns).rows,
        row.Describes {} salesAndReturns [["returns", "sales"], ["report"]]
          (Text.lower row.name) := by
  have hcomponents : Closure.AreComponents (ofTree {} salesAndReturns).Refers
      (ofTree {} salesAndReturns).keys [["returns", "sales"], ["report"]] := by
    have hkeys : (ofTree {} salesAndReturns).keys = ["report", "returns", "sales"] := by
      decide +kernel
    refine ⟨fun a => ?_, by decide, ?_⟩
    · rw [hkeys]
      simp only [List.mem_cons, List.not_mem_nil, or_false, exists_eq_or_imp, exists_eq_left]
      exact or_comm
    · simp only [hkeys, refers_ofTree, Relation.reflTransGen_iff_eq_or_transGen, ← mem_reach_iff]
      decide +kernel
  exact ⟨hcomponents, by decide +kernel, (rows_describe {} salesAndReturns _ hcomponents).2.2⟩

end ResolvedCtes

end QueryLineage
