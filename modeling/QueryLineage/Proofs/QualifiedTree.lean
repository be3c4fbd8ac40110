import Mathlib.Data.List.Forall2
import QueryLineage.Clause
import QueryLineage.Join
import QueryLineage.Proofs.CteDefinitions
import QueryLineage.Qualification

/-!
# Trees that differ in qualifiers

`t.QualifiesTo t'` says that `t'` is `t` with a qualifier in front of some of its bare columns. The
two have the same shape, and every walk over them meets such pairs in the same order (`preorder`,
`scope`). Whatever reads only nodes that are no columns is therefore blind to the difference: the
common table expressions and the names of a statement (`relations_eq`), its filters (`filters_eq`),
and its joins up to their conditions (`joins_eq`), where columns do stand.
-/

namespace QueryLineage

/-- What qualifying may do to a node: nothing, or to put a qualifier in front of a bare column. -/
inductive NodeQualifies : Label → String → Label → String → Prop
  | kept (label : Label) (sql : String) : NodeQualifies label sql label sql
  | qualified (name qualifier sql : String) :
    NodeQualifies (.column [name]) sql (.column [qualifier, name]) (qualifier ++ "." ++ sql)

inductive Tree.QualifiesTo : Tree → Tree → Prop
  | node {label label' : Label} {sql sql' : String} {children children' : List Tree} :
    NodeQualifies label sql label' sql' → List.Forall₂ QualifiesTo children children' →
    QualifiesTo ⟨label, sql, children⟩ ⟨label', sql', children'⟩

theorem NodeQualifies.trans {l l' l'' : Label} {s s' s'' : String} (h : NodeQualifies l s l' s')
    (h' : NodeQualifies l' s' l'' s'') : NodeQualifies l s l'' s'' := by
  cases h with
  | kept => exact h'
  | qualified =>
      -- A column that has its qualifier is bare no more.
      cases h' with
      | kept => exact .qualified ..

theorem exists_of_mem_forall₂ {α β : Type} {R : α → β → Prop} {l : List α} {l' : List β}
    (h : List.Forall₂ R l l') {b : β} (hb : b ∈ l') : ∃ a ∈ l, R a b := by
  induction h with
  | nil => cases hb
  | cons hhead _ ih =>
      rcases List.mem_cons.mp hb with rfl | hb
      · exact ⟨_, List.mem_cons_self, hhead⟩
      · obtain ⟨a, ha, hab⟩ := ih hb
        exact ⟨a, List.mem_cons_of_mem _ ha, hab⟩

namespace Tree

/-- A tree has a property if each node has it whose children have it. It spares proofs about trees
the second induction on lists of children. -/
theorem children_induction {P : Tree → Prop}
    (node : ∀ label sql children, (∀ c ∈ children, P c) → P ⟨label, sql, children⟩) :
    ∀ t, P t :=
  Tree.rec (motive_2 := fun ts => ∀ c ∈ ts, P c) node (by simp)
    (fun _ _ hhead htail => List.forall_mem_cons.mpr ⟨hhead, htail⟩)

namespace QualifiesTo

theorem refl (t : Tree) : t.QualifiesTo t := by
  induction t using children_induction with
  | node label sql children ih => exact .node (.kept label sql) (List.forall₂_same.mpr ih)

mutual

theorem trans : ∀ {t t' t'' : Tree}, t.QualifiesTo t' → t'.QualifiesTo t'' → t.QualifiesTo t''
  | ⟨_, _, _⟩, _, _, .node hnode hchildren, .node hnode' hchildren' =>
      .node (hnode.trans hnode') (transAll hchildren hchildren')

theorem transAll : ∀ {ts ts' ts'' : List Tree}, List.Forall₂ QualifiesTo ts ts' →
    List.Forall₂ QualifiesTo ts' ts'' → List.Forall₂ QualifiesTo ts ts''
  | [], _, _, .nil, .nil => .nil
  | _ :: _, _, _, .cons h hs, .cons h' hs' => .cons (trans h h') (transAll hs hs')

end

/-! ## One node -/

variable {t t' : Tree}

theorem children (h : t.QualifiesTo t') : List.Forall₂ QualifiesTo t.children t'.children := by
  cases h with
  | node _ hchildren => exact hchildren

theorem kind_eq (h : t.QualifiesTo t') : t'.kind = t.kind := by
  cases h with
  | node hnode _ => cases hnode <;> rfl

theorem node_eq (h : t.QualifiesTo t') (hkind : t.kind ≠ .column) :
    t'.label = t.label ∧ t'.sql = t.sql := by
  cases h with
  | node hnode _ =>
      cases hnode with
      | kept => exact ⟨rfl, rfl⟩
      | qualified => exact absurd rfl hkind

theorem tableRef?_eq (h : t.QualifiesTo t') : t'.tableRef? = t.tableRef? := by
  cases h with
  | node hnode _ => cases hnode <;> rfl

theorem definedKey?_eq (h : t.QualifiesTo t') : t'.definedKey? = t.definedKey? := by
  cases h with
  | node hnode _ => cases hnode <;> rfl

theorem definedName?_eq (h : t.QualifiesTo t') :
    ResolvedCtes.definedName? t' = ResolvedCtes.definedName? t := by
  cases h with
  | node hnode _ => cases hnode <;> rfl

theorem derivedRelation?_eq (h : t.QualifiesTo t') :
    Qualification.derivedRelation? t' = Qualification.derivedRelation? t := by
  cases h with
  | node hnode _ => cases hnode <;> rfl

theorem projectionAlias?_eq (h : t.QualifiesTo t') : t'.projectionAlias? = t.projectionAlias? := by
  cases h with
  | node hnode _ => cases hnode <;> rfl

/-! ## Walks -/

mutual

/-- A walk over the whole of both trees meets pairs. -/
theorem preorder : ∀ {t t' : Tree}, t.QualifiesTo t' →
    List.Forall₂ QualifiesTo t.preorder t'.preorder
  | ⟨_, _, _⟩, _, .node hnode hchildren => by
      rw [Tree.preorder, Tree.preorder]
      exact .cons (.node hnode hchildren) (preorderAll hchildren)

theorem preorderAll : ∀ {ts ts' : List Tree}, List.Forall₂ QualifiesTo ts ts' →
    List.Forall₂ QualifiesTo (Tree.preorderAll ts) (Tree.preorderAll ts')
  | [], _, .nil => .nil
  | _ :: _, _, .cons h hs => List.rel_append (preorder h) (preorderAll hs)

end

theorem query_iff (h : t.QualifiesTo t') : t'.label = .query ↔ t.label = .query := by
  cases h with
  | node hnode _ => cases hnode <;> simp

mutual

theorem scope : ∀ {t t' : Tree}, t.QualifiesTo t' → List.Forall₂ QualifiesTo t.scope t'.scope
  | ⟨_, _, _⟩, _, .node hnode hchildren => by
      rw [Tree.scope, Tree.scope]
      exact .cons (.node hnode hchildren) (scopeAll hchildren)

theorem scopeAll : ∀ {ts ts' : List Tree}, List.Forall₂ QualifiesTo ts ts' →
    List.Forall₂ QualifiesTo (Tree.scopeAll ts) (Tree.scopeAll ts')
  | [], _, .nil => .nil
  | ⟨label, sql, below⟩ :: ts, _, .cons (b := ⟨label', sql', below'⟩) h hs => by
      rw [Tree.scopeAll, Tree.scopeAll]
      by_cases hquery : label = .query
      · rw [if_pos hquery, if_pos (h.query_iff.mpr hquery)]
        exact scopeAll hs
      · rw [if_neg hquery, if_neg fun hq => hquery (h.query_iff.mp hq)]
        exact List.rel_append (scope h) (scopeAll hs)

end

mutual

theorem mainSelect? : ∀ {t t' : Tree}, t.QualifiesTo t' →
    Option.Rel QualifiesTo t.mainSelect? t'.mainSelect?
  | ⟨label, _, _⟩, _, .node hnode hchildren => by
      cases hnode with
      | qualified => exact .none
      | kept =>
          cases label with
          | select => exact .some (.node (.kept ..) hchildren)
          | query => exact mainSelectOfLast? hchildren
          | expr shape =>
              cases shape with
              | setOperation => exact mainSelectOfFirst? hchildren
              | _ => exact .none
          | _ => exact .none

theorem mainSelectOfLast? : ∀ {ts ts' : List Tree}, List.Forall₂ QualifiesTo ts ts' →
    Option.Rel QualifiesTo (Tree.mainSelectOfLast? ts) (Tree.mainSelectOfLast? ts')
  | [], _, .nil => .none
  | [_], _, .cons h .nil => mainSelect? h
  | _ :: _ :: _, _, .cons _ (.cons h hs) => (mainSelectOfLast? (List.Forall₂.cons h hs) :)

theorem mainSelectOfFirst? : ∀ {ts ts' : List Tree}, List.Forall₂ QualifiesTo ts ts' →
    Option.Rel QualifiesTo (Tree.mainSelectOfFirst? ts) (Tree.mainSelectOfFirst? ts')
  | [], _, .nil => .none
  | _ :: _, _, .cons h _ => mainSelect? h

end

mutual

theorem height_eq : ∀ {t t' : Tree}, t.QualifiesTo t' → t'.height = t.height
  | ⟨_, _, _⟩, _, .node _ hchildren => by rw [Tree.height, Tree.height, heightAll_eq hchildren]

theorem heightAll_eq : ∀ {ts ts' : List Tree}, List.Forall₂ QualifiesTo ts ts' →
    Tree.heightAll ts' = Tree.heightAll ts
  | [], _, .nil => rfl
  | _ :: _, _, .cons h hs => by rw [Tree.heightAll, Tree.heightAll, height_eq h, heightAll_eq hs]

end

/-! ## Lists of nodes -/

variable {α : Type} {ts ts' : List Tree}

theorem map_eq {f : Tree → α} (hf : ∀ {u u' : Tree}, u.QualifiesTo u' → f u' = f u)
    (h : List.Forall₂ QualifiesTo ts ts') : ts'.map f = ts.map f := by
  induction h with
  | nil => rfl
  | cons hhead _ ih => rw [List.map_cons, List.map_cons, hf hhead, ih]

theorem filterMap_eq {f : Tree → Option α} (hf : ∀ {u u' : Tree}, u.QualifiesTo u' → f u' = f u)
    (h : List.Forall₂ QualifiesTo ts ts') : ts'.filterMap f = ts.filterMap f := by
  induction h with
  | nil => rfl
  | cons hhead _ ih => rw [List.filterMap_cons, List.filterMap_cons, hf hhead, ih]

/-- What is looked for by a property that pairs share is found in pairs, or in neither list. By
induction on the pairs, as the search goes. -/
theorem find? {p : Tree → Bool} (hp : ∀ {u u' : Tree}, u.QualifiesTo u' → p u' = p u)
    (h : List.Forall₂ QualifiesTo ts ts') : Option.Rel QualifiesTo (ts.find? p) (ts'.find? p) := by
  induction h with
  | nil => exact .none
  | @cons u u' _ _ hhead _ ih =>
      rw [List.find?_cons, List.find?_cons, hp hhead]
      cases p u with
      | true => exact .some hhead
      | false => exact ih

theorem optionMap_eq {o o' : Option Tree} {f : Tree → α}
    (hf : ∀ {u u' : Tree}, u.QualifiesTo u' → f u' = f u) (h : Option.Rel QualifiesTo o o') :
    o'.map f = o.map f := by
  cases h with
  | none => rfl
  | some hu => rw [Option.map_some, Option.map_some, hf hu]

theorem filter {p : Tree → Bool} (hp : ∀ {u u' : Tree}, u.QualifiesTo u' → p u' = p u)
    (h : List.Forall₂ QualifiesTo ts ts') :
    List.Forall₂ QualifiesTo (ts.filter p) (ts'.filter p) := by
  refine List.rel_filter ?_ h
  intro u u' hu
  exact iff_of_eq (congrArg (· = true) (hp hu).symm)

theorem tableRefs_eq (h : t.QualifiesTo t') : t'.tableRefs = t.tableRefs :=
  filterMap_eq tableRef?_eq h.preorder

theorem scopeTableRefs_eq (h : t.QualifiesTo t') : t'.scopeTableRefs = t.scopeTableRefs :=
  filterMap_eq tableRef?_eq h.scope

theorem findAll (h : t.QualifiesTo t') (k : Kind) :
    List.Forall₂ QualifiesTo (t.findAll k) (t'.findAll k) :=
  filter (fun hu => by rw [hu.kind_eq]) h.preorder

theorem child? (h : t.QualifiesTo t') (k : Kind) :
    Option.Rel QualifiesTo (t.child? k) (t'.child? k) :=
  find? (fun hu => by rw [hu.kind_eq]) h.children

end QualifiesTo

end Tree

/-! ## Common table expressions -/

theorem Dict.ext_find? {α : Type} {d e : Dict α} (h : ∀ k, d.find? k = e.find? k) : d = e := by
  apply SortedBy.ext_mem
  rintro ⟨k, v⟩
  rw [← Dict.find?_eq_some_iff, ← Dict.find?_eq_some_iff, h]

namespace Tree.QualifiesTo

open ResolvedCtes

variable {t t' : Tree}

theorem definitions (h : t.QualifiesTo t') (k : String) :
    Option.Rel QualifiesTo ((definitions t).find? k) ((definitions t').find? k) := by
  rw [find?_definitions, find?_definitions]
  exact find? (fun hu => by rw [hu.definedKey?_eq]) h.preorder

theorem hasKey_definitions_iff (h : t.QualifiesTo t') (k : String) :
    (ResolvedCtes.definitions t').hasKey k = true
      ↔ (ResolvedCtes.definitions t).hasKey k = true := by
  have hfound := optionMap_eq (f := fun _ => ()) (fun _ => rfl) (h.definitions k)
  have hsome := congrArg Option.isSome hfound
  rw [Option.isSome_map, Option.isSome_map] at hsome
  rw [Dict.hasKey_iff_find?, Dict.hasKey_iff_find?, ← Option.isSome_iff_exists,
    ← Option.isSome_iff_exists, hsome]

theorem keyOf?_definitions (h : t.QualifiesTo t') (path : List String) :
    keyOf? (ResolvedCtes.definitions t') path = keyOf? (ResolvedCtes.definitions t) path :=
  keyOf?_congr h.hasKey_definitions_iff path

theorem references_eq (h : t.QualifiesTo t') :
    references (ResolvedCtes.definitions t') = references (ResolvedCtes.definitions t) := by
  apply Dict.ext_find?
  intro k
  rw [references, references, Dict.find?_mapValues, Dict.find?_mapValues]
  simp only [referencedKeys, h.keyOf?_definitions]
  exact optionMap_eq (fun hu => by rw [hu.tableRefs_eq]) (h.definitions k)

theorem ownTables_eq (h : t.QualifiesTo t') (defaults : TableDefaults) :
    ownTables defaults (ResolvedCtes.definitions t')
      = ownTables defaults (ResolvedCtes.definitions t) := by
  apply Dict.ext_find?
  intro k
  rw [ownTables, ownTables, Dict.find?_mapValues, Dict.find?_mapValues]
  simp only [referencedTables, h.keyOf?_definitions]
  exact optionMap_eq (fun hu => by rw [hu.tableRefs_eq]) (h.definitions k)

theorem reach_eq (h : t.QualifiesTo t') :
    reach (ResolvedCtes.definitions t') = reach (ResolvedCtes.definitions t) := by
  have hkeys : ∀ root : Tree, (ResolvedCtes.definitions root).keys
      = (references (ResolvedCtes.definitions root)).keys := fun root => by
    simp [references, Dict.keys, Dict.mapValues, Function.comp_def]
  rw [reach, reach, hkeys, hkeys, h.references_eq]

theorem ctes_eq (h : t.QualifiesTo t') (defaults : TableDefaults) :
    ResolvedCtes.ofTree defaults t' = ResolvedCtes.ofTree defaults t := by
  apply Dict.ext_find?
  intro k
  rw [find?_ofTree, find?_ofTree, h.references_eq, h.ownTables_eq, h.reach_eq]
  exact optionMap_eq (fun hu => by rw [hu.definedName?_eq]) (h.definitions k)

/-- The names of a statement stand for the same tables and expressions. -/
theorem relations_eq (h : t.QualifiesTo t') (defaults : TableDefaults) :
    Relations.ofTree defaults t' = Relations.ofTree defaults t := by
  simp only [Relations.ofTree, AliasMap.ofTree, ResolvedCtes.givenAliases, h.ctes_eq,
    h.tableRefs_eq]

/-! ## Filters and joins -/

theorem filters_eq (h : t.QualifiesTo t') : t'.filters = t.filters := by
  have hsql : ∀ k ≠ .column, (t'.findAll k).map Tree.sql = (t.findAll k).map Tree.sql := by
    intro k hk
    rw [← List.filterMap_eq_map, Tree.findAll, Tree.findAll, List.filterMap_filter,
      List.filterMap_filter]
    refine filterMap_eq (fun {u u'} hu => ?_) h.preorder
    rw [hu.kind_eq]
    by_cases hkind : u.kind = k
    · simp only [hkind, decide_true, if_true, Function.comp_apply, (hu.node_eq (hkind ▸ hk)).2]
    · simp only [hkind, decide_false, Bool.false_eq_true, if_false]
  rw [Tree.filters, Tree.filters, List.map_append, List.map_append, hsql _ (by decide),
    hsql _ (by decide)]

theorem operand?_eq (h : t.QualifiesTo t') (rs : Relations) :
    JoinOperand.ofTree? rs t' = JoinOperand.ofTree? rs t := by
  have hscope := h.scopeTableRefs_eq
  cases h with
  | node hnode _ =>
      cases hnode with
      | kept => simp only [JoinOperand.ofTree?, hscope]
      | qualified => rfl

end Tree.QualifiesTo

/-- A join without what it says about columns. -/
def Join.frame (j : Join) : Join := { j with conditionText := "", equalityPairs := [] }

def JoinRecord.frame (j : JoinRecord) : JoinRecord := { j with toJoin := j.toJoin.frame }

namespace Tree.QualifiesTo

theorem firstOperand?_eq (rs : Relations) {ts ts' : List Tree}
    (h : List.Forall₂ QualifiesTo ts ts') :
    ts'.head?.bind (JoinOperand.ofTree? rs) = ts.head?.bind (JoinOperand.ofTree? rs) := by
  cases h with
  | nil => rfl
  | cons hhead _ => exact hhead.operand?_eq rs

theorem joinsOfChildren_eq (rs : Relations) {ts ts' : List Tree}
    (h : List.Forall₂ QualifiesTo ts ts') (previous : Option JoinOperand) (based : Bool) :
    (joinsOfChildren rs previous based ts').map Join.frame
      = (joinsOfChildren rs previous based ts).map Join.frame := by
  induction h generalizing previous based with
  | nil => rfl
  | cons hhead _ ih =>
      have hoperand := hhead.operand?_eq rs
      cases hhead with
      | @node label _ _ _ _ _ hnode hchildren =>
          have hfirst := firstOperand?_eq rs hchildren
          cases hnode with
          | qualified => exact ih previous based
          | kept =>
              cases label with
              | join kind condition =>
                  simp only [joinsOfChildren, hfirst]
                  split
                  · exact ih previous based
                  · rename_i right _
                    rw [List.map_cons, List.map_cons, ih (some right) false]
                    rfl
              | _ =>
                  simp only [joinsOfChildren, hoperand]
                  exact ih _ based

theorem joinsOfFrom_eq (rs : Relations) {t t' : Tree} (h : t.QualifiesTo t') :
    (joinsOfFrom rs t').map Join.frame = (joinsOfFrom rs t).map Join.frame := by
  have hstart : t'.startsWithTable = t.startsWithTable := by
    cases h with
    | node _ hchildren =>
        cases hchildren with
        | nil => rfl
        | cons hhead _ => exact congrArg (fun k => decide (k = .table)) hhead.kind_eq
  rw [joinsOfFrom, joinsOfFrom, hstart]
  exact joinsOfChildren_eq rs h.children none _

/-- The joins of a statement are the same but for their conditions. The from clauses are found in
pairs, each pair has the same operands in turn, and the numbers depend on the places alone. -/
theorem joins_eq (rs : Relations) {t t' : Tree} (h : t.QualifiesTo t') :
    (t'.joins rs).map JoinRecord.frame = (t.joins rs).map JoinRecord.frame := by
  have hjoins : ((t'.findAll .fromClause).flatMap (joinsOfFrom rs)).map Join.frame
      = ((t.findAll .fromClause).flatMap (joinsOfFrom rs)).map Join.frame := by
    rw [List.map_flatMap, List.map_flatMap, List.flatMap_def, List.flatMap_def,
      map_eq (joinsOfFrom_eq rs) (h.findAll .fromClause)]
  have hframe : ∀ l : List Join,
      (l.mapIdx fun i j => ({ j with id := joinId i } : JoinRecord)).map JoinRecord.frame
        = (l.map Join.frame).mapIdx fun i j => { j with id := joinId i } := by
    intro l
    apply List.ext_getElem?
    intro i
    simp only [List.getElem?_map, List.getElem?_mapIdx, Option.map_map]
    rfl
  rw [Tree.joins, Tree.joins, hframe, hframe, hjoins]

end Tree.QualifiesTo

end QueryLineage
