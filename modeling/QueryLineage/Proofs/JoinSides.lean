import QueryLineage.Join
import QueryLineage.Proofs.AliasPrecedence
import QueryLineage.Proofs.SourceGrounding

/-!
# What joins join

The record of a join has its operands by name alone: the text of a table, the name of an expression,
the alias of a derived table. `JoinSide` goes back to what stood there in the statement, and
`Tree.joinSides` walks the from clauses once more, so that each record can be held against its
operands (`Tree.joins_joinSides`). Two facts about the name of a table reference are all that the
graph of joins needs: if the reference stands for a single table, the name is the text of that table
(`JoinSide.name_of_tables_eq_singleton`), and if for several, it is the name of the expression that
reads these (`JoinSide.named?_name`).
-/

namespace QueryLineage

/-- What stands on one side of a join. -/
inductive JoinSide
  | table (ref : TableRef)
  | derived (name : String)
  /-- The left side of a join that a from clause starts with. -/
  | nothing
deriving DecidableEq

namespace JoinSide

/-- A relation of a from clause as a side of joins. A parenthesized join stands for the last table
in it. -/
def ofTree? (t : Tree) : Option JoinSide :=
  match t.label with
  | .table ref => some (.table ref)
  | .derived aliasName => some (.derived (aliasName.getD t.sql))
  | .fromClause => t.scopeTableRefs.getLast?.map .table
  | _ => none

/-- The tables on a side: what a table reference stands for, and none of a derived table. -/
def tables (rs : Relations) : JoinSide → List TableName
  | .table ref => rs.tablesAt ref.path
  | .derived _ | .nothing => []

/-- The name of a side in the record of a join. -/
def name (rs : Relations) : JoinSide → String
  | .table ref => rs.textOfPath ref.path
  | .derived name => name
  | .nothing => ""

/-- The sides of the joins among the children of a from clause, after the relation `previous`. -/
def among (previous : JoinSide) : List Tree → List (JoinSide × JoinSide)
  | [] => []
  | child :: rest =>
    match child.label with
    | .join _ _ =>
      match child.children.head?.bind ofTree? with
      | none => among previous rest
      | some right => (previous, right) :: among right rest
    | _ => among ((ofTree? child).getD previous) rest

end JoinSide

/-- The left and the right side of every join of a statement. -/
def Tree.joinSides (root : Tree) : List (JoinSide × JoinSide) :=
  (root.findAll .fromClause).flatMap fun clause => JoinSide.among .nothing clause.children

/-! ## The records of joins -/

namespace JoinSide

variable (rs : Relations)

theorem map_table_ofTree? (t : Tree) :
    (JoinOperand.ofTree? rs t).map (·.table) = (ofTree? t).map (name rs) := by
  obtain ⟨label, sql, children⟩ := t
  cases label with
  | fromClause =>
      simp only [JoinOperand.ofTree?, ofTree?, Option.map_map]
      rfl
  | _ => rfl

theorem among_cons_of_ne_join {child : Tree}
    (h : ∀ kind condition, child.label ≠ .join kind condition) (previous : JoinSide)
    (rest : List Tree) :
    among previous (child :: rest) = among ((ofTree? child).getD previous) rest := by
  rw [among]
  split
  · rename_i hlabel
    exact absurd hlabel (h _ _)
  · rfl

/-- Both walks come to the same names. By induction on the children, for every operand and side that
agree so far, as a join hands its right side on in both walks and any other relation starts
again. -/
theorem names_among {previous : Option JoinOperand} {side : JoinSide}
    (hside : (previous.map (·.table)).getD "" = side.name rs) (based : Bool)
    (children : List Tree) :
    (joinsOfChildren rs previous based children).map (fun j => (j.leftTable, j.rightTable))
      = (among side children).map fun sides => (sides.1.name rs, sides.2.name rs) := by
  induction children generalizing previous side based with
  | nil => rfl
  | cons child rest ih =>
      rw [joinsOfChildren]
      split
      · rename_i kind condition hlabel
        rw [among, hlabel]
        have hright : (child.children.head?.bind (JoinOperand.ofTree? rs)).map (·.table)
            = (child.children.head?.bind ofTree?).map (name rs) := by
          cases child.children.head? with
          | none => rfl
          | some relation => exact map_table_ofTree? rs relation
        cases hside' : child.children.head?.bind ofTree? with
        | none =>
            rw [hside', Option.map_none, Option.map_eq_none_iff] at hright
            rw [hright]
            exact ih hside based
        | some right =>
            rw [hside', Option.map_some, Option.map_eq_some_iff] at hright
            obtain ⟨operand, hoperand, hname⟩ := hright
            rw [hoperand]
            simp only [List.map_cons, hside, hname]
            exact congrArg _ (ih (by simpa using hname) false)
      · rename_i hother
        rw [among_cons_of_ne_join hother]
        refine ih ?_ based
        have hchild := map_table_ofTree? rs child
        cases hside' : ofTree? child with
        | none =>
            rw [hside', Option.map_none, Option.map_eq_none_iff] at hchild
            rw [hchild]
            exact hside
        | some other =>
            rw [hside', Option.map_some, Option.map_eq_some_iff] at hchild
            obtain ⟨operand, hoperand, hname⟩ := hchild
            rw [hoperand]
            exact hname

end JoinSide

/-- The records of a statement's joins are numbered, and name their sides. The names are those of
the sides clause by clause (`names_among`), and the numbers are the places in the whole list. -/
theorem Tree.joins_joinSides (rs : Relations) (root : Tree) :
    (root.joins rs).map (fun r => (r.id, r.leftTable, r.rightTable))
      = root.joinSides.mapIdx fun place sides =>
        (joinId place, sides.1.name rs, sides.2.name rs) := by
  have hnames : ((root.findAll .fromClause).flatMap (joinsOfFrom rs)).map
        (fun j => (j.leftTable, j.rightTable))
      = root.joinSides.map fun sides => (sides.1.name rs, sides.2.name rs) := by
    rw [joinSides, List.map_flatMap, List.map_flatMap]
    refine congrArg (List.flatMap · _) (funext fun clause => ?_)
    exact JoinSide.names_among rs rfl clause.startsWithTable clause.children
  refine List.ext_getElem? fun place => ?_
  have hplace := congrArg (·[place]?) hnames
  simp only [List.getElem?_map] at hplace
  have hnumbered := congrArg (Option.map (Prod.mk (joinId place))) hplace
  simpa only [joins, List.getElem?_map, List.getElem?_mapIdx, Option.map_map, Function.comp_def]
    using hnumbered

/-- The record of a join names the sides. -/
structure JoinRecord.IsOf (rs : Relations) (place : Nat) (sides : JoinSide × JoinSide)
    (r : JoinRecord) : Prop where
  id_eq : r.id = joinId place
  left_eq : r.leftTable = sides.1.name rs
  right_eq : r.rightTable = sides.2.name rs

theorem Tree.exists_record (rs : Relations) {root : Tree} {place : Nat}
    {sides : JoinSide × JoinSide} (h : root.joinSides[place]? = some sides) :
    ∃ r, (root.joins rs)[place]? = some r ∧ r.IsOf rs place sides := by
  have hplace := congrArg (·[place]?) (root.joins_joinSides rs)
  simp only [List.getElem?_map, List.getElem?_mapIdx, h, Option.map_some,
    Option.map_eq_some_iff] at hplace
  obtain ⟨r, hr, hnames⟩ := hplace
  simp only [Prod.mk.injEq] at hnames
  exact ⟨r, hr, hnames.1, hnames.2.1, hnames.2.2⟩

theorem Tree.exists_sides (rs : Relations) {root : Tree} {place : Nat} {r : JoinRecord}
    (h : (root.joins rs)[place]? = some r) :
    ∃ sides, root.joinSides[place]? = some sides ∧ r.IsOf rs place sides := by
  have hplace := congrArg (·[place]?) (root.joins_joinSides rs)
  simp only [List.getElem?_map, List.getElem?_mapIdx, h, Option.map_some] at hplace
  obtain ⟨sides, hsides, hnames⟩ := Option.map_eq_some_iff.mp hplace.symm
  simp only [Prod.mk.injEq] at hnames
  exact ⟨sides, hsides, hnames.1.symm, hnames.2.1.symm, hnames.2.2.symm⟩

/-! ## Sides that are tables -/

theorem JoinSide.mem_tableRefs_of_ofTree? {t : Tree} {ref : TableRef}
    (h : JoinSide.ofTree? t = some (.table ref)) : ref ∈ t.tableRefs := by
  rw [ofTree?] at h
  split at h
  · rename_i ref' hlabel
    obtain rfl := JoinSide.table.inj (Option.some.inj h)
    exact Tree.mem_tableRefs_iff.mpr (.inl (by rw [Tree.tableRef?, hlabel]))
  · cases h
  · obtain ⟨ref', hlast, heq⟩ := Option.map_eq_some_iff.mp h
    obtain rfl := JoinSide.table.inj heq
    obtain ⟨u, hu, href⟩ := List.mem_filterMap.mp (List.mem_of_getLast? hlast)
    exact List.mem_filterMap.mpr ⟨u, Tree.mem_preorder_of_mem_scope hu, href⟩
  · cases h

/-- Every side of the joins among some children is the one before, or is in one of the children. By
induction on the children, for every side before them. -/
theorem JoinSide.mem_tableRefs_of_mem_among {previous : JoinSide} {children : List Tree}
    {sides : JoinSide × JoinSide} (h : sides ∈ among previous children) {ref : TableRef}
    (hside : sides.1 = .table ref ∨ sides.2 = .table ref) :
    previous = .table ref ∨ ∃ child ∈ children, ref ∈ child.tableRefs := by
  induction children generalizing previous with
  | nil => cases h
  | cons child rest ih =>
      have hlater : ∀ {side : JoinSide}, sides ∈ among side rest →
          (side = .table ref → previous = .table ref ∨ ref ∈ child.tableRefs) →
          previous = .table ref ∨ ∃ c ∈ child :: rest, ref ∈ c.tableRefs := by
        intro side hmem hprevious
        rcases ih hmem with hside' | ⟨c, hc, href⟩
        · exact (hprevious hside').imp_right fun href => ⟨child, List.mem_cons_self, href⟩
        · exact .inr ⟨c, List.mem_cons_of_mem _ hc, href⟩
      rw [among] at h
      split at h
      · split at h
        · exact hlater h .inl
        · rename_i right hright
          obtain ⟨relation, hrelation, hright⟩ := Option.bind_eq_some_iff.mp hright
          have hchild : right = .table ref → ref ∈ child.tableRefs := by
            rintro rfl
            exact Tree.mem_tableRefs_iff.mpr
              (.inr ⟨relation, List.mem_of_head? hrelation, mem_tableRefs_of_ofTree? hright⟩)
          rcases List.mem_cons.mp h with rfl | h
          · exact hside.imp_right fun hright' => ⟨child, List.mem_cons_self, hchild hright'⟩
          · exact hlater h fun hright' => .inr (hchild hright')
      · refine hlater h fun hprevious => ?_
        cases hrelation : ofTree? child with
        | none => exact .inl (by simpa [hrelation] using hprevious)
        | some relation =>
            obtain rfl : relation = .table ref := by simpa [hrelation] using hprevious
            exact .inr (mem_tableRefs_of_ofTree? hrelation)

theorem Tree.mem_tableRefs_of_mem_joinSides {root : Tree} {sides : JoinSide × JoinSide}
    (h : sides ∈ root.joinSides) {ref : TableRef}
    (hside : sides.1 = .table ref ∨ sides.2 = .table ref) : ref ∈ root.tableRefs := by
  obtain ⟨clause, hclause, h⟩ := List.mem_flatMap.mp h
  rcases JoinSide.mem_tableRefs_of_mem_among h hside with hnothing | ⟨child, hchild, href⟩
  · cases hnothing
  · obtain ⟨u, hu, href⟩ := List.mem_filterMap.mp href
    have hinClause := Tree.mem_preorder_iff.mpr (.inr ⟨child, hchild, hu⟩)
    have hinRoot := Tree.mem_preorder_trans (List.mem_filter.mp hclause).1 hinClause
    exact List.mem_filterMap.mpr ⟨u, hinRoot, href⟩

/-! ## Names and tables -/

namespace JoinSide

open Relations

variable {defaults : TableDefaults} {root : Tree} {side : JoinSide}

/-- A side that is a table is referred to in the statement. -/
def IsIn (root : Tree) (side : JoinSide) : Prop := ∀ ref, side = .table ref → ref ∈ root.tableRefs

/-- A reference that names an expression has the tables of that, any other has its own. -/
theorem tablesAt_cases (rs : Relations) (path : List String) :
    (∃ name cte, path = [name] ∧ rs.ctes.named? name = some cte
        ∧ ResolvedCtes.keyOf? rs.ctes path = some (Text.lower name)
        ∧ rs.tablesAt path = cte.bases.toList)
      ∨ ResolvedCtes.keyOf? rs.ctes path = none
        ∧ rs.tablesAt path = (rs.defaults.resolve path).toList := by
  cases hkey : ResolvedCtes.keyOf? rs.ctes path with
  | none => exact .inr ⟨rfl, by rw [tablesAt, hkey]⟩
  | some key =>
      obtain ⟨name, rfl, rfl, hhas⟩ := ResolvedCtes.keyOf?_eq_some_iff.mp hkey
      obtain ⟨cte, hcte⟩ := Dict.hasKey_iff_find?.mp hhas
      exact .inl ⟨name, cte, rfl, hcte, rfl, by simp [tablesAt, hkey, hcte]⟩

theorem relationOfPath?_of_named? {rs : Relations} {name : String} {cte : ResolvedCte}
    (hkey : ResolvedCtes.keyOf? rs.ctes [name] = some (Text.lower name))
    (hcte : rs.ctes.named? name = some cte) :
    rs.ctes.relationOfPath? rs.defaults [name] = match cte.bases.toList with
      | [t] => some (.table t)
      | _ => cte.name.map .cte := by
  have hlower : rs.ctes.named? (Text.lower name) = some cte := by
    rw [ResolvedCtes.named?, Text.lower_lower]
    exact hcte
  rw [ResolvedCtes.relationOfPath?, hkey]
  exact relation?_of_named? hlower

/-- All tables of a side are sources: those that an expression reads, and the one that a reference
is completed to. -/
theorem tables_subset_sources (h : side.IsIn root) :
    side.tables (ofTree defaults root) ⊆ (ofTree defaults root).sources.toList := by
  cases side with
  | table ref =>
      intro t ht
      rw [tables] at ht
      rcases tablesAt_cases (ofTree defaults root) ref.path
        with ⟨name, cte, -, hcte, -, htables⟩ | ⟨hkey, htables⟩
      · exact bases_subset_sources hcte (htables ▸ ht)
      · rw [htables, Option.mem_toList] at ht
        exact ResolvedCtes.mem_referencedTables.mpr ⟨ref, h ref rfl, hkey, ht⟩
  | derived name => exact List.nil_subset _
  | nothing => exact List.nil_subset _

/-- A side that stands for a single table is known by the text of the table, also if it gets to the
table through an expression. -/
theorem name_of_tables_eq_singleton {rs : Relations} {t : TableName} (h : side.tables rs = [t]) :
    side.name rs = t.text := by
  cases side with
  | table ref =>
      have hrelation : rs.ctes.relationOfPath? rs.defaults ref.path = some (.table t) := by
        rw [tables] at h
        rcases tablesAt_cases rs ref.path with ⟨name, cte, hpath, hcte, hkey, htables⟩ |
          ⟨hkey, htables⟩
        · rw [hpath] at hkey ⊢
          rw [relationOfPath?_of_named? hkey hcte, ← htables, h]
        · rw [ResolvedCtes.relationOfPath?, hkey]
          have hresolve : rs.defaults.resolve ref.path = some t := by
            rw [← Option.toList_eq_singleton_iff, ← htables, h]
          simp [hresolve]
      rw [name, textOfPath, hrelation]
      rfl
  | derived name => cases h
  | nothing => cases h

/-- A side that stands for several tables is known by a name of the expression that reads these: its
name if it was given one, else the path it is referred to by. -/
theorem named?_name (hone : (side.tables (ofTree defaults root)).length ≠ 1)
    (hsome : side.tables (ofTree defaults root) ≠ []) :
    ∃ cte, (ofTree defaults root).ctes.named? (side.name (ofTree defaults root)) = some cte
      ∧ cte.bases.toList = side.tables (ofTree defaults root) := by
  cases side with
  | table ref =>
      rw [tables] at hone hsome
      simp only [tables, name]
      rcases tablesAt_cases (ofTree defaults root) ref.path
        with ⟨name, cte, hpath, hcte, hkey, htables⟩ | ⟨hkey, htables⟩
      · refine ⟨cte, ?_, htables.symm⟩
        rw [hpath] at hkey ⊢
        rw [textOfPath, relationOfPath?_of_named? hkey hcte, ← hpath, ← htables]
        split
        · rename_i relation hrelation
          split at hrelation
          · rename_i t honly
            exact absurd (congrArg List.length honly) hone
          · obtain ⟨defined, hdefined, rfl⟩ := Option.map_eq_some_iff.mp hrelation
            exact named?_of_name hcte hdefined
        · rw [hpath]
          exact hcte
      · rw [htables] at hone hsome
        cases hresolve : (ofTree defaults root).defaults.resolve ref.path with
        | none => exact absurd (by rw [hresolve]; rfl) hsome
        | some t => exact absurd (by rw [hresolve]; rfl) hone
  | derived name => exact absurd rfl hsome
  | nothing => exact absurd rfl hsome

end JoinSide

end QueryLineage
