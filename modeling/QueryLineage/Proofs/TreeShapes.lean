import QueryLineage.Sql.Outline

/-!
# The shape of the tree of a statement

Every analysis indexes the children of a node by place, relying on the label for what stands where.
`HasShape` says what that is for each label, and `WellFormed` that every node has it and that no
select lies in the scope of another.

The induction is over all of the syntax at once. What it carries is `IsPart`: besides being well
formed, a tree that can stand below a select has no select in its scope. Whatever holds a query
closes this off, so that selects come up again only as bodies of queries.
-/

namespace QueryLineage

namespace Tree

/-! ## Shapes -/

/-- A relation of a from clause, or what a join joins. -/
def IsRelation (t : Tree) : Prop := t.kind = .table ∨ t.kind = .derived ∨ t.kind = .fromClause

/-- The body of a query: a select, a query in parentheses, a set operation or anything else that
gives rows. -/
def IsBody (t : Tree) : Prop :=
  t.kind = .select ∨ t.kind = .query ∨ t.label = .expr .setOperation ∨ t.label = .expr .other

/-- The clauses of a select in their order. -/
def clauseKinds : List Kind := [.fromClause, .whereClause, .groupClause, .havingClause]

/-- How many children a join has after the relation. -/
def conditionCount : JoinCondition → Nat
  | .predicate | .columns _ => 1
  | .natural | .unconditional => 0

/-- The node has the children that its label asks for. -/
def HasShape (t : Tree) : Prop :=
  match t.label with
  | .query => ∃ ctes body, t.children = ctes ++ [body] ∧ (∀ c ∈ ctes, c.kind = .cte) ∧ body.IsBody
  | .select => ∃ items clauses, t.children = items ++ clauses
      ∧ (∀ i ∈ items, i.kind = .projection) ∧ (clauses.map kind).Sublist clauseKinds
  | .fromClause => ∃ first joins, t.children = first :: joins
      ∧ first.IsRelation ∧ ∀ j ∈ joins, j.kind = .join
  | .join _ condition => ∃ relation rest, t.children = relation :: rest
      ∧ relation.IsRelation ∧ rest.length = conditionCount condition
  | .cte _ => ∃ query, t.children = [query] ∧ query.kind = .query
  | .expr .setOperation => ∃ left right, t.children = [left, right] ∧ left.IsBody ∧ right.IsBody
  | .equality | .expr .conjunction => t.children.length = 2
  | .projection .. | .whereClause | .havingClause | .expr .nested => t.children.length = 1
  | .column parts => parts ≠ [] ∧ t.children = []
  | .table _ | .identifier _ => t.children = []
  | .derived _ | .groupClause | .expr .other => True

/-- No select lies among the trees of a list, apart from those in queries. -/
def SelectFree (ts : List Tree) : Prop := ∀ u ∈ scopeAll ts, u.kind ≠ .select

/-- Every node has its shape, and between a select and a select below it lies a query. -/
structure WellFormed (t : Tree) : Prop where
  hasShape : ∀ u ∈ t.preorder, u.HasShape
  selectFree : ∀ u ∈ t.preorder, u.kind = .select → SelectFree u.children

/-- A well-formed tree that can stand below a select. -/
structure IsPart (t : Tree) : Prop where
  wellFormed : t.WellFormed
  selectFree : SelectFree [t]

/-- Each tree of a list can stand below a select. -/
def AllParts (ts : List Tree) : Prop := ∀ t ∈ ts, t.IsPart

/-! ## Putting shapes together -/

section

variable {label : Label} {sql : String} {t : Tree} {ts us : List Tree}

theorem kind_eq_query_iff : label.kind = .query ↔ label = .query := by
  cases label <;> simp [Label.kind]

theorem kind_eq_select_iff : label.kind = .select ↔ label = .select := by
  cases label <;> simp [Label.kind]

theorem scopeAll_append (ts us : List Tree) : scopeAll (ts ++ us) = scopeAll ts ++ scopeAll us := by
  induction ts with
  | nil => rfl
  | cons t rest ih =>
      cases t
      rw [List.cons_append, scopeAll, scopeAll, ih]
      split
      · rfl
      · rw [List.append_assoc]

theorem selectFree_append : SelectFree (ts ++ us) ↔ SelectFree ts ∧ SelectFree us := by
  simp only [SelectFree, scopeAll_append, List.mem_append, or_imp, forall_and]

theorem selectFree_of_forall (h : ∀ t ∈ ts, SelectFree [t]) : SelectFree ts := by
  induction ts with
  | nil => exact nofun
  | cons t rest ih =>
      rw [List.forall_mem_cons] at h
      rw [← List.singleton_append]
      exact selectFree_append.mpr ⟨h.1, ih h.2⟩

theorem selectFree_query (h : t.kind = .query) : SelectFree [t] := by
  obtain ⟨label, sql, children⟩ := t
  have hlabel : label = .query := kind_eq_query_iff.mp h
  simp [SelectFree, scopeAll, hlabel]

theorem selectFree_node (hlabel : label ≠ .select) (h : SelectFree ts) :
    SelectFree [⟨label, sql, ts⟩] := by
  intro u hu
  rw [scopeAll] at hu
  split at hu
  · simp [scopeAll] at hu
  · rw [scopeAll, List.append_nil, scope, List.mem_cons] at hu
    rcases hu with rfl | hu
    · exact fun hkind => hlabel (kind_eq_select_iff.mp hkind)
    · exact h u hu

theorem wellFormed_node (hshape : HasShape ⟨label, sql, ts⟩)
    (hselect : label = .select → SelectFree ts) (hchildren : ∀ t ∈ ts, t.WellFormed) :
    WellFormed ⟨label, sql, ts⟩ := by
  constructor
  case hasShape =>
    intro u hu
    rcases mem_preorder_iff.mp hu with rfl | ⟨child, hchild, hu⟩
    · exact hshape
    · exact (hchildren child hchild).hasShape u hu
  case selectFree =>
    intro u hu hkind
    rcases mem_preorder_iff.mp hu with rfl | ⟨child, hchild, hu⟩
    · exact hselect (kind_eq_select_iff.mp hkind)
    · exact (hchildren child hchild).selectFree u hu hkind

/-- What is no select can stand below one if its children can. -/
theorem isPart_node (hlabel : label ≠ .select) (hshape : HasShape ⟨label, sql, ts⟩)
    (hchildren : AllParts ts) : IsPart ⟨label, sql, ts⟩ where
  wellFormed :=
    wellFormed_node hshape (absurd · hlabel) fun t ht => (hchildren t ht).wellFormed
  selectFree :=
    selectFree_node hlabel (selectFree_of_forall fun t ht => (hchildren t ht).selectFree)

theorem isPart_query (h : t.WellFormed) (hkind : t.kind = .query) : t.IsPart :=
  ⟨h, selectFree_query hkind⟩

@[simp] theorem allParts_nil : AllParts [] := nofun

@[simp] theorem allParts_cons : AllParts (t :: ts) ↔ t.IsPart ∧ AllParts ts :=
  List.forall_mem_cons

@[simp] theorem allParts_append : AllParts (ts ++ us) ↔ AllParts ts ∧ AllParts us :=
  List.forall_mem_append

end

end Tree

namespace Sql

open QueryLineage.Tree

/-! ## What stands where -/

theorem Relation.isRelation_toTree (r : Relation) : r.toTree.IsRelation := by
  cases r with
  | table => exact .inl (by rw [toTree]; rfl)
  | derived => exact .inr (.inl (by rw [toTree]; rfl))
  | joined => exact .inr (.inr (by rw [toTree]; rfl))
  | unnest => exact .inr (.inl (by rw [toTree]; rfl))
  | form => exact .inr (.inl (by rw [toTree]; rfl))

theorem Join.kind_toTree (j : Join) : j.toTree.kind = .join := by
  cases j <;> rw [toTree] <;> rfl

theorem Cte.kind_toTree (c : Cte) : c.toTree.kind = .cte := by
  cases c
  rw [toTree]
  rfl

theorem Query.kind_toTree (q : Query) : q.toTree.kind = .query := by
  cases q
  rw [toTree]
  rfl

theorem Body.isBody_toTree (b : Body) : b.toTree.IsBody := by
  cases b with
  | select => exact .inl (by rw [toTree]; rfl)
  | query q => exact .inr (.inl (by rw [toTree]; exact q.kind_toTree))
  | setOperation => exact .inr (.inr (.inl (by rw [toTree])))
  | other => exact .inr (.inr (.inr (by rw [toTree])))

theorem SelectItem.kind_toTree (i : SelectItem) : i.toTree.kind = .projection := by
  cases i <;> rw [toTree] <;> rfl

theorem isPart_columnNode (first : Ident) (rest : List Ident) :
    (columnNode first rest).IsPart :=
  isPart_node nofun ⟨nofun, rfl⟩ allParts_nil

theorem isPart_matchingNode (columns : List String) : (matchingNode columns).IsPart := by
  refine isPart_node nofun trivial fun t ht => ?_
  obtain ⟨name, -, rfl⟩ := List.mem_map.mp ht
  exact isPart_node nofun rfl allParts_nil

theorem kind_of_mem_cteTrees : ∀ {ctes : List Cte}, ∀ t ∈ cteTrees ctes, t.kind = .cte
  | [], t, ht => by simp [cteTrees] at ht
  | c :: rest, t, ht => by
      rw [cteTrees, List.mem_cons] at ht
      rcases ht with rfl | ht
      · exact c.kind_toTree
      · exact kind_of_mem_cteTrees t ht

theorem kind_of_mem_itemTrees : ∀ {items : List SelectItem}, ∀ t ∈ itemTrees items,
    t.kind = .projection
  | [], t, ht => by simp [itemTrees] at ht
  | i :: rest, t, ht => by
      rw [itemTrees, List.mem_cons] at ht
      rcases ht with rfl | ht
      · exact i.kind_toTree
      · exact kind_of_mem_itemTrees t ht

theorem kind_of_mem_joinTrees : ∀ {joins : List Join}, ∀ t ∈ joinTrees joins, t.kind = .join
  | [], t, ht => by simp [joinTrees] at ht
  | j :: rest, t, ht => by
      rw [joinTrees, List.mem_cons] at ht
      rcases ht with rfl | ht
      · exact j.kind_toTree
      · exact kind_of_mem_joinTrees t ht

theorem kind_of_mem_treesAfterComma (i : FromItem) : ∀ t ∈ i.treesAfterComma, t.kind = .join := by
  obtain ⟨relation, joins⟩ := i
  rw [FromItem.treesAfterComma]
  exact List.forall_mem_cons.mpr ⟨rfl, kind_of_mem_joinTrees⟩

theorem kind_of_mem_laterFromTrees : ∀ {items : List FromItem}, ∀ t ∈ laterFromTrees items,
    t.kind = .join
  | [], t, ht => by simp [laterFromTrees] at ht
  | i :: rest, t, ht => by
      rw [laterFromTrees, List.mem_append] at ht
      rcases ht with ht | ht
      · exact kind_of_mem_treesAfterComma i t ht
      · exact kind_of_mem_laterFromTrees t ht

/-- The items of a from clause, and a parenthesized join, start with a relation and go on with
joins. -/
theorem hasShape_trees (i : FromItem) (sql : String) : HasShape ⟨.fromClause, sql, i.trees⟩ := by
  obtain ⟨relation, joins⟩ := i
  rw [FromItem.trees]
  exact ⟨_, _, rfl, relation.isRelation_toTree, kind_of_mem_joinTrees⟩

theorem hasShape_fromTrees {items : List FromItem} (hne : items.isEmpty = false) (sql : String) :
    HasShape ⟨.fromClause, sql, fromTrees items⟩ := by
  match items with
  | .mk relation joins :: rest =>
      rw [fromTrees, FromItem.trees, List.cons_append]
      refine ⟨_, _, rfl, relation.isRelation_toTree, fun j hj => ?_⟩
      exact (List.mem_append.mp hj).elim (kind_of_mem_joinTrees j) (kind_of_mem_laterFromTrees j)

/-! ## The clauses of a select -/

/-- The from clause of a select, if there are any sources. -/
def fromClauseTrees (sources : List FromItem) : List Tree :=
  if sources.isEmpty then []
  else [⟨.fromClause, commaSeparated (fromTexts sources), fromTrees sources⟩]

/-- The grouping of a select, if there are any expressions. -/
def groupClauseTrees (groups : List Expr) : List Tree :=
  if groups.isEmpty then []
  else [⟨.groupClause, commaSeparated (exprTexts groups), exprTrees groups⟩]

theorem toTree_select {opening : List Piece} {items : List SelectItem} {sources : List FromItem}
    {condition having : Option Expr} {groups : List Expr} {afterGroups : String}
    {rest : List Piece} :
    (Body.select opening items sources condition groups afterGroups having rest).toTree
      = ⟨.select, (Body.select opening items sources condition groups afterGroups having rest).text,
          itemTrees items ++ (fromClauseTrees sources ++ clauseTrees .whereClause condition
            ++ groupClauseTrees groups ++ clauseTrees .havingClause having)⟩ := by
  simp only [Body.toTree, fromClauseTrees, groupClauseTrees, List.append_assoc]

theorem allParts_fromClauseTrees {sources : List FromItem} (h : AllParts (fromTrees sources)) :
    AllParts (fromClauseTrees sources) := by
  unfold fromClauseTrees
  split
  · exact allParts_nil
  · rename_i hne
    exact allParts_cons.mpr
      ⟨isPart_node nofun (hasShape_fromTrees (Bool.eq_false_iff.mpr hne) _) h, allParts_nil⟩

theorem allParts_groupClauseTrees {groups : List Expr} (h : AllParts (exprTrees groups)) :
    AllParts (groupClauseTrees groups) := by
  unfold groupClauseTrees
  split
  · exact allParts_nil
  · exact allParts_cons.mpr ⟨isPart_node nofun trivial h, allParts_nil⟩

theorem kinds_clauses {sources : List FromItem} {condition having : Option Expr}
    {groups : List Expr} :
    ((fromClauseTrees sources ++ clauseTrees .whereClause condition ++ groupClauseTrees groups
      ++ clauseTrees .havingClause having).map kind).Sublist clauseKinds := by
  have hclause : ∀ (label : Label) (clause : Option Expr),
      ((clauseTrees label clause).map kind).Sublist [label.kind] := by
    intro label clause
    cases clause with
    | none => simp [clauseTrees]
    | some e => exact List.Sublist.refl _
  have hsources : ((fromClauseTrees sources).map kind).Sublist [.fromClause] := by
    unfold fromClauseTrees
    split
    · exact List.nil_sublist _
    · exact List.Sublist.refl _
  have hgroups : ((groupClauseTrees groups).map kind).Sublist [.groupClause] := by
    unfold groupClauseTrees
    split
    · exact List.nil_sublist _
    · exact List.Sublist.refl _
  simp only [List.map_append]
  exact ((hsources.append (hclause _ condition)).append hgroups).append (hclause _ having)

/-! ## The induction over the syntax -/

mutual

theorem Expr.allParts_findings : (e : Expr) → AllParts e.findings
  | .column first rest => by simp [Expr.findings, isPart_columnNode]
  | .binary left _ right => by simp [Expr.findings, left.allParts_findings, right.allParts_findings]
  | .nested inner => by simp [Expr.findings, inner.allParts_findings]
  | .subquery query => by simp [Expr.findings, query.isPart_toTree]
  | .call name opening args closing groupOrder rest => by
      simp [Expr.findings, allParts_piecesFindings opening, allParts_argumentsFindings args,
        allParts_piecesFindings closing, allParts_piecesFindings rest,
        allParts_piecesFindings groupOrder]
  | .trimming _ characters text => by
      simp [Expr.findings, text.allParts_findings, characters.allParts_findings]
  | .form pieces => by simp [Expr.findings, allParts_piecesFindings pieces]

theorem Argument.allParts_findings (partAllowed : Bool) :
    (a : Argument) → AllParts (a.findings partAllowed)
  | .expr e => by
      rw [Argument.findings]
      -- the name of a part of a date leaves nothing
      split
      · exact allParts_nil
      · exact e.allParts_findings
  | .other pieces => by simp [Argument.findings, allParts_piecesFindings pieces]

theorem allParts_argumentsFindings {partAllowed : Bool} :
    (args : List Argument) → AllParts (argumentsFindings partAllowed args)
  | [] => by simp [argumentsFindings]
  | a :: rest => by
      simp [argumentsFindings, a.allParts_findings, allParts_argumentsFindings rest]

theorem Piece.allParts_findings : (p : Piece) → AllParts p.findings
  | .text _ => by simp [Piece.findings]
  | .expr e => by simp [Piece.findings, e.allParts_findings]
  | .query q => by simp [Piece.findings, q.isPart_toTree]
  | .relation r => by simp [Piece.findings, r.allParts_findings]

theorem allParts_piecesFindings : (ps : List Piece) → AllParts (piecesFindings ps)
  | [] => by simp [piecesFindings]
  | p :: ps => by simp [piecesFindings, p.allParts_findings, allParts_piecesFindings ps]

theorem allParts_exprsFindings : (es : List Expr) → AllParts (exprsFindings es)
  | [] => by simp [exprsFindings]
  | e :: es => by simp [exprsFindings, e.allParts_findings, allParts_exprsFindings es]

theorem Relation.allParts_findings : (r : Relation) → AllParts r.findings
  | .table _ afterName _ afterAlias => by
      simp [Relation.findings, allParts_piecesFindings afterName,
        allParts_piecesFindings afterAlias]
  | .derived _ query _ afterAlias => by
      simp [Relation.findings, query.isPart_toTree, allParts_piecesFindings afterAlias]
  | .joined item _ => by simp [Relation.findings, item.allParts_findings]
  | .unnest items _ _ _ => by simp [Relation.findings, allParts_exprsFindings items]
  | .form pieces => by simp [Relation.findings, allParts_piecesFindings pieces]

theorem FromItem.allParts_findings : (i : FromItem) → AllParts i.findings
  | .mk relation joins => by
      simp [FromItem.findings, relation.allParts_findings, allParts_joinsFindings joins]

theorem Join.allParts_findings : (j : Join) → AllParts j.findings
  | .conditioned _ relation condition => by
      simp [Join.findings, relation.allParts_findings, condition.allParts_findings]
  | .matching _ relation _ => by simp [Join.findings, relation.allParts_findings]
  | .natural _ relation => by simp [Join.findings, relation.allParts_findings]
  | .unconditional _ relation => by simp [Join.findings, relation.allParts_findings]
  | .operator _ _ relation rest => by
      simp [Join.findings, relation.allParts_findings, allParts_piecesFindings rest]

theorem allParts_joinsFindings : (js : List Join) → AllParts (joinsFindings js)
  | [] => by simp [joinsFindings]
  | j :: js => by simp [joinsFindings, j.allParts_findings, allParts_joinsFindings js]

theorem Expr.isPart_toTree : (e : Expr) → e.toTree.IsPart
  | .column first rest => by
      rw [Expr.toTree]
      exact isPart_columnNode first rest
  | .binary left op right => by
      have hchildren : AllParts [left.toTree, right.toTree] := by
        simp [left.isPart_toTree, right.isPart_toTree]
      cases op with
      | equals =>
          rw [Expr.toTree]
          exact isPart_node nofun rfl hchildren
      | conjunction =>
          rw [Expr.toTree]
          exact isPart_node nofun rfl hchildren
      | other =>
          rw [Expr.toTree]
          exact isPart_node nofun trivial hchildren
  | .nested inner => by
      rw [Expr.toTree]
      exact isPart_node nofun rfl (by simp [inner.isPart_toTree])
  | .subquery query => by
      rw [Expr.toTree]
      exact isPart_node nofun trivial (by simp [query.isPart_toTree])
  | .call name opening args closing groupOrder rest => by
      rw [Expr.toTree]
      refine isPart_node nofun trivial ?_
      simp [allParts_piecesFindings opening, allParts_argumentsFindings args,
        allParts_piecesFindings closing, allParts_piecesFindings rest,
        allParts_piecesFindings groupOrder]
  | .trimming side characters text => by
      rw [Expr.toTree]
      refine isPart_node nofun trivial ?_
      simp [text.allParts_findings, characters.allParts_findings]
  | .form pieces => by
      rw [Expr.toTree]
      exact isPart_node nofun trivial (allParts_piecesFindings pieces)

theorem allParts_exprTrees : (es : List Expr) → AllParts (exprTrees es)
  | [] => by simp [exprTrees]
  | e :: es => by simp [exprTrees, e.isPart_toTree, allParts_exprTrees es]

theorem allParts_clauseTrees {label : Label}
    (hlabel : label = .whereClause ∨ label = .havingClause) :
    (clause : Option Expr) → AllParts (clauseTrees label clause)
  | none => by simp [clauseTrees]
  | some e => by
      have hchildren : AllParts [e.toTree] := by simp [e.isPart_toTree]
      rw [clauseTrees, allParts_cons]
      refine ⟨?_, allParts_nil⟩
      rcases hlabel with rfl | rfl
      · exact isPart_node nofun rfl hchildren
      · exact isPart_node nofun rfl hchildren

theorem Relation.isPart_toTree : (r : Relation) → r.toTree.IsPart
  | .table .. => by
      rw [Relation.toTree]
      exact isPart_node nofun rfl allParts_nil
  | .derived _ query _ _ => by
      rw [Relation.toTree]
      exact isPart_node nofun trivial (by simp [query.isPart_toTree])
  | .joined item _ => by
      rw [Relation.toTree]
      exact isPart_node nofun (hasShape_trees item _) item.allParts_trees
  | .unnest items _ _ _ => by
      rw [Relation.toTree]
      exact isPart_node nofun trivial (allParts_exprsFindings items)
  | .form pieces => by
      rw [Relation.toTree]
      exact isPart_node nofun trivial (allParts_piecesFindings pieces)

theorem Join.isPart_toTree : (j : Join) → j.toTree.IsPart
  | .conditioned _ relation condition => by
      rw [Join.toTree]
      refine isPart_node nofun ⟨_, _, rfl, relation.isRelation_toTree, rfl⟩ ?_
      simp [relation.isPart_toTree, condition.isPart_toTree]
  | .matching _ relation _ => by
      rw [Join.toTree]
      refine isPart_node nofun ⟨_, _, rfl, relation.isRelation_toTree, rfl⟩ ?_
      simp [relation.isPart_toTree, isPart_matchingNode]
  | .natural _ relation => by
      rw [Join.toTree]
      refine isPart_node nofun ⟨_, _, rfl, relation.isRelation_toTree, rfl⟩ ?_
      simp [relation.isPart_toTree]
  | .unconditional _ relation => by
      rw [Join.toTree]
      refine isPart_node nofun ⟨_, _, rfl, relation.isRelation_toTree, rfl⟩ ?_
      simp [relation.isPart_toTree]
  | .operator _ _ relation _ => by
      rw [Join.toTree]
      refine isPart_node nofun ⟨_, _, rfl, relation.isRelation_toTree, rfl⟩ ?_
      simp [relation.isPart_toTree]

theorem allParts_joinTrees : (js : List Join) → AllParts (joinTrees js)
  | [] => by simp [joinTrees]
  | j :: js => by simp [joinTrees, j.isPart_toTree, allParts_joinTrees js]

theorem FromItem.allParts_trees : (i : FromItem) → AllParts i.trees
  | .mk relation joins => by simp [FromItem.trees, relation.isPart_toTree, allParts_joinTrees joins]

theorem FromItem.allParts_treesAfterComma : (i : FromItem) → AllParts i.treesAfterComma
  | .mk relation joins => by
      rw [FromItem.treesAfterComma, allParts_cons]
      refine ⟨isPart_node nofun ⟨_, _, rfl, relation.isRelation_toTree, rfl⟩ ?_,
        allParts_joinTrees joins⟩
      simp [relation.isPart_toTree]

theorem allParts_laterFromTrees : (items : List FromItem) → AllParts (laterFromTrees items)
  | [] => by simp [laterFromTrees]
  | i :: rest => by
      simp [laterFromTrees, i.allParts_treesAfterComma, allParts_laterFromTrees rest]

theorem allParts_fromTrees : (items : List FromItem) → AllParts (fromTrees items)
  | [] => by simp [fromTrees]
  | i :: rest => by simp [fromTrees, i.allParts_trees, allParts_laterFromTrees rest]

theorem SelectItem.isPart_toTree : (i : SelectItem) → i.toTree.IsPart
  | .unnamed e => by
      rw [SelectItem.toTree]
      exact isPart_node nofun rfl (by simp [e.isPart_toTree])
  | .aliased e name => by
      rw [SelectItem.toTree]
      exact isPart_node nofun rfl (by simp [e.isPart_toTree])
  | .wildcard pieces => by
      have hstar : IsPart (.leaf (.expr .other) (piecesText pieces)) :=
        isPart_node nofun trivial allParts_nil
      rw [SelectItem.toTree]
      exact isPart_node nofun rfl (by simp [hstar])

theorem allParts_itemTrees : (items : List SelectItem) → AllParts (itemTrees items)
  | [] => by simp [itemTrees]
  | i :: rest => by simp [itemTrees, i.isPart_toTree, allParts_itemTrees rest]

theorem Body.wellFormed_toTree : (b : Body) → b.toTree.WellFormed
  | .select opening items sources condition groups afterGroups having rest => by
      have hparts : AllParts (itemTrees items ++ (fromClauseTrees sources
          ++ clauseTrees .whereClause condition ++ groupClauseTrees groups
          ++ clauseTrees .havingClause having)) := by
        simp only [allParts_append, allParts_itemTrees items, true_and]
        refine ⟨⟨⟨?_, allParts_clauseTrees (.inl rfl) condition⟩, ?_⟩,
          allParts_clauseTrees (.inr rfl) having⟩
        · exact allParts_fromClauseTrees (allParts_fromTrees sources)
        · exact allParts_groupClauseTrees (allParts_exprTrees groups)
      rw [toTree_select]
      -- a select is no part itself: it stands as a body only, and the query around it closes it off
      refine wellFormed_node ⟨_, _, rfl, kind_of_mem_itemTrees, kinds_clauses⟩ (fun _ => ?_)
        fun t ht => (hparts t ht).wellFormed
      exact selectFree_of_forall fun t ht => (hparts t ht).selectFree
  | .query q => by
      rw [Body.toTree]
      exact q.isPart_toTree.wellFormed
  | .setOperation left op right => by
      rw [Body.toTree]
      refine wellFormed_node ⟨_, _, rfl, left.isBody_toTree, right.isBody_toTree⟩ nofun ?_
      simp [left.wellFormed_toTree, right.wellFormed_toTree]
  | .other pieces => by
      have hpart : IsPart ⟨.expr .other, piecesText pieces, piecesFindings pieces⟩ :=
        isPart_node nofun trivial (allParts_piecesFindings pieces)
      rw [Body.toTree]
      exact hpart.wellFormed

theorem Query.isPart_toTree : (q : Query) → q.toTree.IsPart
  | .mk opening ctes body rest => by
      -- the body may be a select; no scope goes beyond the query, whatever is in it
      refine isPart_query ?_ (Query.kind_toTree _)
      rw [Query.toTree]
      refine wellFormed_node ⟨_, _, rfl, kind_of_mem_cteTrees, body.isBody_toTree⟩ nofun ?_
      rw [List.forall_mem_append]
      refine ⟨fun t ht => (allParts_cteTrees ctes t ht).wellFormed, ?_⟩
      simp [body.wellFormed_toTree]

theorem Cte.isPart_toTree : (c : Cte) → c.toTree.IsPart
  | .mk name columns opening query => by
      rw [Cte.toTree]
      refine isPart_node nofun ⟨_, rfl, query.kind_toTree⟩ ?_
      simp [query.isPart_toTree]

theorem allParts_cteTrees : (ctes : List Cte) → AllParts (cteTrees ctes)
  | [] => by simp [cteTrees]
  | c :: rest => by simp [cteTrees, c.isPart_toTree, allParts_cteTrees rest]

end

/-- **The tree of a query statement is well formed.** Each node has the children that its label asks
for, in their order: common table expressions and one body below a query, projections and then each
clause at most once below a select, a relation and then joins below a from clause, a relation and
what it is joined by below a join, as many operands as an equality, a conjunction or parentheses
take, none below tables, columns and identifiers; a column has a part. And between a select and a
select below it lies a query. By recursion on the syntax, a lemma for each kind of it: what it adds
to a tree is well formed and, but for selects, can stand below one (`IsPart`). -/
theorem Statement.wellFormed_toTree_query (q : Query) : (Statement.query q).toTree.WellFormed := by
  rw [Statement.toTree]
  exact q.isPart_toTree.wellFormed

end Sql

end QueryLineage
