import QueryLineage.Proofs.QualifiedTree
import QueryLineage.Proofs.TreeShapes

/-!
# The nodes of the tree of a statement

Each node of the tree of a statement is made from one piece of its syntax. `IsNode` and `IsJoinNode`
list the pieces, so that a fact about all nodes needs one look at each of them and no induction over
the syntax. Only the findings of expressions, which leave out what lies between, take an induction:
they are columns and queries (`Expr.allFindings`).

Joins are kept apart from the other nodes, as they stand in from clauses alone: `IsNode.child` says
what is below a node, and `IsNode.subtree` follows this down the tree.
-/

namespace QueryLineage

namespace Sql

open QueryLineage.Tree

/-! ## Findings -/

/-- A column or a query. -/
def IsFinding (t : Tree) : Prop :=
  (∃ first rest, t = columnNode first rest) ∨ ∃ q : Query, t = q.toTree

def AllFindings (ts : List Tree) : Prop := ∀ t ∈ ts, IsFinding t

section

variable {t : Tree} {ts us : List Tree}

@[simp] theorem isFinding_columnNode (first : Ident) (rest : List Ident) :
    IsFinding (columnNode first rest) :=
  .inl ⟨first, rest, rfl⟩

@[simp] theorem isFinding_toTree (q : Query) : IsFinding q.toTree := .inr ⟨q, rfl⟩

@[simp] theorem allFindings_nil : AllFindings [] := nofun

@[simp] theorem allFindings_cons : AllFindings (t :: ts) ↔ IsFinding t ∧ AllFindings ts :=
  List.forall_mem_cons

@[simp] theorem allFindings_append :
    AllFindings (ts ++ us) ↔ AllFindings ts ∧ AllFindings us :=
  List.forall_mem_append

end

mutual

theorem Expr.allFindings : (e : Expr) → AllFindings e.findings
  | .column first rest => by simp [Expr.findings]
  | .binary left _ right => by simp [Expr.findings, left.allFindings, right.allFindings]
  | .nested inner => by simp [Expr.findings, inner.allFindings]
  | .subquery query => by simp [Expr.findings]
  | .call name opening args closing groupOrder rest => by
      simp [Expr.findings, allFindings_pieces opening, allFindings_arguments args,
        allFindings_pieces closing, allFindings_pieces rest, allFindings_pieces groupOrder]
  | .trimming _ characters text => by
      simp [Expr.findings, text.allFindings, characters.allFindings]
  | .form pieces => by simp [Expr.findings, allFindings_pieces pieces]

theorem Argument.allFindings (partAllowed : Bool) :
    (a : Argument) → AllFindings (a.findings partAllowed)
  | .expr e => by
      rw [Argument.findings]
      split
      · exact allFindings_nil
      · exact e.allFindings
  | .other pieces => by simp [Argument.findings, allFindings_pieces pieces]

theorem allFindings_arguments {partAllowed : Bool} :
    (args : List Argument) → AllFindings (argumentsFindings partAllowed args)
  | [] => by simp [argumentsFindings]
  | a :: rest => by simp [argumentsFindings, a.allFindings, allFindings_arguments rest]

theorem Piece.allFindings : (p : Piece) → AllFindings p.findings
  | .text _ => by simp [Piece.findings]
  | .expr e => by simp [Piece.findings, e.allFindings]
  | .query q => by simp [Piece.findings]
  | .relation r => by simp [Piece.findings, r.allFindings]

theorem allFindings_pieces : (ps : List Piece) → AllFindings (piecesFindings ps)
  | [] => by simp [piecesFindings]
  | p :: ps => by simp [piecesFindings, p.allFindings, allFindings_pieces ps]

theorem allFindings_exprs : (es : List Expr) → AllFindings (exprsFindings es)
  | [] => by simp [exprsFindings]
  | e :: es => by simp [exprsFindings, e.allFindings, allFindings_exprs es]

theorem Relation.allFindings : (r : Relation) → AllFindings r.findings
  | .table _ afterName _ afterAlias => by
      simp [Relation.findings, allFindings_pieces afterName, allFindings_pieces afterAlias]
  | .derived _ query _ afterAlias => by
      simp [Relation.findings, allFindings_pieces afterAlias]
  | .joined item _ => by simp [Relation.findings, item.allFindings]
  | .unnest items _ _ _ => by simp [Relation.findings, allFindings_exprs items]
  | .form pieces => by simp [Relation.findings, allFindings_pieces pieces]

theorem FromItem.allFindings : (i : FromItem) → AllFindings i.findings
  | .mk relation joins => by
      simp [FromItem.findings, relation.allFindings, allFindings_joins joins]

theorem Join.allFindings : (j : Join) → AllFindings j.findings
  | .conditioned _ relation condition => by
      simp [Join.findings, relation.allFindings, condition.allFindings]
  | .matching _ relation _ => by simp [Join.findings, relation.allFindings]
  | .natural _ relation => by simp [Join.findings, relation.allFindings]
  | .unconditional _ relation => by simp [Join.findings, relation.allFindings]
  | .operator _ _ relation rest => by
      simp [Join.findings, relation.allFindings, allFindings_pieces rest]

theorem allFindings_joins : (js : List Join) → AllFindings (joinsFindings js)
  | [] => by simp [joinsFindings]
  | j :: js => by simp [joinsFindings, j.allFindings, allFindings_joins js]

end

/-! ## Nodes -/

/-- The node of a relation after a comma. -/
def commaNode (r : Relation) : Tree :=
  ⟨.join "CROSS" .unconditional, ", " ++ r.text, [r.toTree]⟩

/-- The node of a join. -/
inductive IsJoinNode : Tree → Prop
  | join (j : Join) : IsJoinNode j.toTree
  | afterComma (r : Relation) : IsJoinNode (commaNode r)

/-- A node that is no join, by what it is made from. -/
inductive IsNode : Tree → Prop
  | statement (s : Statement) : IsNode s.toTree
  | query (q : Query) : IsNode q.toTree
  | cte (c : Cte) : IsNode c.toTree
  | body (b : Body) : IsNode b.toTree
  | item (i : SelectItem) : IsNode i.toTree
  | sources (items : List FromItem) (sql : String) : IsNode ⟨.fromClause, sql, fromTrees items⟩
  | condition (e : Expr) : IsNode ⟨.whereClause, e.text, [e.toTree]⟩
  | groups (es : List Expr) (sql : String) : IsNode ⟨.groupClause, sql, exprTrees es⟩
  | having (e : Expr) : IsNode ⟨.havingClause, e.text, [e.toTree]⟩
  | relation (r : Relation) : IsNode r.toTree
  | expr (e : Expr) : IsNode e.toTree
  | matching (columns : List String) : IsNode (matchingNode columns)
  | identifier (name : String) : IsNode (.leaf (.identifier name) name)
  | star (sql : String) : IsNode (.leaf (.expr .other) sql)

theorem IsFinding.isNode {t : Tree} (h : IsFinding t) : IsNode t := by
  rcases h with ⟨first, rest, rfl⟩ | ⟨q, rfl⟩
  · have hnode := IsNode.expr (.column first rest)
    rwa [Expr.toTree] at hnode
  · exact .query q

theorem IsJoinNode.kind_eq {t : Tree} (h : IsJoinNode t) : t.kind = .join := by
  cases h with
  | join j => exact j.kind_toTree
  | afterComma r => rfl

theorem Expr.kind_toTree (e : Expr) :
    e.toTree.kind = .column ∨ e.toTree.kind = .equality ∨ e.toTree.kind = .expr := by
  cases e with
  | column first rest => exact .inl (by rw [toTree]; rfl)
  | binary left op right =>
      cases op with
      | equals => exact .inr (.inl (by rw [toTree]; rfl))
      | conjunction => exact .inr (.inr (by rw [toTree]; rfl))
      | other symbol => exact .inr (.inr (by rw [toTree]; rfl))
  | nested inner => exact .inr (.inr (by rw [toTree]; rfl))
  | subquery query => exact .inr (.inr (by rw [toTree]; rfl))
  | call name opening args closing => exact .inr (.inr (by rw [toTree]; rfl))
  | trimming side characters text => exact .inr (.inr (by rw [toTree]; rfl))
  | form pieces => exact .inr (.inr (by rw [toTree]; rfl))

theorem IsNode.kind_ne_join {t : Tree} (h : IsNode t) : t.kind ≠ .join := by
  cases h with
  | statement s =>
      cases s with
      | query q => simp [Statement.toTree, q.kind_toTree]
      | other pieces => simp [Statement.toTree, Tree.kind, Label.kind]
  | query q => simp [q.kind_toTree]
  | cte c => simp [c.kind_toTree]
  | body b =>
      rcases b.isBody_toTree with h | h | h | h
      · simp [h]
      · simp [h]
      · simp [Tree.kind, h, Label.kind]
      · simp [Tree.kind, h, Label.kind]
  | item i => simp [i.kind_toTree]
  | relation r =>
      rcases r.isRelation_toTree with h | h | h
      · simp [h]
      · simp [h]
      · simp [h]
  | expr e =>
      rcases e.kind_toTree with h | h | h
      · simp [h]
      · simp [h]
      · simp [h]
  | _ => simp [Tree.kind, matchingNode, leaf, Label.kind]

/-! ## Below a node -/

section

variable {t : Tree}

theorem exists_of_mem_exprTrees {es : List Expr} (h : t ∈ exprTrees es) :
    ∃ e : Expr, t = e.toTree := by
  induction es with
  | nil => simp [exprTrees] at h
  | cons e rest ih =>
      rw [exprTrees, List.mem_cons] at h
      exact h.elim (fun h => ⟨e, h⟩) ih

theorem exists_of_mem_itemTrees {items : List SelectItem} (h : t ∈ itemTrees items) :
    ∃ i : SelectItem, t = i.toTree := by
  induction items with
  | nil => simp [itemTrees] at h
  | cons i rest ih =>
      rw [itemTrees, List.mem_cons] at h
      exact h.elim (fun h => ⟨i, h⟩) ih

theorem exists_of_mem_cteTrees {ctes : List Cte} (h : t ∈ cteTrees ctes) :
    ∃ c : Cte, t = c.toTree := by
  induction ctes with
  | nil => simp [cteTrees] at h
  | cons c rest ih =>
      rw [cteTrees, List.mem_cons] at h
      exact h.elim (fun h => ⟨c, h⟩) ih

theorem isJoinNode_of_mem_joinTrees {joins : List Join} (h : t ∈ joinTrees joins) :
    IsJoinNode t := by
  induction joins with
  | nil => simp [joinTrees] at h
  | cons j rest ih =>
      rw [joinTrees, List.mem_cons] at h
      exact h.elim (fun h => h ▸ .join j) ih

theorem isNode_or_of_mem_trees {i : FromItem} (h : t ∈ i.trees) : IsNode t ∨ IsJoinNode t := by
  obtain ⟨relation, joins⟩ := i
  rw [FromItem.trees, List.mem_cons] at h
  rcases h with rfl | h
  · exact .inl (.relation relation)
  · exact .inr (isJoinNode_of_mem_joinTrees h)

theorem isJoinNode_of_mem_laterFromTrees {items : List FromItem} (h : t ∈ laterFromTrees items) :
    IsJoinNode t := by
  induction items with
  | nil => simp [laterFromTrees] at h
  | cons i rest ih =>
      obtain ⟨relation, joins⟩ := i
      rw [laterFromTrees, FromItem.treesAfterComma, List.cons_append, List.mem_cons,
        List.mem_append] at h
      rcases h with rfl | h | h
      · exact .afterComma relation
      · exact isJoinNode_of_mem_joinTrees h
      · exact ih h

theorem isNode_or_of_mem_fromTrees {items : List FromItem} (h : t ∈ fromTrees items) :
    IsNode t ∨ IsJoinNode t := by
  cases items with
  | nil => simp [fromTrees] at h
  | cons i rest =>
      rw [fromTrees, List.mem_append] at h
      exact h.elim isNode_or_of_mem_trees fun h => .inr (isJoinNode_of_mem_laterFromTrees h)

end

theorem Expr.isNode_child (e : Expr) {c : Tree} (hc : c ∈ e.toTree.children) : IsNode c := by
  cases e with
  | column first rest => simp [toTree, columnNode, leaf] at hc
  | binary left op right =>
      have hpair : c ∈ [left.toTree, right.toTree] := by
        cases op with
        | equals => rwa [toTree] at hc
        | conjunction => rwa [toTree] at hc
        | other symbol => rwa [toTree] at hc
      rcases List.mem_pair.mp hpair with rfl | rfl
      · exact .expr left
      · exact .expr right
  | nested inner =>
      rw [toTree] at hc
      obtain rfl := List.mem_singleton.mp hc
      exact .expr inner
  | subquery query =>
      rw [toTree] at hc
      obtain rfl := List.mem_singleton.mp hc
      exact .query query
  | call name opening args closing groupOrder rest =>
      have hfound := (Expr.call name opening args closing groupOrder rest).allFindings
      rw [findings] at hfound
      rw [toTree] at hc
      exact (hfound c hc).isNode
  | trimming side characters text =>
      have hfound := (Expr.trimming side characters text).allFindings
      rw [findings] at hfound
      rw [toTree] at hc
      exact (hfound c hc).isNode
  | form pieces =>
      rw [toTree] at hc
      exact (allFindings_pieces pieces c hc).isNode

theorem Relation.isNode_child (r : Relation) {c : Tree} (hc : c ∈ r.toTree.children) :
    IsNode c ∨ r.toTree.kind = .fromClause ∧ IsJoinNode c := by
  cases r with
  | table => simp [toTree, leaf] at hc
  | derived opening query alternative afterAlias =>
      rw [toTree] at hc
      obtain rfl := List.mem_singleton.mp hc
      exact .inl (.query query)
  | joined item alternative =>
      rw [toTree] at hc ⊢
      exact (isNode_or_of_mem_trees hc).imp_right fun h => ⟨rfl, h⟩
  | unnest items afterItems alternative afterAlias =>
      rw [toTree] at hc
      exact .inl (allFindings_exprs items c hc).isNode
  | form pieces =>
      rw [toTree] at hc
      exact .inl (allFindings_pieces pieces c hc).isNode

theorem Body.isNode_child (b : Body) {c : Tree} (hc : c ∈ b.toTree.children) : IsNode c := by
  have hclause : ∀ {label : Label} {clause : Option Expr},
      label = .whereClause ∨ label = .havingClause → c ∈ clauseTrees label clause → IsNode c := by
    intro label clause hlabel hmem
    cases clause with
    | none => simp [clauseTrees] at hmem
    | some e =>
        rw [clauseTrees] at hmem
        obtain rfl := List.mem_singleton.mp hmem
        rcases hlabel with rfl | rfl
        · exact .condition e
        · exact .having e
  cases b with
  | select opening items sources condition groups afterGroups having rest =>
      rw [toTree_select] at hc
      simp only [List.mem_append] at hc
      rcases hc with hc | ((hc | hc) | hc) | hc
      · obtain ⟨i, rfl⟩ := exists_of_mem_itemTrees hc
        exact .item i
      · unfold fromClauseTrees at hc
        split at hc
        · cases hc
        · obtain rfl := List.mem_singleton.mp hc
          exact .sources sources _
      · exact hclause (.inl rfl) hc
      · unfold groupClauseTrees at hc
        split at hc
        · cases hc
        · obtain rfl := List.mem_singleton.mp hc
          exact .groups groups _
      · exact hclause (.inr rfl) hc
  | query q =>
      obtain ⟨opening, ctes, body, rest⟩ := q
      rw [toTree, Query.toTree] at hc
      rcases List.mem_append.mp hc with hc | hc
      · obtain ⟨cte, rfl⟩ := exists_of_mem_cteTrees hc
        exact .cte cte
      · obtain rfl := List.mem_singleton.mp hc
        exact .body body
  | setOperation left op right =>
      rw [toTree] at hc
      rcases List.mem_pair.mp hc with rfl | rfl
      · exact .body left
      · exact .body right
  | other pieces =>
      rw [toTree] at hc
      exact (allFindings_pieces pieces c hc).isNode

theorem SelectItem.isNode_child (i : SelectItem) {c : Tree} (hc : c ∈ i.toTree.children) :
    IsNode c := by
  cases i with
  | unnamed e =>
      rw [toTree] at hc
      obtain rfl := List.mem_singleton.mp hc
      exact .expr e
  | aliased e name =>
      rw [toTree] at hc
      obtain rfl := List.mem_singleton.mp hc
      exact .expr e
  | wildcard pieces =>
      rw [toTree] at hc
      obtain rfl := List.mem_singleton.mp hc
      exact .star _

theorem Query.isNode_child (q : Query) {c : Tree} (hc : c ∈ q.toTree.children) : IsNode c := by
  have hbody := (Body.query q).isNode_child (c := c)
  rw [Body.toTree] at hbody
  exact hbody hc

theorem Join.isNode_child (j : Join) {c : Tree} (hc : c ∈ j.toTree.children) : IsNode c := by
  cases j with
  | conditioned op relation condition =>
      rw [toTree] at hc
      rcases List.mem_pair.mp hc with rfl | rfl
      · exact .relation relation
      · exact .expr condition
  | matching op relation columns =>
      rw [toTree] at hc
      rcases List.mem_pair.mp hc with rfl | rfl
      · exact .relation relation
      · exact .matching _
  | natural op relation =>
      rw [toTree] at hc
      obtain rfl := List.mem_singleton.mp hc
      exact .relation relation
  | unconditional op relation =>
      rw [toTree] at hc
      obtain rfl := List.mem_singleton.mp hc
      exact .relation relation
  | operator name opening relation rest =>
      rw [toTree] at hc
      obtain rfl := List.mem_singleton.mp hc
      exact .relation relation

theorem IsJoinNode.child {t c : Tree} (h : IsJoinNode t) (hc : c ∈ t.children) : IsNode c := by
  cases h with
  | join j => exact j.isNode_child hc
  | afterComma r =>
      obtain rfl := List.mem_singleton.mp hc
      exact .relation r

/-- Below a node are nodes, and joins below a from clause. One case for each way to make a node,
with the children that it gives. -/
theorem IsNode.child {t c : Tree} (h : IsNode t) (hc : c ∈ t.children) :
    IsNode c ∨ t.kind = .fromClause ∧ IsJoinNode c := by
  cases h with
  | statement s =>
      cases s with
      | query q =>
          rw [Statement.toTree] at hc
          exact .inl (q.isNode_child hc)
      | other pieces => exact .inl (allFindings_pieces pieces c hc).isNode
  | query q => exact .inl (q.isNode_child hc)
  | cte c' =>
      obtain ⟨name, columns, opening, query⟩ := c'
      rw [Cte.toTree] at hc
      obtain rfl := List.mem_singleton.mp hc
      exact .inl (.query query)
  | body b => exact .inl (b.isNode_child hc)
  | item i => exact .inl (i.isNode_child hc)
  | sources items sql => exact (isNode_or_of_mem_fromTrees hc).imp_right fun h => ⟨rfl, h⟩
  | condition e =>
      obtain rfl := List.mem_singleton.mp hc
      exact .inl (.expr e)
  | groups es sql =>
      obtain ⟨e, rfl⟩ := exists_of_mem_exprTrees hc
      exact .inl (.expr e)
  | having e =>
      obtain rfl := List.mem_singleton.mp hc
      exact .inl (.expr e)
  | relation r => exact r.isNode_child hc
  | expr e => exact .inl (e.isNode_child hc)
  | matching columns =>
      obtain ⟨name, -, rfl⟩ := List.mem_map.mp hc
      exact .inl (.identifier name)
  | identifier name => cases hc
  | star sql => cases hc

theorem IsNode.subtree {t u : Tree} (h : IsNode t ∨ IsJoinNode t) (hu : u ∈ t.preorder) :
    IsNode u ∨ IsJoinNode u := by
  induction t using children_induction with
  | node label sql children ih =>
      rcases mem_preorder_iff.mp hu with rfl | ⟨child, hchild, hu⟩
      · exact h
      · refine ih child hchild ?_ hu
        rcases h with h | h
        · exact (h.child hchild).imp_right And.right
        · exact .inl (h.child hchild)

/-- Each node of the tree of a statement is made from a piece of its syntax. -/
theorem Statement.isNode_of_mem_preorder {s : Statement} {u : Tree} (hu : u ∈ s.toTree.preorder) :
    IsNode u ∨ IsJoinNode u :=
  IsNode.subtree (.inl (.statement s)) hu

/-- A join stands in a from clause: below any other node stand nodes that are no joins. -/
theorem Statement.kind_eq_fromClause {s : Statement} {u c : Tree} (hu : u ∈ s.toTree.preorder)
    (hc : c ∈ u.children) (hkind : c.kind = .join) : u.kind = .fromClause := by
  rcases s.isNode_of_mem_preorder hu with hnode | hjoin
  · rcases hnode.child hc with hc' | ⟨hclause, -⟩
    · exact absurd hkind hc'.kind_ne_join
    · exact hclause
  · exact absurd hkind (hjoin.child hc).kind_ne_join

theorem Statement.isJoinNode_of_mem_findAll {s : Statement} {j : Tree}
    (hj : j ∈ s.toTree.findAll .join) : IsJoinNode j := by
  obtain ⟨hmem, hkind⟩ := List.mem_filter.mp hj
  rcases s.isNode_of_mem_preorder hmem with hnode | hjoin
  · exact absurd (of_decide_eq_true hkind) hnode.kind_ne_join
  · exact hjoin

end Sql

end QueryLineage
