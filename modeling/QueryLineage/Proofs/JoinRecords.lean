import Mathlib.Data.List.Forall2
import QueryLineage.Proofs.SyntaxNodes
import QueryLineage.Sql.Script

/-!
# The records of joins

`Join.IsRecordOf` ties a record to the node of its join. Going along the children of a from clause,
the records are those of the joins with a right operand, in order (`forall₂_joinsOfChildren`): what
the walk carries besides does not matter for this.

Joins are looked for clause by clause. That this meets every join once is a fact about trees: each
node but the root is the child of one node (`Tree.preorder_perm`), and in a statement a join is the
child of a from clause. What then is without a record is a join with relations in parentheses none
of which is a table.
-/

namespace QueryLineage

namespace Tree

/-! ## Joins in their clauses -/

/-- The joins of a from clause. -/
def joinNodes (clause : Tree) : List Tree := clause.children.filter (·.kind = .join)

/-- The joins of all from clauses, clause by clause. -/
def joinsByClause (root : Tree) : List Tree := (root.findAll .fromClause).flatMap joinNodes

mutual

/-- Every node but the root is the child of one node. By induction on the tree, together with the
same of a list of trees. -/
theorem preorder_perm : (t : Tree) → t.preorder.Perm (t :: t.preorder.flatMap children)
  | ⟨label, sql, ts⟩ => by
      rw [preorder, List.flatMap_cons]
      exact (preorderAll_perm ts).cons _

theorem preorderAll_perm : (ts : List Tree) →
    (preorderAll ts).Perm (ts ++ (preorderAll ts).flatMap children)
  | [] => .refl _
  | t :: ts => by
      rw [preorderAll, List.flatMap_append]
      refine ((preorder_perm t).append (preorderAll_perm ts)).trans ?_
      rw [List.cons_append, List.cons_append, List.perm_cons]
      exact List.perm_append_comm_assoc ..

end

/-- If joins stand in from clauses alone, going clause by clause meets each join once. All nodes but
the root are the children of some node, once each (`preorder_perm`), and the children of what is no
from clause are no joins. -/
theorem joinsByClause_perm {root : Tree} (hroot : root.kind ≠ .join)
    (h : ∀ u ∈ root.preorder, ∀ c ∈ u.children, c.kind = .join → u.kind = .fromClause) :
    root.joinsByClause.Perm (root.findAll .join) := by
  have hclauses : ∀ us : List Tree, (∀ u ∈ us, u ∈ root.preorder) →
      (us.filter (·.kind = .fromClause)).flatMap joinNodes
        = (us.flatMap children).filter (·.kind = .join) := by
    intro us hus
    induction us with
    | nil => rfl
    | cons u rest ih =>
        rw [List.forall_mem_cons] at hus
        rw [List.flatMap_cons, List.filter_append, ← ih hus.2]
        by_cases hu : u.kind = .fromClause
        · rw [List.filter_cons_of_pos (by simpa using hu), List.flatMap_cons, joinNodes]
        · -- leaving out a node that is no from clause loses no join
          rw [List.filter_cons_of_neg (by simpa using hu)]
          have hnone : u.children.filter (·.kind = .join) = [] := by
            rw [List.filter_eq_nil_iff]
            intro c hc hkind
            exact hu (h u hus.1 c hc (of_decide_eq_true hkind))
          rw [hnone, List.nil_append]
  have hall := (preorder_perm root).filter (·.kind = .join)
  rw [List.filter_cons_of_neg (by simpa using hroot)] at hall
  rw [joinsByClause, findAll, findAll, hclauses _ fun _ hu => hu]
  exact hall.symm

/-! ## Right operands -/

/-- The operand on the right of a join, if what is joined has a name. -/
def rightOperand? (rs : Relations) (join : Tree) : Option JoinOperand :=
  join.children.head?.bind (JoinOperand.ofTree? rs)

/-- Whether a join joins relations in parentheses none of which is a table. -/
def joinsNoTable (join : Tree) : Bool :=
  join.children.head?.any fun relation =>
    relation.kind = .fromClause ∧ relation.scopeTableRefs = []

theorem operand?_eq_none_iff (rs : Relations) {relation : Tree} (h : relation.IsRelation) :
    JoinOperand.ofTree? rs relation = none
      ↔ relation.kind = .fromClause ∧ relation.scopeTableRefs = [] := by
  obtain ⟨label, sql, children⟩ := relation
  cases label with
  | table ref => simp [JoinOperand.ofTree?, kind, Label.kind]
  | derived aliasName => simp [JoinOperand.ofTree?, kind, Label.kind]
  | fromClause => simp [JoinOperand.ofTree?, kind, Label.kind]
  | _ => simp [IsRelation, kind, Label.kind] at h

end Tree

/-! ## Records along a clause -/

/-- The record is that of the join: it has its kind, its right operand and its condition. -/
structure Join.IsRecordOf (rs : Relations) (join : Tree) (j : Join) : Prop where
  exists_label : ∃ condition, join.label = .join j.kind condition
  exists_right : ∃ right, join.rightOperand? rs = some right
    ∧ j.rightTable = right.table ∧ j.rightAlias = right.aliasName
  predicate : ∀ kind node, join.label = .join kind .predicate → join.children[1]? = some node →
    j.conditionText = node.sql ∧ j.equalityPairs = node.equalities
  columns : ∀ kind names node, join.label = .join kind (.columns names) →
    join.children[1]? = some node → j.conditionText = node.sql

section

variable {rs : Relations} {child : Tree} {previous : Option JoinOperand} {based : Bool}
  {rest : List Tree}

/-- A join with a right operand is recorded, and the rest goes on from that operand. -/
theorem exists_joinsOfChildren_cons (previous : Option JoinOperand) (based : Bool)
    (rest : List Tree) (hjoin : child.kind = .join) {right : JoinOperand}
    (hright : child.rightOperand? rs = some right) :
    ∃ j : Join, joinsOfChildren rs previous based (child :: rest)
        = j :: joinsOfChildren rs (some right) false rest
      ∧ j.IsRecordOf rs child
      ∧ j.leftTable = (previous.map (·.table)).getD "" ∧ j.rightTable = right.table
      ∧ j.resolved = based := by
  obtain ⟨label, sql, children⟩ := child
  cases label with
  | join kind condition =>
      rw [Tree.rightOperand?] at hright
      simp only [joinsOfChildren, hright]
      refine ⟨_, rfl, ?_, rfl, rfl, rfl⟩
      refine ⟨⟨condition, rfl⟩, ⟨right, hright, rfl, rfl⟩, ?_, ?_⟩
      · intro kind' node hlabel hnode
        cases hlabel
        exact ⟨by simp only [JoinCondition.terms, hnode], by simp only [JoinCondition.terms, hnode]⟩
      · intro kind' names node hlabel hnode
        cases hlabel
        simp only [JoinCondition.terms, hnode]
  | _ => simp [Tree.kind, Label.kind] at hjoin

theorem joinsOfChildren_cons_of_none (hjoin : child.kind = .join)
    (hright : child.rightOperand? rs = none) :
    joinsOfChildren rs previous based (child :: rest) = joinsOfChildren rs previous based rest := by
  obtain ⟨label, sql, children⟩ := child
  cases label with
  | join kind condition =>
      rw [Tree.rightOperand?] at hright
      simp only [joinsOfChildren, hright]
  | _ => simp [Tree.kind, Label.kind] at hjoin

theorem joinsOfChildren_cons_of_ne_join (h : child.kind ≠ .join) :
    joinsOfChildren rs previous based (child :: rest)
      = joinsOfChildren rs ((JoinOperand.ofTree? rs child).or previous) based rest := by
  obtain ⟨label, sql, children⟩ := child
  cases label with
  | join kind condition => exact absurd rfl h
  | _ => simp only [joinsOfChildren]

end

theorem forall₂_joinsOfChildren (rs : Relations) (previous : Option JoinOperand) (based : Bool)
    (children : List Tree) :
    List.Forall₂ (fun join j => j.IsRecordOf rs join)
      ((children.filter (·.kind = .join)).filter fun join => (join.rightOperand? rs).isSome)
      (joinsOfChildren rs previous based children) := by
  induction children generalizing previous based with
  | nil => exact .nil
  | cons child rest ih =>
      by_cases hjoin : child.kind = .join
      · rw [List.filter_cons_of_pos (by simpa using hjoin)]
        cases hright : child.rightOperand? rs with
        | none =>
            rw [List.filter_cons_of_neg (by simp [hright]),
              joinsOfChildren_cons_of_none hjoin hright]
            exact ih previous based
        | some right =>
            obtain ⟨j, heq, hj, -⟩ := exists_joinsOfChildren_cons previous based rest hjoin
              hright
            rw [List.filter_cons_of_pos (by simp [hright]), heq]
            exact .cons hj (ih (some right) false)
      · rw [List.filter_cons_of_neg (by simpa using hjoin), joinsOfChildren_cons_of_ne_join hjoin]
        exact ih _ based

theorem Tree.map_toJoin_joins (rs : Relations) (root : Tree) :
    (root.joins rs).map (·.toJoin) = (root.findAll .fromClause).flatMap (joinsOfFrom rs) := by
  refine List.ext_getElem? fun place => ?_
  simp [joins, Function.comp_def]

/-- The records of a statement are those of the joins with a right operand, clause by clause. Within
a clause the operands before a join change its left side only, which `IsRecordOf` leaves open. -/
theorem Tree.forall₂_joins (rs : Relations) (root : Tree) :
    List.Forall₂ (fun join r => r.toJoin.IsRecordOf rs join)
      (root.joinsByClause.filter fun join => (join.rightOperand? rs).isSome) (root.joins rs) := by
  rw [← List.forall₂_map_right_iff (R := Join.IsRecordOf rs), map_toJoin_joins, joinsByClause,
    List.filter_flatMap]
  refine List.rel_flatMap (R := Eq) (List.forall₂_same.mpr fun _ _ => rfl) ?_
  rintro clause _ rfl
  exact forall₂_joinsOfChildren rs none clause.startsWithTable clause.children

/-! ## The records of a statement -/

namespace Sql

open QueryLineage.Tree

theorem IsJoinNode.exists_relation {join : Tree} (h : IsJoinNode join) :
    ∃ r : Relation, join.children.head? = some r.toTree := by
  cases h with
  | join j =>
      cases j with
      | conditioned op relation condition => exact ⟨relation, by rw [Join.toTree]; rfl⟩
      | matching op relation columns => exact ⟨relation, by rw [Join.toTree]; rfl⟩
      | natural op relation => exact ⟨relation, by rw [Join.toTree]; rfl⟩
      | unconditional op relation => exact ⟨relation, by rw [Join.toTree]; rfl⟩
      | operator name opening relation rest => exact ⟨relation, by rw [Join.toTree]; rfl⟩
  | afterComma r => exact ⟨r, rfl⟩

theorem IsJoinNode.isSome_rightOperand? {join : Tree} (h : IsJoinNode join) (rs : Relations) :
    (join.rightOperand? rs).isSome = !join.joinsNoTable := by
  obtain ⟨r, hr⟩ := h.exists_relation
  have hnone := operand?_eq_none_iff rs r.isRelation_toTree
  rw [rightOperand?, joinsNoTable, hr, Option.bind_some, Option.any_some]
  cases hoperand : JoinOperand.ofTree? rs r.toTree with
  | none => simp [hnone.mp hoperand]
  | some operand =>
      have htable : ¬ (r.toTree.kind = .fromClause ∧ r.toTree.scopeTableRefs = []) := by
        rw [← hnone, hoperand]
        exact Option.some_ne_none operand
      simp [htable]

namespace Statement

theorem joinsByClause_perm_findAll (s : Statement) :
    s.toTree.joinsByClause.Perm (s.toTree.findAll .join) :=
  joinsByClause_perm (IsNode.statement s).kind_ne_join fun _ hu _ hc => s.kind_eq_fromClause hu hc

/-- **A join of a statement has one record, unless it joins relations in parentheses none of which
is a table.** Going clause by clause meets each join of the tree once, wherever it stands. The
records are those of the joins met, in this order, without the ones that join no table. So there are
as many records as joins if and only if each join joins a relation that is no such parenthesized
join. That joins stand in from clauses alone, and what they join, is read off the grammar
(`IsJoinNode`); from there on the argument is about any tree. -/
theorem joins_recorded (s : Statement) (rs : Relations) :
    s.toTree.joinsByClause.Perm (s.toTree.findAll .join)
    ∧ List.Forall₂ (fun join r => r.toJoin.IsRecordOf rs join)
        (s.toTree.joinsByClause.filter fun join => !join.joinsNoTable) (s.toTree.joins rs)
    ∧ ((s.toTree.joins rs).length = (s.toTree.findAll .join).length
        ↔ ∀ join ∈ s.toTree.findAll .join, join.joinsNoTable = false) := by
  have hperm := s.joinsByClause_perm_findAll
  have hrecords : List.Forall₂ (fun join r => r.toJoin.IsRecordOf rs join)
      (s.toTree.joinsByClause.filter fun join => !join.joinsNoTable) (s.toTree.joins rs) := by
    have hsame : (s.toTree.joinsByClause.filter fun join => !join.joinsNoTable)
        = s.toTree.joinsByClause.filter fun join => (join.rightOperand? rs).isSome := by
      refine List.filter_congr fun join hjoin => ?_
      exact ((isJoinNode_of_mem_findAll (hperm.mem_iff.mp hjoin)).isSome_rightOperand? rs).symm
    rw [hsame]
    exact s.toTree.forall₂_joins rs
  refine ⟨hperm, hrecords, ?_⟩
  rw [← hrecords.length_eq, ← hperm.length_eq, List.length_filter_eq_length_iff]
  simp only [Bool.not_eq_true', hperm.mem_iff]

/-- A join with arrays that are joined in parentheses has no record. -/
theorem joins_of_joinedArrays :
    (readScript .bigquery
      "SELECT * FROM t CROSS JOIN (UNNEST(t.xs) AS x CROSS JOIN UNNEST(t.ys) AS y)").toOption.map
        (·.map fun s => ((s.toTree.findAll .join).map (·.sql),
          (s.toTree.joins (.ofTree {} s.toTree)).map fun r => (r.id, r.leftTable, r.rightTable)))
      = some [(["CROSS JOIN (UNNEST(t.xs) AS x CROSS JOIN UNNEST(t.ys) AS y)",
          "CROSS JOIN UNNEST(t.ys) AS y"], [("J1", "x", "y")])] := by
  decide +kernel

end Statement

end Sql

end QueryLineage
