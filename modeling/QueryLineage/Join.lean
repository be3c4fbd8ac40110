import QueryLineage.Json.Reader
import QueryLineage.Relation

/-!
# Joins

Every join of a statement, in preorder of the from clauses. The left operand of a from clause's
first join is its base relation, that of a later one the right operand of the join before it. A
predicate contributes the equalities that it implies: those reached through `AND` and parentheses.
-/

namespace QueryLineage

/-- A join without its number. -/
structure Join where
  leftTable : String
  rightTable : String
  rightAlias : Option String
  /-- `INNER`, `LEFT`, `RIGHT`, `FULL`, `CROSS`, `JOIN` where none is written, or an operator. -/
  kind : String
  /-- The predicate or the list of columns as written; empty if there is neither. -/
  conditionText : String
  equalityPairs : List (String × String)
  /-- Whether the left operand is a table that the from clause starts with. -/
  resolved : Bool
deriving DecidableEq

/-- A join with its id. -/
structure JoinRecord extends Join where
  id : String
deriving DecidableEq

namespace JoinRecord

def toJson (j : JoinRecord) : Json :=
  .obj [("id", .str j.id), ("left_table", .str j.leftTable), ("right_table", .str j.rightTable),
    ("right_alias", Json.text? j.rightAlias), ("kind", .str j.kind),
    ("on_condition_text", .str j.conditionText),
    ("equality_pairs", .arr (j.equalityPairs.map fun p => Json.strings [p.1, p.2])),
    ("resolved", .bool j.resolved)]

def fieldNames : List String :=
  ["id", "left_table", "right_table", "right_alias", "kind", "on_condition_text",
    "equality_pairs", "resolved"]

def ofJson : Json.Reader JoinRecord := fun v => do
  let r ← Json.record fieldNames false v
  return {
    id := ← r.required "id" Json.string
    leftTable := ← r.required "left_table" Json.string
    rightTable := ← r.required "right_table" Json.string
    rightAlias := ← r.orNull "right_alias" Json.string
    kind := ← r.required "kind" Json.string
    conditionText := ← r.required "on_condition_text" Json.string
    equalityPairs := ← r.required "equality_pairs" (Json.list (Json.pair Json.string Json.string))
    resolved := ← r.required "resolved" Json.boolean }

end JoinRecord

/-! ## Equalities of a predicate -/

mutual

/-- The operand texts of the equalities that a predicate implies by itself. -/
def Tree.equalities : Tree → List (String × String)
  | ⟨.equality, _, [left, right]⟩ => [(left.sql, right.sql)]
  | ⟨.expr .conjunction, _, children⟩ => equalitiesOfAll children
  | ⟨.expr .nested, _, children⟩ => equalitiesOfAll children
  | _ => []

def Tree.equalitiesOfAll : List Tree → List (String × String)
  | [] => []
  | t :: ts => equalities t ++ equalitiesOfAll ts

end

/-! ## Operands -/

structure JoinOperand where
  /-- The text of what it stands for. -/
  table : String
  /-- The last part of its written name. -/
  short : String
  aliasName : Option String
deriving DecidableEq

def JoinOperand.ofRef (rs : Relations) (ref : TableRef) : JoinOperand where
  table := rs.textOfPath ref.path
  short := ref.path.getLast?.getD ""
  aliasName := ref.aliasName

/-- A relation of a from clause as an operand. Parenthesized joins are known by the last table in
them. -/
def JoinOperand.ofTree? (rs : Relations) (t : Tree) : Option JoinOperand :=
  match t.label with
  | .table ref => some (.ofRef rs ref)
  | .derived aliasName =>
    let name := aliasName.getD t.sql
    some { table := name, short := name, aliasName }
  | .fromClause => t.scopeTableRefs.getLast?.map (.ofRef rs)
  | _ => none

/-- The name columns of an operand are qualified by. -/
def JoinOperand.qualifier (o : JoinOperand) : String := o.aliasName.getD o.short

/-! ## Collecting -/

/-- The condition of a join: its text, and the equalities it states between its operands. -/
def JoinCondition.terms (left : Option JoinOperand) (right : JoinOperand)
    (conditionNode : Option Tree) : JoinCondition → String × List (String × String)
  | .predicate =>
    match conditionNode with
    | some node => (node.sql, node.equalities)
    | none => ("", [])
  | .columns names =>
    let text := match conditionNode with
      | some node => node.sql
      | none => "USING (" ++ Text.join ", " names ++ ")"
    let pairs := match left with
      | some left => names.map fun n => (left.short ++ "." ++ n, right.qualifier ++ "." ++ n)
      | none => []
    (text, pairs)
  | .natural | .unconditional => ("", [])

/-- The joins among the children of a from clause, after the operand `previous`. `based` tells
whether that is a table the clause starts with. -/
def joinsOfChildren (rs : Relations) (previous : Option JoinOperand) (based : Bool) :
    List Tree → List Join
  | [] => []
  | child :: rest =>
    match child.label with
    | .join kind condition =>
      match child.children.head?.bind (JoinOperand.ofTree? rs) with
      | none => joinsOfChildren rs previous based rest
      | some right =>
        let (text, pairs) := condition.terms previous right child.children[1]?
        { leftTable := (previous.map (·.table)).getD ""
          rightTable := right.table
          rightAlias := right.aliasName
          kind
          conditionText := text
          equalityPairs := pairs
          resolved := based } :: joinsOfChildren rs (some right) false rest
    | _ => joinsOfChildren rs ((JoinOperand.ofTree? rs child).or previous) based rest

/-- Whether a from clause starts with a table. -/
def Tree.startsWithTable (t : Tree) : Bool := t.children.head?.any (·.kind = .table)

def joinsOfFrom (rs : Relations) (clause : Tree) : List Join :=
  joinsOfChildren rs none clause.startsWithTable clause.children

/-- The id of the join at a place among all joins, the first at zero. -/
def joinId (place : Nat) : String := s!"J{place + 1}"

/-- Every join of a statement. -/
def Tree.joins (rs : Relations) (root : Tree) : List JoinRecord :=
  ((root.findAll .fromClause).flatMap (joinsOfFrom rs)).mapIdx fun i j =>
    { j with id := joinId i }

end QueryLineage
