import QueryLineage.Sql.Printer
import QueryLineage.Text.Basic
import QueryLineage.Tree

/-!
# The tree of a statement

Queries, relations, joins and clauses become nodes of their own. An expression that is opaque to the
analyses keeps what can be *found* in it: its columns and its outermost queries, in order, arguments
that name a part of a date aside.
-/

namespace QueryLineage.Sql

/-! ## Parts of dates -/

def datePartWords : List String :=
  ["MICROSECOND", "MILLISECOND", "SECOND", "MINUTE", "HOUR", "DAY", "DAYOFWEEK", "DAYOFYEAR",
    "WEEK", "ISOWEEK", "MONTH", "QUARTER", "YEAR", "ISOYEAR", "SUNDAY", "MONDAY", "TUESDAY",
    "WEDNESDAY", "THURSDAY", "FRIDAY", "SATURDAY"]

/-- Whether an expression is a bare word that names a part of a date. -/
def Expr.isDatePart : Expr → Bool
  | .column first [] =>
    first.quote.isNone && datePartWords.any (Text.eqIgnoringCase · first.value)
  | _ => false

/-- Whether the first argument of a call can name a part of a date, as every later one can. -/
def takesPartFirst (name : ObjectName) : Bool := Text.eqIgnoringCase (nameText name) "WEEK"

/-! ## Labels -/

/-- The segments of a written name; a quoted one that holds dots is several. -/
def pathOf (name : ObjectName) : List String := name.flatMap fun i => Text.split '.' i.value

/-- The kind of a join, the same for an outer join with and without `OUTER`. -/
def JoinOperator.kind : JoinOperator → String
  | .join => "JOIN"
  | .inner => "INNER"
  | .left | .leftOuter => "LEFT"
  | .right | .rightOuter => "RIGHT"
  | .full => "FULL"
  | .cross => "CROSS"

def aliasName (alternative : Option TableAlias) : Option String := alternative.map (·.name.value)

/-- The name of the column that an expression is, if it is one. -/
def Expr.columnName? : Expr → Option String
  | .column first rest => some ((first :: rest).getLast (by simp)).value
  | _ => none

def columnNode (first : Ident) (rest : List Ident) : Tree :=
  .leaf (.column ((first :: rest).map (·.value))) (nameText (first :: rest))

/-- The node of the columns two relations are matched by. -/
def matchingNode (columns : List String) : Tree :=
  ⟨.expr .other, "USING (" ++ commaSeparated columns ++ ")",
    columns.map fun n => .leaf (.identifier n) n⟩

/-! ## Trees -/

mutual

/-- The columns and outermost queries in an expression, in the order they are visited in. -/
def Expr.findings : Expr → List Tree
  | .column first rest => [columnNode first rest]
  | .binary left _ right => left.findings ++ right.findings
  | .nested inner => inner.findings
  | .subquery query => [query.toTree]
  | .call name opening args closing groupOrder rest =>
    piecesFindings opening ++ argumentsFindings (takesPartFirst name) args
      ++ piecesFindings closing ++ piecesFindings rest ++ piecesFindings groupOrder
  | .trimming _ characters text => text.findings ++ characters.findings
  | .form pieces => piecesFindings pieces

/-- What is found in an argument; `partAllowed` tells whether it can name a part of a date. -/
def Argument.findings (partAllowed : Bool) : Argument → List Tree
  | .expr e => if partAllowed && e.isDatePart then [] else e.findings
  | .other pieces => piecesFindings pieces

def argumentsFindings (partAllowed : Bool) : List Argument → List Tree
  | [] => []
  | a :: rest => a.findings partAllowed ++ argumentsFindings true rest

def Piece.findings : Piece → List Tree
  | .text _ => []
  | .expr e => e.findings
  | .query q => [q.toTree]
  | .relation r => r.findings

def piecesFindings : List Piece → List Tree
  | [] => []
  | p :: ps => p.findings ++ piecesFindings ps

def exprsFindings : List Expr → List Tree
  | [] => []
  | e :: es => e.findings ++ exprsFindings es

/-- What is found in a relation that is not itself in the tree: the tables it names are not. -/
def Relation.findings : Relation → List Tree
  | .table _ afterName _ afterAlias => piecesFindings afterName ++ piecesFindings afterAlias
  | .derived _ query _ afterAlias => query.toTree :: piecesFindings afterAlias
  | .joined item _ => item.findings
  | .unnest items _ _ _ => exprsFindings items
  | .form pieces => piecesFindings pieces

def FromItem.findings : FromItem → List Tree
  | .mk relation joins => relation.findings ++ joinsFindings joins

def Join.findings : Join → List Tree
  | .conditioned _ relation condition => relation.findings ++ condition.findings
  | .matching _ relation _ => relation.findings
  | .natural _ relation => relation.findings
  | .unconditional _ relation => relation.findings
  | .operator _ _ relation rest => relation.findings ++ piecesFindings rest

def joinsFindings : List Join → List Tree
  | [] => []
  | j :: js => j.findings ++ joinsFindings js

def Expr.toTree : Expr → Tree
  | .column first rest => columnNode first rest
  | .binary left op right =>
    ⟨match op with
      | .equals => .equality
      | .conjunction => .expr .conjunction
      | .other _ => .expr .other,
      (Expr.binary left op right).text, [left.toTree, right.toTree]⟩
  | .nested inner => ⟨.expr .nested, (Expr.nested inner).text, [inner.toTree]⟩
  | .subquery query => ⟨.expr .other, (Expr.subquery query).text, [query.toTree]⟩
  | .call name opening args closing groupOrder rest =>
    ⟨.expr .other, (Expr.call name opening args closing groupOrder rest).text,
      piecesFindings opening ++ argumentsFindings (takesPartFirst name) args
        ++ piecesFindings closing ++ piecesFindings rest ++ piecesFindings groupOrder⟩
  | .trimming side characters text =>
    ⟨.expr .other, (Expr.trimming side characters text).text,
      text.findings ++ characters.findings⟩
  | .form pieces => ⟨.expr .other, piecesText pieces, piecesFindings pieces⟩

def exprTrees : List Expr → List Tree
  | [] => []
  | e :: es => e.toTree :: exprTrees es

def clauseTrees (label : Label) : Option Expr → List Tree
  | some e => [⟨label, e.text, [e.toTree]⟩]
  | none => []

def Relation.toTree : Relation → Tree
  | .table name afterName alternative afterAlias =>
    .leaf (.table ⟨pathOf name, aliasName alternative⟩)
      (Relation.table name afterName alternative afterAlias).text
  | .derived opening query alternative afterAlias =>
    ⟨.derived (aliasName alternative),
      (Relation.derived opening query alternative afterAlias).text, [query.toTree]⟩
  | .joined item alternative =>
    ⟨.fromClause, (Relation.joined item alternative).text, item.trees⟩
  | .unnest items afterItems alternative afterAlias =>
    ⟨.derived (aliasName alternative),
      (Relation.unnest items afterItems alternative afterAlias).text, exprsFindings items⟩
  | .form pieces => ⟨.derived none, piecesText pieces, piecesFindings pieces⟩

def Join.toTree : Join → Tree
  | .conditioned op relation condition =>
    ⟨.join op.kind .predicate, (Join.conditioned op relation condition).text,
      [relation.toTree, condition.toTree]⟩
  | .matching op relation columns =>
    let names := columns.map fun c => Text.join "." (pathOf c)
    ⟨.join op.kind (.columns names), (Join.matching op relation columns).text,
      [relation.toTree, matchingNode names]⟩
  | .natural op relation =>
    ⟨.join op.kind .natural, (Join.natural op relation).text, [relation.toTree]⟩
  | .unconditional op relation =>
    ⟨.join op.kind .unconditional, (Join.unconditional op relation).text, [relation.toTree]⟩
  | .operator name opening relation rest =>
    ⟨.join name .unconditional, (Join.operator name opening relation rest).text,
      [relation.toTree]⟩

def joinTrees : List Join → List Tree
  | [] => []
  | j :: js => j.toTree :: joinTrees js

/-- The trees of a relation and of what is joined to it. -/
def FromItem.trees : FromItem → List Tree
  | .mk relation joins => relation.toTree :: joinTrees joins

/-- The trees of an item after a comma: its relation is joined to all before it. -/
def FromItem.treesAfterComma : FromItem → List Tree
  | .mk relation joins =>
    ⟨.join "CROSS" .unconditional, ", " ++ relation.text, [relation.toTree]⟩ :: joinTrees joins

def laterFromTrees : List FromItem → List Tree
  | [] => []
  | i :: rest => i.treesAfterComma ++ laterFromTrees rest

def fromTrees : List FromItem → List Tree
  | [] => []
  | i :: rest => i.trees ++ laterFromTrees rest

def SelectItem.toTree : SelectItem → Tree
  | .unnamed e => ⟨.projection none e.columnName?, e.text, [e.toTree]⟩
  | .aliased e name =>
    ⟨.projection (some name.value) (some name.value), (SelectItem.aliased e name).text,
      [e.toTree]⟩
  | .wildcard pieces =>
    ⟨.projection none none, piecesText pieces, [.leaf (.expr .other) (piecesText pieces)]⟩

def itemTrees : List SelectItem → List Tree
  | [] => []
  | i :: rest => i.toTree :: itemTrees rest

def Body.toTree : Body → Tree
  | .select opening items sources condition groups afterGroups having rest =>
    ⟨.select,
      (Body.select opening items sources condition groups afterGroups having rest).text,
      itemTrees items
        ++ (if sources.isEmpty then []
          else [⟨.fromClause, commaSeparated (fromTexts sources), fromTrees sources⟩])
        ++ clauseTrees .whereClause condition
        ++ (if groups.isEmpty then []
          else [⟨.groupClause, commaSeparated (exprTexts groups), exprTrees groups⟩])
        ++ clauseTrees .havingClause having⟩
  | .query q => q.toTree
  | .setOperation left op right =>
    ⟨.expr .setOperation, (Body.setOperation left op right).text, [left.toTree, right.toTree]⟩
  | .other pieces => ⟨.expr .other, piecesText pieces, piecesFindings pieces⟩

def Query.toTree : Query → Tree
  | .mk opening ctes body rest =>
    ⟨.query, (Query.mk opening ctes body rest).text, cteTrees ctes ++ [body.toTree]⟩

def Cte.toTree : Cte → Tree
  | .mk name columns opening query =>
    ⟨.cte name.value, (Cte.mk name columns opening query).text, [query.toTree]⟩

def cteTrees : List Cte → List Tree
  | [] => []
  | c :: rest => c.toTree :: cteTrees rest

end

/-- The tree of a statement. Of one that is no query only what is found in it is kept. -/
def Statement.toTree : Statement → Tree
  | .query q => q.toTree
  | .other pieces => ⟨.query, piecesText pieces, piecesFindings pieces⟩

end QueryLineage.Sql
