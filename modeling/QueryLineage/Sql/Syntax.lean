/-!
# The syntax of statements

What the analyses tell apart is a constructor of its own: columns, equalities and conjunctions,
subqueries, calls with their arguments, relations, joins and the clauses of a select. Everything
else is a sequence of *pieces*: text as it is written, and the expressions, queries and relations in
it, in order.

The parts of a form are visited in the order they are written in, with two exceptions: the
characters that `TRIM` takes off, and the order of a group in a call.
-/

namespace QueryLineage.Sql

/-- An identifier, with the quotation mark it is written in. -/
structure Ident where
  value : String
  quote : Option Char := none
deriving DecidableEq

/-- A dotted name of an object, such as a table or a function. -/
abbrev ObjectName := List Ident

inductive Operator
  | equals
  | conjunction
  | other (symbol : String)
deriving DecidableEq

/-- The joins that a condition belongs to. -/
inductive JoinOperator
  | join | inner | left | leftOuter | right | rightOuter | full | cross
deriving DecidableEq

/-- The name a relation goes by in its query. -/
structure TableAlias where
  /-- Whether `AS` is written. -/
  marked : Bool
  name : Ident
  /-- Names for the columns, as written; empty if there are none. -/
  columns : String := ""
deriving DecidableEq

mutual

inductive Expr
  /-- A column by its path, which has at least one part. -/
  | column (first : Ident) (rest : List Ident)
  | binary (left : Expr) (op : Operator) (right : Expr)
  /-- An expression in parentheses. -/
  | nested (inner : Expr)
  /-- A query in parentheses. -/
  | subquery (query : Query)
  /-- A call: its name and an opening, the arguments, what closes them, and what they are taken
  over. `WITHIN GROUP` is written before the filter and the window, which are `rest`, and is visited
  after them. -/
  | call (name : ObjectName) (opening : List Piece) (args : List Argument)
    (closing groupOrder rest : List Piece)
  /-- `TRIM` with the characters to take off, which are written before the text they are taken off
  and visited after it. -/
  | trimming (side : String) (characters text : Expr)
  | form (pieces : List Piece)

inductive Argument
  | expr (e : Expr)
  /-- A named argument, a wildcard, or another that is more than an expression. -/
  | other (pieces : List Piece)

inductive Piece
  | text (s : String)
  | expr (e : Expr)
  | query (q : Query)
  | relation (r : Relation)

inductive Relation
  /-- A table, with what follows its name, its alias, and what follows that. -/
  | table (name : ObjectName) (afterName : List Piece) (alternative : Option TableAlias)
    (afterAlias : List Piece)
  /-- A query in parentheses, after `LATERAL` or nothing. -/
  | derived (opening : String) (query : Query) (alternative : Option TableAlias)
    (afterAlias : List Piece)
  /-- Joined relations in parentheses. -/
  | joined (item : FromItem) (alternative : Option TableAlias)
  /-- The items of arrays, with what follows the parentheses, the alias, and what follows that. -/
  | unnest (items : List Expr) (afterItems : String) (alternative : Option TableAlias)
    (afterAlias : String)
  | form (pieces : List Piece)

inductive Join
  | conditioned (op : JoinOperator) (relation : Relation) (condition : Expr)
  | matching (op : JoinOperator) (relation : Relation) (columns : List ObjectName)
  | natural (op : JoinOperator) (relation : Relation)
  | unconditional (op : JoinOperator) (relation : Relation)
  /-- Another operator by its name, the text before the relation, and what follows it. -/
  | operator (name opening : String) (relation : Relation) (rest : List Piece)

/-- A relation and what is joined to it. -/
inductive FromItem
  | mk (relation : Relation) (joins : List Join)

inductive SelectItem
  | unnamed (e : Expr)
  | aliased (e : Expr) (name : Ident)
  | wildcard (pieces : List Piece)

inductive Body
  /-- A select by its clauses; `opening` is what stands before the select list, and `afterGroups`
  what is written about grouping besides expressions. -/
  | select (opening : List Piece) (items : List SelectItem) (sources : List FromItem)
    (condition : Option Expr) (groups : List Expr) (afterGroups : String)
    (having : Option Expr) (rest : List Piece)
  /-- A query in parentheses. -/
  | query (q : Query)
  | setOperation (left : Body) (op : String) (right : Body)
  /-- Rows of values, or another body. -/
  | other (pieces : List Piece)

inductive Query
  /-- A query; `opening` is what stands before the first definition, `rest` what follows the
  body. -/
  | mk (opening : String) (ctes : List Cte) (body : Body) (rest : List Piece)

/-- A common table expression: its name, the names of its columns as written, and its query. -/
inductive Cte
  | mk (name : Ident) (columns : String) (opening : String) (query : Query)

end

/-- A statement: a query, or another with the expressions and queries in it. -/
inductive Statement
  | query (q : Query)
  | other (pieces : List Piece)

end QueryLineage.Sql
