import QueryLineage.Assembly
import QueryLineage.Enrichment
import QueryLineage.LineageError
import QueryLineage.Qualification
import QueryLineage.Report
import QueryLineage.Sql.Outline

/-!
# Analysing a statement

A text is read into the tree of its first statement, and the tree is analysed. Reading is the only
step that can fail. Where columns cannot be qualified the tree stays as it is, and a table without
metadata stays undecorated.
-/

namespace QueryLineage

/-- How an analysis is done. -/
structure LineageOptions where
  defaults : TableDefaults
  qualifyColumns : Bool
  dedupeEdges : Bool
  joinLabelWidth : Nat
  governance : GovernanceConfig
deriving DecidableEq

def LineageOptions.ofConfig (c : Config) : LineageOptions where
  defaults := c.tableDefaults
  qualifyColumns := c.qualifyColumns
  dedupeEdges := c.dedupeEdges
  joinLabelWidth := c.joinLabelWidth
  governance := c.governance

/-- A statement to analyse, and the name of its dialect. -/
structure LineageRequest where
  sql : String
  dialect : String := "bigquery"
deriving DecidableEq

namespace LineageRequest

def fieldNames : List String := ["sql", "dialect"]

def ofJson : Json.Reader LineageRequest := fun v => do
  let r ← Json.record fieldNames true v
  return {
    sql := ← r.required "sql" Json.string
    dialect := ← r.withDefault "dialect" Json.string "bigquery" }

def toJson (r : LineageRequest) : Json := .obj [("sql", .str r.sql), ("dialect", .str r.dialect)]

def statements (r : LineageRequest) : Except LineageError (Dialect × List Sql.Statement) := do
  let some d := Dialect.ofName? r.dialect | throw (.unknownDialect r.dialect)
  let text := Text.trim r.sql
  if text.isEmpty then throw .emptySql
  let found ← (Sql.readScript d text).mapError LineageError.ofScript
  return (d, found)

end LineageRequest

/-! ## Notices -/

/-- What a user is told beside a result. -/
inductive Notice
  /-- There is more than one statement. -/
  | furtherStatements (count : Nat)
  /-- Common table expressions reach themselves. -/
  | cycle (names : List CteName)
deriving DecidableEq

/-- A notice with the part of the program it comes from. -/
def Notice.text : Notice → String
  | .furtherStatements count =>
    s!"st_sql::parser: {count} statements supplied; only the first is analysed"
  | .cycle names =>
    "st_sql::cte: CTE reference cycle among [" ++ Text.join ", " (names.map CteName.text)
      ++ "]; base tables are a best-effort closure"

def LineageRequest.tree (r : LineageRequest) : Except LineageError (Tree × List Notice) := do
  let (_, found) ← r.statements
  match found with
  | [] => throw .emptySql
  | [only] => return (only.toTree, [])
  | first :: _ => return (first.toTree, [.furtherStatements found.length])

/-- What is to be said about the common table expressions of a statement. -/
def ResolvedCtes.notices (ctes : ResolvedCtes) : List Notice :=
  match ctes.cyclicNames with
  | [] => []
  | names => [.cycle names]

def LineageRequest.ctes (o : LineageOptions) (r : LineageRequest) :
    Except LineageError (ResolvedCtes × List Notice) := do
  let (root, notices) ← r.tree
  let ctes := ResolvedCtes.ofTree o.defaults root
  return (ctes, notices ++ ctes.notices)

/-! ## Analysis of a tree -/

/-- Everything found out about a tree. -/
structure Analysis where
  /-- Why the columns are not qualified, if they could not be. -/
  unqualified : Option UnusableRelation
  relations : Relations
  joins : List JoinRecord
  filters : List String
  groupings : List String
  outputs : Outputs
  /-- Found in the tree with its columns qualified; all else in the tree as it was given. -/
  columns : ColumnLineage
  graph : LineageGraph
  governance : Governance
deriving DecidableEq

namespace Analysis

variable {σ : Type}

/-- The tree with its columns qualified; the tree itself, and why, if that cannot be. -/
def qualified (o : LineageOptions) (provider : Option (Provider σ)) (root : Tree) :
    StateM σ (Tree × Option UnusableRelation) := do
  if o.qualifyColumns then
    match ← root.qualify o.defaults provider with
    | .ok tree => return (tree, none)
    | .error e => return (root, some e)
  else return (root, none)

/-- Analyses a tree, at a time given by its text. -/
def ofTree (o : LineageOptions) (provider : Option (Provider σ)) (timestamp : String)
    (root : Tree) : StateM σ Analysis := do
  let (tree, unqualified) ← qualified o provider root
  let relations := Relations.ofTree o.defaults root
  let joins := root.joins relations
  let groupings := root.groupings
  let outputs := root.outputs
  let columns := ColumnLineage.ofTree tree joins
  let graph := assembleGraph {
    relations, joins, outputs, groupings, columns, tree, timestamp
    governance := o.governance
    joinLabelWidth := o.joinLabelWidth
    dedupeEdges := o.dedupeEdges }
  let graph ← match provider with
    | some p => graph.enrich p
    | none => pure graph
  return {
    unqualified, relations, joins, groupings, outputs, columns, graph
    filters := root.filters
    governance := ⟨o.governance.createdBy, timestamp, o.governance.lineageVersion⟩ }

def report (a : Analysis) : LineageReport where
  sources := a.relations.sources.toList
  joins := a.joins
  filters := a.filters
  groupings := a.groupings
  outputs := if a.outputs.isEmpty then none else some a.outputs
  graph := a.graph
  hierarchy := a.graph.hierarchy
  governance := a.governance
  ctes := a.relations.ctes.summary

end Analysis

def LineageRequest.report {σ : Type} (o : LineageOptions) (provider : Option (Provider σ))
    (timestamp : String) (r : LineageRequest) :
    StateM σ (Except LineageError (LineageReport × List Notice)) := do
  match r.tree with
  | .error e => return .error e
  | .ok (root, notices) =>
    let analysis ← Analysis.ofTree o provider timestamp root
    return .ok (analysis.report, notices ++ analysis.relations.ctes.notices)

end QueryLineage
