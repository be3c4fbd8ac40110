import QueryLineage.Aggregation
import QueryLineage.Clause
import QueryLineage.ColumnLineage
import QueryLineage.Config
import QueryLineage.Graph.Builder

/-!
# Assembling the graph

The graph of a statement is built in four stages: tables with the schemas and databases that contain
them, columns and outputs, joins, and the measured indicator with its aggregations and dimensions.
All of them share one space of ids, and what comes first under an id stays.
-/

namespace QueryLineage

/-- All that is known about a statement when its graph is put together. -/
structure AssemblyInput where
  relations : Relations
  joins : List JoinRecord
  outputs : Outputs
  groupings : List String
  columns : ColumnLineage
  /-- The tree with its columns qualified. -/
  tree : Tree
  governance : GovernanceConfig
  joinLabelWidth : Nat
  dedupeEdges : Bool
  timestamp : String

/-! ## Labels and ids -/

/-- A text cut to a width, the cut marked with dots. -/
def truncateLabel (text : String) (width : Nat) : String :=
  if text.toList.length ≤ width then text
  else String.ofList (text.toList.take (width - 3)) ++ "..."

/-- The last part of a column reference without the quotation marks around it. -/
def columnLabel (id : String) : String :=
  let last := ((Text.split '.' id).getLast?).getD id
  String.ofList (Text.stripBoth (fun c => c = '\x60' ∨ c = '\x22') last.toList)

/-- The id of the measured indicator. -/
def kpiId : String := "kpi"

def databaseId (project : String) : String := "database:" ++ project

def schemaId (project : Option String) (dataset : String) : String :=
  match project with
  | some p => "schema:" ++ p ++ "." ++ dataset
  | none => "schema:" ++ dataset

namespace Assembly

open GraphBuilder

/-! ## Tables -/

def tableNode (t : TableName) : GraphNode where
  id := t.text
  label := t.shortName
  detail := .table t.project t.dataset none

/-- Adds what contains a table: the schema if its dataset is known, and the database if its project
is. -/
def addContainers (t : TableName) (b : GraphBuilder) : GraphBuilder :=
  match t.dataset with
  | none => b
  | some dataset =>
    let schema := schemaId t.project dataset
    let b := match t.project with
      | some project =>
        b |> addNode ⟨databaseId project, project, .database⟩
          |> addNode ⟨schema, dataset, .schema⟩
          |> addEdge (databaseId project) schema .contains
      | none => b |> addNode ⟨schema, dataset, .schema⟩
    b |> addEdge schema t.text .contains

def addTables (sources : TableName.Set) (b : GraphBuilder) : GraphBuilder :=
  b |> forEach sources.toList (fun t => addNode (tableNode t))
    |> forEach sources.toList addContainers

/-! ## Columns -/

/-- The tables in the graph that a column may have been read from. -/
def ownersOf (rs : Relations) (b : GraphBuilder) (column : String) : List TableName :=
  (rs.baseTables column).filter fun t => b.hasNode t.text

/-- The node of a column with these owners; it is attributed to a table if there is one alone. -/
def columnNode (id : String) (owners : List TableName) : GraphNode where
  id
  label := columnLabel id
  detail := .column (match owners with | [only] => some only.text | _ => none) none none false

/-- Adds a column with the edges from its owners, unless its id is taken. -/
def ensureColumn (rs : Relations) (id : String) (b : GraphBuilder) : GraphBuilder :=
  if b.hasNode id then b
  else
    let owners := ownersOf rs b id
    b |> addNode (columnNode id owners)
      |> forEach owners (fun t => addEdge t.text id .contains)

def isColumn (b : GraphBuilder) (id : String) : Bool := (b.node? id).any (·.type = .column)

/-- Adds the edges that a projection gives: from the column, and from the tables it is read from. -/
def addProjection (rs : Relations) (column output : String) (b : GraphBuilder) : GraphBuilder :=
  let b := b |> addEdge column output .projection
  b |> forEach (ownersOf rs b column) (fun t => addEdge t.text output .derives)

/-- Outputs come before columns: a column spelled like another projection's alias does not take the
output's id. -/
def addColumns (rs : Relations) (columns : ColumnLineage) (b : GraphBuilder) : GraphBuilder :=
  b |> forEach columns.outputs (fun name => addNode ⟨name, name, .output⟩)
    |> forEach columns.columns (ensureColumn rs)
    |> forEach columns.projectionEdges (fun e => addProjection rs e.1 e.2)
    |> forEach columns.joinEdges (fun e => addEdge e.1 e.2 .join)

/-! ## Joins -/

/-- The ids a table operand stands for: its own, or those of the tables an expression of its name
reads. -/
def tableNodes (rs : Relations) (b : GraphBuilder) (name : String) : List String :=
  if b.hasNode name then [name]
  else match rs.ctes.bases? name with
    | some bases => (bases.toList.map TableName.text).filter b.hasNode
    | none => []

/-- The text of a join: its condition, else its kind and right operand. -/
def joinText (j : JoinRecord) : String :=
  if j.conditionText.isEmpty then j.kind ++ " JOIN " ++ j.rightTable else j.conditionText

def joinNode (width : Nat) (j : JoinRecord) : GraphNode where
  id := j.id
  label := truncateLabel (joinText j) width
  detail := .join j.kind j.conditionText

def addJoin (rs : Relations) (width : Nat) (j : JoinRecord) (b : GraphBuilder) : GraphBuilder :=
  let b := b |> addNode (joinNode width j)
    |> forEach j.equalityPairs (fun p b =>
      b |> addEdge p.1 j.id .joinInput |> addEdge p.2 j.id .joinInput)
  let rights := tableNodes rs b j.rightTable
  let lefts := tableNodes rs b j.leftTable
  b |> forEach rights (fun right => addEdge j.id right .joinOutput)
    |> forEach lefts (fun left => forEach rights fun right => addEdge left right .joinTable)

/-! ## The measured indicator -/

/-- The first projection aliased to a slot, ignoring the case of ASCII letters. -/
def projectionForSlot? (select : Tree) (s : Slot) : Option Tree :=
  select.children.find? fun c => c.projectionAlias?.any (Text.eqIgnoringCase · s.name)

def aggregationIn? (outputs : Outputs) (s : Slot) : Option (Slot × Aggregation) :=
  ((outputs.slot s).bind Aggregation.ofText?).map (s, ·)

/-- The aggregations in the slots that can be measured, each once. -/
def measures (outputs : Outputs) : List (Slot × Aggregation) :=
  let first := aggregationIn? outputs .value
  let second := (aggregationIn? outputs .y).filter fun m => first.map Prod.snd ≠ some m.2
  first.toList ++ second.toList

def kpiNode (i : AssemblyInput) : GraphNode where
  id := kpiId
  label := i.outputs.measure.getD kpiId
  detail := .kpi i.outputs.measure i.groupings i.governance.owner i.timestamp

/-- Adds a column and an edge from it, unless its id is something else's. -/
def linkColumn (rs : Relations) (target : String) (kind : EdgeKind) (column : String)
    (b : GraphBuilder) : GraphBuilder :=
  let b := ensureColumn rs column b
  if isColumn b column then b |> addEdge column target kind else b

/-- The column an aggregation measures: the first in the projection of its slot. -/
def measuredColumn? (select : Option Tree) (s : Slot) : Option String := do
  let projection ← projectionForSlot? (← select) s
  let column ← projection.find? .column
  return column.sql

def addMeasure (i : AssemblyInput) (m : Slot × Aggregation) (b : GraphBuilder) : GraphBuilder :=
  let agg := m.2.nodeId
  b |> addNode ⟨agg, m.2.label, .aggregation m.2.function.name m.2.args⟩
    |> forEach (measuredColumn? i.tree.mainSelect? m.1).toList
      (linkColumn i.relations agg .measure)
    |> forEach i.joins (fun j => addEdge j.id agg .joinOutput)
    |> addEdge agg kpiId .derives

/-! ## Dimensions -/

/-- The projection a grouping expression refers to, by its place or by its alias. -/
def groupTarget? (projections : List Tree) (expr : Tree) : Option Tree :=
  match Text.count? (Text.trim expr.sql) with
  | some 0 => none
  | some (place + 1) => projections[place]?
  | none =>
    match expr.label with
    | .column [name] =>
      projections.find? fun p => p.projectionAlias?.any (Text.eqIgnoringCase · name)
    | _ => none

/-- Adds the dimensions of a grouping expression: the columns of what it refers to, else the output
of the projection it refers to. -/
def addDimension (rs : Relations) (projections : List Tree) (expr : Tree) (b : GraphBuilder) :
    GraphBuilder :=
  let projection := groupTarget? projections expr
  let columns := (projection.getD expr).scopeColumns.map (·.sql)
  let b := b |> forEach columns (linkColumn rs kpiId .dimension)
  if columns.any (isColumn b) then b
  else match projection.bind Tree.projectionName? with
    | some name => b |> addEdge name kpiId .dimension
    | none => b

def addDimensions (rs : Relations) (select : Tree) (b : GraphBuilder) : GraphBuilder :=
  match select.child? .groupClause with
  | some group => b |> forEach group.children (addDimension rs select.projections)
  | none => b

def addKpi (i : AssemblyInput) (b : GraphBuilder) : GraphBuilder :=
  b |> addNode (kpiNode i)
    |> forEach (measures i.outputs) (addMeasure i)
    |> forEach i.tree.mainSelect?.toList (addDimensions i.relations)

def build (i : AssemblyInput) : GraphBuilder :=
  ({ dedupe := i.dedupeEdges } : GraphBuilder)
    |> addTables i.relations.sources
    |> addColumns i.relations i.columns
    |> forEach i.joins (addJoin i.relations i.joinLabelWidth)
    |> addKpi i

end Assembly

def assembleGraph (i : AssemblyInput) : LineageGraph := (Assembly.build i).graph

end QueryLineage
