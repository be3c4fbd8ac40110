import QueryLineage.Graph
import QueryLineage.Json.Reader

/-!
# Graphs as JSON

A node is an object of its id, its label, the name of its type and what is known about it.
-/

namespace QueryLineage

/-- The members that say what a node stands for, after its type. -/
def NodeDetail.members : NodeDetail → List (String × Json)
  | .table d s rowCount =>
    [("database", Json.text? d), ("schema", Json.text? s),
      ("rowCount", Json.ofOption Json.nat rowCount)]
  | .column t dataType description pii =>
    [("table", Json.text? t), ("dataType", Json.text? dataType),
      ("description", Json.text? description), ("pii", .bool pii)]
  | .join kind condition => [("kind", .str kind), ("on", .str condition)]
  | .aggregation function expression =>
    [("function", .str function), ("expression", .str expression)]
  | .kpi expression dimensions owner updatedAt =>
    [("expression", Json.text? expression), ("dimensions", Json.strings dimensions),
      ("owner", .str owner), ("updatedAt", .str updatedAt)]
  | .output | .database | .schema => []

/-- Reads a type of node by its name or its number. -/
def NodeType.ofJson : Json.Reader NodeType
  | .str name => ofName? name
  | .int n => if 0 ≤ n then all[n.toNat]? else none
  | _ => none

/-- Reads what a node of a type stands for. -/
def NodeDetail.ofRecord (r : Json.Record) : NodeType → Option NodeDetail
  | .table => do
    return .table (← r.orNull "database" Json.string) (← r.orNull "schema" Json.string)
      (← r.orNull "rowCount" Json.count)
  | .column => do
    return .column (← r.orNull "table" Json.string) (← r.orNull "dataType" Json.string)
      (← r.orNull "description" Json.string) (← r.withDefault "pii" Json.boolean false)
  | .output => some .output
  | .join => do return .join (← r.required "kind" Json.string) (← r.required "on" Json.string)
  | .aggregation => do
    return .aggregation (← r.required "function" Json.string)
      (← r.required "expression" Json.string)
  | .kpi => do
    return .kpi (← r.orNull "expression" Json.string)
      (← r.required "dimensions" (Json.list Json.string)) (← r.required "owner" Json.string)
      (← r.required "updatedAt" Json.string)
  | .database => some .database
  | .schema => some .schema

def GraphNode.toJson (n : GraphNode) : Json :=
  .obj ([("id", .str n.id), ("label", .str n.label), ("type", .str n.type.name)]
    ++ n.detail.members)

def GraphNode.ofJson : Json.Reader GraphNode
  | .obj members => do
    let r := Json.Record.named members
    return {
      id := ← r.required "id" Json.string
      label := ← r.required "label" Json.string
      detail := ← NodeDetail.ofRecord r (← r.required "type" NodeType.ofJson) }
  | _ => none

def EdgeKind.ofJson : Json.Reader EdgeKind := fun v => Json.choice v >>= ofName?

def GraphEdge.toJson (e : GraphEdge) : Json :=
  .obj [("source", .str e.source), ("target", .str e.target), ("type", .str e.kind.name)]

def GraphEdge.ofJson : Json.Reader GraphEdge := fun v => do
  let r ← Json.record ["source", "target", "type"] false v
  return {
    source := ← r.required "source" Json.string
    target := ← r.required "target" Json.string
    kind := ← r.required "type" EdgeKind.ofJson }

def LineageGraph.toJson (g : LineageGraph) : Json :=
  .obj [("nodes", .arr (g.nodes.map GraphNode.toJson)),
    ("edges", .arr (g.edges.map GraphEdge.toJson))]

def LineageGraph.ofJson : Json.Reader LineageGraph := fun v => do
  let r ← Json.record ["nodes", "edges"] false v
  return {
    nodes := ← r.required "nodes" (Json.list GraphNode.ofJson)
    edges := ← r.required "edges" (Json.list GraphEdge.ofJson) }

def Hierarchy.toJson (h : Hierarchy) : Json :=
  .obj [("physical", Json.strings h.physical), ("logical", Json.strings h.logical),
    ("semantic", Json.strings h.semantic)]

def Hierarchy.ofJson : Json.Reader Hierarchy := fun v => do
  let r ← Json.record ["physical", "logical", "semantic"] false v
  return {
    physical := ← r.required "physical" (Json.list Json.string)
    logical := ← r.required "logical" (Json.list Json.string)
    semantic := ← r.required "semantic" (Json.list Json.string) }

end QueryLineage
