import QueryLineage.Clause
import QueryLineage.Graph.Dot
import QueryLineage.Graph.Json
import QueryLineage.Join

/-!
# Lineage reports

Everything found out about a statement, and its form as JSON.
-/

namespace QueryLineage

/-- Who made a report and when. -/
structure Governance where
  createdBy : String
  lastModified : String
  lineageVersion : String
deriving DecidableEq

/-- What a statement reads and how its results come about. -/
structure LineageReport where
  /-- The tables it reads, in order. -/
  sources : List TableName
  joins : List JoinRecord
  filters : List String
  groupings : List String
  /-- What fills the output slots, if anything does. -/
  outputs : Option Outputs
  graph : LineageGraph
  hierarchy : Hierarchy
  governance : Governance
  /-- The tables each common table expression reads. -/
  ctes : Dict (List TableName)
deriving DecidableEq

/-- A table name is written as its dotted text. -/
def TableName.toJson (t : TableName) : Json := .str t.text

def TableName.ofJson : Json.Reader TableName := fun v => do
  (TableName.parse (← Json.string v)).toOption

namespace Governance

def toJson (g : Governance) : Json :=
  .obj [("createdBy", .str g.createdBy), ("lastModified", .str g.lastModified),
    ("lineageVersion", .str g.lineageVersion)]

def ofJson : Json.Reader Governance := fun v => do
  let r ← Json.record ["createdBy", "lastModified", "lineageVersion"] false v
  return {
    createdBy := ← r.required "createdBy" Json.string
    lastModified := ← r.required "lastModified" Json.string
    lineageVersion := ← r.required "lineageVersion" Json.string }

end Governance

namespace LineageReport

def tableListsJson (d : Dict (List TableName)) : Json :=
  .obj (d.toList.map fun e => (e.1, .arr (e.2.map TableName.toJson)))

def toJson (r : LineageReport) : Json :=
  .obj [("sources", .arr (r.sources.map TableName.toJson)),
    ("joins", .arr (r.joins.map JoinRecord.toJson)),
    ("filters", Json.strings r.filters),
    ("groupBy", Json.strings r.groupings),
    ("outputs", Json.ofOption Outputs.toJson r.outputs),
    ("graph", r.graph.toJson),
    ("hierarchy", r.hierarchy.toJson),
    ("governance", r.governance.toJson),
    ("ctes", tableListsJson r.ctes)]

def fieldNames : List String :=
  ["sources", "joins", "filters", "groupBy", "outputs", "graph", "hierarchy", "governance", "ctes"]

def ofJson : Json.Reader LineageReport := fun v => do
  let r ← Json.record fieldNames false v
  return {
    sources := ← r.required "sources" (Json.list TableName.ofJson)
    joins := ← r.required "joins" (Json.list JoinRecord.ofJson)
    filters := ← r.required "filters" (Json.list Json.string)
    groupings := ← r.required "groupBy" (Json.list Json.string)
    outputs := ← r.orNull "outputs" Outputs.ofJson
    graph := ← r.required "graph" LineageGraph.ofJson
    hierarchy := ← r.required "hierarchy" Hierarchy.ofJson
    governance := ← r.required "governance" Governance.ofJson
    ctes := ← r.withDefault "ctes" (Json.dict (Json.list TableName.ofJson)) ∅ }

def sourceNames (r : LineageReport) : List String := r.sources.map TableName.text

end LineageReport

end QueryLineage
