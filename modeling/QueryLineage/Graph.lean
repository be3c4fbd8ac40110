/-!
# Lineage graphs

Typed nodes and typed edges. A node is known by its id alone, and edges name their ends by id. Each
node lies in one of three layers.
-/

namespace QueryLineage

/-- What a node stands for. -/
inductive NodeDetail
  | table (database schema : Option String) (rowCount : Option Nat)
  /-- A column; its table is that of the only base it can have come from. -/
  | column (table dataType description : Option String) (pii : Bool)
  | output
  | join (kind condition : String)
  | aggregation (function expression : String)
  | kpi (expression : Option String) (dimensions : List String) (owner updatedAt : String)
  | database
  | schema
deriving DecidableEq

/-- What a node stands for, apart from what is known about it. -/
inductive NodeType
  | table | column | output | join | aggregation | kpi | database | schema
deriving DecidableEq

inductive Layer
  | physical | logical | semantic
deriving DecidableEq

inductive EdgeKind
  | contains | projection | join | joinInput | joinOutput | joinTable | derives | dimension
  | measure
deriving DecidableEq

structure GraphNode where
  id : String
  label : String
  detail : NodeDetail
deriving DecidableEq

structure GraphEdge where
  source : String
  target : String
  kind : EdgeKind
deriving DecidableEq

/-- Nodes and edges in the order they came up. -/
structure LineageGraph where
  nodes : List GraphNode := []
  edges : List GraphEdge := []
deriving DecidableEq

/-- The ids of a graph's nodes by layer. -/
structure Hierarchy where
  physical : List String := []
  logical : List String := []
  semantic : List String := []
deriving DecidableEq

/-! ## Types, layers and kinds -/

def NodeDetail.type : NodeDetail → NodeType
  | .table .. => .table
  | .column .. => .column
  | .output => .output
  | .join .. => .join
  | .aggregation .. => .aggregation
  | .kpi .. => .kpi
  | .database => .database
  | .schema => .schema

namespace NodeType

def name : NodeType → String
  | .table => "table"
  | .column => "column"
  | .output => "output"
  | .join => "join"
  | .aggregation => "aggregation"
  | .kpi => "kpi"
  | .database => "database"
  | .schema => "schema"

def all : List NodeType :=
  [.table, .column, .output, .join, .aggregation, .kpi, .database, .schema]

def ofName? (text : String) : Option NodeType := all.find? (·.name == text)

def layer : NodeType → Layer
  | .table | .column | .database | .schema => .physical
  | .join | .aggregation => .logical
  | .kpi | .output => .semantic

end NodeType

namespace Layer

def name : Layer → String
  | .physical => "physical"
  | .logical => "logical"
  | .semantic => "semantic"

def all : List Layer := [.physical, .logical, .semantic]

end Layer

namespace EdgeKind

def name : EdgeKind → String
  | .contains => "contains"
  | .projection => "projection"
  | .join => "join"
  | .joinInput => "join_input"
  | .joinOutput => "join_output"
  | .joinTable => "join_table"
  | .derives => "derives"
  | .dimension => "dimension"
  | .measure => "measure"

def all : List EdgeKind :=
  [.contains, .projection, .join, .joinInput, .joinOutput, .joinTable, .derives, .dimension,
    .measure]

def ofName? (text : String) : Option EdgeKind := all.find? (·.name == text)

end EdgeKind

def GraphNode.type (n : GraphNode) : NodeType := n.detail.type

def GraphNode.layer (n : GraphNode) : Layer := n.type.layer

/-! ## Parts of a graph -/

namespace LineageGraph

def node? (g : LineageGraph) (id : String) : Option GraphNode := g.nodes.find? (·.id == id)

def nodesOfType (g : LineageGraph) (type : NodeType) : List GraphNode :=
  g.nodes.filter (·.type = type)

def edgesOfKind (g : LineageGraph) (kind : EdgeKind) : List GraphEdge :=
  g.edges.filter (·.kind = kind)

def hasEdge (g : LineageGraph) (source target : String) (kind : EdgeKind) : Bool :=
  g.edges.contains ⟨source, target, kind⟩

def layer (g : LineageGraph) (l : Layer) : List GraphNode := g.nodes.filter (·.layer = l)

/-- The ids of the nodes, layer by layer. -/
def hierarchy (g : LineageGraph) : Hierarchy where
  physical := (g.layer .physical).map (·.id)
  logical := (g.layer .logical).map (·.id)
  semantic := (g.layer .semantic).map (·.id)

end LineageGraph

end QueryLineage
