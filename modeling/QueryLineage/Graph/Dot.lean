import QueryLineage.Graph

/-!
# Graphs as DOT text

One cluster a layer, then the edges. Ids and labels stand between quotation marks, with a backslash
before each quotation mark and backslash of their own.
-/

namespace QueryLineage

namespace Dot

/-- How a character stands between quotation marks. -/
def escapeChar : Char → List Char
  | '\\' => ['\\', '\\']
  | '\x22' => ['\\', '\x22']
  | c => [c]

def quote (s : String) : String :=
  "\"" ++ String.ofList (s.toList.flatMap escapeChar) ++ "\""

def shape : NodeType → String
  | .table => "cylinder"
  | .database | .schema => "folder"
  | .column => "box"
  | .join => "diamond"
  | .aggregation => "hexagon"
  | .output => "ellipse"
  | .kpi => "doubleoctagon"

def nodeLine (n : GraphNode) : String :=
  "    " ++ quote n.id ++ " [label=" ++ quote n.label ++ ", shape=" ++ shape n.type ++ "];\n"

def edgeLine (e : GraphEdge) : String :=
  "  " ++ quote e.source ++ " -> " ++ quote e.target ++ " [label=\"" ++ e.kind.name ++ "\"];\n"

def cluster (g : LineageGraph) (l : Layer) : String :=
  "\n  subgraph cluster_" ++ l.name ++ " \x7b\n    label=\"" ++ l.name ++ "\";\n"
    ++ String.join ((g.layer l).map nodeLine) ++ "  \x7d\n"

end Dot

def LineageGraph.toDot (g : LineageGraph) : String :=
  "digraph lineage \x7b\n  rankdir=LR;\n  node [shape=box];\n"
    ++ String.join (Layer.all.map (Dot.cluster g))
    ++ "\n" ++ String.join (g.edges.map Dot.edgeLine) ++ "\x7d\n"

end QueryLineage
