import QueryLineage.Graph
import QueryLineage.SortedBy

/-!
# Building a graph

A graph grows by nodes and edges. The first node of an id stays, whatever comes later under the same
id; an edge is taken only if both its ends are there. With `dedupe` an edge is taken once. An index
tells where the node of an id stands, so that no question about an id goes through the nodes.
-/

namespace QueryLineage

/-- A graph under construction. -/
structure GraphBuilder where
  /-- Whether an edge that is there already is left out. -/
  dedupe : Bool
  nodes : List GraphNode := []
  /-- The place of each id among the nodes. -/
  index : Dict Nat := ∅
  edges : List GraphEdge := []
  /-- The edges that were taken, as far as repetitions are left out. -/
  seen : List GraphEdge := []
deriving DecidableEq

namespace GraphBuilder

def node? (b : GraphBuilder) (id : String) : Option GraphNode :=
  (b.index.find? id).bind fun place => b.nodes[place]?

/-- Whether an id is taken. -/
def hasNode (b : GraphBuilder) (id : String) : Bool := b.index.hasKey id

/-- The graph with a node, unless its id is taken. -/
def addNode (n : GraphNode) (b : GraphBuilder) : GraphBuilder :=
  if b.hasNode n.id then b
  else { b with index := b.index.put n.id b.nodes.length, nodes := b.nodes ++ [n] }

/-- The graph with an edge, unless it is a repetition that is left out. -/
def takeEdge (e : GraphEdge) (b : GraphBuilder) : GraphBuilder :=
  if b.dedupe then
    if e ∈ b.seen then b else { b with seen := e :: b.seen, edges := b.edges ++ [e] }
  else { b with edges := b.edges ++ [e] }

/-- The graph with an edge, if both its ends are there. -/
def addEdge (source target : String) (kind : EdgeKind) (b : GraphBuilder) : GraphBuilder :=
  if b.hasNode source && b.hasNode target then b.takeEdge ⟨source, target, kind⟩ else b

/-- Takes the items of a list one after another. -/
def forEach {α : Type} (items : List α) (f : α → GraphBuilder → GraphBuilder)
    (b : GraphBuilder) : GraphBuilder :=
  items.foldl (fun b a => f a b) b

def graph (b : GraphBuilder) : LineageGraph := { nodes := b.nodes, edges := b.edges }

end GraphBuilder

end QueryLineage
