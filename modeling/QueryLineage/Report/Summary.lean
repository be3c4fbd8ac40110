import QueryLineage.Report
import QueryLineage.Text.Split

/-!
# Summaries of reports

A report for the eye: its tables and joins, the predicates and groupings, the output slots, and how
many nodes of each type the graph has.
-/

namespace QueryLineage.LineageReport

/-- A titled section, left out if it has no lines. -/
def section? (title : String) : List String → List String
  | [] => []
  | ls => ["", title ++ ":"] ++ ls

def item (text : String) : String := "  " ++ text

def cteLines (r : LineageReport) : List String :=
  r.ctes.toList.map fun (name, bases) =>
    item (Text.row [(20, name)] (Text.join ", " (bases.map TableName.text)))

def joinRow (id kind left right condition : String) : String :=
  Text.row [(5, id), (8, kind), (30, left), (30, right)] condition

def joinLines (r : LineageReport) : List String :=
  if r.joins.isEmpty then []
  else ["", joinRow "ID" "KIND" "LEFT" "RIGHT" "ON", Text.rule 100] ++ r.joins.map fun j =>
    joinRow j.id j.kind j.leftTable j.rightTable
      (if j.conditionText.isEmpty then "-" else j.conditionText)

def outputLines (o : Outputs) : List String :=
  [Slot.x, .y, .label, .value].filterMap fun s =>
    (o.slot s).map fun expr => item (Text.row [(6, s.name)] expr)

/-- How many nodes of each type there are, in order of the names of the types. -/
def nodeCounts (g : LineageGraph) : List (String × Nat) :=
  let names := g.nodes.map (·.type.name)
  let types : SortedBy (fun s : String => s) := SortedBy.ofList names
  types.toList.map fun t => (t, names.count t)

def countLine (g : LineageGraph) : String :=
  s!"{g.nodes.length} node(s), {g.edges.length} edge(s): "
    ++ Text.join ", " ((nodeCounts g).map fun (type, n) => s!"{n} {type}")

def summary (r : LineageReport) : String :=
  Text.lines (
    s!"Sources ({r.sources.length}):" :: r.sourceNames.map item
      ++ section? "CTEs" r.cteLines
      ++ r.joinLines
      ++ section? "Filters" (r.filters.map item)
      ++ section? "Group by" (r.groupings.map item)
      ++ section? "Outputs" ((r.outputs.map outputLines).getD [])
      ++ ["", countLine r.graph])

end QueryLineage.LineageReport
