import QueryLineage.CteResolution
import QueryLineage.Report
import QueryLineage.Text.Split

/-!
# Listings of common table expressions

Each expression of a statement with the tables it reads and whether it reaches itself, in order of
the names.
-/

namespace QueryLineage

structure CteRow where
  name : String
  bases : List TableName
  cyclic : Bool
deriving DecidableEq

namespace CteRow

def toJson (r : CteRow) : Json :=
  .obj [("name", .str r.name), ("bases", .arr (r.bases.map TableName.toJson)),
    ("cyclic", .bool r.cyclic)]

def cells (name cyclic bases : String) : String := Text.row [(24, name), (7, cyclic)] bases

def text (r : CteRow) : String :=
  cells r.name (if r.cyclic then "yes" else "no")
    (if r.bases.isEmpty then "-" else Text.join ", " (r.bases.map TableName.text))

/-- The text of a listing. -/
def listing : List CteRow → String
  | [] => Text.lines ["No CTEs found."]
  | rows => Text.lines ([cells "CTE" "CYCLIC" "BASE TABLES", Text.rule 72] ++ rows.map text)

end CteRow

def ResolvedCtes.rows (ctes : ResolvedCtes) : List CteRow :=
  ctes.summary.toList.map fun (name, bases) => ⟨name, bases, ctes.isCyclic name⟩

end QueryLineage
