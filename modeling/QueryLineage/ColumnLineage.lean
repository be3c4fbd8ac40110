import QueryLineage.Join
import QueryLineage.Text.Word

/-!
# Column lineage

Which columns a named projection of the main select is computed from, and which columns the
equalities of joins put together. A projection that is a bare column under its own name adds nothing
but its name.
-/

namespace QueryLineage

/-! ## Texts of column references -/

/-- How far the text of a column reference has been read. -/
inductive ColumnText
  /-- At the start of a part of the path. -/
  | start (first : Bool)
  /-- In a bare part. -/
  | bare (first : Bool)
  /-- In a part in quotation marks. -/
  | quoted (mark : Char) (empty : Bool)
  /-- Past a closing quotation mark. -/
  | closed
  /-- The text is no column reference. -/
  | broken
deriving DecidableEq

namespace ColumnText

/-- A character that starts a bare part. -/
def startsBare (c : Char) : Bool := c.isAlpha || c == '_'

/-- Reads one character. Only the first part of a path may hold dashes. -/
def step : ColumnText → Char → ColumnText
  | .start first, c =>
    if startsBare c then .bare first
    else if c = '\x60' ∨ c = '\x22' then .quoted c true
    else .broken
  | .bare first, c =>
    if c = '.' then .start false
    else if Text.isWord c ∨ (first ∧ c = '-') then .bare first
    else .broken
  | .quoted mark empty, c =>
    if c = mark then (if empty then .broken else .closed) else .quoted mark false
  | .closed, c => if c = '.' then .start false else .broken
  | .broken, _ => .broken

/-- Whether a text that ends here is a column reference. -/
def isComplete : ColumnText → Bool
  | .bare _ | .closed => true
  | _ => false

end ColumnText

/-- The words that look like columns and are constants. -/
def constantWords : List String := ["true", "false", "null"]

/-- Whether a text is that of a column reference, rather than of a constant or an expression. -/
def isColumnText (text : String) : Bool :=
  !constantWords.any (Text.eqIgnoringCase · text)
    && (text.toList.foldl ColumnText.step (.start true)).isComplete

/-! ## Collecting -/

structure ColumnLineage where
  /-- Every column on an edge, in order of first use. -/
  columns : List String
  /-- The names of the projections, in order. -/
  outputs : List String
  /-- From a column to the output computed from it. -/
  projectionEdges : List (String × String)
  /-- Between the two sides of an equality of a join. -/
  joinEdges : List (String × String)
deriving DecidableEq

namespace ColumnLineage

def namedProjections (root : Tree) : List (String × Tree) :=
  match root.mainSelect? with
  | some select => select.projections.filterMap fun p => p.projectionName?.map (·, p)
  | none => []

def edgesInto (name : String) (projection : Tree) : List (String × String) :=
  (projection.scopeColumns.filter (·.sql ≠ name)).map fun c => (c.sql, name)

/-- The equalities of a join with a column on either side. -/
def columnPairs (j : JoinRecord) : List (String × String) :=
  j.equalityPairs.filter fun p => isColumnText p.1 && isColumnText p.2

/-- The columns, outputs and edges of a statement with these joins. -/
def ofTree (root : Tree) (joins : List JoinRecord) : ColumnLineage :=
  let projections := namedProjections root
  let projectionEdges := projections.flatMap fun (name, p) => edgesInto name p
  let joinEdges := joins.flatMap columnPairs
  { columns := (projectionEdges.map Prod.fst ++ joinEdges.flatMap fun p => [p.1, p.2]).eraseDups
    outputs := (projections.map Prod.fst).eraseDups
    projectionEdges
    joinEdges }

end ColumnLineage

end QueryLineage
