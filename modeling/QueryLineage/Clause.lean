import QueryLineage.Json.Reader
import QueryLineage.Text.LowerCase
import QueryLineage.Tree

/-!
# Filters, groupings and output slots

The predicates and grouping expressions of a statement as written, and the projections of its main
select that are aliased to one of the four slots a dashboard reads.
-/

namespace QueryLineage

/-- The predicates of where clauses, then those of having clauses, each in preorder. -/
def Tree.filters (root : Tree) : List String :=
  (root.findAll .whereClause ++ root.findAll .havingClause).map (·.sql)

/-- The expressions of all groupings, in preorder. -/
def Tree.groupings (root : Tree) : List String :=
  (root.findAll .groupClause).flatMap fun g => g.children.map (·.sql)

/-- A place of a dashboard that a projection can fill. -/
inductive Slot
  | x | y | label | value
deriving DecidableEq

/-- The alias that fills a slot, in small letters. -/
def Slot.name : Slot → String
  | .x => "x"
  | .y => "y"
  | .label => "label"
  | .value => "value"

structure Outputs where
  x : Option String := none
  y : Option String := none
  label : Option String := none
  value : Option String := none
deriving DecidableEq

namespace Outputs

def slot (o : Outputs) : Slot → Option String
  | .x => o.x
  | .y => o.y
  | .label => o.label
  | .value => o.value

/-- The outputs with this in each slot. -/
def ofSlots (f : Slot → Option String) : Outputs := ⟨f .x, f .y, f .label, f .value⟩

/-- Whether every slot is open. -/
def isEmpty (o : Outputs) : Bool := o = {}

def measure (o : Outputs) : Option String := o.value.or o.y

def fieldNames : List String := ["x", "y", "label", "value"]

def toJson (o : Outputs) : Json :=
  .obj (Json.member? "x" .str o.x ++ Json.member? "y" .str o.y
    ++ Json.member? "label" .str o.label ++ Json.member? "value" .str o.value)

def ofJson : Json.Reader Outputs := fun v => do
  let r ← Json.record fieldNames false v
  let text (name : String) := r.withDefault name (Json.nullable Json.string) none
  return { x := ← text "x", y := ← text "y", label := ← text "label", value := ← text "value" }

end Outputs

/-- The expression of a projection whose alias, in any case, fills a slot. -/
def Tree.fills? (s : Slot) (projection : Tree) : Option String := do
  let aliasName ← projection.projectionAlias?
  let expr ← projection.children.head?
  if Text.lower aliasName = s.name then some expr.sql else none

/-- What fills the slots: in each the first projection of the main select that can. -/
def Tree.outputs (root : Tree) : Outputs :=
  match root.mainSelect? with
  | some select => Outputs.ofSlots fun s => select.projections.findSome? (Tree.fills? s)
  | none => {}

end QueryLineage
