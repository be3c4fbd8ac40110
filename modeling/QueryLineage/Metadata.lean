import QueryLineage.Json.Reader
import QueryLineage.Text.Basic
import QueryLineage.Yaml

/-!
# Table metadata

What is known about a physical table: its row count and its columns. Names are matched ignoring the
case of ASCII letters, an exact match first.
-/

namespace QueryLineage

/-- The value whose key is exactly `k`, else the first whose key agrees up to case. -/
def Dict.findIgnoringCase? {α : Type} (d : Dict α) (k : String) : Option α :=
  match d.find? k with
  | some v => some v
  | none => (d.toList.find? (Text.eqIgnoringCase ·.1 k)).map Prod.snd

structure ColumnMetadata where
  dataType : String
  description : Option String := none
  pii : Bool := false
deriving DecidableEq

structure TableMetadata where
  rowCount : Option Nat := none
  columns : Dict ColumnMetadata := ∅
deriving DecidableEq

namespace ColumnMetadata

def toJson (c : ColumnMetadata) : Json :=
  .obj ([("type", .str c.dataType)] ++ Json.member? "description" .str c.description
    ++ [("pii", .bool c.pii)])

def fieldNames : List String := ["type", "description", "pii"]

def ofJson : Json.Reader ColumnMetadata := fun v => do
  let r ← Json.record fieldNames false v
  return {
    dataType := ← r.required "type" Json.string
    description := ← r.withDefault "description" (Json.nullable Json.string) none
    pii := ← r.withDefault "pii" Json.boolean false }

def ofYaml : Yaml.Reader ColumnMetadata := fun v => do
  let es ← v.record fieldNames false
  return {
    dataType := ← Yaml.required es "type" Yaml.string
    description := ← Yaml.withDefault es "description" (Yaml.nullable Yaml.string) none
    pii := ← Yaml.withDefault es "pii" Yaml.boolean false }

end ColumnMetadata

namespace TableMetadata

def column (m : TableMetadata) (name : String) : Option ColumnMetadata :=
  m.columns.findIgnoringCase? name

def toJson (m : TableMetadata) : Json :=
  .obj (Json.member? "row_count" Json.nat m.rowCount
    ++ [("columns", .obj (m.columns.toList.map fun e => (e.1, e.2.toJson)))])

def fieldNames : List String := ["row_count", "columns"]

def ofJson : Json.Reader TableMetadata := fun v => do
  let r ← Json.record fieldNames false v
  return {
    rowCount := ← r.withDefault "row_count" (Json.nullable Json.count) none
    columns := ← r.withDefault "columns" (Json.dict ColumnMetadata.ofJson) ∅ }

def ofYaml : Yaml.Reader TableMetadata := fun v => do
  let es ← v.record fieldNames false
  return {
    rowCount := ← Yaml.withDefault es "row_count" (Yaml.nullable Yaml.count) none
    columns := ← Yaml.withDefault es "columns" (Yaml.dict ColumnMetadata.ofYaml) ∅ }

end TableMetadata

end QueryLineage
