import QueryLineage.Dialect
import QueryLineage.Files
import QueryLineage.Json.Reader
import QueryLineage.TableName
import QueryLineage.Yaml

/-!
# Configuration

A project's settings, each with a value to take when it is left out. `Config.validate` accepts those
a file may hold; settings from elsewhere are used as they are.
-/

namespace QueryLineage

/-- Who and what a result is stamped with. -/
structure GovernanceConfig where
  createdBy : String := "strata"
  lineageVersion : String := "1.0"
  owner : String := "unassigned"
deriving DecidableEq

structure Config where
  dialect : Dialect := .bigquery
  defaultProject : Option String := none
  defaultDataset : Option String := none
  qualifyColumns : Bool := true
  dedupeEdges : Bool := true
  joinLabelWidth : Nat := 48
  governance : GovernanceConfig := {}
  catalog : Option String := none
deriving DecidableEq

namespace GovernanceConfig

def fieldNames : List String := ["created_by", "lineage_version", "owner"]

def ofJson : Json.Reader GovernanceConfig := fun v => do
  let r ← Json.record fieldNames true v
  let d : GovernanceConfig := {}
  return {
    createdBy := ← r.withDefault "created_by" Json.string d.createdBy
    lineageVersion := ← r.withDefault "lineage_version" Json.string d.lineageVersion
    owner := ← r.withDefault "owner" Json.string d.owner }

def ofYaml : Yaml.Reader GovernanceConfig := fun v => do
  let es ← v.record fieldNames true
  let d : GovernanceConfig := {}
  return {
    createdBy := ← Yaml.withDefault es "created_by" Yaml.string d.createdBy
    lineageVersion := ← Yaml.withDefault es "lineage_version" Yaml.string d.lineageVersion
    owner := ← Yaml.withDefault es "owner" Yaml.string d.owner }

def toJson (g : GovernanceConfig) : Json :=
  .obj [("created_by", .str g.createdBy), ("lineage_version", .str g.lineageVersion),
    ("owner", .str g.owner)]

end GovernanceConfig

namespace Config

/-! ## Reading -/

def fieldNames : List String :=
  ["dialect", "default_project", "default_dataset", "qualify_columns", "dedupe_edges",
    "join_label_width", "governance", "catalog"]

def ofJson : Json.Reader Config := fun v => do
  let r ← Json.record fieldNames true v
  let d : Config := {}
  return {
    dialect := ← r.withDefault "dialect" (fun v => Json.choice v >>= Dialect.ofExactName?) d.dialect
    defaultProject := ← r.withDefault "default_project" (Json.nullable Json.string) none
    defaultDataset := ← r.withDefault "default_dataset" (Json.nullable Json.string) none
    qualifyColumns := ← r.withDefault "qualify_columns" Json.boolean d.qualifyColumns
    dedupeEdges := ← r.withDefault "dedupe_edges" Json.boolean d.dedupeEdges
    joinLabelWidth := ← r.withDefault "join_label_width" Json.count d.joinLabelWidth
    governance := ← r.withDefault "governance" GovernanceConfig.ofJson d.governance
    catalog := ← r.withDefault "catalog" (Json.nullable Json.string) none }

def ofYaml : Yaml.Reader Config := fun v => do
  let es ← v.record fieldNames true
  let d : Config := {}
  return {
    dialect := ← Yaml.withDefault es "dialect"
      (fun v => Yaml.string v >>= Dialect.ofExactName?) d.dialect
    defaultProject := ← Yaml.withDefault es "default_project" (Yaml.nullable Yaml.string) none
    defaultDataset := ← Yaml.withDefault es "default_dataset" (Yaml.nullable Yaml.string) none
    qualifyColumns := ← Yaml.withDefault es "qualify_columns" Yaml.boolean d.qualifyColumns
    dedupeEdges := ← Yaml.withDefault es "dedupe_edges" Yaml.boolean d.dedupeEdges
    joinLabelWidth := ← Yaml.withDefault es "join_label_width" Yaml.count d.joinLabelWidth
    governance := ← Yaml.withDefault es "governance" GovernanceConfig.ofYaml d.governance
    catalog := ← Yaml.withDefault es "catalog" (Yaml.nullable Yaml.string) none }

def toJson (c : Config) : Json :=
  .obj [("dialect", .str c.dialect.name), ("default_project", Json.text? c.defaultProject),
    ("default_dataset", Json.text? c.defaultDataset), ("qualify_columns", .bool c.qualifyColumns),
    ("dedupe_edges", .bool c.dedupeEdges), ("join_label_width", Json.nat c.joinLabelWidth),
    ("governance", c.governance.toJson), ("catalog", Json.text? c.catalog)]

/-! ## Validity -/

/-- A setting a file may not hold. -/
inductive Defect
  | narrowJoinLabels (width : Nat)
  | blankLineageVersion
  | badDefault (field : String)
deriving DecidableEq

def minJoinLabelWidth : Nat := 8

def Defect.message : Defect → String
  | .narrowJoinLabels width =>
    s!"join_label_width must be at least {minJoinLabelWidth}, got {width}"
  | .blankLineageVersion => "governance.lineage_version cannot be empty"
  | .badDefault field => s!"{field} must be a single non-empty identifier"

/-- Whether a default is one segment of a table name, or absent. -/
def isSegment : Option String → Bool
  | some s => !Text.isBlankText s && !s.toList.contains '.'
  | none => true

/-- The first defect, if there is one. -/
def validate (c : Config) : Except Defect Unit :=
  if c.joinLabelWidth < minJoinLabelWidth then .error (.narrowJoinLabels c.joinLabelWidth)
  else if Text.isBlankText c.governance.lineageVersion then .error .blankLineageVersion
  else if !isSegment c.defaultProject then .error (.badDefault "default_project")
  else if !isSegment c.defaultDataset then .error (.badDefault "default_dataset")
  else .ok ()

/-! ## Use -/

def tableDefaults (c : Config) : TableDefaults := ⟨c.defaultProject, c.defaultDataset⟩

/-- Where the catalog lies, seen from the directory of the configuration. -/
def catalogPath? (c : Config) (dir : String) : Option String := c.catalog.map (Path.under dir)

end Config

end QueryLineage
