import QueryLineage.Metadata.Provider
import QueryLineage.Text.Basic

/-!
# Catalogs

A catalog holds table metadata by project, dataset and table. A valid one has no two sibling names
that agree up to case, so that each spelling of an address finds at most one table.
-/

namespace QueryLineage

/-- Table metadata by project, dataset and table. -/
structure Catalog where
  projects : Dict (Dict (Dict TableMetadata)) := ∅
deriving DecidableEq

namespace Catalog

inductive NameDefect
  | empty
  | dotted
  | duplicate
deriving DecidableEq

def NameDefect.message : NameDefect → String
  | .empty => "empty identifier"
  | .dotted => "identifier must not contain '.'"
  | .duplicate => "duplicate identifier (case-insensitive)"

/-- The defect of a name after its earlier siblings. -/
def nameDefect? (earlier : List String) (name : String) : Option NameDefect :=
  if Text.isBlankText name then some .empty
  else if name.toList.contains '.' then some .dotted
  else if earlier.any (Text.eqIgnoringCase · name) then some .duplicate
  else none

/-- The first defect among siblings in order, with the name it is in. -/
def firstDefect? (earlier : List String) : List String → Option (String × NameDefect)
  | [] => none
  | name :: rest =>
    match nameDefect? earlier name with
    | some defect => some (name, defect)
    | none => firstDefect? (name :: earlier) rest

/-- A name in a catalog that cannot be used, by its dotted path. -/
structure InvalidEntry where
  entry : String
  defect : NameDefect
deriving DecidableEq

def InvalidEntry.message (e : InvalidEntry) : String :=
  s!"[M004] Invalid catalog entry '{e.entry}': {e.defect.message}"

/-- Checks siblings under the dotted path of their parent. -/
def checkNames (parent : List String) (names : List String) : Except InvalidEntry Unit :=
  match firstDefect? [] names with
  | some (name, defect) => .error ⟨Text.join "." (parent ++ [name]), defect⟩
  | none => .ok ()

/-- Checks every name: the projects, then project by project the datasets and their tables. -/
def validate (c : Catalog) : Except InvalidEntry Unit := do
  checkNames [] c.projects.keys
  c.projects.toList.forM fun (project, datasets) => do
    checkNames [project] datasets.keys
    datasets.toList.forM fun (dataset, tables) =>
      checkNames [project, dataset] tables.keys

/-- The metadata of a table, each part of its address matched ignoring case. -/
def get? (c : Catalog) (k : TableKey) : Option TableMetadata := do
  let datasets ← c.projects.findIgnoringCase? k.project
  let tables ← datasets.findIgnoringCase? k.dataset
  tables.findIgnoringCase? k.table

/-- The catalog with a table put under exactly this address. -/
def insert (c : Catalog) (k : TableKey) (m : TableMetadata) : Catalog :=
  let datasets := (c.projects.find? k.project).getD ∅
  let tables := (datasets.find? k.dataset).getD ∅
  ⟨c.projects.put k.project (datasets.put k.dataset (tables.put k.table m))⟩

def keys (c : Catalog) : List TableKey :=
  c.projects.toList.flatMap fun (p, datasets) =>
    datasets.toList.flatMap fun (d, tables) => tables.keys.map fun t => ⟨p, d, t⟩

def tableCount (c : Catalog) : Nat := c.keys.length

def tableNames (c : Catalog) : List String :=
  (c.keys.map TableKey.text).mergeSort (fun a b => decide (a ≤ b))

/-- A catalog answers for the tables it holds. -/
def answer (c : Catalog) (k : TableKey) : MetadataAnswer :=
  match c.get? k with
  | some m => .ok m
  | none => .error (.notFound k)

def toJson (c : Catalog) : Json :=
  let level {α : Type} (f : α → Json) (d : Dict α) : Json :=
    .obj (d.toList.map fun e => (e.1, f e.2))
  .obj [("projects", level (level (level TableMetadata.toJson)) c.projects)]

def ofYaml : Yaml.Reader Catalog := fun v => do
  let es ← v.record ["projects"] true
  let tables := Yaml.dict TableMetadata.ofYaml
  return ⟨← Yaml.withDefault es "projects" (Yaml.dict (Yaml.dict tables)) ∅⟩

end Catalog

end QueryLineage
