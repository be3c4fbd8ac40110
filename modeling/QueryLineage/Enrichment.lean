import QueryLineage.Graph
import QueryLineage.Metadata.Provider

/-!
# Enriching a graph

Table nodes take row counts and column nodes take types, descriptions and privacy flags from a
provider. A table is asked for once, by the text of its name; where there is no answer the node
stays as it is.
-/

namespace QueryLineage

namespace Enrichment

variable {σ : Type}

/-- What has been learnt about tables by the texts of their names, the latest first. -/
abbrev Memo := List (String × Option TableMetadata)

/-- The metadata of the table with this name, if the provider has it. Only a name of three parts can
be asked for. -/
def ask (p : Provider σ) (table : String) : StateM σ (Option TableMetadata) :=
  match (TableName.parse table).toOption.bind TableKey.ofName? with
  | some key => do return (← p key).toOption
  | none => pure none

/-- The metadata of a table, asked for once. -/
def metadataOf (p : Provider σ) (table : String) :
    StateM (Memo × σ) (Option TableMetadata) := fun (memo, s) =>
  match memo.lookup table with
  | some known => (known, memo, s)
  | none =>
    let (found, s) := (ask p table).run s
    (found, (table, found) :: memo, s)

/-- The table whose metadata a node needs. -/
def tableOf? (n : GraphNode) : Option String :=
  match n.detail with
  | .table .. => some n.id
  | .column table .. => table
  | _ => none

/-- A node with what the metadata of its table says about it. -/
def decorate (m : TableMetadata) (n : GraphNode) : GraphNode :=
  match n.detail with
  | .table database schema _ => { n with detail := .table database schema m.rowCount }
  | .column table _ _ _ =>
    match m.column n.label with
    | some c => { n with detail := .column table (some c.dataType) c.description c.pii }
    | none => n
  | _ => n

def enrichNode (p : Provider σ) (n : GraphNode) : StateM (Memo × σ) GraphNode :=
  match tableOf? n with
  | some table => do
    match ← metadataOf p table with
    | some m => return decorate m n
    | none => return n
  | none => pure n

end Enrichment

/-- The graph with what a provider knows about its tables and columns. -/
def LineageGraph.enrich {σ : Type} (p : Provider σ) (g : LineageGraph) :
    StateM σ LineageGraph := fun s =>
  let (nodes, _, s) := (g.nodes.mapM (Enrichment.enrichNode p)).run ([], s)
  ({ g with nodes }, s)

end QueryLineage
