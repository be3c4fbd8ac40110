import QueryLineage.Proofs.ColumnEdges

/-!
# What an id stands for

Tables, outputs and columns share one space of ids, and the first node of an id stays. So what an id
stands for in the end is told by the first stage that comes with it: a table or what contains one,
then an output, then a column (`Assembly.type_of_mem_tableIds` and the two after it). `Enters` keeps
account of the ids that a part of the assembly comes with.

The edges of the column lineage go by ids alone. `Analysis.lineage_ends` tells of each of them what
its ends are: columns and outputs, as they are meant, unless the name of a column or an output is
taken by one of an earlier stage.
-/

namespace QueryLineage

/-! ## Ids that come -/

namespace GraphBuilder

variable {b c d : GraphBuilder}

/-- The node of an id stays: what has the id later had it before. Ids are distinct in the end, so it
is the node that had the id at first. -/
theorem GrowsTo.mem_nodes_of_mem_ids (h : b.GrowsTo c) (hc : c.Consistent) {n : GraphNode}
    (hn : n ∈ c.nodes) (hid : n.id ∈ b.ids) : n ∈ b.nodes := by
  obtain ⟨m, hm, hsame⟩ := List.mem_map.mp hid
  have hfirst := hc.node?_eq_some_iff.mpr ⟨h.mem_nodes hm, hsame⟩
  obtain rfl := Option.some.inj (hfirst.symm.trans (hc.node?_eq_some_iff.mpr ⟨hn, rfl⟩))
  exact hm

/-- What an id stands for came with the calls that first came with the id. -/
theorem GrowsBy.of_first {P : GraphNode → Prop} (h : GrowsBy P b c) (hlater : c.GrowsTo d)
    (hd : d.Consistent) {n : GraphNode} (hn : n ∈ d.nodes) (hnew : n.id ∉ b.ids)
    (hid : n.id ∈ c.ids) : P n := by
  rcases h.mem_nodes (hlater.mem_nodes_of_mem_ids hd hn hid) with hbefore | hP
  · exact absurd (List.mem_map_of_mem hbefore) hnew
  · exact hP

/-- From `b` to `c` these ids come, and no others. Some may have been there before. -/
structure Enters (new : List String) (b c : GraphBuilder) : Prop where
  consistent : c.Consistent
  mem_ids_iff : ∀ id, id ∈ c.ids ↔ id ∈ b.ids ∨ id ∈ new

namespace Enters

variable {new later : List String}

theorem refl (hb : b.Consistent) : Enters [] b b := ⟨hb, by simp⟩

theorem trans (h : Enters new b c) (h' : Enters later c d) : Enters (new ++ later) b d where
  consistent := h'.consistent
  mem_ids_iff id := by rw [h'.mem_ids_iff, h.mem_ids_iff, List.mem_append, or_assoc]

theorem addNode (h : Enters new b c) (n : GraphNode) : Enters (new ++ [n.id]) b (c.addNode n) :=
  h.trans ⟨h.consistent.addNode n, fun id => by
    rw [mem_ids_addNode_iff h.consistent, List.mem_singleton]⟩

theorem addEdge (h : Enters new b c) (source target : String) (kind : EdgeKind) :
    Enters new b (c.addEdge source target kind) where
  consistent := h.consistent.addEdge source target kind
  mem_ids_iff id := by rw [ids_addEdge, h.mem_ids_iff]

theorem forEach {α : Type} {key : α → List String} (hb : b.Consistent) {items : List α}
    {f : α → GraphBuilder → GraphBuilder}
    (hf : ∀ a ∈ items, ∀ d : GraphBuilder, d.Consistent → Enters (key a) d (f a d)) :
    Enters (items.flatMap key) b (b.forEach items f) := by
  induction items generalizing b with
  | nil => exact refl hb
  | cons a rest ih =>
      have hfirst := hf a List.mem_cons_self b hb
      exact hfirst.trans (ih hfirst.consistent fun a ha => hf a (List.mem_cons_of_mem _ ha))

theorem forEach_addEdge {α : Type} (h : Enters new b c) (items : List α)
    (source target : α → String) (kind : EdgeKind) :
    Enters new b (c.forEach items fun a => GraphBuilder.addEdge (source a) (target a) kind) := by
  have hedges : Enters (items.flatMap fun _ => []) c
      (c.forEach items fun a => GraphBuilder.addEdge (source a) (target a) kind) :=
    .forEach h.consistent fun a _ d hd => (refl hd).addEdge (source a) (target a) kind
  have hnone : items.flatMap (fun _ => ([] : List String)) = [] := by simp
  exact List.append_nil new ▸ hnone ▸ h.trans hedges

end Enters

end GraphBuilder

/-! ## The ids of tables -/

/-- The ids of the database and the schema that contain a table, as far as they are known. -/
def TableName.containerIds (t : TableName) : List String :=
  match t.dataset with
  | none => []
  | some dataset => (t.project.map databaseId).toList ++ [schemaId t.project dataset]

/-- The ids that tables come with: their names, and those of what contains them. -/
def tableIds (sources : TableName.Set) : List String :=
  sources.toList.map TableName.text ++ sources.toList.flatMap TableName.containerIds

namespace Assembly

open GraphBuilder

variable {i : AssemblyInput} {b : GraphBuilder}

theorem enters_addContainers (t : TableName) (hb : b.Consistent) :
    Enters t.containerIds b (addContainers t b) := by
  unfold addContainers TableName.containerIds
  cases t.dataset with
  | none => exact .refl hb
  | some dataset =>
      refine Enters.addEdge ?_ _ _ _
      cases t.project with
      | none => exact (Enters.refl hb).addNode ⟨schemaId none dataset, dataset, .schema⟩
      | some project =>
          have hdatabase := (Enters.refl hb).addNode ⟨databaseId project, project, .database⟩
          exact (hdatabase.addNode ⟨schemaId (some project) dataset, dataset, .schema⟩).addEdge ..

theorem enters_addTables (sources : TableName.Set) (hb : b.Consistent) :
    Enters (tableIds sources) b (addTables sources b) := by
  have htables : Enters (sources.toList.flatMap fun t => [t.text]) b
      (b.forEach sources.toList fun t => GraphBuilder.addNode (tableNode t)) :=
    .forEach hb fun t _ d hd => (Enters.refl hd).addNode (tableNode t)
  rw [← List.map_eq_flatMap] at htables
  exact htables.trans (.forEach htables.consistent fun t _ d hd => enters_addContainers t hd)

theorem enters_ensureColumn (rs : Relations) (id : String) (hb : b.Consistent) :
    Enters [id] b (ensureColumn rs id b) := by
  unfold ensureColumn
  split
  · rename_i hnode
    refine ⟨hb, fun id' => ?_⟩
    rw [List.mem_singleton]
    exact (or_iff_left_of_imp fun h => h ▸ (hb.hasNode_iff id).mp hnode).symm
  · exact ((Enters.refl hb).addNode (columnNode id (ownersOf rs b id))).forEach_addEdge _ _ _ _

/-- The graph with the outputs. -/
def published (columns : ColumnLineage) (b : GraphBuilder) : GraphBuilder :=
  b.forEach columns.outputs fun name => GraphBuilder.addNode ⟨name, name, .output⟩

theorem enters_published (columns : ColumnLineage) (hb : b.Consistent) :
    Enters columns.outputs b (published columns b) := by
  have houtputs : Enters (columns.outputs.flatMap fun name => [name]) b (published columns b) :=
    .forEach hb fun name _ d hd => (Enters.refl hd).addNode ⟨name, name, .output⟩
  rwa [List.flatMap_singleton'] at houtputs

theorem enters_entered (rs : Relations) (columns : ColumnLineage) (hb : b.Consistent) :
    Enters columns.columns (published columns b) (entered rs columns b) := by
  have hcolumns : Enters (columns.columns.flatMap fun id => [id]) (published columns b)
      (entered rs columns b) :=
    .forEach (enters_published columns hb).consistent fun id _ d hd => enters_ensureColumn rs id hd
  rwa [List.flatMap_singleton'] at hcolumns

/-! ## What comes first -/

theorem growsTo_build_of_named (i : AssemblyInput) : (named i).GrowsTo (build i) :=
  (growsBy_joined i).growsTo.trans (growsTo_build_of_joined i)

theorem growsBy_named (i : AssemblyInput) :
    GrowsBy (fun _ => False) (projected i.relations i.columns (tabled i)) (named i) :=
  (GrowsBy.refl _).forEach_addEdge _ _ _ _

theorem growsTo_build_of_projected (i : AssemblyInput) :
    (projected i.relations i.columns (tabled i)).GrowsTo (build i) :=
  (growsBy_named i).growsTo.trans (growsTo_build_of_named i)

theorem growsTo_build_of_entered (i : AssemblyInput) :
    (entered i.relations i.columns (tabled i)).GrowsTo (build i) :=
  (growsBy_projected i.relations i.columns (tabled i)).growsTo.trans (growsTo_build_of_projected i)

theorem growsBy_published (columns : ColumnLineage) (b : GraphBuilder) :
    GrowsBy (fun n => n.type = .output) b (published columns b) :=
  (GrowsBy.refl b).forEach fun _ _ d => (GrowsBy.refl d).addNode rfl

theorem growsBy_entered (rs : Relations) (columns : ColumnLineage) (b : GraphBuilder) :
    GrowsBy (fun n => n.type = .column) (published columns b) (entered rs columns b) :=
  (GrowsBy.refl _).forEach fun id _ d => (growsBy_ensureColumn rs id d).mono fun _ h => h.2

theorem mem_ids_tabled_iff {id : String} :
    id ∈ (tabled i).ids ↔ id ∈ tableIds i.relations.sources :=
  ((enters_addTables _ (consistent_fresh _)).mem_ids_iff id).trans (or_iff_right List.not_mem_nil)

theorem mem_ids_published_iff {id : String} :
    id ∈ (published i.columns (tabled i)).ids
      ↔ id ∈ tableIds i.relations.sources ∨ id ∈ i.columns.outputs := by
  rw [(enters_published i.columns (consistent_tabled i)).mem_ids_iff, mem_ids_tabled_iff]

theorem mem_ids_entered_iff {id : String} :
    id ∈ (entered i.relations i.columns (tabled i)).ids
      ↔ (id ∈ tableIds i.relations.sources ∨ id ∈ i.columns.outputs) ∨ id ∈ i.columns.columns := by
  rw [(enters_entered i.relations i.columns (consistent_tabled i)).mem_ids_iff,
    mem_ids_published_iff]

section Types

variable {n : GraphNode} (hn : n ∈ (build i).nodes)

include hn

theorem type_of_mem_tableIds (hid : n.id ∈ tableIds i.relations.sources) :
    n.type = .table ∨ n.type = .schema ∨ n.type = .database := by
  have htabled := (growsAlike_build i).growsTo.mem_nodes_of_mem_ids (consistent_build i) hn
    (mem_ids_tabled_iff.mpr hid)
  rcases (growsAlike_tabled i).mem_nodes htabled with hnone | ⟨_, -, -, hcall⟩
  · cases hnone
  · rcases hcall.of_addNode with ⟨t, -, rfl⟩ | hcontainer
    · exact .inl rfl
    · cases hcontainer with
      | database project => exact .inr (.inr rfl)
      | schema project dataset => exact .inr (.inl rfl)

theorem type_of_mem_outputs (hnew : n.id ∉ tableIds i.relations.sources)
    (hid : n.id ∈ i.columns.outputs) : n.type = .output := by
  have hlater : (published i.columns (tabled i)).GrowsTo (build i) :=
    (growsBy_entered i.relations i.columns (tabled i)).growsTo.trans (growsTo_build_of_entered i)
  exact (growsBy_published i.columns (tabled i)).of_first hlater (consistent_build i) hn
    (fun h => hnew (mem_ids_tabled_iff.mp h)) (mem_ids_published_iff.mpr (.inr hid))

theorem type_of_mem_columns (hnew : n.id ∉ tableIds i.relations.sources)
    (hother : n.id ∉ i.columns.outputs) (hid : n.id ∈ i.columns.columns) : n.type = .column :=
  (growsBy_entered i.relations i.columns (tabled i)).of_first (growsTo_build_of_entered i)
    (consistent_build i) hn (fun h => (mem_ids_published_iff.mp h).elim hnew hother)
    (mem_ids_entered_iff.mpr (.inr hid))

theorem not_mem_tableIds_of_type (htype : n.type = .output ∨ n.type = .column) :
    n.id ∉ tableIds i.relations.sources := by
  intro hid
  rcases type_of_mem_tableIds hn hid with h | h | h <;> rw [h] at htype <;>
    exact htype.elim nofun nofun

theorem not_mem_outputs_of_type (htype : n.type = .column) : n.id ∉ i.columns.outputs := by
  intro hid
  cases htype.symm.trans (type_of_mem_outputs hn (not_mem_tableIds_of_type hn (.inr htype)) hid)

theorem type_eq_output_iff (hid : n.id ∈ i.columns.outputs) :
    n.type = .output ↔ n.id ∉ tableIds i.relations.sources :=
  ⟨fun htype => not_mem_tableIds_of_type hn (.inl htype),
    fun hnew => type_of_mem_outputs hn hnew hid⟩

theorem type_eq_column_iff (hid : n.id ∈ i.columns.columns) :
    n.type = .column ↔ n.id ∉ tableIds i.relations.sources ∧ n.id ∉ i.columns.outputs :=
  ⟨fun htype => ⟨not_mem_tableIds_of_type hn (.inr htype), not_mem_outputs_of_type hn htype⟩,
    fun hnew => type_of_mem_columns hn hnew.1 hnew.2 hid⟩

end Types

/-! ## The edges of the lineage -/

/-- Of the calls after the tables, those for edges of the lineage are for the edges it names. -/
theorem LaterCall.of_lineage {d : GraphBuilder} {source target : String} {kind : EdgeKind}
    (h : LaterCall i d (.addEdge source target kind)) :
    (kind = .projection → (source, target) ∈ i.columns.projectionEdges)
      ∧ (kind = .join → (source, target) ∈ i.columns.joinEdges) := by
  cases h with
  | name h => cases h with
    | column _ h => cases h; exact ⟨nofun, nofun⟩
    | projection he => exact ⟨fun _ => he, nofun⟩
    | derives _ _ => exact ⟨nofun, nofun⟩
    | join he => exact ⟨nofun, fun _ => he⟩
  | join h => cases h <;> exact ⟨nofun, nofun⟩
  | kpi h => cases h with
    | column _ h => cases h; exact ⟨nofun, nofun⟩
    | measure _ _ => exact ⟨nofun, nofun⟩
    | joined _ _ => exact ⟨nofun, nofun⟩
    | derives _ => exact ⟨nofun, nofun⟩
    | dimension _ => exact ⟨nofun, nofun⟩

theorem of_mem_edges_build {e : GraphEdge} (he : e ∈ (build i).edges) :
    (e.kind = .projection → (e.source, e.target) ∈ i.columns.projectionEdges)
      ∧ (e.kind = .join → (e.source, e.target) ∈ i.columns.joinEdges) := by
  rcases (growsAlike_build i).mem_edges he with he | ⟨d, hcall⟩
  · rcases (growsAlike_tabled i).mem_edges he with he | ⟨d, hcall⟩
    · cases he
    · rw [hcall.kind_eq]
      exact ⟨nofun, nofun⟩
  · exact hcall.of_lineage

theorem mem_ids_entered {id : String} (hid : id ∈ i.columns.outputs ∨ id ∈ i.columns.columns) :
    id ∈ (entered i.relations i.columns (tabled i)).ids :=
  mem_ids_entered_iff.mpr (hid.imp_left .inr)

/-- An edge that one round of a loop of edges is for, between ids that are there from the start.
When its round comes both ends are there, so it is taken, and it stays. -/
theorem mem_edges_forEach_of_mem_ids {α : Type} {items : List α}
    {f : α → GraphBuilder → GraphBuilder} (hb : b.Consistent) (edge : α → GraphEdge)
    (hf : ∀ a ∈ items, ∀ d : GraphBuilder,
      (d.addEdge (edge a).source (edge a).target (edge a).kind).GrowsTo (f a d))
    {a : α} (ha : a ∈ items) (hsource : (edge a).source ∈ b.ids)
    (htarget : (edge a).target ∈ b.ids) :
    edge a ∈ (b.forEach items f).edges := by
  have hround : ∀ a ∈ items, ∀ d : GraphBuilder, d.GrowsTo (f a d) := fun a ha d =>
    (GrowsTo.addEdge d _ _ _).trans (hf a ha d)
  refine mem_edges_forEach hround ha fun d hd => (hf a ha d).mem_edges ?_
  have hedge := Brings.addEdge (hd.consistent hb) (hd.mem_ids hsource) (hd.mem_ids htarget)
    (edge a).kind
  exact (hedge.mem_edges_iff _).mpr (.inr rfl)

theorem consistent_entered (i : AssemblyInput) :
    (entered i.relations i.columns (tabled i)).Consistent :=
  (enters_entered i.relations i.columns (consistent_tabled i)).consistent

theorem growsTo_addProjection (rs : Relations) (column output : String) (b : GraphBuilder) :
    (b.addEdge column output .projection).GrowsTo (addProjection rs column output b) := by
  simp only [addProjection]
  exact ((GrowsBy.refl (P := fun _ => False) _).forEach_addEdge _ TableName.text (fun _ => output)
    .derives).growsTo

theorem mem_edges_projection_iff (hcovers : i.columns.CoversEnds) {source target : String} :
    ⟨source, target, .projection⟩ ∈ (build i).edges
      ↔ (source, target) ∈ i.columns.projectionEdges := by
  refine ⟨fun he => (of_mem_edges_build he).1 rfl, fun he => ?_⟩
  have hsource : source ∈ (entered i.relations i.columns (tabled i)).ids :=
    mem_ids_entered (.inr ((hcovers.mem_columns_iff source).mpr (.inl ⟨_, he, rfl⟩)))
  have htarget : target ∈ (entered i.relations i.columns (tabled i)).ids :=
    mem_ids_entered (.inl (hcovers.mem_outputs _ he))
  have hrounds : ∀ e ∈ i.columns.projectionEdges, ∀ d : GraphBuilder,
      (d.addEdge e.1 e.2 .projection).GrowsTo (addProjection i.relations e.1 e.2 d) :=
    fun e _ d => growsTo_addProjection i.relations e.1 e.2 d
  have hprojected := mem_edges_forEach_of_mem_ids (consistent_entered i)
    (fun e => ⟨e.1, e.2, .projection⟩) hrounds he hsource htarget
  exact (growsTo_build_of_projected i).mem_edges hprojected

theorem mem_edges_join_iff (hcovers : i.columns.CoversEnds) {source target : String} :
    ⟨source, target, .join⟩ ∈ (build i).edges ↔ (source, target) ∈ i.columns.joinEdges := by
  refine ⟨fun he => (of_mem_edges_build he).2 rfl, fun he => ?_⟩
  have hprojected := (growsBy_projected i.relations i.columns (tabled i)).growsTo
  have hcolumn : ∀ {id}, (∃ e ∈ i.columns.joinEdges, id = e.1 ∨ id = e.2) →
      id ∈ (projected i.relations i.columns (tabled i)).ids := fun h =>
    hprojected.mem_ids (mem_ids_entered (.inr ((hcovers.mem_columns_iff _).mpr (.inr h))))
  have hrounds : ∀ e ∈ i.columns.joinEdges, ∀ d : GraphBuilder,
      (d.addEdge e.1 e.2 .join).GrowsTo (d.addEdge e.1 e.2 .join) := fun _ _ _ => .refl _
  have hnamed := mem_edges_forEach_of_mem_ids (hprojected.consistent (consistent_entered i))
    (fun e => ⟨e.1, e.2, .join⟩) hrounds he (hcolumn ⟨_, he, .inl rfl⟩)
    (hcolumn ⟨_, he, .inr rfl⟩)
  exact (growsTo_build_of_named i).mem_edges hnamed

end Assembly

/-! ## The ends of the lineage -/

/-- What stands under the id is of this type. -/
def LineageGraph.HasOfType (g : LineageGraph) (id : String) (type : NodeType) : Prop :=
  ∃ n ∈ g.nodes, n.id = id ∧ n.type = type

theorem GraphNode.Decorates.hasOfType_iff {g g' : LineageGraph}
    (h : List.Forall₂ Decorates g.nodes g'.nodes) (id : String) (type : NodeType) :
    g'.HasOfType id type ↔ g.HasOfType id type := by
  constructor
  · rintro ⟨n', hn', rfl, rfl⟩
    obtain ⟨n, hn, hnn'⟩ := exists_of_mem_forall₂ h hn'
    exact ⟨n, hn, hnn'.id_eq.symm, hnn'.type_eq.symm⟩
  · rintro ⟨n, hn, rfl, rfl⟩
    obtain ⟨n', hn', hnn'⟩ := exists_of_mem_forall₂ h.flip hn
    exact ⟨n', hn', hnn'.id_eq, hnn'.type_eq⟩

namespace Assembly

theorem exists_node_of_entered {id : String}
    (hid : id ∈ i.columns.outputs ∨ id ∈ i.columns.columns) : ∃ n ∈ (build i).nodes, n.id = id :=
  List.mem_map.mp ((growsTo_build_of_entered i).mem_ids (mem_ids_entered hid))

theorem hasOfType_output_iff {id : String} (hid : id ∈ i.columns.outputs) :
    (assembleGraph i).HasOfType id .output ↔ id ∉ tableIds i.relations.sources := by
  constructor
  · rintro ⟨n, hn, rfl, htype⟩
    exact (type_eq_output_iff hn hid).mp htype
  · intro hnew
    obtain ⟨n, hn, rfl⟩ := exists_node_of_entered (i := i) (.inl hid)
    exact ⟨n, hn, rfl, (type_eq_output_iff hn hid).mpr hnew⟩

theorem hasOfType_column_iff {id : String} (hid : id ∈ i.columns.columns) :
    (assembleGraph i).HasOfType id .column
      ↔ id ∉ tableIds i.relations.sources ∧ id ∉ i.columns.outputs := by
  constructor
  · rintro ⟨n, hn, rfl, htype⟩
    exact (type_eq_column_iff hn hid).mp htype
  · intro hnew
    obtain ⟨n, hn, rfl⟩ := exists_node_of_entered (i := i) (.inr hid)
    exact ⟨n, hn, rfl, (type_eq_column_iff hn hid).mpr hnew⟩

end Assembly

namespace Analysis

variable {σ : Type}

/-- The ids that the sources take, by their names and for what contains them. -/
def tableIds (a : Analysis) : List String := QueryLineage.tableIds a.relations.sources

/-- **The ends of the column lineage.** The graph has exactly the edges of the lineage. The edge of
a projection starts at a column, unless the name of the column is the id of a source, of what
contains a source, or of an output; it ends at an output, unless the name of the output is the id of
a source or of what contains one. And an edge of a join is one between columns, but for such names.
The lineage names the ends of its edges among its columns and outputs (`coversEnds_ofTree`), so all
of them have nodes in time; what stands under an id is what came with it first. -/
theorem lineage_ends (o : LineageOptions) (provider : Option (Provider σ)) (timestamp : String)
    (root : Tree) (s : σ) :
    let a := ((ofTree o provider timestamp root).run s).1
    (∀ source target, ⟨source, target, .projection⟩ ∈ a.graph.edges
        ↔ (source, target) ∈ a.columns.projectionEdges)
      ∧ (∀ source target, ⟨source, target, .join⟩ ∈ a.graph.edges
        ↔ (source, target) ∈ a.columns.joinEdges)
      ∧ (∀ e ∈ a.graph.edges, e.kind = .projection →
        (a.graph.HasOfType e.source .column
            ↔ e.source ∉ a.tableIds ∧ e.source ∉ a.columns.outputs)
          ∧ (a.graph.HasOfType e.target .output ↔ e.target ∉ a.tableIds))
      ∧ ∀ e ∈ a.graph.edges, e.kind = .join → ∀ id ∈ [e.source, e.target],
        (a.graph.HasOfType id .column ↔ id ∉ a.tableIds ∧ id ∉ a.columns.outputs) := by
  rw [run_ofTree]
  intro a
  let i := input o timestamp root ((qualified o provider root).run s).1.1
  have hcovers : i.columns.CoversEnds := ColumnLineage.coversEnds_ofTree _ _
  have hnodes : List.Forall₂ GraphNode.Decorates (assembleGraph i).nodes a.graph.nodes :=
    forall₂_decorated .refl .decorate provider _ _
  have hedges : a.graph.edges = (Assembly.build i).edges := edges_decorated provider _ _
  have hcolumn : ∀ {id}, id ∈ i.columns.columns → (a.graph.HasOfType id .column
      ↔ id ∉ a.tableIds ∧ id ∉ a.columns.outputs) := fun hid =>
    (GraphNode.Decorates.hasOfType_iff hnodes _ _).trans (Assembly.hasOfType_column_iff hid)
  rw [hedges]
  refine ⟨fun _ _ => Assembly.mem_edges_projection_iff hcovers,
    fun _ _ => Assembly.mem_edges_join_iff hcovers, fun e he hkind => ?_,
    fun e he hkind id hid => ?_⟩
  · have hedge := (Assembly.of_mem_edges_build he).1 hkind
    refine ⟨hcolumn ((hcovers.mem_columns_iff _).mpr (.inl ⟨_, hedge, rfl⟩)), ?_⟩
    exact (GraphNode.Decorates.hasOfType_iff hnodes _ _).trans
      (Assembly.hasOfType_output_iff (hcovers.mem_outputs _ hedge))
  · have hedge := (Assembly.of_mem_edges_build he).2 hkind
    exact hcolumn ((hcovers.mem_columns_iff _).mpr (.inr ⟨_, hedge, List.mem_pair.mp hid⟩))

/-- The column `b` of one projection has the name of another, and the output of this name acts as
the column. -/
theorem projectionEdge_of_outputNamedColumn :
    (({ sql := "SELECT a AS b, b AS c FROM t JOIN u ON t.id = u.id" } : LineageRequest).tree.map
      fun root =>
        let a := ((ofTree (.ofConfig {}) (none : Option (Provider Unit)) "" root.1).run ()).1
        (a.graph.edgesOfKind .projection, a.graph.node? "b")).toOption
      = some ([⟨"a", "b", .projection⟩, ⟨"b", "c", .projection⟩], some ⟨"b", "b", .output⟩) := by
  decide +kernel

/-- Tables act as an output and as a column. -/
example :
    (({ sql := "SELECT t.a AS t FROM t JOIN u ON t = u.i" } : LineageRequest).tree.map fun root =>
      let a := ((ofTree (.ofConfig {}) (none : Option (Provider Unit)) "" root.1).run ()).1
      (a.graph.edgesOfKind .projection, a.graph.edgesOfKind .join, a.graph.node? "t")).toOption
      = some ([⟨"t.a", "t", .projection⟩], [⟨"t", "u.i", .join⟩],
          some ⟨"t", "t", .table none none none⟩) := by
  decide +kernel

end Analysis

end QueryLineage
