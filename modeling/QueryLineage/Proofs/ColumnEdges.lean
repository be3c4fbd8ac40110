import QueryLineage.Proofs.ColumnOwners
import QueryLineage.Proofs.EdgeCalls
import QueryLineage.Proofs.FirstOccurrences

/-!
# Column lineage in the graph

The edges of the column lineage are named before there is a graph, and a graph drops an edge
silently if one of its ends is not there. None is dropped: the ends of these edges are the columns
and the outputs (`ColumnLineage.coversEnds_ofTree`), and each of these has a node when the edges
come, be it its own or one that took its id before. All other calls of the assembly are for edges of
other kinds, so the lineage is in the graph as it was named
(`ColumnLineage.edgesOfKind_assembleGraph`).
-/

namespace QueryLineage

/-! ## The ends of the lineage -/

namespace ColumnLineage

/-- The columns are the ends of the edges that are columns, and the outputs take in the others. -/
structure CoversEnds (columns : ColumnLineage) : Prop where
  mem_columns_iff : ∀ id, id ∈ columns.columns ↔
    (∃ e ∈ columns.projectionEdges, id = e.1) ∨ ∃ e ∈ columns.joinEdges, id = e.1 ∨ id = e.2
  mem_outputs : ∀ e ∈ columns.projectionEdges, e.2 ∈ columns.outputs

theorem coversEnds_ofTree (root : Tree) (joins : List JoinRecord) :
    (ofTree root joins).CoversEnds where
  mem_columns_iff := by
    intro id
    simp only [ofTree, List.mem_eraseDups, List.mem_append, List.mem_map, List.mem_flatMap,
      List.mem_cons, List.not_mem_nil, or_false, eq_comm (a := id)]
  mem_outputs := by
    intro e he
    obtain ⟨⟨name, projection⟩, hprojection, hedge⟩ := List.mem_flatMap.mp he
    obtain ⟨column, -, rfl⟩ := List.mem_map.mp hedge
    exact List.mem_eraseDups.mpr (List.mem_map_of_mem hprojection)

end ColumnLineage

/-! ## The lineage in the graph -/

namespace Assembly

open GraphBuilder

variable {columns : ColumnLineage} {b : GraphBuilder}

/-- The graph with outputs and columns, ahead of the edges among them. -/
def entered (rs : Relations) (columns : ColumnLineage) (b : GraphBuilder) : GraphBuilder :=
  b |> forEach columns.outputs (fun name => addNode ⟨name, name, .output⟩)
    |> forEach columns.columns (ensureColumn rs)

/-- The graph with the edges into the outputs as well. -/
def projected (rs : Relations) (columns : ColumnLineage) (b : GraphBuilder) : GraphBuilder :=
  (entered rs columns b).forEach columns.projectionEdges fun e => addProjection rs e.1 e.2

theorem addColumns_eq (rs : Relations) (columns : ColumnLineage) (b : GraphBuilder) :
    addColumns rs columns b
      = (projected rs columns b).forEach columns.joinEdges fun e => addEdge e.1 e.2 .join := rfl

theorem growsBy_projected (rs : Relations) (columns : ColumnLineage) (b : GraphBuilder) :
    GrowsBy (fun _ => False) (entered rs columns b) (projected rs columns b) :=
  (GrowsBy.refl _).forEach fun e _ => growsBy_addProjection rs e.1 e.2

/-- Columns and outputs have nodes before there are edges among them. The edges that come afterwards
bring no ids, so what has an id in the end has it by then. -/
theorem takes_entered (rs : Relations) (columns : ColumnLineage) (hb : b.Consistent)
    (hdedupe : b.dedupe = false) :
    (entered rs columns b).Takes (columns.outputs ++ columns.columns) := by
  have hgrows : b.GrowsTo (entered rs columns b) := by
    have houtputs : GrowsBy (fun _ => True) b
        (b.forEach columns.outputs fun name => addNode ⟨name, name, .output⟩) :=
      (GrowsBy.refl b).forEach fun _ _ d => (GrowsBy.refl d).addNode trivial
    exact (houtputs.forEach fun id _ d =>
      (growsBy_ensureColumn rs id d).mono fun _ _ => trivial).growsTo
  have hids : (addColumns rs columns b).ids = (entered rs columns b).ids := by
    rw [addColumns_eq]
    exact ((growsBy_projected rs columns b).forEach_addEdge _ _ _ _).ids_eq
  have hstart : b.Takes [] := ⟨hb, hdedupe, List.nil_subset _⟩
  refine ⟨hgrows.consistent hb, (hstart.of_growsTo hgrows).dedupe_eq, fun id hid => ?_⟩
  rw [← hids]
  exact mem_ids_addColumns rs (List.mem_append.mp hid) hb

/-- A column comes with no edges but those of what contains it. -/
theorem ColumnCall.isOtherThan {rs : Relations} {id : String} {call : GraphCall}
    (h : ColumnCall rs id b call) {kind : EdgeKind} (hkind : kind ≠ .contains) :
    IsOtherThan kind b call := by
  cases h with
  | column => exact isOtherThan_addNode _
  | owner ht => exact isOtherThan_addEdge hkind.symm _ _

theorem edgesOfKind_entered (rs : Relations) (columns : ColumnLineage) (b : GraphBuilder)
    {kind : EdgeKind} (hkind : kind ≠ .contains) :
    (entered rs columns b).graph.edgesOfKind kind = b.graph.edgesOfKind kind := by
  have houtputs := (GrowsAlike.refl (C := IsOtherThan kind) (SameNodes.refl b)).forEach
    columns.outputs (f := fun name => addNode ⟨name, name, .output⟩)
    fun _ _ _ _ hsame => (GrowsAlike.refl hsame).addNode (isOtherThan_addNode _)
  refine (houtputs.forEach columns.columns (f := ensureColumn rs) ?_).edgesOfKind_eq
  exact fun id _ _ _ hsame =>
    (growsAlike_ensureColumn rs id hsame).mono fun _ _ hcall => hcall.isOtherThan hkind

theorem edgesOfKind_projected (rs : Relations) (hcovers : columns.CoversEnds) (hb : b.Consistent)
    (hdedupe : b.dedupe = false) :
    (projected rs columns b).graph.edgesOfKind .projection
      = b.graph.edgesOfKind .projection
        ++ columns.projectionEdges.map (fun e => ⟨e.1, e.2, .projection⟩) := by
  rw [← edgesOfKind_entered rs columns b (by decide)]
  refine (takes_entered rs columns hb hdedupe).edgesOfKind_forEach
    (fun e _ d => (growsBy_addProjection (P := fun _ => False) rs e.1 e.2 d).growsTo)
    fun e he d hd => ?_
  have hcolumn := (hcovers.mem_columns_iff e.1).mpr (.inl ⟨e, he, rfl⟩)
  rw [← hd.edgesOfKind_addEdge (List.mem_append_right _ hcolumn)
    (List.mem_append_left _ (hcovers.mem_outputs e he))]
  exact edgesOfKind_forEach_of_ne (by decide) _ TableName.text (fun _ => e.2) _

theorem edgesOfKind_join_projected (rs : Relations) (columns : ColumnLineage) (b : GraphBuilder) :
    (projected rs columns b).graph.edgesOfKind .join = b.graph.edgesOfKind .join := by
  rw [← edgesOfKind_entered rs columns b (by decide)]
  refine ((GrowsAlike.refl (SameNodes.refl _)).forEach columns.projectionEdges
    (f := fun e => addProjection rs e.1 e.2) fun e _ d d' hsame => ?_).edgesOfKind_eq
  have hedge := (GrowsAlike.refl (C := IsOtherThan .join) hsame).addEdge
    (isOtherThan_addEdge (by decide : EdgeKind.projection ≠ .join) e.1 e.2)
  simp only [addProjection, ownersOf_eq hedge.sameNodes]
  exact hedge.forEach_addEdge _ fun _ _ _ => isOtherThan_addEdge (by decide) _ _

/-- The edges of the lineage are taken one after another, as by then all their ends have nodes
(`takes_entered`) and repetitions are not left out. -/
theorem edgesOfKind_addColumns (rs : Relations) (hcovers : columns.CoversEnds) (hb : b.Consistent)
    (hdedupe : b.dedupe = false) :
    (addColumns rs columns b).graph.edgesOfKind .projection
        = b.graph.edgesOfKind .projection
          ++ columns.projectionEdges.map (fun e => ⟨e.1, e.2, .projection⟩)
      ∧ (addColumns rs columns b).graph.edgesOfKind .join
        = b.graph.edgesOfKind .join ++ columns.joinEdges.map (fun e => ⟨e.1, e.2, .join⟩) := by
  rw [addColumns_eq]
  constructor
  · rw [← edgesOfKind_projected rs hcovers hb hdedupe]
    exact edgesOfKind_forEach_of_ne (by decide) _ Prod.fst Prod.snd _
  · have htakes := (takes_entered rs columns hb hdedupe).of_growsTo
      (growsBy_projected rs columns b).growsTo
    have hcolumn : ∀ {id}, (∃ e ∈ columns.joinEdges, id = e.1 ∨ id = e.2) →
        id ∈ columns.outputs ++ columns.columns := fun h =>
      List.mem_append_right _ ((hcovers.mem_columns_iff _).mpr (.inr h))
    rw [← edgesOfKind_join_projected rs columns b]
    exact htakes.edgesOfKind_forEach
      (fun e _ d => .addEdge d e.1 e.2 .join)
      fun e he d hd =>
        hd.edgesOfKind_addEdge (hcolumn ⟨e, he, .inl rfl⟩) (hcolumn ⟨e, he, .inr rfl⟩)

theorem edgesOfKind_tabled (i : AssemblyInput) {kind : EdgeKind} (hkind : kind ≠ .contains) :
    (tabled i).graph.edgesOfKind kind = [] := by
  have hother := (growsAlike_tabled i).mono (D := IsOtherThan kind) fun d call hcall => ?_
  · exact hother.edgesOfKind_eq
  · cases call with
    | addNode n => exact isOtherThan_addNode n
    | addEdge source target other =>
        exact isOtherThan_addEdge (fun h => hkind (h.symm.trans hcall.kind_eq)) source target

theorem edgesOfKind_build (i : AssemblyInput) {kind : EdgeKind}
    (hkind : kind = .projection ∨ kind = .join) :
    (build i).graph.edgesOfKind kind = (named i).graph.edgesOfKind kind := by
  have hjoins := (growsAlike_addJoins i.relations i.joinLabelWidth i.joins
    (.refl (named i))).mono (D := IsOtherThan kind) fun d call hcall => ?_
  · have hindicator := hjoins.addNode (n := kpiNode i) (isOtherThan_addNode _)
    have hkpi := (growsAlike_addKpi i (.refl (joined i))).mono (D := IsOtherThan kind)
      fun d call hcall => ?_
    · exact (hindicator.trans hkpi).edgesOfKind_eq
    · rcases hkind with rfl | rfl <;> rintro source target rfl <;>
        cases hcall <;> rename_i hcolumn <;> cases hcolumn
  · rcases hkind with rfl | rfl <;> rintro source target rfl <;> cases hcall

end Assembly

namespace ColumnLineage

/-- **No column lineage is lost or invented in the graph.** The columns and the outputs of a
statement are listed once each. The columns are those on the edges, and an edge of a projection ends
in an output. And every graph assembled with these has, of the kinds of these edges, exactly these,
in their order and as often as they come up, whatever else there is in the graph under the same ids.
The stage of the columns takes them all (`edgesOfKind_addColumns`); no stage before or after it
brings edges of these kinds. -/
theorem edgesOfKind_assembleGraph (root : Tree) (joins : List JoinRecord) :
    let columns := ofTree root joins
    columns.columns.Nodup ∧ columns.outputs.Nodup
      ∧ (∀ id, id ∈ columns.columns ↔
        (∃ e ∈ columns.projectionEdges, id = e.1) ∨ ∃ e ∈ columns.joinEdges, id = e.1 ∨ id = e.2)
      ∧ (∀ e ∈ columns.projectionEdges, e.2 ∈ columns.outputs)
      ∧ ∀ i : AssemblyInput,
        let g := assembleGraph { i with columns := columns, dedupeEdges := false }
        g.edgesOfKind .projection
            = columns.projectionEdges.map (fun e => ⟨e.1, e.2, .projection⟩)
          ∧ g.edgesOfKind .join = columns.joinEdges.map (fun e => ⟨e.1, e.2, .join⟩) := by
  intro columns
  have hcovers : columns.CoversEnds := coversEnds_ofTree root joins
  refine ⟨nodup_eraseDups _, nodup_eraseDups _, hcovers.mem_columns_iff, hcovers.mem_outputs,
    fun i => ?_⟩
  let i' : AssemblyInput := { i with columns := columns, dedupeEdges := false }
  have hdedupe : (Assembly.tabled i').dedupe = false := by
    obtain ⟨calls, hcalls⟩ := (Assembly.growsAlike_tabled i').growsTo
    rw [hcalls, GraphBuilder.dedupe_run]
  obtain ⟨hprojection, hjoin⟩ := Assembly.edgesOfKind_addColumns i'.relations hcovers
    (Assembly.consistent_tabled i') hdedupe
  rw [Assembly.edgesOfKind_tabled i' (by decide), List.nil_append] at hprojection hjoin
  exact ⟨(Assembly.edgesOfKind_build i' (.inl rfl)).trans hprojection,
    (Assembly.edgesOfKind_build i' (.inr rfl)).trans hjoin⟩

end ColumnLineage

end QueryLineage
