import QueryLineage.Proofs.StageCalls

/-!
# The assembled graph

The stages of the assembly look at the half-built graph to decide what to add: which tables are
there, whether an id is a column's, which operand of a join has a node. Whatever they decide, they
act by `addNode` and `addEdge` alone. `GrowsTo` says that one graph comes from another by such
calls, and `GrowsBy` besides what nodes these bring; each stage grows the graph it is given by its
own nodes (`growsBy_addTables` and so on), as its calls show, hence the assembly grows the empty
one, and all that calls keep holds of its result.
-/

namespace QueryLineage

/-! ## The layers of a graph -/

/-- The layers hold each of these ids once, each layer in their order. -/
structure Hierarchy.Partitions (h : Hierarchy) (ids : List String) : Prop where
  perm : (h.physical ++ h.logical ++ h.semantic).Perm ids
  physical_sublist : h.physical.Sublist ids
  logical_sublist : h.logical.Sublist ids
  semantic_sublist : h.semantic.Sublist ids

namespace LineageGraph

theorem layer_perm (g : LineageGraph) :
    (g.layer .physical ++ g.layer .logical ++ g.layer .semantic).Perm g.nodes := by
  simp only [layer]
  induction g.nodes with
  | nil => exact .nil
  | cons n rest ih =>
      cases hn : n.layer with
      | physical => simpa [hn] using ih
      | logical =>
          simp only [List.filter_cons, hn, decide_true, reduceCtorEq, decide_false, if_true,
            Bool.false_eq_true, if_false, List.append_assoc, List.cons_append]
          refine List.perm_middle.trans (.cons n ?_)
          simpa using ih
      | semantic =>
          simp only [List.filter_cons, hn, decide_true, reduceCtorEq, decide_false, if_true,
            Bool.false_eq_true, if_false]
          exact List.perm_middle.trans (.cons n ih)

theorem layer_sublist (g : LineageGraph) (l : Layer) : (g.layer l).Sublist g.nodes :=
  List.filter_sublist

/-- The hierarchy sorts the ids of the nodes by layer and leaves none out. -/
theorem hierarchy_partitions (g : LineageGraph) :
    g.hierarchy.Partitions (g.nodes.map GraphNode.id) where
  perm := by
    have hperm := g.layer_perm.map GraphNode.id
    rwa [List.map_append, List.map_append] at hperm
  physical_sublist := (g.layer_sublist .physical).map _
  logical_sublist := (g.layer_sublist .logical).map _
  semantic_sublist := (g.layer_sublist .semantic).map _

end LineageGraph

namespace GraphBuilder

/-! ## Growing by calls -/

/-- Calls lead from one graph to the other. -/
def GrowsTo (b grown : GraphBuilder) : Prop := ∃ calls, grown = b.run calls

theorem GrowsTo.refl (b : GraphBuilder) : b.GrowsTo b := ⟨[], rfl⟩

theorem GrowsTo.trans {b c d : GraphBuilder} (hbc : b.GrowsTo c) (hcd : c.GrowsTo d) :
    b.GrowsTo d := by
  obtain ⟨first, rfl⟩ := hbc
  obtain ⟨second, rfl⟩ := hcd
  exact ⟨first ++ second, (run_append ..).symm⟩

theorem GrowsTo.addNode (b : GraphBuilder) (n : GraphNode) : b.GrowsTo (b.addNode n) :=
  ⟨[.addNode n], rfl⟩

theorem GrowsTo.addEdge (b : GraphBuilder) (source target : String) (kind : EdgeKind) :
    b.GrowsTo (b.addEdge source target kind) :=
  ⟨[.addEdge source target kind], rfl⟩

theorem GrowsTo.consistent {b c : GraphBuilder} (h : b.GrowsTo c) (hb : b.Consistent) :
    c.Consistent := by
  obtain ⟨calls, rfl⟩ := h
  exact consistent_run hb calls

/-- Calls lead from one graph to the other, and all nodes they come with have a property. -/
def GrowsBy (P : GraphNode → Prop) (b grown : GraphBuilder) : Prop :=
  ∃ calls, grown = b.run calls ∧ ∀ n, .addNode n ∈ calls → P n

namespace GrowsBy

variable {P Q : GraphNode → Prop} {b c d : GraphBuilder}

theorem growsTo (h : GrowsBy P b c) : b.GrowsTo c := by
  obtain ⟨calls, hrun, -⟩ := h
  exact ⟨calls, hrun⟩

theorem refl (b : GraphBuilder) : GrowsBy P b b := ⟨[], rfl, fun _ h => nomatch h⟩

theorem trans (hbc : GrowsBy P b c) (hcd : GrowsBy P c d) : GrowsBy P b d := by
  obtain ⟨first, rfl, hfirst⟩ := hbc
  obtain ⟨second, rfl, hsecond⟩ := hcd
  refine ⟨first ++ second, (run_append ..).symm, fun n hn => ?_⟩
  exact (List.mem_append.mp hn).elim (hfirst n) (hsecond n)

theorem mono (h : GrowsBy P b c) (hPQ : ∀ n, P n → Q n) : GrowsBy Q b c := by
  obtain ⟨calls, rfl, hcalls⟩ := h
  exact ⟨calls, rfl, fun n hn => hPQ n (hcalls n hn)⟩

theorem addNode (h : GrowsBy P b c) {n : GraphNode} (hn : P n) : GrowsBy P b (c.addNode n) := by
  refine h.trans ⟨[.addNode n], rfl, fun m hm => ?_⟩
  obtain rfl : m = n := by simpa using hm
  exact hn

theorem addEdge (h : GrowsBy P b c) (source target : String) (kind : EdgeKind) :
    GrowsBy P b (c.addEdge source target kind) :=
  h.trans ⟨[.addEdge source target kind], rfl, by simp⟩

/-- A loop grows the graph if each of its rounds does, whatever the graph has come to by then. The
induction is on the items that are left, from any graph that has grown so far. -/
theorem forEach {α : Type} (h : GrowsBy P b c) {items : List α}
    {f : α → GraphBuilder → GraphBuilder}
    (hf : ∀ a ∈ items, ∀ d : GraphBuilder, GrowsBy P d (f a d)) :
    GrowsBy P b (c.forEach items f) := by
  induction items generalizing c with
  | nil => exact h
  | cons a rest ih =>
      have hround := h.trans (hf a List.mem_cons_self c)
      exact ih hround fun a ha => hf a (List.mem_cons_of_mem _ ha)

theorem forEach_addEdge {α : Type} (h : GrowsBy P b c) (items : List α)
    (source target : α → String) (kind : EdgeKind) :
    GrowsBy P b (c.forEach items fun a => GraphBuilder.addEdge (source a) (target a) kind) :=
  h.forEach fun _ _ d => (refl d).addEdge _ _ _

end GrowsBy

/-- Where the kinds of calls are known, so are the nodes they bring. -/
theorem GrowsAlike.growsBy {C : GraphBuilder → GraphCall → Prop} {P : GraphNode → Prop}
    {b c b' c' : GraphBuilder} (h : GrowsAlike C b c b' c')
    (hP : ∀ d n, C d (.addNode n) → P n) : GrowsBy P b b' := by
  induction h with
  | refl _ => exact .refl b
  | call call _ hcall ih =>
      cases call with
      | addNode n => exact ih.addNode (hP _ n hcall)
      | addEdge source target kind => exact ih.addEdge source target kind

end GraphBuilder

namespace Assembly

open GraphBuilder

/-! ## The stages -/

theorem TableCall.of_addNode {sources : TableName.Set} {b : GraphBuilder} {n : GraphNode}
    (h : TableCall sources b (.addNode n)) :
    (∃ t ∈ sources.toList, n = tableNode t) ∨ IsContainer n := by
  cases h with
  | table ht => exact .inl ⟨_, ht, rfl⟩
  | container hn => exact .inr hn

theorem growsBy_addContainers {sources : TableName.Set} {t : TableName} (ht : t ∈ sources.toList)
    (b : GraphBuilder) :
    GrowsBy (fun n => (∃ t ∈ sources.toList, n = tableNode t) ∨ IsContainer n) b
      (addContainers t b) :=
  (growsAlike_addContainers ht (.refl b)).growsBy fun _ _ => TableCall.of_addNode

theorem growsBy_addTables (sources : TableName.Set) (b : GraphBuilder) :
    GrowsBy (fun n => (∃ t ∈ sources.toList, n = tableNode t) ∨ IsContainer n) b
      (addTables sources b) :=
  (growsAlike_addTables sources (.refl b)).growsBy fun _ _ => TableCall.of_addNode

theorem growsBy_ensureColumn (rs : Relations) (id : String) (b : GraphBuilder) :
    GrowsBy (fun n => n.id = id ∧ n.type = .column) b (ensureColumn rs id b) :=
  (growsAlike_ensureColumn rs id (.refl b)).growsBy fun
    | _, _, .column => ⟨rfl, rfl⟩

theorem growsBy_addProjection {P : GraphNode → Prop} (rs : Relations) (column output : String)
    (b : GraphBuilder) : GrowsBy P b (addProjection rs column output b) :=
  ((GrowsBy.refl b).addEdge _ _ _).forEach_addEdge _ _ _ _

theorem growsBy_addColumns (rs : Relations) (columns : ColumnLineage) (b : GraphBuilder) :
    GrowsBy (fun n => n.id ∈ columns.outputs ∧ n.type = .output
      ∨ n.id ∈ columns.columns ∧ n.type = .column) b (addColumns rs columns b) :=
  (growsAlike_addColumns rs columns (.refl b)).growsBy fun
    | _, _, .output hname => .inl ⟨hname, rfl⟩
    | _, _, .column hid .column => .inr ⟨hid, rfl⟩

theorem growsBy_addJoin {P : GraphNode → Prop} (rs : Relations) (width : Nat) (j : JoinRecord)
    (b : GraphBuilder) : GrowsBy P (b.addNode (joinNode width j)) (addJoin rs width j b) := by
  refine GrowsBy.forEach ?_ fun _ _ d => (GrowsBy.refl d).forEach_addEdge _ _ _ _
  refine GrowsBy.forEach_addEdge ?_ _ _ _ _
  refine (GrowsBy.refl _).forEach fun _ _ d => ?_
  exact ((GrowsBy.refl d).addEdge _ _ _).addEdge _ _ _

theorem growsBy_addJoins (rs : Relations) (width : Nat) (joins : List JoinRecord)
    (b : GraphBuilder) :
    GrowsBy (fun n => ∃ j ∈ joins, n = joinNode width j) b (b.forEach joins (addJoin rs width)) :=
  (GrowsBy.refl b).forEach fun j hj d =>
    ((GrowsBy.refl d).addNode ⟨j, hj, rfl⟩).trans (growsBy_addJoin rs width j d)

theorem growsBy_addKpi (i : AssemblyInput) (b : GraphBuilder) :
    GrowsBy (fun n => n.type = .aggregation ∨ n.type = .column) (b.addNode (kpiNode i))
      (addKpi i b) :=
  (growsAlike_addKpi i (.refl b)).growsBy fun
    | _, _, .aggregation _ => .inl rfl
    | _, _, .column _ .column => .inr rfl

/-- The assembly is made of calls alone, stage by stage: the tables, the columns, the joins and what
is measured. -/
theorem growsTo_build (i : AssemblyInput) :
    GrowsTo { dedupe := i.dedupeEdges } (build i) := by
  have htables := (growsBy_addTables i.relations.sources { dedupe := i.dedupeEdges }).growsTo
  have hcolumns := htables.trans (growsBy_addColumns i.relations i.columns _).growsTo
  have hjoins := hcolumns.trans
    (growsBy_addJoins i.relations i.joinLabelWidth i.joins _).growsTo
  exact (hjoins.trans (.addNode _ (kpiNode i))).trans (growsBy_addKpi i _).growsTo

end Assembly

/-! ## What holds of every graph -/

/-- **What building a graph keeps.** After any calls on an empty graph, the ids of the nodes are
distinct, the index leads from each id to the place of its node, both ends of each edge are nodes,
no edge is there twice if repetitions are left out, and the layers hold each id once and in order.
What is there after some of the calls is there in its old place after all of them. And the assembly,
whatever it is given, comes down to such calls. One call keeps all this
(`GraphBuilder.consistent_step`), hence any calls do, and the last part is `growsTo_build`. -/
theorem graph_of_calls :
    (∀ (dedupe : Bool) (calls : List GraphCall),
      let b := GraphBuilder.run { dedupe } calls
      b.ids.Nodup
        ∧ (∀ id place, b.index.find? id = some place
            ↔ ∃ n, b.graph.nodes[place]? = some n ∧ n.id = id)
        ∧ (∀ id n, b.node? id = some n ↔ n ∈ b.graph.nodes ∧ n.id = id)
        ∧ (∀ e ∈ b.graph.edges, (∃ n ∈ b.graph.nodes, n.id = e.source)
            ∧ ∃ n ∈ b.graph.nodes, n.id = e.target)
        ∧ (dedupe = true → b.graph.edges.Nodup)
        ∧ b.graph.hierarchy.Partitions b.ids
        ∧ ∀ (later : List GraphCall) (place : Nat) (n : GraphNode), b.graph.nodes[place]? = some n →
            (GraphBuilder.run { dedupe } (calls ++ later)).graph.nodes[place]? = some n)
      ∧ ∀ i : AssemblyInput, ∃ calls,
          assembleGraph i = (GraphBuilder.run { dedupe := i.dedupeEdges } calls).graph := by
  refine ⟨fun dedupe calls => ?_, fun i => ?_⟩
  · have hb := GraphBuilder.consistent_run (GraphBuilder.consistent_fresh dedupe) calls
    have hdedupe := GraphBuilder.dedupe_run { dedupe } calls
    have hmem : ∀ {id}, id ∈ (GraphBuilder.run { dedupe } calls).ids →
        ∃ n ∈ (GraphBuilder.run { dedupe } calls).nodes, n.id = id := List.mem_map.mp
    refine ⟨hb.ids_nodup, fun id place => ?_, fun id n => hb.node?_eq_some_iff,
      fun e he => ?_, fun h => ?_, ?_, ?_⟩
    · rw [hb.find?_index, GraphBuilder.ids, List.getElem?_map, Option.map_eq_some_iff]
      rfl
    · exact (hb.ends_mem e he).imp hmem hmem
    · exact hb.edges_nodup (hdedupe.trans h)
    · exact LineageGraph.hierarchy_partitions _
    · intro later place n hn
      rw [GraphBuilder.run_append]
      exact GraphBuilder.getElem?_nodes_run hn later
  · obtain ⟨calls, hcalls⟩ := Assembly.growsTo_build i
    exact ⟨calls, congrArg GraphBuilder.graph hcalls⟩

end QueryLineage
