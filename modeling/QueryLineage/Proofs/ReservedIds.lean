import QueryLineage.Proofs.AnalysisRuns
import QueryLineage.Proofs.AssembledGraph
import QueryLineage.Proofs.QualifiedTree

/-!
# Ids that a query takes for itself

The measured indicator and the joins have ids of their own, `kpi` and `J1`, `J2` and so on, in the
one space of ids that the tables, outputs and columns of a query are in too, by their bare names.
These come first, and what comes first under an id stays. So a name of the query that is spelled
like one of those ids keeps the indicator or the join out of the graph, and nothing else does
(`Analysis.reserved_ids`): not the databases, schemas and aggregations, whose ids start otherwise,
not the other joins, not the columns of groupings, which come later, and not the metadata that nodes
are decorated with in the end.
-/

namespace QueryLineage

/-! ## Ids -/

theorem toList_joinId (place : Nat) :
    (joinId place).toList = 'J' :: Nat.toDigits 10 (place + 1) := by
  have htext : joinId place = "J" ++ (place + 1).repr := rfl
  rw [htext, String.toList_append, Nat.toList_repr]
  rfl

theorem joinId_injective : Function.Injective joinId := by
  intro p q h
  have hdigits : Nat.toDigits 10 (p + 1) = Nat.toDigits 10 (q + 1) := by
    have hchars := congrArg String.toList h
    rw [toList_joinId, toList_joinId] at hchars
    exact (List.cons.inj hchars).2
  have hvalue := congrArg (Nat.ofDigitChars 10 · 0) hdigits
  simpa using hvalue

theorem joinId_ne_kpiId (place : Nat) : joinId place ≠ kpiId := by
  intro h
  have hchars := congrArg String.toList h
  rw [toList_joinId] at hchars
  exact absurd (List.cons.inj hchars).1 (by decide)

/-- The ids of schemas and databases start with small letters of their own. -/
theorem Assembly.IsContainer.head?_id {n : GraphNode} (h : IsContainer n) :
    n.id.toList.head? = some 'd' ∨ n.id.toList.head? = some 's' := by
  cases h with
  | database project => exact .inl (by simp [databaseId])
  | schema project dataset => cases project <;> exact .inr (by simp [schemaId])

/-- An id that no schema or database has. -/
def IsFreeOfContainers (id : String) : Prop := ∀ n, Assembly.IsContainer n → n.id ≠ id

theorem isFreeOfContainers_kpiId : IsFreeOfContainers kpiId := by
  intro n hn hid
  rcases hn.head?_id with h | h <;> (rw [hid] at h; exact absurd h (by decide))

theorem isFreeOfContainers_joinId (place : Nat) : IsFreeOfContainers (joinId place) := by
  intro n hn hid
  rcases hn.head?_id with h | h <;> (rw [hid, toList_joinId] at h; exact absurd h (by simp))

theorem Tree.exists_id_of_mem_joins {root : Tree} {rs : Relations} {r : JoinRecord}
    (h : r ∈ root.joins rs) : ∃ place, r.id = joinId place := by
  obtain ⟨place, hplace, rfl⟩ := List.mem_mapIdx.mp h
  exact ⟨place, rfl⟩

theorem Tree.ids_joins (root : Tree) (rs : Relations) :
    (root.joins rs).map JoinRecord.id = (List.range (root.joins rs).length).map joinId := by
  refine List.ext_getElem (by simp) fun place _ _ => ?_
  simp [joins]

theorem Tree.nodup_ids_joins (root : Tree) (rs : Relations) :
    ((root.joins rs).map JoinRecord.id).Nodup := by
  rw [root.ids_joins rs]
  exact List.nodup_range.map joinId_injective

/-! ## Nodes that calls bring -/

namespace GraphBuilder

theorem exists_added_step {P : GraphNode → Prop} (b : GraphBuilder) (c : GraphCall)
    (hc : ∀ n, c = .addNode n → P n) :
    ∃ added, (b.step c).nodes = b.nodes ++ added ∧ ∀ n ∈ added, P n := by
  cases c with
  | addNode n =>
      by_cases h : b.hasNode n.id = true
      · exact ⟨[], by simp [step, addNode_of_hasNode h], by simp⟩
      · refine ⟨[n], by simp [step, addNode_of_not_hasNode h], fun m hm => ?_⟩
        obtain rfl := List.mem_singleton.mp hm
        exact hc m rfl
  | addEdge source target kind =>
      rcases addEdge_cases source target kind b with h | ⟨-, -, seen, h, -⟩
      · exact ⟨[], by simp [step, h], by simp⟩
      · exact ⟨[], by simp [step, h], by simp⟩

theorem GrowsBy.exists_added {P : GraphNode → Prop} {b c : GraphBuilder} (h : GrowsBy P b c) :
    ∃ added, c.nodes = b.nodes ++ added ∧ ∀ n ∈ added, P n := by
  obtain ⟨calls, rfl, hcalls⟩ := h
  induction calls generalizing b with
  | nil => exact ⟨[], (List.append_nil _).symm, by simp⟩
  | cons call rest ih =>
      obtain ⟨first, hfirst, hPfirst⟩ := exists_added_step (P := P) b call fun n hn =>
        hcalls n (hn ▸ List.mem_cons_self)
      obtain ⟨later, hlater, hPlater⟩ := ih (b := b.step call) fun n hn =>
        hcalls n (List.mem_cons_of_mem _ hn)
      refine ⟨first ++ later, ?_, fun n hn => (List.mem_append.mp hn).elim (hPfirst n) (hPlater n)⟩
      rw [← List.append_assoc, ← hfirst]
      exact hlater

theorem GrowsBy.mem_nodes {P : GraphNode → Prop} {b c : GraphBuilder} (h : GrowsBy P b c)
    {n : GraphNode} (hn : n ∈ c.nodes) : n ∈ b.nodes ∨ P n := by
  obtain ⟨added, hnodes, hP⟩ := h.exists_added
  rw [hnodes] at hn
  exact (List.mem_append.mp hn).imp_right (hP n)

theorem GrowsTo.mem_nodes {b c : GraphBuilder} (h : b.GrowsTo c) {n : GraphNode}
    (hn : n ∈ b.nodes) : n ∈ c.nodes := by
  obtain ⟨calls, rfl⟩ := h
  exact (nodes_prefix_run b calls).subset hn

theorem GrowsTo.mem_ids {b c : GraphBuilder} (h : b.GrowsTo c) {id : String} (hid : id ∈ b.ids) :
    id ∈ c.ids := by
  obtain ⟨n, hn, rfl⟩ := List.mem_map.mp hid
  exact List.mem_map_of_mem (h.mem_nodes hn)

theorem mem_nodes_addNode {b : GraphBuilder} (hb : b.Consistent) {n : GraphNode}
    (hnew : n.id ∉ b.ids) : n ∈ (b.addNode n).nodes := by
  rw [addNode_of_not_hasNode fun h => hnew ((hb.hasNode_iff n.id).mp h)]
  exact List.mem_append_right _ (List.mem_singleton_self n)

theorem mem_ids_addNode {b : GraphBuilder} (hb : b.Consistent) (n : GraphNode) :
    n.id ∈ (b.addNode n).ids := by
  by_cases h : n.id ∈ b.ids
  · exact (GrowsTo.addNode b n).mem_ids h
  · exact List.mem_map_of_mem (mem_nodes_addNode hb h)

theorem mem_ids_addNode_iff {b : GraphBuilder} (hb : b.Consistent) {n : GraphNode} {id : String} :
    id ∈ (b.addNode n).ids ↔ id ∈ b.ids ∨ id = n.id := by
  constructor
  · intro hid
    obtain ⟨m, hm, rfl⟩ := List.mem_map.mp hid
    rcases ((GrowsBy.refl (P := (· = n)) b).addNode rfl).mem_nodes hm with hm | rfl
    · exact .inl (List.mem_map_of_mem hm)
    · exact .inr rfl
  · rintro (hid | rfl)
    · exact (GrowsTo.addNode b n).mem_ids hid
    · exact mem_ids_addNode hb n

/-- What each round of a loop registers is registered in the end. By induction on the items, from
any consistent graph; the rounds after it only let the graph grow. -/
theorem mem_ids_forEach {α : Type} {P : GraphNode → Prop} {b : GraphBuilder} (hb : b.Consistent)
    {items : List α} {f : α → GraphBuilder → GraphBuilder} {key : α → String}
    (hf : ∀ a ∈ items, ∀ d : GraphBuilder, GrowsBy P d (f a d))
    (hkey : ∀ a (d : GraphBuilder), d.Consistent → key a ∈ (f a d).ids) {a : α}
    (ha : a ∈ items) : key a ∈ (b.forEach items f).ids := by
  induction items generalizing b with
  | nil => cases ha
  | cons first rest ih =>
      have hlater := fun a ha => hf a (List.mem_cons_of_mem first ha)
      rcases List.mem_cons.mp ha with rfl | ha
      · exact ((GrowsBy.refl _).forEach hlater).growsTo.mem_ids (hkey a b hb)
      · exact ih ((hf first List.mem_cons_self b).growsTo.consistent hb) hlater ha

theorem filter_id_eq {nodes : List GraphNode} (hids : (nodes.map GraphNode.id).Nodup)
    {n : GraphNode} (hn : n ∈ nodes) : nodes.filter (·.id = n.id) = [n] := by
  induction nodes with
  | nil => cases hn
  | cons first rest ih =>
      rw [List.map_cons, List.nodup_cons] at hids
      have hother : ∀ m ∈ rest, first.id ≠ m.id := fun m hm h =>
        hids.1 (h ▸ List.mem_map_of_mem hm)
      rcases List.mem_cons.mp hn with rfl | hn
      · rw [List.filter_cons_of_pos (by simp), List.filter_eq_nil_iff.mpr]
        intro m hm
        simpa using Ne.symm (hother m hm)
      · rw [List.filter_cons_of_neg (by simpa using hother n hn), ih hids.2 hn]

end GraphBuilder

/-! ## The names of a query -/

/-- The names under which a query itself brings in nodes, ahead of the joins and the measured
indicator: tables, outputs and columns. -/
def queryIds (sources : TableName.Set) (columns : ColumnLineage) : List String :=
  sources.toList.map TableName.text ++ columns.outputs ++ columns.columns

namespace Assembly

open GraphBuilder

variable (i : AssemblyInput)

/-- The graph with the tables and columns in it. -/
def named : GraphBuilder :=
  ({ dedupe := i.dedupeEdges } : GraphBuilder)
    |> addTables i.relations.sources
    |> addColumns i.relations i.columns

/-- The graph with the joins as well. -/
def joined : GraphBuilder := (named i).forEach i.joins (addJoin i.relations i.joinLabelWidth)

theorem consistent_named : (named i).Consistent := by
  have htables := (growsBy_addTables i.relations.sources { dedupe := i.dedupeEdges }).growsTo
  have hcolumns := htables.trans (growsBy_addColumns i.relations i.columns _).growsTo
  exact hcolumns.consistent (consistent_fresh _)

theorem growsBy_joined :
    GrowsBy (fun n => ∃ j ∈ i.joins, n = joinNode i.joinLabelWidth j) (named i) (joined i) :=
  growsBy_addJoins i.relations i.joinLabelWidth i.joins (named i)

theorem consistent_joined : (joined i).Consistent :=
  (growsBy_joined i).growsTo.consistent (consistent_named i)

theorem growsTo_build_of_joined : (joined i).GrowsTo (build i) :=
  (GrowsTo.addNode (joined i) (kpiNode i)).trans (growsBy_addKpi i (joined i)).growsTo

theorem consistent_build : (build i).Consistent :=
  (growsTo_build_of_joined i).consistent (consistent_joined i)

variable {i}

/-- Tables and columns have their names for ids, and are no joins and no indicators. The nodes that
are there before the joins came with two stages, and each says what its nodes are. -/
theorem of_mem_named {n : GraphNode} (hn : n ∈ (named i).nodes) :
    (n.id ∈ queryIds i.relations.sources i.columns ∨ IsContainer n)
      ∧ n.type ≠ .join ∧ n.type ≠ .kpi := by
  rcases (growsBy_addColumns i.relations i.columns _).mem_nodes hn with hn | hn
  · rcases (growsBy_addTables i.relations.sources _).mem_nodes hn with hn | ⟨t, ht, rfl⟩ | hn
    · cases hn
    · refine ⟨.inl ?_, nofun, nofun⟩
      have htext : t.text ∈ i.relations.sources.toList.map TableName.text :=
        List.mem_map_of_mem ht
      exact List.mem_append_left _ (List.mem_append_left _ htext)
    · refine ⟨.inr hn, ?_⟩
      cases hn <;> exact ⟨nofun, nofun⟩
  · rcases hn with ⟨hid, htype⟩ | ⟨hid, htype⟩
    · rw [htype]
      exact ⟨.inl (List.mem_append_left _ (List.mem_append_right _ hid)), nofun, nofun⟩
    · rw [htype]
      exact ⟨.inl (List.mem_append_right _ hid), nofun, nofun⟩

theorem mem_ids_ensureColumn (rs : Relations) (id : String) {b : GraphBuilder}
    (hb : b.Consistent) : id ∈ (ensureColumn rs id b).ids := by
  rw [ensureColumn]
  split
  · rename_i hnode
    exact (hb.hasNode_iff id).mp hnode
  · have hedges : GrowsBy (fun _ => True) (b.addNode (columnNode id (ownersOf rs b id)))
        ((b.addNode (columnNode id (ownersOf rs b id))).forEach (ownersOf rs b id)
          fun t => addEdge t.text id .contains) :=
      (GrowsBy.refl _).forEach_addEdge _ _ _ _
    exact hedges.growsTo.mem_ids (mem_ids_addNode hb (columnNode id _))

theorem mem_ids_addTables {sources : TableName.Set} {t : TableName} (ht : t ∈ sources.toList)
    {b : GraphBuilder} (hb : b.Consistent) : t.text ∈ (addTables sources b).ids := by
  have hnode := mem_ids_forEach (P := fun _ => True) (f := fun t => addNode (tableNode t)) hb
    (fun _ _ d => (GrowsBy.refl d).addNode trivial)
    (fun t _ hd => mem_ids_addNode hd (tableNode t)) ht
  exact ((GrowsBy.refl _).forEach fun _ ht d => growsBy_addContainers ht d).growsTo.mem_ids hnode

theorem mem_ids_addColumns (rs : Relations) {columns : ColumnLineage} {name : String}
    (hname : name ∈ columns.outputs ∨ name ∈ columns.columns) {b : GraphBuilder}
    (hb : b.Consistent) : name ∈ (addColumns rs columns b).ids := by
  have houtput : ∀ output ∈ columns.outputs, ∀ d : GraphBuilder,
      GrowsBy (fun _ => True) d (d.addNode ⟨output, output, .output⟩) :=
    fun _ _ d => (GrowsBy.refl d).addNode trivial
  have hcolumn : ∀ id ∈ columns.columns, ∀ d : GraphBuilder,
      GrowsBy (fun _ => True) d (ensureColumn rs id d) :=
    fun id _ d => (growsBy_ensureColumn rs id d).mono fun _ _ => trivial
  have hedges : GrowsBy (fun _ => True)
      ((b.forEach columns.outputs fun name => addNode ⟨name, name, .output⟩).forEach
        columns.columns (ensureColumn rs)) (addColumns rs columns b) := by
    refine GrowsBy.forEach_addEdge ?_ _ _ _ _
    exact (GrowsBy.refl _).forEach fun e _ => growsBy_addProjection rs e.1 e.2
  refine hedges.growsTo.mem_ids ?_
  rcases hname with hname | hname
  · have hnode := mem_ids_forEach hb houtput
      (fun name _ hd => mem_ids_addNode hd ⟨name, name, .output⟩) hname
    exact ((GrowsBy.refl _).forEach hcolumn).growsTo.mem_ids hnode
  · have houtputs := ((GrowsBy.refl b).forEach houtput).growsTo.consistent hb
    exact mem_ids_forEach houtputs hcolumn (fun id _ hd => mem_ids_ensureColumn rs id hd) hname

theorem mem_ids_named {id : String} (hid : id ∈ queryIds i.relations.sources i.columns) :
    id ∈ (named i).ids := by
  have htables := (growsBy_addTables i.relations.sources { dedupe := i.dedupeEdges }).growsTo
  have hcolumns := growsBy_addColumns i.relations i.columns
    (addTables i.relations.sources { dedupe := i.dedupeEdges })
  rw [queryIds, List.append_assoc, List.mem_append, List.mem_append] at hid
  rcases hid with hid | hid
  · obtain ⟨t, ht, rfl⟩ := List.mem_map.mp hid
    exact hcolumns.growsTo.mem_ids (mem_ids_addTables ht (consistent_fresh _))
  · exact mem_ids_addColumns i.relations hid (htables.consistent (consistent_fresh _))

/-- All ids but those of schemas and databases are names of the query, as the nodes that are there
by then are tables, columns and what contains tables. -/
theorem mem_ids_named_iff {id : String} (hfree : IsFreeOfContainers id) :
    id ∈ (named i).ids ↔ id ∈ queryIds i.relations.sources i.columns := by
  refine ⟨fun hid => ?_, mem_ids_named⟩
  obtain ⟨n, hn, rfl⟩ := List.mem_map.mp hid
  rcases (of_mem_named hn).1 with hname | hcontainer
  · exact hname
  · exact absurd rfl (hfree n hcontainer)

/-! ## Joins and the measured indicator -/

/-- Joins of different ids all get their nodes, but for those whose ids are taken beforehand. By
induction on the joins, as a round takes no id but that of its own join. -/
theorem mem_nodes_addJoins (rs : Relations) (width : Nat) {joins : List JoinRecord}
    (hids : (joins.map JoinRecord.id).Nodup) {b : GraphBuilder} (hb : b.Consistent)
    {r : JoinRecord} (hr : r ∈ joins) (hnew : r.id ∉ b.ids) :
    joinNode width r ∈ (b.forEach joins (addJoin rs width)).nodes := by
  induction joins generalizing b with
  | nil => cases hr
  | cons j rest ih =>
      rw [List.map_cons, List.nodup_cons] at hids
      have hnode : GrowsBy (· = joinNode width j) b (b.addNode (joinNode width j)) :=
        (GrowsBy.refl b).addNode rfl
      have hedges := growsBy_addJoin (P := (· = joinNode width j)) rs width j b
      have hround := hnode.trans hedges
      rcases List.mem_cons.mp hr with rfl | hr
      · have hlater := (growsBy_addJoins rs width rest (addJoin rs width r b)).growsTo
        exact hlater.mem_nodes (hedges.growsTo.mem_nodes (mem_nodes_addNode hb hnew))
      · -- The round brings an id other than that of `r`, so this is as free after it as before.
        refine ih hids.2 (hround.growsTo.consistent hb) hr fun hmem => ?_
        obtain ⟨n, hn, hid⟩ := List.mem_map.mp hmem
        rcases hround.mem_nodes hn with hn | rfl
        · exact hnew (hid ▸ List.mem_map_of_mem hn)
        · have hsame : j.id = r.id := hid
          exact hids.1 (hsame ▸ List.mem_map_of_mem hr)

/-- The node of a join's id is the join's own, unless the id is a name of the query. If it is, what
stands under the id came before the joins and is no join; else the id is free when the joins
come. -/
theorem exists_node_of_join {root : Tree} (hjoins : i.joins = root.joins i.relations)
    {r : JoinRecord} (hr : r ∈ i.joins) :
    ∃ n ∈ (build i).nodes, n.id = r.id
      ∧ (n.detail = .join r.kind r.conditionText
        ↔ r.id ∉ queryIds i.relations.sources i.columns) := by
  obtain ⟨place, hplace⟩ := Tree.exists_id_of_mem_joins (hjoins ▸ hr)
  have hfree : IsFreeOfContainers r.id := hplace ▸ isFreeOfContainers_joinId place
  have hids : (i.joins.map JoinRecord.id).Nodup := hjoins ▸ root.nodup_ids_joins i.relations
  have hlater := growsTo_build_of_joined i
  by_cases hname : r.id ∈ queryIds i.relations.sources i.columns
  · obtain ⟨n, hn, hid⟩ := List.mem_map.mp (mem_ids_named hname)
    have hbuild := hlater.mem_nodes ((growsBy_joined i).growsTo.mem_nodes hn)
    refine ⟨n, hbuild, hid, iff_of_false (fun hdetail => ?_) (not_not_intro hname)⟩
    obtain ⟨-, hjoin, -⟩ := of_mem_named hn
    exact hjoin (by rw [GraphNode.type, hdetail, NodeDetail.type])
  · have hnew : r.id ∉ (named i).ids := fun h => hname ((mem_ids_named_iff hfree).mp h)
    have hjoined :=
      mem_nodes_addJoins i.relations i.joinLabelWidth hids (consistent_named i) hr hnew
    exact ⟨_, hlater.mem_nodes hjoined, rfl, iff_of_true rfl hname⟩

/-- The measured indicator has its node, unless its id is a name of the query. There is none before
it comes and none after, and it comes just when its id is free: no join is numbered like it. -/
theorem nodesOfType_kpi {root : Tree} (hjoins : i.joins = root.joins i.relations) :
    (assembleGraph i).nodesOfType .kpi
      = if kpiId ∈ queryIds i.relations.sources i.columns then [] else [kpiNode i] := by
  have hnone : ∀ n ∈ (joined i).nodes, n.type ≠ .kpi := by
    intro n hn
    rcases (growsBy_joined i).mem_nodes hn with hn | ⟨j, -, rfl⟩
    · exact (of_mem_named hn).2.2
    · nofun
  have htaken : kpiId ∈ (joined i).ids ↔ kpiId ∈ queryIds i.relations.sources i.columns := by
    rw [← mem_ids_named_iff isFreeOfContainers_kpiId]
    refine ⟨fun h => ?_, (growsBy_joined i).growsTo.mem_ids⟩
    obtain ⟨n, hn, hid⟩ := List.mem_map.mp h
    rcases (growsBy_joined i).mem_nodes hn with hn | ⟨j, hj, rfl⟩
    · exact hid ▸ List.mem_map_of_mem hn
    · obtain ⟨place, hplace⟩ := Tree.exists_id_of_mem_joins (hjoins ▸ hj)
      exact absurd (hplace.symm.trans hid) (joinId_ne_kpiId place)
  obtain ⟨added, hadded, htypes⟩ := (growsBy_addKpi i (joined i)).exists_added
  have hbefore : (joined i).nodes.filter (·.type = .kpi) = [] :=
    List.filter_eq_nil_iff.mpr fun n hn => by simpa using hnone n hn
  have hafter : added.filter (·.type = .kpi) = [] := by
    refine List.filter_eq_nil_iff.mpr fun n hn => ?_
    rcases htypes n hn with htype | htype <;> simp [htype]
  change (addKpi i (joined i)).nodes.filter (·.type = .kpi) = _
  rw [hadded, List.filter_append, hafter, List.append_nil]
  have hnode := ((consistent_joined i).hasNode_iff kpiId).trans htaken
  split
  · rename_i hname
    rw [addNode_of_hasNode (hnode.mpr hname), hbefore]
  · rename_i hname
    rw [addNode_of_not_hasNode fun h => hname (hnode.mp h), List.filter_append, hbefore]
    rfl

end Assembly

/-! ## Decoration -/

/-- A node stays as it is, or is that of a table or a column with other details. -/
structure GraphNode.Decorates (n n' : GraphNode) : Prop where
  id_eq : n'.id = n.id
  type_eq : n'.type = n.type
  eq_of_type : n.type ≠ .table → n.type ≠ .column → n' = n

namespace GraphNode.Decorates

theorem refl (n : GraphNode) : n.Decorates n := ⟨rfl, rfl, fun _ _ => rfl⟩

theorem decorate (m : TableMetadata) (n : GraphNode) :
    n.Decorates (Enrichment.decorate m n) := by
  unfold Enrichment.decorate
  split
  · rename_i hdetail
    have htype : n.type = .table := by rw [GraphNode.type, hdetail, NodeDetail.type]
    exact ⟨rfl, htype.symm, fun h => absurd htype h⟩
  · rename_i hdetail
    have htype : n.type = .column := by rw [GraphNode.type, hdetail, NodeDetail.type]
    split
    · exact ⟨rfl, htype.symm, fun _ h => absurd htype h⟩
    · exact refl n
  · exact refl n

theorem detail_eq_join_iff {n n' : GraphNode} (h : n.Decorates n') (kind condition : String) :
    n'.detail = .join kind condition ↔ n.detail = .join kind condition := by
  by_cases htype : n.type = .join
  · rw [h.eq_of_type (by simp [htype]) (by simp [htype])]
  · have htype' : n'.type ≠ .join := fun hjoin => htype (h.type_eq.symm.trans hjoin)
    refine iff_of_false (fun hdetail => htype' ?_) fun hdetail => htype ?_
    · rw [GraphNode.type, hdetail, NodeDetail.type]
    · rw [GraphNode.type, hdetail, NodeDetail.type]

variable {nodes nodes' : List GraphNode}

theorem ids_eq (h : List.Forall₂ Decorates nodes nodes') :
    nodes'.map GraphNode.id = nodes.map GraphNode.id := by
  induction h with
  | nil => rfl
  | cons hn _ ih => rw [List.map_cons, List.map_cons, hn.id_eq, ih]

theorem filter_type_eq (h : List.Forall₂ Decorates nodes nodes') {type : NodeType}
    (htable : type ≠ .table) (hcolumn : type ≠ .column) :
    nodes'.filter (·.type = type) = nodes.filter (·.type = type) := by
  induction h with
  | nil => rfl
  | @cons n n' rest rest' hn _ ih =>
      rw [List.filter_cons, List.filter_cons, hn.type_eq, ih]
      by_cases htype : n.type = type
      · rw [hn.eq_of_type (htype ▸ htable) (htype ▸ hcolumn)]
      · simp [htype]

end GraphNode.Decorates

/-! ## The graph of an analysis -/

namespace Analysis

/-- The names under which the statement itself brings nodes into the graph. -/
def queryIds (a : Analysis) : List String := QueryLineage.queryIds a.relations.sources a.columns

variable {σ : Type}

theorem exists_input (o : LineageOptions) (provider : Option (Provider σ)) (timestamp : String)
    (root : Tree) (s : σ) :
    let a := ((ofTree o provider timestamp root).run s).1
    ∃ i : AssemblyInput, List.Forall₂ GraphNode.Decorates (assembleGraph i).nodes a.graph.nodes
      ∧ i.relations = a.relations ∧ i.columns = a.columns ∧ i.joins = a.joins
      ∧ i.joins = root.joins i.relations
      ∧ Assembly.kpiNode i = ⟨kpiId, a.outputs.measure.getD kpiId,
          .kpi a.outputs.measure a.groupings o.governance.owner timestamp⟩ := by
  rw [run_ofTree]
  let tree := ((qualified o provider root).run s).1.1
  exact ⟨input o timestamp root tree, forall₂_decorated .refl .decorate provider _ _, rfl, rfl, rfl,
    rfl, rfl⟩

/-- **What a query's own names take.** The graph of any analysis has exactly one indicator, and
exactly one node for the id of each join, the join's own, unless the id is also the name of a table,
an output or a column of the query: then that is what stands under the id. Ids of schemas and
databases are out of the way by their first letters. It is shown of the assembled graph, and
decorating changes neither an id nor a join nor an indicator. -/
theorem reserved_ids (o : LineageOptions) (provider : Option (Provider σ)) (timestamp : String)
    (root : Tree) (s : σ) :
    let a := ((ofTree o provider timestamp root).run s).1
    (a.graph.nodesOfType .kpi
        = if kpiId ∈ a.queryIds then []
          else [⟨kpiId, a.outputs.measure.getD kpiId,
            .kpi a.outputs.measure a.groupings o.governance.owner timestamp⟩])
      ∧ ∀ r ∈ a.joins, ∃ n, a.graph.nodes.filter (·.id = r.id) = [n]
          ∧ (n.detail = .join r.kind r.conditionText ↔ r.id ∉ a.queryIds) := by
  intro a
  obtain ⟨i, hdecorates, hrelations, hcolumns, hjoins, hnumbered, hkpi⟩ :=
    exists_input o provider timestamp root s
  have hqueryIds : queryIds a = QueryLineage.queryIds i.relations.sources i.columns := by
    rw [queryIds, hrelations, hcolumns]
  have hids : (a.graph.nodes.map GraphNode.id).Nodup := by
    rw [GraphNode.Decorates.ids_eq hdecorates]
    exact (Assembly.consistent_build i).ids_nodup
  rw [hqueryIds]
  constructor
  · rw [← hkpi, ← Assembly.nodesOfType_kpi hnumbered]
    exact GraphNode.Decorates.filter_type_eq hdecorates nofun nofun
  · intro r hr
    obtain ⟨n, hn, hid, hdetail⟩ := Assembly.exists_node_of_join hnumbered (hjoins ▸ hr)
    obtain ⟨n', hn', hnn'⟩ := exists_of_mem_forall₂ hdecorates.flip hn
    have hid' : n'.id = r.id := hnn'.id_eq.trans hid
    refine ⟨n', hid' ▸ GraphBuilder.filter_id_eq hids hn', ?_⟩
    exact (hnn'.detail_eq_join_iff r.kind r.conditionText).trans hdetail

/-- An output named `kpi` leaves the graph without an indicator. -/
theorem nodesOfType_of_outputNamedKpi :
    (({ sql := "SELECT 1 AS kpi" } : LineageRequest).tree.map fun root =>
      let a := ((ofTree (.ofConfig {}) (none : Option (Provider Unit)) "" root.1).run ()).1
      (a.graph.nodesOfType .kpi, a.graph.nodesOfType .output)).toOption
      = some ([], [⟨"kpi", "kpi", .output⟩]) := by
  decide +kernel

example :
    (({ sql := "SELECT a.x AS J1 FROM a JOIN b ON a.id = b.id" } : LineageRequest).tree.map
      fun root =>
        let a := ((ofTree (.ofConfig {}) (none : Option (Provider Unit)) "" root.1).run ()).1
        (a.joins.map JoinRecord.id, a.graph.nodesOfType .join)).toOption
      = some (["J1"], []) := by
  decide +kernel

end Analysis

end QueryLineage
