import QueryLineage.Proofs.ReservedIds
import QueryLineage.Proofs.SourceGrounding

/-!
# Who owns a column

A column is attributed to the tables it may have been read from, as far as they are in the graph,
and what is in the graph is asked by name alone. A source has its own node. But a column reference
may also spell out a table that the statement does not read, and an output or a column may have the
name of that table: then this node is taken for the table. `Analysis.column_owners` says that there
is no third case, by asking of each node and edge of the graph what call it came by
(`GrowsAlike.mem_nodes`, `GrowsAlike.mem_edges`).
-/

namespace QueryLineage

/-! ## What calls leave behind -/

namespace GraphBuilder

variable {C : GraphBuilder → GraphCall → Prop} {b c b' c' : GraphBuilder}

theorem mem_edges_step {call : GraphCall} {e : GraphEdge} (he : e ∈ (b.step call).edges) :
    e ∈ b.edges ∨ call = .addEdge e.source e.target e.kind := by
  cases call with
  | addNode n =>
      by_cases h : b.hasNode n.id = true
      · rw [step, addNode_of_hasNode h] at he
        exact .inl he
      · rw [step, addNode_of_not_hasNode h] at he
        exact .inl he
  | addEdge source target kind =>
      rcases addEdge_cases source target kind b with h | ⟨-, -, seen, h, -⟩
      · rw [step, h] at he
        exact .inl he
      · rw [step, h] at he
        rcases List.mem_append.mp he with he | he
        · exact .inl he
        · obtain rfl := List.mem_singleton.mp he
          exact .inr rfl

namespace GrowsAlike

theorem growsTo (h : GrowsAlike C b c b' c') : b.GrowsTo b' :=
  (h.growsBy (P := fun _ => True) fun _ _ _ => trivial).growsTo

theorem mem_edges (h : GrowsAlike C b c b' c') {e : GraphEdge} (he : e ∈ b'.edges) :
    e ∈ b.edges ∨ ∃ d, C d (.addEdge e.source e.target e.kind) := by
  induction h with
  | refl _ => exact .inl he
  | call call _ hcall ih =>
      rcases mem_edges_step he with he | rfl
      · exact ih he
      · exact .inr ⟨_, hcall⟩

/-- A node was there before, or some call was for it, on a graph on the way. By induction on the
calls; the graph before the call is what the call's condition is about. -/
theorem mem_nodes (h : GrowsAlike C b c b' c') {n : GraphNode} (hn : n ∈ b'.nodes) :
    n ∈ b.nodes ∨ ∃ d, b.GrowsTo d ∧ d.GrowsTo b' ∧ C d (.addNode n) := by
  induction h with
  | refl _ => exact .inl hn
  | @call d _ call hbefore hcall ih =>
      have hstep : d.GrowsTo (d.step call) := ⟨[call], rfl⟩
      obtain ⟨added, hadded, hcalled⟩ :=
        exists_added_step (P := fun n => call = .addNode n) d call fun _ h => h
      rw [hadded, List.mem_append] at hn
      rcases hn with hn | hn
      · rcases ih hn with hn | ⟨d', hd', hlater, hcall'⟩
        · exact .inl hn
        · exact .inr ⟨d', hd', hlater.trans hstep, hcall'⟩
      · obtain rfl := hcalled n hn
        exact .inr ⟨d, hbefore.growsTo, hstep, hcall⟩

end GrowsAlike

end GraphBuilder

/-! ## Tables that columns name -/

namespace Relations

/-- The text of a column begins with a path that stands for the table. -/
def Spells (rs : Relations) (column : String) (t : TableName) : Prop :=
  ∃ path, path <+: columnParts column ∧ rs.defaults.resolve path = some t

/-- A qualifier is an alias, or it stands for a table by itself. One case for each number of parts
that a column can have. -/
theorem owner?_cases {rs : Relations} {column : String} {relation : Relation}
    (h : rs.owner? column = some relation) :
    (∃ name, rs.aliases.relation? name = some relation)
      ∨ ∃ t, relation = .table t ∧ rs.Spells column t := by
  have hspelled : ∀ {path}, path <+: columnParts column →
      (rs.defaults.resolve path).map Relation.table = some relation →
      ∃ t, relation = .table t ∧ rs.Spells column t := by
    intro path hpath hresolve
    obtain ⟨t, ht, rfl⟩ := Option.map_eq_some_iff.mp hresolve
    exact ⟨t, rfl, path, hpath, ht⟩
  simp only [owner?] at h
  split at h
  · cases h
  · split at h
    · cases h
    · cases h
    · rename_i qualifier _ hparts
      rcases Option.or_eq_some_iff.mp h with halias | ⟨-, htable⟩
      · exact .inl ⟨qualifier, halias⟩
      · exact .inr (hspelled ⟨_, hparts.symm⟩ htable)
    · rename_i hparts
      exact .inr (hspelled ⟨_, hparts.symm⟩ h)
    · rename_i hparts
      exact .inr (hspelled ⟨_, hparts.symm⟩ h)

/-- A table that a column may have been read from is a source, unless the column spells it out:
whatever an alias stands for is grounded in the sources (`grounded_of_find?`). -/
theorem mem_sources_or_spells {defaults : TableDefaults} {root : Tree} {column : String}
    {t : TableName} (h : t ∈ (ofTree defaults root).baseTables column) :
    t ∈ (ofTree defaults root).sources.toList ∨ (ofTree defaults root).Spells column t := by
  unfold baseTables at h
  split at h
  · rename_i table howner
    obtain rfl := List.mem_singleton.mp h
    rcases owner?_cases howner with ⟨name, halias⟩ | ⟨t', heq, hspells⟩
    · exact .inl (grounded_of_find? halias)
    · obtain rfl := Relation.table.inj heq
      exact .inr hspells
  · rename_i name howner
    rcases owner?_cases howner with ⟨_, halias⟩ | ⟨_, heq, -⟩
    · obtain ⟨cte, hnamed, -, -, hsubset⟩ := grounded_of_find? halias
      rw [ResolvedCtes.bases?, hnamed] at h
      exact .inl (hsubset h)
    · cases heq
  · cases h

end Relations

/-! ## The assembled graph -/

namespace Assembly

open GraphBuilder Enrichment

variable {i : AssemblyInput}

/-- The graph with the tables in it. -/
def tabled (i : AssemblyInput) : GraphBuilder :=
  addTables i.relations.sources { dedupe := i.dedupeEdges }

theorem growsAlike_tabled (i : AssemblyInput) :
    GrowsAlike (TableCall i.relations.sources) { dedupe := i.dedupeEdges }
      { dedupe := i.dedupeEdges } (tabled i) (tabled i) :=
  growsAlike_addTables i.relations.sources (.refl _)

theorem consistent_tabled (i : AssemblyInput) : (tabled i).Consistent :=
  (growsAlike_tabled i).growsTo.consistent (consistent_fresh _)

theorem growsAlike_build (i : AssemblyInput) :
    GrowsAlike (LaterCall i) (tabled i) (tabled i) (build i) (build i) :=
  growsAlike_addRest i (.refl (tabled i))

theorem build_nodes_cases {n : GraphNode} (hn : n ∈ (build i).nodes) :
    ((∃ t ∈ i.relations.sources.toList, n = tableNode t) ∨ IsContainer n)
      ∨ ∃ d, d.Consistent ∧ d.GrowsTo (build i) ∧ LaterCall i d (.addNode n) := by
  rcases (growsAlike_build i).mem_nodes hn with hn | ⟨d, hd, hlater, hcall⟩
  · rcases (growsAlike_tabled i).mem_nodes hn with hn | ⟨_, -, -, hcall⟩
    · cases hn
    · exact .inl hcall.of_addNode
  · exact .inr ⟨d, hd.consistent (consistent_tabled i), hlater, hcall⟩

theorem TableCall.kind_eq {sources : TableName.Set} {b : GraphBuilder} {source target : String}
    {kind : EdgeKind} (h : TableCall sources b (.addEdge source target kind)) :
    kind = .contains := by
  cases h with
  | inDatabase project dataset => rfl
  | inSchema dataset ht => rfl

theorem LaterCall.of_addNode {d : GraphBuilder} {n : GraphNode} (h : LaterCall i d (.addNode n)) :
    (∃ id, n = columnNode id (ownersOf i.relations d id))
      ∨ n.type ≠ .table ∧ n.type ≠ .column := by
  cases h with
  | name h =>
      cases h with
      | output hname => exact .inr ⟨nofun, nofun⟩
      | column hid h =>
          cases h
          exact .inl ⟨_, rfl⟩
  | join h =>
      cases h
      exact .inr ⟨nofun, nofun⟩
  | indicator => exact .inr ⟨nofun, nofun⟩
  | kpi h =>
      cases h with
      | aggregation hm => exact .inr ⟨nofun, nofun⟩
      | column id h =>
          cases h
          exact .inl ⟨id, rfl⟩

/-- Later calls have columns contained in tables that they may have been read from. Of these calls
only those for a column are for an edge of this kind. -/
theorem LaterCall.of_contains {d : GraphBuilder} {source target : String}
    (h : LaterCall i d (.addEdge source target .contains)) :
    ∃ t ∈ i.relations.baseTables target, t.text = source := by
  have hcolumn : ∀ {id}, ColumnCall i.relations id d (.addEdge source target .contains) →
      ∃ t ∈ i.relations.baseTables target, t.text = source := by
    intro id h
    cases h with
    | owner ht => exact ⟨_, ht, rfl⟩
  cases h with
  | name h => cases h with
    | column _ h => exact hcolumn h
  | join h => cases h
  | kpi h => cases h with
    | column _ h => exact hcolumn h

/-- Later calls derive outputs from tables that their columns may have been read from, and the
indicator from aggregations. -/
theorem LaterCall.of_derives {d : GraphBuilder} {source target : String}
    (h : LaterCall i d (.addEdge source target .derives)) :
    (∃ m ∈ measures i.outputs, source = m.2.nodeId ∧ target = kpiId)
      ∨ ∃ column, (column, target) ∈ i.columns.projectionEdges
        ∧ ∃ t ∈ i.relations.baseTables column, t.text = source := by
  cases h with
  | name h => cases h with
    | column _ h => cases h
    | derives he ht => exact .inr ⟨_, he, _, ht, rfl⟩
  | join h => cases h
  | kpi h => cases h with
    | column _ h => cases h
    | derives hm => exact .inl ⟨_, hm, rfl, rfl⟩

theorem exists_source_of_table {n : GraphNode} (hn : n ∈ (build i).nodes)
    (htype : n.type = .table) : ∃ t ∈ i.relations.sources.toList, n = tableNode t := by
  rcases build_nodes_cases hn with (hsource | hcontainer) | ⟨d, -, -, hcall⟩
  · exact hsource
  · cases hcontainer <;> cases htype
  · rcases hcall.of_addNode with ⟨id, rfl⟩ | ⟨hnot, -⟩
    · cases htype
    · exact absurd htype hnot

/-- Tables come first, so every source has its own node: among nothing but tables an id can only be
taken by the same table, since a name is known by its text. -/
theorem tableNode_mem_build {t : TableName} (ht : t ∈ i.relations.sources.toList) :
    tableNode t ∈ (build i).nodes := by
  -- While the tables are added there are only tables, so nothing else can have taken the id.
  have hround : ∀ t ∈ i.relations.sources.toList, ∀ d : GraphBuilder,
      GrowsBy (fun n => ∃ t ∈ i.relations.sources.toList, n = tableNode t) d
        (d.addNode (tableNode t)) :=
    fun t ht d => (GrowsBy.refl d).addNode ⟨t, ht, rfl⟩
  have htables := (GrowsBy.refl { dedupe := i.dedupeEdges }).forEach hround
  have hid := mem_ids_forEach (consistent_fresh i.dedupeEdges) hround
    (fun t _ hd => mem_ids_addNode hd (tableNode t)) ht
  obtain ⟨n, hn, hsame⟩ := List.mem_map.mp hid
  have hcontainers : GrowsTo (forEach i.relations.sources.toList
      (fun t => GraphBuilder.addNode (tableNode t)) { dedupe := i.dedupeEdges }) (tabled i) :=
    ((GrowsBy.refl _).forEach fun _ ht d => growsBy_addContainers ht d).growsTo
  rcases htables.mem_nodes hn with hn' | ⟨t', -, rfl⟩
  · cases hn'
  · obtain rfl := TableName.text_injective hsame
    exact (growsAlike_build i).growsTo.mem_nodes (hcontainers.mem_nodes hn)

/-- A node with the name of a table is the table's own if and only if that is a source: names of
tables are told apart by their texts, and only sources have nodes of this type. -/
theorem exists_node_of_text {t : TableName} (ht : t.text ∈ (build i).ids) :
    ∃ n ∈ (build i).nodes, n.id = t.text
      ∧ (n.type = .table ↔ t ∈ i.relations.sources.toList) := by
  by_cases hsource : t ∈ i.relations.sources.toList
  · exact ⟨tableNode t, tableNode_mem_build hsource, rfl, iff_of_true rfl hsource⟩
  · obtain ⟨n, hn, hid⟩ := List.mem_map.mp ht
    refine ⟨n, hn, hid, iff_of_false (fun htype => hsource ?_) hsource⟩
    obtain ⟨t', ht', rfl⟩ := exists_source_of_table hn htype
    exact TableName.text_injective hid ▸ ht'

/-- A column belongs to a table that it may have been read from and that is in the graph by name.
The owner was chosen among those whose text was an id when the column came, and ids stay. -/
theorem exists_base_of_column {n : GraphNode} (hn : n ∈ (build i).nodes)
    (htype : n.type = .column) {owner : String} (howner : tableOf? n = some owner) :
    owner ∈ (build i).ids ∧ ∃ t ∈ i.relations.baseTables n.id, t.text = owner := by
  rcases build_nodes_cases hn with (⟨t, -, rfl⟩ | hcontainer) | ⟨d, hd, hlater, hcall⟩
  · cases htype
  · cases hcontainer <;> cases htype
  · rcases hcall.of_addNode with ⟨id, rfl⟩ | ⟨-, hnot⟩
    · simp only [tableOf?, columnNode] at howner
      split at howner
      · rename_i only honly
        obtain rfl := Option.some.inj howner
        have hmem : only ∈ ownersOf i.relations d id := honly ▸ List.mem_singleton_self only
        obtain ⟨hbase, hnode⟩ := List.mem_filter.mp hmem
        exact ⟨hlater.mem_ids ((hd.hasNode_iff _).mp hnode), only, hbase, rfl⟩
      · cases howner
    · exact absurd htype hnot

theorem exists_base_of_contains {e : GraphEdge} (he : e ∈ (build i).edges)
    (hkind : e.kind = .contains) {n : GraphNode} (hn : n ∈ (build i).nodes) (hid : n.id = e.target)
    (htype : n.type = .column) :
    ∃ t ∈ i.relations.baseTables e.target, t.text = e.source := by
  rcases (growsAlike_build i).mem_edges he with he | ⟨d, hcall⟩
  · -- An edge that came with the tables leads to one of their nodes, and ids are distinct.
    obtain ⟨m, hm, hmid⟩ := List.mem_map.mp ((consistent_tabled i).ends_mem e he).2
    obtain rfl : m = n := by
      have hbuild := (growsAlike_build i).growsTo.mem_nodes hm
      have hfound := (consistent_build i).node?_eq_some_iff.mpr ⟨hbuild, hmid⟩
      exact Option.some.inj
        (hfound.symm.trans ((consistent_build i).node?_eq_some_iff.mpr ⟨hn, hid⟩))
    rcases (growsAlike_tabled i).mem_nodes hm with hm | ⟨_, -, -, hcall⟩
    · cases hm
    · rcases hcall.of_addNode with ⟨t, -, rfl⟩ | hcontainer
      · cases htype
      · cases hcontainer <;> cases htype
  · rw [hkind] at hcall
    exact hcall.of_contains

theorem exists_base_of_derives {e : GraphEdge} (he : e ∈ (build i).edges)
    (hkind : e.kind = .derives) :
    (∃ m ∈ measures i.outputs, e.source = m.2.nodeId ∧ e.target = kpiId)
      ∨ ∃ column, (column, e.target) ∈ i.columns.projectionEdges
        ∧ ∃ t ∈ i.relations.baseTables column, t.text = e.source := by
  rcases (growsAlike_build i).mem_edges he with he | ⟨d, hcall⟩
  · rcases (growsAlike_tabled i).mem_edges he with he | ⟨d, hcall⟩
    · cases he
    · cases hkind.symm.trans hcall.kind_eq
  · rw [hkind] at hcall
    exact hcall.of_derives

end Assembly

/-! ## The graph of an analysis -/

/-- A node with its table as it is after decoration. -/
structure GraphNode.KeepsTable (n n' : GraphNode) : Prop where
  id_eq : n'.id = n.id
  type_eq : n'.type = n.type
  table_eq : Enrichment.tableOf? n' = Enrichment.tableOf? n

namespace GraphNode.KeepsTable

theorem refl (n : GraphNode) : n.KeepsTable n := ⟨rfl, rfl, rfl⟩

theorem decorate (m : TableMetadata) (n : GraphNode) :
    n.KeepsTable (Enrichment.decorate m n) where
  id_eq := (Decorates.decorate m n).id_eq
  type_eq := (Decorates.decorate m n).type_eq
  table_eq := by
    obtain ⟨id, label, detail⟩ := n
    cases detail with
    | column table dataType description pii =>
        simp only [Enrichment.decorate]
        cases m.column label <;> rfl
    | _ => rfl

end GraphNode.KeepsTable

namespace Analysis

variable {σ : Type}

/-- The column may have been read from a table of this name, and the name has a node: the table's
own if the statement reads the table. If it does not, the column spells the table out, and the node
is no table's. -/
def Owns (a : Analysis) (owner column : String) : Prop :=
  ∃ t ∈ a.relations.baseTables column, t.text = owner ∧ ∃ n ∈ a.graph.nodes, n.id = owner
    ∧ (n.type = .table ↔ t ∈ a.relations.sources.toList)
    ∧ (t ∈ a.relations.sources.toList ∨ a.relations.Spells column t)

theorem owns_of_mem_ids {a : Analysis} {i : AssemblyInput} {defaults : TableDefaults} {root : Tree}
    (hrelations : a.relations = i.relations) (hroot : i.relations = .ofTree defaults root)
    (hnodes : List.Forall₂ GraphNode.KeepsTable (assembleGraph i).nodes a.graph.nodes)
    {column : String} {t : TableName} (ht : t ∈ i.relations.baseTables column)
    (hid : t.text ∈ (Assembly.build i).ids) : a.Owns t.text column := by
  obtain ⟨n, hn, hname, htable⟩ := Assembly.exists_node_of_text hid
  obtain ⟨n', hn', hnn'⟩ := exists_of_mem_forall₂ hnodes.flip hn
  rw [← hnn'.id_eq] at hname
  rw [← hnn'.type_eq, ← hrelations] at htable
  have hspells := Relations.mem_sources_or_spells (hroot ▸ ht)
  rw [← hroot, ← hrelations] at hspells
  exact ⟨t, hrelations ▸ ht, rfl, n', hn', hname, htable, hspells⟩

/-- **Who owns a column.** The table that a column is attributed to, and where the edges come from
that lead into a column or derive an output from it, is a source with its own node, unless a column
spells out a table that the statement does not read and something else in the graph has the name of
that table. The indicator is derived from aggregations besides. Every node and edge comes from a
call of the assembly, and each kind of call says which owners it is for (`exists_base_of_column`,
`LaterCall.of_contains`, `LaterCall.of_derives`). -/
theorem column_owners (o : LineageOptions) (provider : Option (Provider σ)) (timestamp : String)
    (root : Tree) (s : σ) :
    let a := ((ofTree o provider timestamp root).run s).1
    (∀ n ∈ a.graph.nodes, ∀ owner dataType description pii,
        n.detail = .column (some owner) dataType description pii → a.Owns owner n.id)
      ∧ (∀ e ∈ a.graph.edges, e.kind = .contains →
          (∃ n ∈ a.graph.nodes, n.id = e.target ∧ n.type = .column) → a.Owns e.source e.target)
      ∧ ∀ e ∈ a.graph.edges, e.kind = .derives →
          (∃ m ∈ Assembly.measures a.outputs, e.source = m.2.nodeId ∧ e.target = kpiId)
            ∨ ∃ column, (column, e.target) ∈ a.columns.projectionEdges
              ∧ a.Owns e.source column := by
  rw [run_ofTree]
  intro a
  let i := input o timestamp root ((qualified o provider root).run s).1.1
  have hnodes : List.Forall₂ GraphNode.KeepsTable (assembleGraph i).nodes a.graph.nodes :=
    forall₂_decorated .refl .decorate provider _ _
  have hedges : a.graph.edges = (Assembly.build i).edges := edges_decorated provider _ _
  have howns := @owns_of_mem_ids a i o.defaults root rfl rfl hnodes
  refine ⟨fun n' hn' owner dataType description pii hdetail => ?_, fun e he hkind htarget => ?_,
    fun e he hkind => ?_⟩
  · obtain ⟨n, hn, hnn'⟩ := exists_of_mem_forall₂ hnodes hn'
    have htype : n'.type = .column := by rw [GraphNode.type, hdetail, NodeDetail.type]
    have howner : Enrichment.tableOf? n' = some owner := by rw [Enrichment.tableOf?, hdetail]
    obtain ⟨hid, t, ht, rfl⟩ := Assembly.exists_base_of_column hn (hnn'.type_eq.symm.trans htype)
      (hnn'.table_eq.symm.trans howner)
    exact howns (hnn'.id_eq ▸ ht) hid
  · rw [hedges] at he
    obtain ⟨n', hn', hid, htype⟩ := htarget
    obtain ⟨n, hn, hnn'⟩ := exists_of_mem_forall₂ hnodes hn'
    obtain ⟨t, ht, hsource⟩ := Assembly.exists_base_of_contains he hkind hn
      (hnn'.id_eq.symm.trans hid) (hnn'.type_eq.symm.trans htype)
    have hends := ((Assembly.consistent_build i).ends_mem e he).1
    rw [← hsource] at hends ⊢
    exact howns ht hends
  · rw [hedges] at he
    rcases Assembly.exists_base_of_derives he hkind with hmeasure | ⟨column, hedge, t, ht, hsource⟩
    · exact .inl hmeasure
    · have hends := ((Assembly.consistent_build i).ends_mem e he).1
      rw [← hsource] at hends ⊢
      exact .inr ⟨column, hedge, howns ht hends⟩

/-- The alias of a derived table is no alias of a table, so `s.x` spells out a table `s`, and the
output `s` owns the column and derives itself from it. -/
theorem owner_of_outputNamedAlias :
    (({ sql := "SELECT s.x AS s FROM (SELECT a AS x FROM t) s" } : LineageRequest).tree.map
      fun root =>
        let a := ((ofTree (.ofConfig {}) (none : Option (Provider Unit)) "" root.1).run ()).1
        (a.relations.sources.toList.map TableName.text, a.graph.node? "s.x", a.graph.node? "s",
          a.graph.hasEdge "s" "s.x" .contains, a.graph.hasEdge "s" "s" .derives)).toOption
      = some (["t"], some ⟨"s.x", "x", .column (some "s") none none false⟩,
          some ⟨"s", "s", .output⟩, true, true) := by
  decide +kernel

end Analysis

end QueryLineage
