import QueryLineage.Proofs.JsonReading
import QueryLineage.Report

/-!
# Reading reports back

Each part of a report is read back from the object it is written as, whatever order its members come
back in: one `rereads` for each type, from the leaves up. Nothing is lost on the way but in two
places, which `LineageReport.IsReadable` names: the text of a table name has to be read as that
name, and a number of rows has to fit 64 bits.

The details of a node stand beside its id, its label and its type, so they are read from more
members than their own; `NodeDetail.ofRecord_iff` is therefore stated for any members that theirs
are among.
-/

namespace QueryLineage

open Json

/-! ## Names -/

/-- A name is written as its text, which need not be read as the same name. -/
theorem TableName.rereads (t : TableName) :
    Rereads ofJson t.toJson t (TableName.parse t.text = .ok t) := by
  rintro _ ⟨⟩
  cases hparse : TableName.parse t.text <;> simp [ofJson, string, hparse, Except.toOption]

theorem NodeType.rereads (t : NodeType) : Rereads ofJson (.str t.name) t True := by
  rintro _ ⟨⟩
  cases t <;> simp [ofJson, name, ofName?, all]

theorem EdgeKind.rereads (k : EdgeKind) : Rereads ofJson (.str k.name) k True := by
  rintro _ ⟨⟩
  cases k <;> simp [ofJson, choice, name, ofName?, all]

/-! ## Records -/

theorem Governance.rereads (g : Governance) : Rereads ofJson g.toJson g True := by
  intro v hv
  obtain ⟨others, rfl, h⟩ := hv.exists_given (by simp)
  have hcreatedBy : (Record.named others).required "createdBy" string = some g.createdBy :=
    h.required_text (by simp)
  have hlastModified : (Record.named others).required "lastModified" string = some g.lastModified :=
    h.required_text (by simp)
  have hversion : (Record.named others).required "lineageVersion" string = some g.lineageVersion :=
    h.required_text (by simp)
  simp [ofJson, record, hcreatedBy, hlastModified, hversion]

theorem Hierarchy.rereads (i : Hierarchy) : Rereads ofJson i.toJson i True := by
  intro v hv
  obtain ⟨others, rfl, h⟩ := hv.exists_given (by simp)
  have hphysical : (Record.named others).required "physical" (list string) = some i.physical :=
    h.required_texts (by simp)
  have hlogical : (Record.named others).required "logical" (list string) = some i.logical :=
    h.required_texts (by simp)
  have hsemantic : (Record.named others).required "semantic" (list string) = some i.semantic :=
    h.required_texts (by simp)
  simp [ofJson, record, hphysical, hlogical, hsemantic]

theorem GraphEdge.rereads (e : GraphEdge) : Rereads ofJson e.toJson e True := by
  intro v hv
  obtain ⟨others, rfl, h⟩ := hv.exists_given (by simp)
  have hsource : (Record.named others).required "source" string = some e.source :=
    h.required_text (by simp)
  have htarget : (Record.named others).required "target" string = some e.target :=
    h.required_text (by simp)
  have hkind : (Record.named others).required "type" EdgeKind.ofJson = some e.kind :=
    (h.required_iff (by simp) e.kind.rereads).mpr trivial
  simp [ofJson, record, hsource, htarget, hkind]

theorem rereads_equalityPair (p : String × String) :
    Rereads (pair string string) (strings [p.1, p.2]) p True :=
  rereads_pair (rereads_string p.1) (rereads_string p.2)

theorem JoinRecord.rereads (j : JoinRecord) : Rereads ofJson j.toJson j True := by
  intro v hv
  obtain ⟨others, rfl, h⟩ := hv.exists_given (by simp)
  have hid : (Record.named others).required "id" string = some j.id :=
    h.required_text (by simp)
  have hleft : (Record.named others).required "left_table" string = some j.leftTable :=
    h.required_text (by simp)
  have hright : (Record.named others).required "right_table" string = some j.rightTable :=
    h.required_text (by simp)
  have halias : (Record.named others).orNull "right_alias" string = some j.rightAlias :=
    h.orNull_text (by simp)
  have hkind : (Record.named others).required "kind" string = some j.kind :=
    h.required_text (by simp)
  have hcondition : (Record.named others).required "on_condition_text" string
      = some j.conditionText :=
    h.required_text (by simp)
  have hpairs : (Record.named others).required "equality_pairs" (list (pair string string))
      = some j.equalityPairs :=
    (h.required_iff (by simp) (rereads_list _ fun p _ => rereads_equalityPair p)).mpr
      fun _ _ => trivial
  have hresolved : (Record.named others).required "resolved" boolean = some j.resolved :=
    (h.required_iff (by simp) (rereads_boolean _)).mpr trivial
  simp [ofJson, record, hid, hleft, hright, halias, hkind, hcondition, hpairs, hresolved]

/-! ## Output slots

An open slot is left out. -/

namespace Outputs

theorem names_sublist (o : Outputs) :
    ((member? "x" Json.str o.x ++ member? "y" Json.str o.y ++ member? "label" Json.str o.label
      ++ member? "value" Json.str o.value).map Prod.fst).Sublist fieldNames := by
  have hslot : ∀ (name : String) (s : Option String),
      ((member? name Json.str s).map Prod.fst).Sublist [name] := by
    intro name s
    cases s with
    | none => exact List.nil_sublist _
    | some s => exact List.Sublist.refl _
  simp only [List.map_append]
  exact (((hslot "x" o.x).append (hslot "y" o.y)).append (hslot "label" o.label)).append
    (hslot "value" o.value)

theorem rereads (o : Outputs) : Rereads ofJson o.toJson o True := by
  intro v hv
  obtain ⟨others, rfl, h⟩ := hv.exists_given (o.names_sublist.nodup (by decide))
  have hx : (Record.named others).withDefault "x" (nullable string) none = some o.x :=
    h.withDefault_text (by simp [mem_member?_iff]) (by simp [mem_map_fst_member?_iff])
  have hy : (Record.named others).withDefault "y" (nullable string) none = some o.y :=
    h.withDefault_text (by simp [mem_member?_iff]) (by simp [mem_map_fst_member?_iff])
  have hlabel : (Record.named others).withDefault "label" (nullable string) none = some o.label :=
    h.withDefault_text (by simp [mem_member?_iff]) (by simp [mem_map_fst_member?_iff])
  have hvalue : (Record.named others).withDefault "value" (nullable string) none = some o.value :=
    h.withDefault_text (by simp [mem_member?_iff]) (by simp [mem_map_fst_member?_iff])
  simp [ofJson, record, hx, hy, hlabel, hvalue]

end Outputs

/-! ## Graphs -/

/-- The number of rows that is known of a table. -/
def NodeDetail.rowCount? : NodeDetail → Option Nat
  | .table _ _ rowCount => rowCount
  | _ => none

/-- What a node stands for is told by its type and the members of that type. One case for each type;
only the number of rows of a table can fail to come back, if it is too large. -/
theorem NodeDetail.ofRecord_iff (d : NodeDetail) {members others : List (String × Json)}
    (h : Given members others) (hmembers : d.members ⊆ members) :
    ofRecord (.named others) d.type = some d ↔ ∀ n ∈ d.rowCount?, n ≤ Text.maxCount := by
  cases d with
  | table database schema rowCount =>
      have hdatabase : (Record.named others).orNull "database" string = some database :=
        h.orNull_text (hmembers (by simp [NodeDetail.members]))
      have hschema : (Record.named others).orNull "schema" string = some schema :=
        h.orNull_text (hmembers (by simp [NodeDetail.members]))
      have hrows : (Record.named others).orNull "rowCount" count = some rowCount
          ↔ ∀ n ∈ rowCount, n ≤ Text.maxCount :=
        h.orNull_iff (hmembers (by simp [NodeDetail.members]))
          (rereads_nullable nat nofun fun n _ => rereads_count n)
      simpa [type, rowCount?, ofRecord, hdatabase, hschema, Option.bind_eq_some_iff] using hrows
  | column table dataType description pii =>
      have htable : (Record.named others).orNull "table" string = some table :=
        h.orNull_text (hmembers (by simp [NodeDetail.members]))
      have hdataType : (Record.named others).orNull "dataType" string = some dataType :=
        h.orNull_text (hmembers (by simp [NodeDetail.members]))
      have hdescription : (Record.named others).orNull "description" string = some description :=
        h.orNull_text (hmembers (by simp [NodeDetail.members]))
      have hpii : (Record.named others).withDefault "pii" boolean false = some pii :=
        (h.withDefault_iff (hmembers (by simp [NodeDetail.members])) (rereads_boolean pii)).mpr
          trivial
      simp [type, rowCount?, ofRecord, htable, hdataType, hdescription, hpii]
  | join kind condition =>
      have hkind : (Record.named others).required "kind" string = some kind :=
        h.required_text (hmembers (by simp [NodeDetail.members]))
      have hcondition : (Record.named others).required "on" string = some condition :=
        h.required_text (hmembers (by simp [NodeDetail.members]))
      simp [type, rowCount?, ofRecord, hkind, hcondition]
  | aggregation function expression =>
      have hfunction : (Record.named others).required "function" string = some function :=
        h.required_text (hmembers (by simp [NodeDetail.members]))
      have hexpression : (Record.named others).required "expression" string = some expression :=
        h.required_text (hmembers (by simp [NodeDetail.members]))
      simp [type, rowCount?, ofRecord, hfunction, hexpression]
  | kpi expression dimensions owner updatedAt =>
      have hexpression : (Record.named others).orNull "expression" string = some expression :=
        h.orNull_text (hmembers (by simp [NodeDetail.members]))
      have hdimensions : (Record.named others).required "dimensions" (list string)
          = some dimensions :=
        h.required_texts (hmembers (by simp [NodeDetail.members]))
      have howner : (Record.named others).required "owner" string = some owner :=
        h.required_text (hmembers (by simp [NodeDetail.members]))
      have hupdatedAt : (Record.named others).required "updatedAt" string = some updatedAt :=
        h.required_text (hmembers (by simp [NodeDetail.members]))
      simp [type, rowCount?, ofRecord, hexpression, hdimensions, howner, hupdatedAt]
  | output => simp [type, rowCount?, ofRecord]
  | database => simp [type, rowCount?, ofRecord]
  | schema => simp [type, rowCount?, ofRecord]

theorem GraphNode.nodup_names (n : GraphNode) :
    (List.map Prod.fst ([("id", Json.str n.id), ("label", .str n.label), ("type", .str n.type.name)]
      ++ n.detail.members)).Nodup := by
  cases n.detail <;> simp [NodeDetail.members]

theorem GraphNode.rereads (n : GraphNode) :
    Rereads ofJson n.toJson n (∀ c ∈ n.detail.rowCount?, c ≤ Text.maxCount) := by
  intro v hv
  obtain ⟨others, rfl, h⟩ := hv.exists_given n.nodup_names
  have hid : (Record.named others).required "id" string = some n.id :=
    h.required_text (by simp)
  have hlabel : (Record.named others).required "label" string = some n.label :=
    h.required_text (by simp)
  have htype : (Record.named others).required "type" NodeType.ofJson = some n.detail.type :=
    (h.required_iff (by simp [type]) n.detail.type.rereads).mpr trivial
  have hdetail := n.detail.ofRecord_iff h (List.subset_append_right _ _)
  obtain ⟨id, label, detail⟩ := n
  simpa [ofJson, hid, hlabel, htype, Option.bind_eq_some_iff] using hdetail

/-- Every number of rows in a graph fits 64 bits. -/
def LineageGraph.HasCounts (g : LineageGraph) : Prop :=
  ∀ n ∈ g.nodes, ∀ c ∈ n.detail.rowCount?, c ≤ Text.maxCount

theorem LineageGraph.rereads (g : LineageGraph) : Rereads ofJson g.toJson g g.HasCounts := by
  intro v hv
  obtain ⟨others, rfl, h⟩ := hv.exists_given (by simp)
  have hnodes : (Record.named others).required "nodes" (list GraphNode.ofJson) = some g.nodes
      ↔ g.HasCounts :=
    h.required_iff (by simp) (rereads_list _ fun n _ => n.rereads)
  have hedges : (Record.named others).required "edges" (list GraphEdge.ofJson) = some g.edges :=
    (h.required_iff (by simp) (rereads_list _ fun e _ => e.rereads)).mpr fun _ _ => trivial
  obtain ⟨nodes, edges⟩ := g
  simpa [ofJson, record, hedges, Option.bind_eq_some_iff] using hnodes

/-! ## Reports -/

namespace LineageReport

/-- The names of tables in a report: those of its sources, and those under the names of common table
expressions. -/
def tableNames (r : LineageReport) : List TableName := r.sources ++ r.ctes.values.flatten

/-- What the written form of a report does not keep by itself: that names are read as they are
written, and that counts fit. -/
structure IsReadable (r : LineageReport) : Prop where
  names : ∀ t ∈ r.tableNames, TableName.parse t.text = .ok t
  counts : r.graph.HasCounts

theorem rereads_tables (l : List TableName) :
    Rereads (list TableName.ofJson) (.arr (l.map TableName.toJson)) l
      (∀ t ∈ l, TableName.parse t.text = .ok t) :=
  rereads_list _ fun t _ => t.rereads

theorem rereads_tableLists (d : Dict (List TableName)) :
    Rereads (dict (list TableName.ofJson)) (tableListsJson d) d
      (∀ e ∈ d.toList, ∀ t ∈ e.2, TableName.parse t.text = .ok t) :=
  rereads_dict (P := fun l => ∀ t ∈ l, TableName.parse t.text = .ok t)
    (fun l => .arr (l.map TableName.toJson)) fun e _ => rereads_tables e.2

theorem isReadable_iff {r : LineageReport} :
    r.IsReadable ↔ (∀ t ∈ r.sources, TableName.parse t.text = .ok t) ∧ r.graph.HasCounts
      ∧ ∀ e ∈ r.ctes.toList, ∀ t ∈ e.2, TableName.parse t.text = .ok t := by
  have hnames : (∀ t ∈ r.tableNames, TableName.parse t.text = .ok t)
      ↔ (∀ t ∈ r.sources, TableName.parse t.text = .ok t)
        ∧ ∀ e ∈ r.ctes.toList, ∀ t ∈ e.2, TableName.parse t.text = .ok t := by
    simp only [tableNames, Dict.values, List.forall_mem_append, List.forall_mem_flatten,
      List.forall_mem_map]
  constructor
  · rintro ⟨h, hcounts⟩
    exact ⟨(hnames.mp h).1, hcounts, (hnames.mp h).2⟩
  · rintro ⟨hsources, hcounts, hctes⟩
    exact ⟨hnames.mpr ⟨hsources, hctes⟩, hcounts⟩

theorem rereads (r : LineageReport) : Rereads ofJson r.toJson r r.IsReadable := by
  intro v hv
  obtain ⟨others, rfl, h⟩ := hv.exists_given (by simp)
  have hsources : (Record.named others).required "sources" (list TableName.ofJson)
      = some r.sources ↔ ∀ t ∈ r.sources, TableName.parse t.text = .ok t :=
    h.required_iff (by simp) (rereads_tables r.sources)
  have hjoins : (Record.named others).required "joins" (list JoinRecord.ofJson) = some r.joins :=
    (h.required_iff (by simp) (rereads_list _ fun j _ => j.rereads)).mpr fun _ _ => trivial
  have hfilters : (Record.named others).required "filters" (list string) = some r.filters :=
    h.required_texts (by simp)
  have hgroupings : (Record.named others).required "groupBy" (list string) = some r.groupings :=
    h.required_texts (by simp)
  have houtputs : (Record.named others).orNull "outputs" Outputs.ofJson = some r.outputs :=
    (h.orNull_iff (by simp) (rereads_nullable Outputs.toJson nofun fun o _ => o.rereads)).mpr
      fun _ _ => trivial
  have hgraph : (Record.named others).required "graph" LineageGraph.ofJson = some r.graph
      ↔ r.graph.HasCounts :=
    h.required_iff (by simp) r.graph.rereads
  have hhierarchy : (Record.named others).required "hierarchy" Hierarchy.ofJson
      = some r.hierarchy :=
    (h.required_iff (by simp) r.hierarchy.rereads).mpr trivial
  have hgovernance : (Record.named others).required "governance" Governance.ofJson
      = some r.governance :=
    (h.required_iff (by simp) r.governance.rereads).mpr trivial
  have hctes : (Record.named others).withDefault "ctes" (dict (list TableName.ofJson)) ∅
      = some r.ctes ↔ ∀ e ∈ r.ctes.toList, ∀ t ∈ e.2, TableName.parse t.text = .ok t :=
    h.withDefault_iff (by simp) (rereads_tableLists r.ctes)
  -- of the nine members six come back in any case; the other three carry the condition
  have hread : ofJson (.obj others) = some r
      ↔ (Record.named others).required "sources" (list TableName.ofJson) = some r.sources
        ∧ (Record.named others).required "graph" LineageGraph.ofJson = some r.graph
        ∧ (Record.named others).withDefault "ctes" (dict (list TableName.ofJson)) ∅
            = some r.ctes := by
    obtain ⟨sources, joins, filters, groupings, outputs, graph, hierarchy, governance, ctes⟩ := r
    simp [ofJson, record, hjoins, hfilters, hgroupings, houtputs, hhierarchy, hgovernance,
      Option.bind_eq_some_iff]
  rw [hread, hsources, hgraph, hctes, isReadable_iff]

/-- **A report is read back from its written form** exactly if its names are read as they are
written and its counts fit, and then in whatever order the members of objects come back. Each field
is read back by itself, with a condition of its own, and `rereads` puts the conditions together. -/
theorem ofJson_toJson (r : LineageReport) :
    (ofJson r.toJson = some r ↔ r.IsReadable)
      ∧ (r.IsReadable → ∀ v, r.toJson.Reordered v → ofJson v = some r) :=
  ⟨r.rereads _ (Reordered.refl _), fun hr v hv => (r.rereads v hv).mpr hr⟩

/-- A report with each type of node, with and without what can be missing. -/
example :
    let orders : TableName := ⟨["p", "d", "t"], by decide, by decide⟩
    let r : LineageReport := {
      sources := [orders]
      joins := [⟨⟨"p.d.t", "u", none, "LEFT", "t.a = u.b", [("t.a", "u.b")], true⟩, "J1"⟩]
      filters := ["t.a > \"1\""]
      groupings := []
      outputs := some { x := some "t.a" }
      graph := {
        nodes := [⟨"p.d.t", "t", .table (some "p") (some "d") (some Text.maxCount)⟩,
          ⟨"u", "u", .table none none none⟩,
          ⟨"t.a", "a", .column (some "p.d.t") (some "INT64") none true⟩,
          ⟨"x", "x", .output⟩, ⟨"J1", "t.a = u.b", .join "LEFT" "t.a = u.b"⟩,
          ⟨"agg:SUM(a)", "SUM(a)", .aggregation "SUM" "a"⟩,
          ⟨"kpi", "kpi", .kpi none ["x"] "unassigned" "2024-01-01T00:00:00Z"⟩,
          ⟨"database:p", "p", .database⟩, ⟨"schema:p.d", "d", .schema⟩]
        edges := [⟨"database:p", "schema:p.d", .contains⟩, ⟨"t.a", "J1", .joinInput⟩] }
      hierarchy := { physical := ["p.d.t", "u"] }
      governance := ⟨"strata", "2024-01-01T00:00:00Z", "1.0"⟩
      ctes := .ofList [("c", [orders]), ("d", [])] }
    ofJson r.toJson = some r := by
  decide +kernel

end LineageReport

end QueryLineage
