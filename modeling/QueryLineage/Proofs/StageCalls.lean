import QueryLineage.Assembly
import QueryLineage.Proofs.GraphCalls

/-!
# The calls of the assembly

A stage of the assembly looks at the half-built graph to decide what to add. It looks at the nodes
alone, never at the edges: on two graphs of the same nodes it makes the same calls. `GrowsAlike`
says this of a part of the assembly, and besides of what kind the calls are, where the kind may
depend on the graph that a call is made on. Each stage has its kinds of calls (`TableCall`,
`NameCall`, `JoinCall`, `KpiCall`) and one lemma that it makes no others; `LaterCall` takes together
all but the first. What is to be shown of the assembled graph is shown of these calls.
-/

namespace QueryLineage

namespace GraphBuilder

/-! ## Two graphs of the same nodes -/

/-- The same nodes, found by the same index; the edges may be others. -/
structure SameNodes (b c : GraphBuilder) : Prop where
  nodes_eq : c.nodes = b.nodes
  index_eq : c.index = b.index

namespace SameNodes

variable {b c : GraphBuilder}

theorem refl (b : GraphBuilder) : SameNodes b b := ⟨rfl, rfl⟩

theorem hasNode_eq (h : SameNodes b c) (id : String) : c.hasNode id = b.hasNode id := by
  rw [hasNode, hasNode, h.index_eq]

theorem node?_eq (h : SameNodes b c) (id : String) : c.node? id = b.node? id := by
  rw [node?, node?, h.index_eq, h.nodes_eq]

theorem step (h : SameNodes b c) (call : GraphCall) : SameNodes (b.step call) (c.step call) := by
  cases call with
  | addNode n =>
      simp only [GraphBuilder.step, addNode, h.hasNode_eq, h.index_eq, h.nodes_eq]
      split
      · exact h
      · exact ⟨rfl, rfl⟩
  | addEdge source target kind =>
      have hkeeps : ∀ d : GraphBuilder, SameNodes d (d.addEdge source target kind) := by
        intro d
        rcases addEdge_cases source target kind d with hd | ⟨-, -, seen, hd, -⟩
        · rw [hd]
          exact refl d
        · rw [hd]
          exact ⟨rfl, rfl⟩
      exact ⟨(hkeeps c).nodes_eq.trans (h.nodes_eq.trans (hkeeps b).nodes_eq.symm),
        (hkeeps c).index_eq.trans (h.index_eq.trans (hkeeps b).index_eq.symm)⟩

end SameNodes

/-! ## The same calls -/

/-- The same calls lead from `b` to `b'` and from `c` to `c'`, where `b` and `c` have the same
nodes. Each call is of kind `C`, judged by the graph on the way from `b` that it is made on. -/
inductive GrowsAlike (C : GraphBuilder → GraphCall → Prop) (b c : GraphBuilder) :
    GraphBuilder → GraphBuilder → Prop
  | refl : SameNodes b c → GrowsAlike C b c b c
  | call {b' c' : GraphBuilder} (call : GraphCall) : GrowsAlike C b c b' c' → C b' call →
    GrowsAlike C b c (b'.step call) (c'.step call)

namespace GrowsAlike

variable {C D : GraphBuilder → GraphCall → Prop} {b c b' c' b'' c'' : GraphBuilder}

theorem sameNodes (h : GrowsAlike C b c b' c') : SameNodes b' c' := by
  induction h with
  | refl h => exact h
  | call call _ _ ih => exact ih.step call

theorem addNode (h : GrowsAlike C b c b' c') {n : GraphNode} (hn : C b' (.addNode n)) :
    GrowsAlike C b c (b'.addNode n) (c'.addNode n) :=
  h.call (.addNode n) hn

theorem addEdge (h : GrowsAlike C b c b' c') {source target : String} {kind : EdgeKind}
    (he : C b' (.addEdge source target kind)) :
    GrowsAlike C b c (b'.addEdge source target kind) (c'.addEdge source target kind) :=
  h.call (.addEdge source target kind) he

theorem trans (h : GrowsAlike C b c b' c') (h' : GrowsAlike C b' c' b'' c'') :
    GrowsAlike C b c b'' c'' := by
  induction h' with
  | refl _ => exact h
  | call call _ hcall ih => exact ih.call call hcall

theorem mono (h : GrowsAlike C b c b' c') (hCD : ∀ d call, C d call → D d call) :
    GrowsAlike D b c b' c' := by
  induction h with
  | refl h => exact .refl h
  | call call _ hcall ih => exact ih.call call (hCD _ _ hcall)

/-- A loop makes the same calls on both graphs if each of its rounds does. The graphs need only have
the same nodes, and the calls keep that. -/
theorem forEach {α : Type} (h : GrowsAlike C b c b' c') (items : List α)
    {f : α → GraphBuilder → GraphBuilder}
    (hf : ∀ a ∈ items, ∀ {d e}, SameNodes d e → GrowsAlike C d e (f a d) (f a e)) :
    GrowsAlike C b c (b'.forEach items f) (c'.forEach items f) := by
  induction items generalizing b' c' with
  | nil => exact h
  | cons a rest ih =>
      have hround := h.trans (hf a List.mem_cons_self h.sameNodes)
      exact ih hround fun a ha => hf a (List.mem_cons_of_mem _ ha)

theorem forEach_addEdge {α : Type} (h : GrowsAlike C b c b' c') (items : List α)
    {source target : α → String} {kind : EdgeKind}
    (he : ∀ a ∈ items, ∀ d, C d (.addEdge (source a) (target a) kind)) :
    GrowsAlike C b c
      (b'.forEach items fun a => GraphBuilder.addEdge (source a) (target a) kind)
      (c'.forEach items fun a => GraphBuilder.addEdge (source a) (target a) kind) :=
  h.forEach items fun a ha _ _ hsame => (refl hsame).addEdge (he a ha _)

end GrowsAlike

end GraphBuilder

namespace Assembly

open GraphBuilder

variable {b c : GraphBuilder}

/-! ## What stages read -/

theorem ownersOf_eq (h : SameNodes b c) (rs : Relations) (column : String) :
    ownersOf rs c column = ownersOf rs b column := by
  simp only [ownersOf, h.hasNode_eq]

theorem isColumn_eq (h : SameNodes b c) (id : String) : isColumn c id = isColumn b id := by
  rw [isColumn, isColumn, h.node?_eq]

theorem tableNodes_eq (h : SameNodes b c) (rs : Relations) (name : String) :
    tableNodes rs c name = tableNodes rs b name := by
  have hnodes : c.hasNode = b.hasNode := funext h.hasNode_eq
  rw [tableNodes, tableNodes, hnodes]

/-! ## Tables -/

/-- The node of a database or a schema. -/
inductive IsContainer : GraphNode → Prop
  | database (project : String) : IsContainer ⟨databaseId project, project, .database⟩
  | schema (project : Option String) (dataset : String) :
    IsContainer ⟨schemaId project dataset, dataset, .schema⟩

/-- Calls that bring in tables and what contains them. -/
inductive TableCall (sources : TableName.Set) (b : GraphBuilder) : GraphCall → Prop
  | table {t : TableName} : t ∈ sources.toList → TableCall sources b (.addNode (tableNode t))
  | container {n : GraphNode} : IsContainer n → TableCall sources b (.addNode n)
  | inDatabase (project dataset : String) :
    TableCall sources b
      (.addEdge (databaseId project) (schemaId (some project) dataset) .contains)
  | inSchema {t : TableName} (dataset : String) : t ∈ sources.toList →
    TableCall sources b (.addEdge (schemaId t.project dataset) t.text .contains)

theorem growsAlike_addContainers {sources : TableName.Set} {t : TableName}
    (ht : t ∈ sources.toList) (h : SameNodes b c) :
    GrowsAlike (TableCall sources) b c (addContainers t b) (addContainers t c) := by
  simp only [addContainers]
  split
  · exact .refl h
  · rename_i dataset _
    refine GrowsAlike.addEdge ?_ (.inSchema dataset ht)
    cases t.project with
    | none => exact (GrowsAlike.refl h).addNode (.container (.schema none dataset))
    | some project =>
        have hdatabase := (GrowsAlike.refl (C := TableCall sources) h).addNode
          (.container (.database project))
        have hschema := hdatabase.addNode (.container (.schema (some project) dataset))
        exact hschema.addEdge (.inDatabase project dataset)

theorem growsAlike_addTables (sources : TableName.Set) (h : SameNodes b c) :
    GrowsAlike (TableCall sources) b c (addTables sources b) (addTables sources c) := by
  refine GrowsAlike.forEach ?_ _ fun _ ht _ _ => growsAlike_addContainers ht
  exact (GrowsAlike.refl h).forEach _ fun _ ht _ _ hsame =>
    (GrowsAlike.refl hsame).addNode (.table ht)

/-! ## Columns -/

/-- Calls that bring in a column, with the tables it may have been read from as far as they are
there when it comes. -/
inductive ColumnCall (rs : Relations) (id : String) (b : GraphBuilder) : GraphCall → Prop
  | column : ColumnCall rs id b (.addNode (columnNode id (ownersOf rs b id)))
  | owner {t : TableName} : t ∈ rs.baseTables id →
    ColumnCall rs id b (.addEdge t.text id .contains)

theorem mem_baseTables_of_mem_ownersOf {rs : Relations} {column : String} {t : TableName}
    (h : t ∈ ownersOf rs b column) : t ∈ rs.baseTables column :=
  (List.mem_filter.mp h).1

theorem growsAlike_ensureColumn (rs : Relations) (id : String) (h : SameNodes b c) :
    GrowsAlike (ColumnCall rs id) b c (ensureColumn rs id b) (ensureColumn rs id c) := by
  simp only [ensureColumn, h.hasNode_eq, ownersOf_eq h]
  split
  · exact .refl h
  · exact ((GrowsAlike.refl h).addNode .column).forEach_addEdge _ fun _ ht _ =>
      .owner (mem_baseTables_of_mem_ownersOf ht)

/-- Calls that bring in outputs and columns with the edges among them. -/
inductive NameCall (rs : Relations) (columns : ColumnLineage) (b : GraphBuilder) :
    GraphCall → Prop
  | output {name : String} : name ∈ columns.outputs →
    NameCall rs columns b (.addNode ⟨name, name, .output⟩)
  | column {id : String} {call : GraphCall} : id ∈ columns.columns → ColumnCall rs id b call →
    NameCall rs columns b call
  | projection {e : String × String} : e ∈ columns.projectionEdges →
    NameCall rs columns b (.addEdge e.1 e.2 .projection)
  | derives {e : String × String} {t : TableName} : e ∈ columns.projectionEdges →
    t ∈ rs.baseTables e.1 → NameCall rs columns b (.addEdge t.text e.2 .derives)
  | join {e : String × String} : e ∈ columns.joinEdges →
    NameCall rs columns b (.addEdge e.1 e.2 .join)

theorem growsAlike_addProjection {rs : Relations} {columns : ColumnLineage}
    {e : String × String} (he : e ∈ columns.projectionEdges) (h : SameNodes b c) :
    GrowsAlike (NameCall rs columns) b c (addProjection rs e.1 e.2 b)
      (addProjection rs e.1 e.2 c) := by
  have hedge := (GrowsAlike.refl (C := NameCall rs columns) h).addEdge (.projection he)
  simp only [addProjection, ownersOf_eq hedge.sameNodes]
  exact hedge.forEach_addEdge _ fun _ ht _ => .derives he (mem_baseTables_of_mem_ownersOf ht)

theorem growsAlike_addColumns (rs : Relations) (columns : ColumnLineage) (h : SameNodes b c) :
    GrowsAlike (NameCall rs columns) b c (addColumns rs columns b) (addColumns rs columns c) := by
  refine GrowsAlike.forEach_addEdge ?_ _ fun e he _ => .join he
  refine GrowsAlike.forEach ?_ _ fun e he _ _ => growsAlike_addProjection he
  refine GrowsAlike.forEach ?_ _ fun id hid _ _ hsame =>
    (growsAlike_ensureColumn rs id hsame).mono fun _ _ => .column hid
  exact (GrowsAlike.refl h).forEach _ fun name hname _ _ hsame =>
    (GrowsAlike.refl hsame).addNode (.output hname)

/-! ## Joins -/

/-- Calls that bring in joins. -/
inductive JoinCall (width : Nat) (joins : List JoinRecord) (b : GraphBuilder) : GraphCall → Prop
  | join {j : JoinRecord} : j ∈ joins → JoinCall width joins b (.addNode (joinNode width j))
  | input {j : JoinRecord} (column : String) : j ∈ joins →
    JoinCall width joins b (.addEdge column j.id .joinInput)
  | output {j : JoinRecord} (table : String) : j ∈ joins →
    JoinCall width joins b (.addEdge j.id table .joinOutput)
  | tables (left right : String) : JoinCall width joins b (.addEdge left right .joinTable)

theorem growsAlike_addJoin (rs : Relations) {width : Nat} {joins : List JoinRecord}
    {j : JoinRecord} (hj : j ∈ joins) (h : SameNodes b c) :
    GrowsAlike (JoinCall width joins) b c (addJoin rs width j b) (addJoin rs width j c) := by
  have hnode := (GrowsAlike.refl (C := JoinCall width joins) h).addNode (.join hj)
  have hinputs := hnode.forEach j.equalityPairs
    (f := fun p d => d |> GraphBuilder.addEdge p.1 j.id .joinInput
      |> GraphBuilder.addEdge p.2 j.id .joinInput)
    fun p _ _ _ hsame => ((GrowsAlike.refl hsame).addEdge (.input p.1 hj)).addEdge (.input p.2 hj)
  simp only [addJoin, tableNodes_eq hinputs.sameNodes]
  refine GrowsAlike.forEach ?_ _ fun left _ _ _ hsame =>
    (GrowsAlike.refl hsame).forEach_addEdge _ fun right _ _ => .tables left right
  exact hinputs.forEach_addEdge _ fun right _ _ => .output right hj

theorem growsAlike_addJoins (rs : Relations) (width : Nat) (joins : List JoinRecord)
    (h : SameNodes b c) :
    GrowsAlike (JoinCall width joins) b c (b.forEach joins (addJoin rs width))
      (c.forEach joins (addJoin rs width)) :=
  (GrowsAlike.refl h).forEach _ fun _ hj _ _ => growsAlike_addJoin rs hj

/-! ## The measured indicator -/

/-- Calls that bring in the aggregations and dimensions of the measured indicator. -/
inductive KpiCall (i : AssemblyInput) (b : GraphBuilder) : GraphCall → Prop
  | aggregation {m : Slot × Aggregation} : m ∈ measures i.outputs →
    KpiCall i b (.addNode ⟨m.2.nodeId, m.2.label, .aggregation m.2.function.name m.2.args⟩)
  | column (id : String) {call : GraphCall} : ColumnCall i.relations id b call → KpiCall i b call
  | measure {m : Slot × Aggregation} (column : String) : m ∈ measures i.outputs →
    KpiCall i b (.addEdge column m.2.nodeId .measure)
  | joined {m : Slot × Aggregation} {j : JoinRecord} : m ∈ measures i.outputs → j ∈ i.joins →
    KpiCall i b (.addEdge j.id m.2.nodeId .joinOutput)
  | derives {m : Slot × Aggregation} : m ∈ measures i.outputs →
    KpiCall i b (.addEdge m.2.nodeId kpiId .derives)
  | dimension (source : String) : KpiCall i b (.addEdge source kpiId .dimension)

theorem growsAlike_linkColumn {i : AssemblyInput} {target : String} {kind : EdgeKind}
    (column : String) (hlink : ∀ d, KpiCall i d (.addEdge column target kind))
    (h : SameNodes b c) :
    GrowsAlike (KpiCall i) b c (linkColumn i.relations target kind column b)
      (linkColumn i.relations target kind column c) := by
  have hcolumn : GrowsAlike (KpiCall i) b c (ensureColumn i.relations column b)
      (ensureColumn i.relations column c) :=
    (growsAlike_ensureColumn i.relations column h).mono fun _ _ => .column column
  simp only [linkColumn, isColumn_eq hcolumn.sameNodes]
  split
  · exact hcolumn.addEdge (hlink _)
  · exact hcolumn

theorem growsAlike_addMeasure {i : AssemblyInput} {m : Slot × Aggregation}
    (hm : m ∈ measures i.outputs) (h : SameNodes b c) :
    GrowsAlike (KpiCall i) b c (addMeasure i m b) (addMeasure i m c) := by
  refine GrowsAlike.addEdge ?_ (.derives hm)
  refine GrowsAlike.forEach_addEdge ?_ _ fun j hj _ => .joined hm hj
  exact ((GrowsAlike.refl h).addNode (.aggregation hm)).forEach _ fun column _ _ _ =>
    growsAlike_linkColumn column fun _ => .measure column hm

theorem growsAlike_addDimension {i : AssemblyInput} (projections : List Tree) (expr : Tree)
    (h : SameNodes b c) :
    GrowsAlike (KpiCall i) b c (addDimension i.relations projections expr b)
      (addDimension i.relations projections expr c) := by
  have hcolumns := (GrowsAlike.refl (C := KpiCall i) h).forEach
    (((groupTarget? projections expr).getD expr).scopeColumns.map (·.sql))
    (f := linkColumn i.relations kpiId .dimension)
    fun column _ _ _ => growsAlike_linkColumn column fun _ => .dimension column
  have hcolumn := funext (isColumn_eq hcolumns.sameNodes)
  simp only [addDimension, hcolumn]
  split
  · exact hcolumns
  · split
    · exact hcolumns.addEdge (.dimension _)
    · exact hcolumns

theorem growsAlike_addDimensions {i : AssemblyInput} (select : Tree) (h : SameNodes b c) :
    GrowsAlike (KpiCall i) b c (addDimensions i.relations select b)
      (addDimensions i.relations select c) := by
  simp only [addDimensions]
  split
  · exact (GrowsAlike.refl h).forEach _ fun expr _ _ _ => growsAlike_addDimension _ expr
  · exact .refl h

theorem growsAlike_addKpi (i : AssemblyInput) (h : SameNodes b c) :
    GrowsAlike (KpiCall i) (b.addNode (kpiNode i)) (c.addNode (kpiNode i)) (addKpi i b)
      (addKpi i c) := by
  refine GrowsAlike.forEach ?_ _ fun select _ _ _ => growsAlike_addDimensions select
  refine GrowsAlike.forEach ?_ _ fun m hm _ _ => growsAlike_addMeasure hm
  exact .refl (h.step (.addNode (kpiNode i)))

/-! ## After the tables -/

/-- The stages that follow the tables. -/
def addRest (i : AssemblyInput) (b : GraphBuilder) : GraphBuilder :=
  b |> addColumns i.relations i.columns
    |> forEach i.joins (addJoin i.relations i.joinLabelWidth)
    |> addKpi i

/-- Calls of the stages that follow the tables. -/
inductive LaterCall (i : AssemblyInput) (b : GraphBuilder) : GraphCall → Prop
  | name {call : GraphCall} : NameCall i.relations i.columns b call → LaterCall i b call
  | join {call : GraphCall} : JoinCall i.joinLabelWidth i.joins b call → LaterCall i b call
  | indicator : LaterCall i b (.addNode (kpiNode i))
  | kpi {call : GraphCall} : KpiCall i b call → LaterCall i b call

theorem growsAlike_addRest (i : AssemblyInput) (h : SameNodes b c) :
    GrowsAlike (LaterCall i) b c (addRest i b) (addRest i c) := by
  have hnames := (growsAlike_addColumns i.relations i.columns h).mono fun _ _ => LaterCall.name
  have hjoins := (growsAlike_addJoins i.relations i.joinLabelWidth i.joins hnames.sameNodes).mono
    fun _ _ => LaterCall.join (i := i)
  have hindicator := (hnames.trans hjoins).addNode .indicator
  exact hindicator.trans ((growsAlike_addKpi i hjoins.sameNodes).mono fun _ _ => .kpi)

end Assembly

end QueryLineage
