import QueryLineage.Proofs.NodeOrigins

/-!
# The edges of dimensions

The measured indicator has a dimension for each column of what a grouping expression refers to. The
assembly decides on the way whether what stands under the name of a column is a column, and falls
back on the name of the projection if there is none. Since the node of an id stays, the decision can
be told from the graph in the end (`isColumn_iff`), and with it the edges (`IsDimension`). The
stages before come with no edges of this kind.
-/

namespace QueryLineage

namespace GraphBuilder

variable {b c d : GraphBuilder} {kind : EdgeKind}

theorem forEach_nil {α : Type} (f : α → GraphBuilder → GraphBuilder) (b : GraphBuilder) :
    b.forEach [] f = b := rfl

theorem forEach_cons {α : Type} (a : α) (rest : List α) (f : α → GraphBuilder → GraphBuilder)
    (b : GraphBuilder) : b.forEach (a :: rest) f = (f a b).forEach rest f := rfl

theorem edgesOfKind_forEach {α : Type} {items : List α} {f : α → GraphBuilder → GraphBuilder}
    (hf : ∀ a ∈ items, ∀ d : GraphBuilder,
      (f a d).graph.edgesOfKind kind = d.graph.edgesOfKind kind) (b : GraphBuilder) :
    (b.forEach items f).graph.edgesOfKind kind = b.graph.edgesOfKind kind := by
  induction items generalizing b with
  | nil => rfl
  | cons a rest ih =>
      have hrest := ih (fun a ha => hf a (List.mem_cons_of_mem _ ha)) (f a b)
      exact hrest.trans (hf a List.mem_cons_self b)

theorem edgesOfKind_addEdge_of_ne {other : EdgeKind} (h : other ≠ kind) (source target : String)
    (b : GraphBuilder) :
    (b.addEdge source target other).graph.edgesOfKind kind = b.graph.edgesOfKind kind :=
  edgesOfKind_step (isOtherThan_addEdge h source target)

end GraphBuilder

namespace Assembly

open GraphBuilder

variable {b final : GraphBuilder} {rs : Relations} {source : String}

/-! ## Columns in the end -/

/-- Whether an id that is taken is that of a column is settled: the node that is there stays, and no
other comes under the id. -/
theorem isColumn_iff (hb : b.Consistent) (hlater : b.GrowsTo final) (hfinal : final.Consistent)
    {id : String} (hid : id ∈ b.ids) :
    isColumn b id = true ↔ final.graph.HasOfType id .column := by
  rw [isColumn, Option.any_eq_true]
  constructor
  · rintro ⟨n, hn, htype⟩
    obtain ⟨hthere, rfl⟩ := hb.node?_eq_some_iff.mp hn
    exact ⟨n, hlater.mem_nodes hthere, rfl, of_decide_eq_true htype⟩
  · rintro ⟨n, hn, rfl, htype⟩
    have hthere := hlater.mem_nodes_of_mem_ids hfinal hn hid
    exact ⟨n, hb.node?_eq_some_iff.mpr ⟨hthere, rfl⟩, decide_eq_true htype⟩

theorem ensureColumn_isOtherThan (rs : Relations) (id : String) (b : GraphBuilder) :
    GrowsAlike (IsOtherThan .dimension) b b (ensureColumn rs id b) (ensureColumn rs id b) :=
  (growsAlike_ensureColumn rs id (.refl b)).mono fun _ _ hcall => hcall.isOtherThan (by decide)

theorem linkColumn_cases (rs : Relations) (target : String) (kind : EdgeKind) (column : String)
    (b : GraphBuilder) :
    isColumn (ensureColumn rs column b) column = true
        ∧ linkColumn rs target kind column b
          = (ensureColumn rs column b).addEdge column target kind
      ∨ isColumn (ensureColumn rs column b) column = false
        ∧ linkColumn rs target kind column b = ensureColumn rs column b := by
  unfold linkColumn
  cases h : isColumn (ensureColumn rs column b) column with
  | true => exact .inl ⟨rfl, if_pos h⟩
  | false => exact .inr ⟨rfl, if_neg (by simp [h])⟩

theorem growsTo_linkColumn (rs : Relations) (target : String) (kind : EdgeKind) (column : String)
    (b : GraphBuilder) :
    (ensureColumn rs column b).GrowsTo (linkColumn rs target kind column b) := by
  rcases linkColumn_cases rs target kind column b with ⟨-, h⟩ | ⟨-, h⟩
  · exact h ▸ .addEdge _ column target kind
  · exact h ▸ .refl _

theorem growsBy_linkColumn (rs : Relations) (target : String) (kind : EdgeKind)
    (column : String) (b : GraphBuilder) :
    GrowsBy (fun n => n.type = .column) b (linkColumn rs target kind column b) := by
  have hcolumn := (growsBy_ensureColumn rs column b).mono (Q := fun n => n.type = .column)
    fun _ h => h.2
  rcases linkColumn_cases rs target kind column b with ⟨-, h⟩ | ⟨-, h⟩
  · exact h ▸ hcolumn.addEdge column target kind
  · exact h ▸ hcolumn

/-! ## The columns of a grouping expression -/

section

variable (hb : b.Consistent) (hkpi : kpiId ∈ b.ids) (hfinal : final.Consistent)

include hb hkpi hfinal

/-- A column gets its edge iff it is a column in the end. It has a node once it is ensured, so what
it is then it is for good (`isColumn_iff`). -/
theorem mem_edges_linkColumn_iff {column : String}
    (hlater : (linkColumn rs kpiId .dimension column b).GrowsTo final) :
    ⟨source, kpiId, .dimension⟩ ∈ (linkColumn rs kpiId .dimension column b).edges
      ↔ ⟨source, kpiId, .dimension⟩ ∈ b.edges
        ∨ source = column ∧ final.graph.HasOfType column .column := by
  have hensured := (growsBy_ensureColumn rs column b).growsTo
  have hconsistent := hensured.consistent hb
  have hold : ⟨source, kpiId, .dimension⟩ ∈ (ensureColumn rs column b).edges
      ↔ ⟨source, kpiId, .dimension⟩ ∈ b.edges :=
    (ensureColumn_isOtherThan rs column b).mem_edges_iff
  have htype := isColumn_iff hconsistent
    ((growsTo_linkColumn rs kpiId .dimension column b).trans hlater) hfinal
    (mem_ids_ensureColumn rs column hb)
  rcases linkColumn_cases rs kpiId .dimension column b with ⟨hcolumn, heq⟩ | ⟨hother, heq⟩
  · rw [heq, mem_edges_addEdge_iff hconsistent (mem_ids_ensureColumn rs column hb)
      (hensured.mem_ids hkpi), hold, and_iff_left (htype.mp hcolumn)]
    simp
  · have hnone : ¬final.graph.HasOfType column .column := fun h => by
      rw [htype.mpr h] at hother
      cases hother
    rw [heq, hold, or_iff_left fun h => hnone h.2]

theorem mem_edges_forEach_linkColumn_iff {columns : List String}
    (hlater : (b.forEach columns (linkColumn rs kpiId .dimension)).GrowsTo final) :
    ⟨source, kpiId, .dimension⟩ ∈ (b.forEach columns (linkColumn rs kpiId .dimension)).edges
      ↔ ⟨source, kpiId, .dimension⟩ ∈ b.edges
        ∨ source ∈ columns ∧ final.graph.HasOfType source .column := by
  induction columns generalizing b with
  | nil => simp [GraphBuilder.forEach]
  | cons column rest ih =>
      have hround : ∀ column (d : GraphBuilder),
          d.GrowsTo (linkColumn rs kpiId .dimension column d) := fun column d =>
        (growsBy_linkColumn rs kpiId .dimension column d).growsTo
      have hfirst := hround column b
      have hstep : ⟨source, kpiId, .dimension⟩ ∈ (linkColumn rs kpiId .dimension column b).edges
          ↔ ⟨source, kpiId, .dimension⟩ ∈ b.edges
            ∨ source = column ∧ final.graph.HasOfType column .column :=
        mem_edges_linkColumn_iff hb hkpi hfinal
          ((GrowsTo.forEach (fun column _ d => hround column d) _).trans hlater)
      refine (ih (hfirst.consistent hb) (hfirst.mem_ids hkpi) hlater).trans ?_
      rw [hstep, List.mem_cons, or_assoc]
      refine or_congr_right ⟨?_, ?_⟩
      · rintro (⟨rfl, htype⟩ | ⟨hmem, htype⟩)
        · exact ⟨.inl rfl, htype⟩
        · exact ⟨.inr hmem, htype⟩
      · rintro ⟨rfl | hmem, htype⟩
        · exact .inl ⟨rfl, htype⟩
        · exact .inr ⟨hmem, htype⟩

end

/-! ## Grouping expressions -/

/-- The columns of what a grouping expression refers to. -/
def dimensionColumns (projections : List Tree) (expr : Tree) : List String :=
  ((groupTarget? projections expr).getD expr).scopeColumns.map (·.sql)

/-- The dimension of a grouping expression starts here: at one of the columns, or at the output of
the projection it refers to if none of them stands for a column. -/
def IsDimension (g : LineageGraph) (projections : List Tree) (expr : Tree) (source : String) :
    Prop :=
  source ∈ dimensionColumns projections expr ∧ g.HasOfType source .column
    ∨ (∀ column ∈ dimensionColumns projections expr, ¬g.HasOfType column .column)
      ∧ (groupTarget? projections expr).bind Tree.projectionName? = some source

theorem mem_of_groupTarget? {projections : List Tree} {expr p : Tree}
    (h : groupTarget? projections expr = some p) : p ∈ projections := by
  unfold groupTarget? at h
  split at h
  · cases h
  · exact List.mem_of_getElem? h
  · split at h
    · exact List.mem_of_find?_eq_some h
    · cases h

/-- The graph with edges from the columns of what a grouping expression refers to. -/
def linked (rs : Relations) (projections : List Tree) (expr : Tree) (b : GraphBuilder) :
    GraphBuilder :=
  b.forEach (dimensionColumns projections expr) (linkColumn rs kpiId .dimension)

theorem addDimension_cases (rs : Relations) (projections : List Tree) (expr : Tree)
    (b : GraphBuilder) :
    (∃ column ∈ dimensionColumns projections expr,
        isColumn (linked rs projections expr b) column = true)
      ∧ addDimension rs projections expr b = linked rs projections expr b
    ∨ (∀ column ∈ dimensionColumns projections expr,
        isColumn (linked rs projections expr b) column ≠ true)
      ∧ (((groupTarget? projections expr).bind Tree.projectionName? = none
          ∧ addDimension rs projections expr b = linked rs projections expr b)
        ∨ ∃ name, (groupTarget? projections expr).bind Tree.projectionName? = some name
          ∧ addDimension rs projections expr b
            = (linked rs projections expr b).addEdge name kpiId .dimension) := by
  simp only [addDimension]
  split
  · rename_i hany
    exact .inl ⟨List.any_eq_true.mp hany, rfl⟩
  · rename_i hany
    refine .inr ⟨fun column hmem hcolumn => hany (List.any_eq_true.mpr ⟨column, hmem, hcolumn⟩), ?_⟩
    split
    · rename_i name hname
      exact .inr ⟨name, hname, rfl⟩
    · rename_i hname
      exact .inl ⟨hname, rfl⟩

theorem growsBy_linked (rs : Relations) (projections : List Tree) (expr : Tree)
    (b : GraphBuilder) : GrowsBy (fun n => n.type = .column) b (linked rs projections expr b) :=
  (GrowsBy.refl b).forEach fun column _ d => growsBy_linkColumn rs kpiId .dimension column d

theorem growsTo_addDimension (rs : Relations) (projections : List Tree) (expr : Tree)
    (b : GraphBuilder) :
    (linked rs projections expr b).GrowsTo (addDimension rs projections expr b) := by
  rcases addDimension_cases rs projections expr b with ⟨-, h⟩ | ⟨-, ⟨-, h⟩ | ⟨name, -, h⟩⟩
  · exact h ▸ .refl _
  · exact h ▸ .refl _
  · exact h ▸ .addEdge _ name kpiId .dimension

/-- **The step.** A grouping expression brings the edges of its dimensions, if the output of the
projection it may refer to is there. The two cases are those of the code: some column of the
expression has an edge, or none has and the name of the projection is linked. Which it is shows in
the final graph as well, since all these columns have nodes by then. -/
theorem mem_edges_addDimension_iff (hb : b.Consistent) (hkpi : kpiId ∈ b.ids)
    (hfinal : final.Consistent) {projections : List Tree} {expr : Tree}
    (hnames : ∀ name, (groupTarget? projections expr).bind Tree.projectionName? = some name →
      name ∈ b.ids)
    (hlater : (addDimension rs projections expr b).GrowsTo final) :
    ⟨source, kpiId, .dimension⟩ ∈ (addDimension rs projections expr b).edges
      ↔ ⟨source, kpiId, .dimension⟩ ∈ b.edges
        ∨ IsDimension final.graph projections expr source := by
  have hgrows := (growsTo_addDimension rs projections expr b).trans hlater
  have hlinks := (growsBy_linked rs projections expr b).growsTo
  have hlinked := hlinks.consistent hb
  have hedges : ⟨source, kpiId, .dimension⟩ ∈ (linked rs projections expr b).edges
      ↔ ⟨source, kpiId, .dimension⟩ ∈ b.edges
        ∨ source ∈ dimensionColumns projections expr ∧ final.graph.HasOfType source .column :=
    mem_edges_forEach_linkColumn_iff hb hkpi hfinal hgrows
  have htype : ∀ column ∈ dimensionColumns projections expr,
      isColumn (linked rs projections expr b) column = true
        ↔ final.graph.HasOfType column .column := fun column hcolumn => by
    refine isColumn_iff hlinked hgrows hfinal ?_
    exact mem_ids_forEach hb (fun c _ d => growsBy_linkColumn rs kpiId .dimension c d)
      (fun c d hd => (growsTo_linkColumn rs kpiId .dimension c d).mem_ids
        (mem_ids_ensureColumn rs c hd)) hcolumn
  unfold IsDimension
  rcases addDimension_cases rs projections expr b with ⟨⟨column, hmem, hcolumn⟩, heq⟩ | ⟨hnone, h⟩
  · have hsome : ¬∀ column ∈ dimensionColumns projections expr,
        ¬final.graph.HasOfType column .column := fun h =>
      h column hmem ((htype column hmem).mp hcolumn)
    rw [heq, hedges]
    simp only [hsome, false_and, or_false]
  · -- None is a column now, so none is one in the end: no link was made, and the name decides.
    have hother : ∀ column ∈ dimensionColumns projections expr,
        ¬final.graph.HasOfType column .column := fun column hmem h =>
      hnone column hmem ((htype column hmem).mpr h)
    have hno : ¬(source ∈ dimensionColumns projections expr
        ∧ final.graph.HasOfType source .column) := fun h => hother source h.1 h.2
    rw [or_iff_left hno] at hedges
    rw [or_iff_right hno, and_iff_right hother]
    rcases h with ⟨hname, heq⟩ | ⟨name, hname, heq⟩
    · rw [heq, hedges, hname]
      simp
    · rw [heq, mem_edges_addEdge_iff hlinked (hlinks.mem_ids (hnames name hname))
        (hlinks.mem_ids hkpi), hedges, hname]
      simp [eq_comm]

/-- **The run.** All grouping expressions of a select bring the edges of their dimensions. By
induction on the expressions, from any consistent graph that has the outputs; one round keeps what
the next needs. -/
theorem mem_edges_forEach_addDimension_iff (hb : b.Consistent) (hkpi : kpiId ∈ b.ids)
    (hfinal : final.Consistent) {projections exprs : List Tree}
    (hnames : ∀ p ∈ projections, ∀ name, p.projectionName? = some name → name ∈ b.ids)
    (hlater : (b.forEach exprs (addDimension rs projections)).GrowsTo final) :
    ⟨source, kpiId, .dimension⟩ ∈ (b.forEach exprs (addDimension rs projections)).edges
      ↔ ⟨source, kpiId, .dimension⟩ ∈ b.edges
        ∨ ∃ expr ∈ exprs, IsDimension final.graph projections expr source := by
  have hround : ∀ expr (d : GraphBuilder), d.GrowsTo (addDimension rs projections expr d) :=
    fun expr d =>
      (growsBy_linked rs projections expr d).growsTo.trans
        (growsTo_addDimension rs projections expr d)
  induction exprs generalizing b with
  | nil => simp [GraphBuilder.forEach]
  | cons expr rest ih =>
      rw [forEach_cons] at hlater ⊢
      have hfirst := hround expr b
      have htarget : ∀ name, (groupTarget? projections expr).bind Tree.projectionName? = some name →
          name ∈ b.ids := fun name hname => by
        obtain ⟨p, hp, hpname⟩ := Option.bind_eq_some_iff.mp hname
        exact hnames p (mem_of_groupTarget? hp) name hpname
      have hrest : (addDimension rs projections expr b).GrowsTo final :=
        (GrowsTo.forEach (fun expr _ d => hround expr d) _).trans hlater
      have hstep : ⟨source, kpiId, .dimension⟩ ∈ (addDimension rs projections expr b).edges
          ↔ ⟨source, kpiId, .dimension⟩ ∈ b.edges
            ∨ IsDimension final.graph projections expr source :=
        mem_edges_addDimension_iff hb hkpi hfinal htarget hrest
      refine (ih (hfirst.consistent hb) (hfirst.mem_ids hkpi)
        (fun p hp name hname => hfirst.mem_ids (hnames p hp name hname)) hlater).trans ?_
      rw [hstep, or_assoc]
      simp

/-! ## The whole graph -/

variable {i : AssemblyInput}

theorem edgesOfKind_dimension_linkColumn (rs : Relations) (target column : String)
    (b : GraphBuilder) :
    (linkColumn rs target .measure column b).graph.edgesOfKind .dimension
      = b.graph.edgesOfKind .dimension := by
  rw [← (ensureColumn_isOtherThan rs column b).edgesOfKind_eq]
  rcases linkColumn_cases rs target .measure column b with ⟨-, h⟩ | ⟨-, h⟩
  · rw [h, edgesOfKind_addEdge_of_ne (by decide)]
  · rw [h]

theorem edgesOfKind_dimension_addMeasure (i : AssemblyInput) (m : Slot × Aggregation)
    (b : GraphBuilder) :
    (addMeasure i m b).graph.edgesOfKind .dimension = b.graph.edgesOfKind .dimension := by
  unfold addMeasure
  rw [edgesOfKind_addEdge_of_ne (by decide),
    edgesOfKind_forEach (fun j _ d => edgesOfKind_addEdge_of_ne (by decide) j.id m.2.nodeId d),
    edgesOfKind_forEach (fun column _ d => edgesOfKind_dimension_linkColumn _ _ column d)]
  exact edgesOfKind_step (isOtherThan_addNode _)

/-- The graph ahead of the dimensions. -/
def measured (i : AssemblyInput) : GraphBuilder :=
  ((joined i).addNode (kpiNode i)).forEach (measures i.outputs) (addMeasure i)

theorem build_eq (i : AssemblyInput) :
    build i = (measured i).forEach i.tree.mainSelect?.toList (addDimensions i.relations) := rfl

theorem growsTo_addMeasure {m : Slot × Aggregation} (hm : m ∈ measures i.outputs)
    (b : GraphBuilder) : b.GrowsTo (addMeasure i m b) :=
  (growsAlike_addMeasure hm (.refl b)).growsTo

theorem growsTo_measured (i : AssemblyInput) :
    ((joined i).addNode (kpiNode i)).GrowsTo (measured i) :=
  .forEach (fun _ hm d => growsTo_addMeasure hm d) _

theorem consistent_measured (i : AssemblyInput) : (measured i).Consistent :=
  (growsTo_measured i).consistent ((consistent_joined i).addNode (kpiNode i))

theorem kpiId_mem_ids_measured (i : AssemblyInput) : kpiId ∈ (measured i).ids :=
  (growsTo_measured i).mem_ids (mem_ids_addNode (consistent_joined i) (kpiNode i))

theorem mem_ids_measured_of_mem_outputs {name : String} (hname : name ∈ i.columns.outputs) :
    name ∈ (measured i).ids := by
  have hprojected := (growsBy_projected i.relations i.columns (tabled i)).growsTo
  have hjoined := hprojected.trans ((growsBy_named i).growsTo.trans (growsBy_joined i).growsTo)
  have hmeasured := (GrowsTo.addNode (joined i) (kpiNode i)).trans (growsTo_measured i)
  exact (hjoined.trans hmeasured).mem_ids (mem_ids_entered (.inl hname))

/-- The stages before come with no dimensions: tables and their containers, the named columns, the
joins and the measures are all calls of another kind. -/
theorem edgesOfKind_dimension_measured (i : AssemblyInput) :
    (measured i).graph.edgesOfKind .dimension = [] := by
  have hnames := (growsAlike_addColumns i.relations i.columns (.refl (tabled i))).mono
    (D := IsOtherThan .dimension) fun d call hcall => ?_
  have hjoins := (growsAlike_addJoins i.relations i.joinLabelWidth i.joins
    (.refl (named i))).mono (D := IsOtherThan .dimension) fun d call hcall => ?_
  · have hindicator := hjoins.addNode (n := kpiNode i) (isOtherThan_addNode _)
    unfold measured
    rw [edgesOfKind_forEach fun m _ d => edgesOfKind_dimension_addMeasure i m d]
    exact hindicator.edgesOfKind_eq.trans
      (hnames.edgesOfKind_eq.trans (edgesOfKind_tabled i (by decide)))
  · rintro source target rfl
    cases hcall
  · rintro source target rfl
    cases hcall with
    | column _ h => cases h

/-! ## The dimensions of a graph -/

theorem LaterCall.target_of_dimension {d : GraphBuilder} {source target : String} {kind : EdgeKind}
    (h : LaterCall i d (.addEdge source target kind)) (hkind : kind = .dimension) :
    target = kpiId := by
  subst hkind
  cases h with
  | name h => cases h with
    | column _ h => cases h
  | join h => cases h
  | kpi h => cases h with
    | column _ h => cases h
    | dimension source => rfl

theorem target_of_dimension {e : GraphEdge} (he : e ∈ (build i).edges)
    (hkind : e.kind = .dimension) : e.target = kpiId := by
  rcases (growsAlike_build i).mem_edges he with he | ⟨d, hcall⟩
  · rcases (growsAlike_tabled i).mem_edges he with he | ⟨d, hcall⟩
    · cases he
    · cases hkind.symm.trans hcall.kind_eq
  · exact hcall.target_of_dimension hkind

/-- The grouping expressions of a select. -/
def groupExprs (select : Tree) : List Tree :=
  ((select.child? .groupClause).map Tree.children).getD []

theorem addDimensions_eq (rs : Relations) (select : Tree) (b : GraphBuilder) :
    addDimensions rs select b
      = b.forEach (groupExprs select) (addDimension rs select.projections) := by
  unfold addDimensions groupExprs
  cases select.child? .groupClause <;> rfl

/-- **The dimensions of an assembled graph.** There is one for each grouping expression of the main
select and each column of what the expression refers to, and no other. None is there before the last
stage, and this is one run over the grouping expressions. -/
theorem mem_edges_dimension_iff (hnames : ∀ select ∈ i.tree.mainSelect?,
      ∀ p ∈ select.projections, ∀ name, p.projectionName? = some name → name ∈ i.columns.outputs)
    {source target : String} :
    ⟨source, target, .dimension⟩ ∈ (build i).edges
      ↔ target = kpiId ∧ ∃ select ∈ i.tree.mainSelect?, ∃ expr ∈ groupExprs select,
        IsDimension (assembleGraph i) select.projections expr source := by
  have hnone : ⟨source, kpiId, .dimension⟩ ∉ (measured i).edges := fun he => by
    have hmem : ⟨source, kpiId, .dimension⟩ ∈ (measured i).graph.edgesOfKind .dimension :=
      List.mem_filter.mpr ⟨he, by simp⟩
    rw [edgesOfKind_dimension_measured] at hmem
    cases hmem
  have hedges : ⟨source, kpiId, .dimension⟩ ∈ (build i).edges
      ↔ ∃ select ∈ i.tree.mainSelect?, ∃ expr ∈ groupExprs select,
        IsDimension (assembleGraph i) select.projections expr source := by
    have hbuild := build_eq i
    cases hselect : i.tree.mainSelect? with
    | none =>
        rw [hselect, Option.toList_none, forEach_nil] at hbuild
        rw [hbuild]
        simpa using hnone
    | some select =>
        rw [hselect, Option.toList_some, forEach_cons, forEach_nil, addDimensions_eq] at hbuild
        have houtputs : ∀ p ∈ select.projections, ∀ name, p.projectionName? = some name →
            name ∈ (measured i).ids := fun p hp name hname =>
          mem_ids_measured_of_mem_outputs (hnames select hselect p hp name hname)
        have hrun : ⟨source, kpiId, .dimension⟩ ∈ (build i).edges
            ↔ ⟨source, kpiId, .dimension⟩ ∈ (measured i).edges
              ∨ ∃ expr ∈ groupExprs select,
                IsDimension (build i).graph select.projections expr source :=
          hbuild ▸ mem_edges_forEach_addDimension_iff (consistent_measured i)
            (kpiId_mem_ids_measured i) (hbuild ▸ consistent_build i) houtputs (.refl _)
        rw [or_iff_right hnone] at hrun
        simpa [assembleGraph] using hrun
  constructor
  · intro he
    obtain rfl := target_of_dimension he rfl
    exact ⟨rfl, hedges.mp he⟩
  · rintro ⟨rfl, h⟩
    exact hedges.mpr h

end Assembly

end QueryLineage
