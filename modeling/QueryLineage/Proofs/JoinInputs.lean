import QueryLineage.Proofs.JoinEdges
import QueryLineage.Proofs.NodeOrigins

/-!
# What joins take in

A join is tied to the operands of its equality pairs, to those that have a node when it comes. An
edge that is offered too early is lost (`Brings.offerEdge`), and so the order of the stages tells:
the columns of the column lineage come before the joins, those of measures and dimensions after
them. `Assembly.join_inputs` says which edges there are in the end, and which columns have theirs.
-/

namespace QueryLineage

/-- The operands of a join's equality pairs. -/
def JoinRecord.operands (r : JoinRecord) : List String :=
  r.equalityPairs.flatMap fun p => [p.1, p.2]

/-- The ids that a graph has before the joins come. -/
def AssemblyInput.earlyIds (i : AssemblyInput) : List String :=
  tableIds i.relations.sources ++ i.columns.outputs ++ i.columns.columns

/-! ## Edges that are offered -/

namespace GraphBuilder

variable {b : GraphBuilder}

theorem addEdge_of_not_mem_ids (hb : b.Consistent) {source : String} (hsource : source ∉ b.ids)
    (target : String) (kind : EdgeKind) : b.addEdge source target kind = b := by
  have hends : ¬(b.hasNode source && b.hasNode target) = true := fun h =>
    hsource ((hb.hasNode_iff source).mp (Bool.and_eq_true _ _ ▸ h).1)
  rw [addEdge, if_neg hends]

/-- An edge to a node that is there comes if it starts at one that is there, and else not at all. -/
theorem Brings.offerEdge (hb : b.Consistent) (source : String) {target : String}
    (htarget : target ∈ b.ids) (kind : EdgeKind) :
    Brings (fun e => source ∈ b.ids ∧ e = ⟨source, target, kind⟩) b
      (b.addEdge source target kind) := by
  by_cases hsource : source ∈ b.ids
  · exact (Brings.addEdge hb hsource htarget kind).congr fun e => (and_iff_right hsource).symm
  · rw [addEdge_of_not_mem_ids hb hsource]
    exact ⟨hb, rfl, fun e => (or_iff_left fun h => hsource h.1).symm⟩

end GraphBuilder

/-! ## The operands of a join -/

namespace Assembly

open GraphBuilder

variable {i : AssemblyInput} {b : GraphBuilder}

/-- What a join takes in where some ids are taken: the operands among these. -/
inductive InputEdge (taken : List String) (r : JoinRecord) : GraphEdge → Prop
  | input {operand : String} : operand ∈ r.operands → operand ∈ taken →
    InputEdge taken r ⟨operand, r.id, .joinInput⟩

theorem InputEdge.congr {taken taken' : List String} (h : ∀ id, id ∈ taken ↔ id ∈ taken')
    (r : JoinRecord) (e : GraphEdge) : InputEdge taken r e ↔ InputEdge taken' r e := by
  constructor
  · rintro ⟨hoperand, htaken⟩
    exact .input hoperand ((h _).mp htaken)
  · rintro ⟨hoperand, htaken⟩
    exact .input hoperand ((h _).mpr htaken)

theorem inputEdge_iff {taken : List String} {r : JoinRecord} {source target : String} :
    InputEdge taken r ⟨source, target, .joinInput⟩
      ↔ target = r.id ∧ source ∈ r.operands ∧ source ∈ taken := by
  constructor
  · rintro ⟨hoperand, htaken⟩
    exact ⟨rfl, hoperand, htaken⟩
  · rintro ⟨rfl, hoperand, htaken⟩
    exact .input hoperand htaken

theorem JoinEdge.kind_ne {rs : Relations} {taken : List String} {r : JoinRecord} {e : GraphEdge}
    (h : JoinEdge rs taken r e) : e.kind ≠ .joinInput := by
  cases h <;> nofun

theorem compared_eq (width : Nat) (r : JoinRecord) (b : GraphBuilder) :
    compared width r b = (b.addNode (joinNode width r)).forEach r.operands fun operand =>
      GraphBuilder.addEdge operand r.id .joinInput := by
  simp only [compared, JoinRecord.operands, GraphBuilder.forEach, List.foldl_flatMap,
    List.foldl_cons, List.foldl_nil]

/-- A join takes in those of its operands that have a node when it comes. Its own node comes before
them, so an operand spelled like the join is taken in as well. -/
theorem mem_edges_compared_iff (hb : b.Consistent) (width : Nat) (r : JoinRecord) (e : GraphEdge) :
    e ∈ (compared width r b).edges ↔ e ∈ b.edges ∨ InputEdge (b.ids ++ [r.id]) r e := by
  have hids : ∀ id, id ∈ (b.addNode (joinNode width r)).ids ↔ id ∈ b.ids ++ [r.id] := fun id => by
    rw [mem_ids_addNode_iff hb, List.mem_append, List.mem_singleton]
    rfl
  have hown : r.id ∈ (b.addNode (joinNode width r)).ids := mem_ids_addNode hb (joinNode width r)
  have hoffered : ∀ operand ∈ r.operands, ∀ d : GraphBuilder, d.Consistent →
      d.ids = (b.addNode (joinNode width r)).ids →
      Brings (fun e => operand ∈ (b.addNode (joinNode width r)).ids
          ∧ e = ⟨operand, r.id, .joinInput⟩)
        d (d.addEdge operand r.id .joinInput) := fun operand _ d hd hsame =>
    hsame ▸ Brings.offerEdge hd operand (hsame ▸ hown) .joinInput
  have hoperands := Brings.forEach (hb.addNode (joinNode width r)) hoffered
  rw [compared_eq, hoperands.mem_edges_iff, edges_addNode]
  refine or_congr_right ⟨?_, ?_⟩
  · rintro ⟨operand, hoperand, htaken, rfl⟩
    exact .input hoperand ((hids operand).mp htaken)
  · rintro ⟨hoperand, htaken⟩
    exact ⟨_, hoperand, (hids _).mpr htaken, rfl⟩

/-! ## The operands of all joins -/

theorem mem_ids_named_iff_earlyIds {id : String} : id ∈ (named i).ids ↔ id ∈ i.earlyIds := by
  have hedges := (growsBy_projected i.relations i.columns (tabled i)).trans (growsBy_named i)
  rw [hedges.ids_eq, mem_ids_entered_iff, AssemblyInput.earlyIds, List.mem_append, List.mem_append]

/-- The operands are taken in by the joins, and not before or after. What a round brings is
`mem_edges_compared_iff`, and the loop over the joins goes as for their other edges
(`mem_edges_addJoins_of_round`). -/
theorem mem_edges_joinInput_iff {source target : String} :
    ⟨source, target, .joinInput⟩ ∈ (build i).edges
      ↔ ∃ place r, i.joins[place]? = some r ∧ target = r.id ∧ source ∈ r.operands
        ∧ source ∈ takenAt i.earlyIds i.joins place := by
  let e : GraphEdge := ⟨source, target, .joinInput⟩
  have hround : ∀ (r : JoinRecord) (d : GraphBuilder), d.Consistent →
      (e ∈ (addJoin i.relations i.joinLabelWidth r d).edges
        ↔ e ∈ d.edges ∨ InputEdge (d.ids ++ [r.id]) r e) := fun r d hd => by
    have hother : ¬JoinEdge i.relations (d.ids ++ [r.id]) r e := fun h => h.kind_ne rfl
    rw [(brings_addJoin hd i.relations i.joinLabelWidth r).mem_edges_iff, or_iff_left hother,
      mem_edges_compared_iff hd]
  have hjoined : e ∈ (joined i).edges ↔ ∃ place r, i.joins[place]? = some r
      ∧ InputEdge (takenAt (named i).ids i.joins place) r e := by
    rw [joined, mem_edges_addJoins_of_round (E := fun taken r => InputEdge taken r e)
      (fun r htaken => InputEdge.congr htaken r e) hround (consistent_named i),
      or_iff_right (not_mem_edges_named (.inl rfl))]
  have htaken : ∀ place id, id ∈ takenAt (named i).ids i.joins place
      ↔ id ∈ takenAt i.earlyIds i.joins place := fun place id => by
    rw [takenAt, takenAt, List.mem_append, List.mem_append, mem_ids_named_iff_earlyIds]
  have hlater : e ∈ (build i).edges ↔ e ∈ (joined i).edges := by
    refine ⟨fun he => ?_, (growsTo_build_of_joined i).mem_edges⟩
    rcases (growsAlike_addKpi i (.refl (joined i))).mem_edges he with he | ⟨d, hcall⟩
    · exact edges_addNode (kpiNode i) (joined i) ▸ he
    · cases hcall with
      | column _ hcolumn => cases hcolumn
  rw [hlater, hjoined]
  simp only [e, inputEdge_iff, htaken]

/-- A column that was there when a join came is one of the column lineage. Its node was there before
the first join, and of what is there by then tables and outputs are no columns. -/
theorem mem_columns_of_mem_takenAt {n : GraphNode} (hn : n ∈ (build i).nodes)
    (htype : n.type = .column) {place : Nat} (hid : n.id ∈ takenAt i.earlyIds i.joins place) :
    n.id ∈ i.columns.columns := by
  -- An operand may be spelled like a join, so its id can be taken by a join and by nothing earlier.
  have hjoined : n.id ∈ (joined i).ids := by
    rcases List.mem_append.mp hid with hid | hid
    · exact (growsBy_joined i).growsTo.mem_ids (mem_ids_named_iff_earlyIds.mpr hid)
    · obtain ⟨r, hr, hid⟩ := List.mem_map.mp hid
      exact hid ▸ mem_ids_joined (List.mem_of_mem_take hr)
  have hnamed : n ∈ (named i).nodes := by
    have hthere := (growsTo_build_of_joined i).mem_nodes_of_mem_ids (consistent_build i) hn hjoined
    rcases (growsBy_joined i).mem_nodes hthere with hnamed | ⟨j, -, rfl⟩
    · exact hnamed
    · cases htype
  have hearly := mem_ids_named_iff_earlyIds.mp (List.mem_map_of_mem hnamed)
  refine (List.mem_append.mp hearly).resolve_left fun hother => ?_
  rcases List.mem_append.mp hother with htable | houtput
  · exact not_mem_tableIds_of_type hn (.inr htype) htable
  · exact not_mem_outputs_of_type hn htype houtput

/-- **What joins take in.** An operand of a join leads to it if its id is taken when the join comes:
by the tables and what contains them, by the outputs and columns of the column lineage, or by the
joins up to this one. There are no other edges of this kind. So a column that an operand names leads
to the join if it is one of the column lineage, and does not if it came with a measure or a
dimension. -/
theorem join_inputs (i : AssemblyInput) :
    (∀ source target, ⟨source, target, .joinInput⟩ ∈ (assembleGraph i).edges
        ↔ ∃ place r, i.joins[place]? = some r ∧ target = r.id ∧ source ∈ r.operands
          ∧ source ∈ takenAt i.earlyIds i.joins place)
      ∧ ∀ r ∈ i.joins, ∀ n ∈ (assembleGraph i).nodes, n.type = .column → n.id ∈ r.operands →
        (⟨n.id, r.id, .joinInput⟩ ∈ (assembleGraph i).edges ↔ n.id ∈ i.columns.columns) := by
  refine ⟨fun _ _ => mem_edges_joinInput_iff, fun r hr n hn htype hoperand => ?_⟩
  rw [show (assembleGraph i).edges = (build i).edges from rfl, mem_edges_joinInput_iff]
  constructor
  · rintro ⟨place, -, -, -, -, htaken⟩
    exact mem_columns_of_mem_takenAt hn htype htaken
  · intro hcolumn
    obtain ⟨place, hplace⟩ := List.mem_iff_getElem?.mp hr
    exact ⟨place, r, hplace, rfl, hoperand,
      List.mem_append_left _ (List.mem_append_right _ hcolumn)⟩

end Assembly

/-- A column is compared and grouped by. It comes as a dimension, after the join, and the join does
not take it in. -/
theorem Analysis.joinInputs_of_groupedColumn :
    (({ sql := "SELECT SUM(b.v) AS v FROM a JOIN b ON a.k = 5 GROUP BY a.k" } :
      LineageRequest).tree.map fun root =>
        let a := ((ofTree (.ofConfig {}) (none : Option (Provider Unit)) "" root.1).run ()).1
        (a.joins.map JoinRecord.operands, (a.graph.node? "a.k").map GraphNode.type,
          a.graph.edgesOfKind .dimension, a.graph.edgesOfKind .joinInput)).toOption
      = some ([["a.k", "5"]], some .column, [⟨"a.k", "kpi", .dimension⟩], []) := by
  decide +kernel

end QueryLineage
