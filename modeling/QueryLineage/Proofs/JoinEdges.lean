import QueryLineage.Proofs.ColumnOwners
import QueryLineage.Proofs.EdgeCalls
import QueryLineage.Proofs.JoinSides

/-!
# Joins in the graph

A join is tied to the tables of its sides, and these are found by the names in its record: a name
that has a node stands for that node, and else for what the expression of that name reads. Since the
tables of a statement are all in the graph, a side that is a table stands for its own node. But any
other side has a name that something else may have as well, an output, a column, a schema, a join,
or an expression. `JoinSide.standIns_eq_iff` says that nothing else goes wrong, and
`Analysis.join_edges` what edges there are in any case.

The stages before the joins and after them are known by their calls. Of a join itself more is known,
which edges it brings (`brings_addJoin`), and so of all joins together (`mem_edges_addJoins`).
-/

namespace QueryLineage

namespace Assembly

open GraphBuilder

variable {i : AssemblyInput} {b : GraphBuilder}

/-! ## Names and nodes -/

/-- The ids that a name stands for where some ids are taken: itself if it is one of these, else
those among them of the tables that the expression of the name reads. -/
def standIns (rs : Relations) (taken : List String) (name : String) : List String :=
  if name ∈ taken then [name]
  else match rs.ctes.bases? name with
    | some bases => (bases.toList.map TableName.text).filter (· ∈ taken)
    | none => []

theorem standIns_congr {taken taken' : List String} (h : ∀ id, id ∈ taken ↔ id ∈ taken')
    (rs : Relations) (name : String) : standIns rs taken name = standIns rs taken' name := by
  simp only [standIns, h]

theorem mem_of_mem_standIns {rs : Relations} {taken : List String} {name id : String}
    (h : id ∈ standIns rs taken name) : id ∈ taken := by
  rw [standIns] at h
  split at h
  · rename_i hname
    exact List.mem_singleton.mp h ▸ hname
  · split at h
    · exact of_decide_eq_true (List.mem_filter.mp h).2
    · cases h

theorem tableNodes_eq_standIns (hb : b.Consistent) (rs : Relations) (name : String) :
    tableNodes rs b name = standIns rs b.ids name := by
  have hnodes : b.hasNode = fun id => decide (id ∈ b.ids) := funext fun id => by
    rw [Bool.eq_iff_iff, decide_eq_true_iff, hb.hasNode_iff]
  rw [tableNodes, standIns, hnodes]
  cases rs.ctes.bases? name with
  | none => simp
  | some bases => simp

/-! ## The edges of a join -/

/-- What a join ties to what: itself to the right side, and the left side to the right side. -/
inductive JoinEdge (rs : Relations) (taken : List String) (r : JoinRecord) : GraphEdge → Prop
  | output {right : String} : right ∈ standIns rs taken r.rightTable →
    JoinEdge rs taken r ⟨r.id, right, .joinOutput⟩
  | tables {left right : String} : left ∈ standIns rs taken r.leftTable →
    right ∈ standIns rs taken r.rightTable → JoinEdge rs taken r ⟨left, right, .joinTable⟩

theorem JoinEdge.congr {taken taken' : List String} (h : ∀ id, id ∈ taken ↔ id ∈ taken')
    (rs : Relations) (r : JoinRecord) (e : GraphEdge) :
    JoinEdge rs taken r e ↔ JoinEdge rs taken' r e := by
  constructor
  · rintro (⟨hright⟩ | ⟨hleft, hright⟩)
    · exact .output (standIns_congr h rs _ ▸ hright)
    · exact .tables (standIns_congr h rs _ ▸ hleft) (standIns_congr h rs _ ▸ hright)
  · rintro (⟨hright⟩ | ⟨hleft, hright⟩)
    · exact .output (standIns_congr h rs _ ▸ hright)
    · exact .tables (standIns_congr h rs _ ▸ hleft) (standIns_congr h rs _ ▸ hright)

theorem joinEdge_output_iff {rs : Relations} {taken : List String} {r : JoinRecord}
    {source target : String} :
    JoinEdge rs taken r ⟨source, target, .joinOutput⟩
      ↔ source = r.id ∧ target ∈ standIns rs taken r.rightTable := by
  constructor
  · rintro ⟨hright⟩
    exact ⟨rfl, hright⟩
  · rintro ⟨rfl, hright⟩
    exact .output hright

theorem joinEdge_tables_iff {rs : Relations} {taken : List String} {r : JoinRecord}
    {source target : String} :
    JoinEdge rs taken r ⟨source, target, .joinTable⟩
      ↔ source ∈ standIns rs taken r.leftTable ∧ target ∈ standIns rs taken r.rightTable := by
  constructor
  · rintro (_ | ⟨hleft, hright⟩)
    exact ⟨hleft, hright⟩
  · rintro ⟨hleft, hright⟩
    exact .tables hleft hright

/-- The graph with the node of a join and the edges from the columns that it compares. -/
def compared (width : Nat) (r : JoinRecord) (b : GraphBuilder) : GraphBuilder :=
  b |> GraphBuilder.addNode (joinNode width r)
    |> GraphBuilder.forEach r.equalityPairs fun p d =>
      d |> GraphBuilder.addEdge p.1 r.id .joinInput |> GraphBuilder.addEdge p.2 r.id .joinInput

theorem growsBy_compared (width : Nat) (r : JoinRecord) (b : GraphBuilder) :
    GrowsBy (fun _ => False) (b.addNode (joinNode width r)) (compared width r b) :=
  (GrowsBy.refl _).forEach fun _ _ d => ((GrowsBy.refl d).addEdge _ _ _).addEdge _ _ _

theorem consistent_compared (hb : b.Consistent) (width : Nat) (r : JoinRecord) :
    (compared width r b).Consistent :=
  (growsBy_compared width r b).growsTo.consistent (hb.addNode _)

theorem mem_ids_compared (hb : b.Consistent) (width : Nat) (r : JoinRecord) (id : String) :
    id ∈ (compared width r b).ids ↔ id ∈ b.ids ++ [r.id] := by
  rw [(growsBy_compared width r b).ids_eq, List.mem_append, List.mem_singleton]
  exact mem_ids_addNode_iff hb

theorem mem_edges_compared (width : Nat) (r : JoinRecord) {e : GraphEdge}
    (hkind : .joinInput ≠ e.kind) : e ∈ (compared width r b).edges ↔ e ∈ b.edges := by
  refine ((GrowsAlike.refl (SameNodes.refl b)).addNode (isOtherThan_addNode _)).forEach
    r.equalityPairs (fun p _ _ _ hsame => ?_) |>.mem_edges_iff
  exact ((GrowsAlike.refl hsame).addEdge (isOtherThan_addEdge hkind p.1 r.id)).addEdge
    (isOtherThan_addEdge hkind p.2 r.id)

/-- A join brings the edges between the ids that its sides stand for, its own id taken too. Its node
comes first and no other, so what the sides stand for is the same in both loops, and each loop
brings the edges of its rounds (`Brings.forEach`). -/
theorem brings_addJoin (hb : b.Consistent) (rs : Relations) (width : Nat) (r : JoinRecord) :
    Brings (JoinEdge rs (b.ids ++ [r.id]) r) (compared width r b) (addJoin rs width r b) := by
  have hcompared := consistent_compared hb width r
  have hstands : ∀ name, tableNodes rs (compared width r b) name
      = standIns rs (b.ids ++ [r.id]) name := fun name =>
    (tableNodes_eq_standIns hcompared rs name).trans
      (standIns_congr (mem_ids_compared hb width r) rs name)
  have htaken : ∀ {name id}, id ∈ standIns rs (b.ids ++ [r.id]) name
      → id ∈ (compared width r b).ids :=
    fun h => (mem_ids_compared hb width r _).mpr (mem_of_mem_standIns h)
  have hown : r.id ∈ (compared width r b).ids := (mem_ids_compared hb width r r.id).mpr (by simp)
  let rights := standIns rs (b.ids ++ [r.id]) r.rightTable
  let lefts := standIns rs (b.ids ++ [r.id]) r.leftTable
  have houtputs : Brings (fun e => ∃ right ∈ rights, e = ⟨r.id, right, .joinOutput⟩)
      (compared width r b) ((compared width r b).forEach rights fun right =>
        GraphBuilder.addEdge r.id right .joinOutput) :=
    .forEach_addEdge hcompared .joinOutput fun right hright => ⟨hown, htaken hright⟩
  have htables := Brings.forEach houtputs.consistent (f := fun left =>
      GraphBuilder.forEach rights fun right => GraphBuilder.addEdge left right .joinTable)
    fun left (hleft : left ∈ lefts) d hd hids => Brings.forEach_addEdge hd .joinTable
      fun right hright => by
        rw [hids, houtputs.ids_eq]
        exact ⟨htaken hleft, htaken hright⟩
  have hjoin : addJoin rs width r b = (compared width r b
      |> GraphBuilder.forEach (tableNodes rs (compared width r b) r.rightTable)
        (fun right => GraphBuilder.addEdge r.id right .joinOutput)
      |> GraphBuilder.forEach (tableNodes rs (compared width r b) r.leftTable) fun left =>
        GraphBuilder.forEach (tableNodes rs (compared width r b) r.rightTable) fun right =>
          GraphBuilder.addEdge left right .joinTable) := rfl
  rw [hjoin, hstands, hstands]
  refine (houtputs.trans htables).congr fun e => ⟨?_, ?_⟩
  · rintro (⟨right, hright, rfl⟩ | ⟨left, hleft, right, hright, rfl⟩)
    · exact .output hright
    · exact .tables hleft hright
  · rintro (⟨hright⟩ | ⟨hleft, hright⟩)
    · exact .inl ⟨_, hright, rfl⟩
    · exact .inr ⟨_, hleft, _, hright, rfl⟩

theorem mem_ids_addJoin (hb : b.Consistent) (rs : Relations) (width : Nat) (r : JoinRecord)
    (id : String) : id ∈ (addJoin rs width r b).ids ↔ id ∈ b.ids ++ [r.id] := by
  rw [(brings_addJoin hb rs width r).ids_eq, mem_ids_compared hb]

/-- The ids that are taken when the join at a place comes. -/
def takenAt (before : List String) (joins : List JoinRecord) (place : Nat) : List String :=
  before ++ (joins.take (place + 1)).map JoinRecord.id

/-- If `E` says when a join brings an edge where some ids are taken, then joins one after another
bring it as `E` says, each where the ids are taken that are by then. By induction on the joins: what
is taken at a place of the rest is what is taken one place later in all of them. -/
theorem mem_edges_addJoins_of_round {rs : Relations} {width : Nat} {e : GraphEdge}
    {E : List String → JoinRecord → Prop}
    (hcongr : ∀ {taken taken' : List String} (r : JoinRecord),
      (∀ id, id ∈ taken ↔ id ∈ taken') → (E taken r ↔ E taken' r))
    (hround : ∀ (r : JoinRecord) (d : GraphBuilder), d.Consistent →
      (e ∈ (addJoin rs width r d).edges ↔ e ∈ d.edges ∨ E (d.ids ++ [r.id]) r))
    (hb : b.Consistent) (joins : List JoinRecord) :
    e ∈ (b.forEach joins (addJoin rs width)).edges
      ↔ e ∈ b.edges ∨ ∃ place r, joins[place]? = some r ∧ E (takenAt b.ids joins place) r := by
  induction joins generalizing b with
  | nil => simp [GraphBuilder.forEach]
  | cons r rest ih =>
      have hlater : ∀ place r', E (takenAt (addJoin rs width r b).ids rest place) r'
          ↔ E (takenAt b.ids (r :: rest) (place + 1)) r' := fun place r' =>
        hcongr r' fun id => by simp [takenAt, mem_ids_addJoin hb, or_assoc]
      have hfirst : E (b.ids ++ [r.id]) r ↔ E (takenAt b.ids (r :: rest) 0) r := by
        simp [takenAt]
      calc e ∈ (b.forEach (r :: rest) (addJoin rs width)).edges
          ↔ e ∈ (addJoin rs width r b).edges ∨ ∃ place r', rest[place]? = some r'
              ∧ E (takenAt (addJoin rs width r b).ids rest place) r' :=
            ih (brings_addJoin hb rs width r).consistent
        _ ↔ e ∈ b.edges ∨ E (takenAt b.ids (r :: rest) 0) r
              ∨ ∃ place r', rest[place]? = some r'
                ∧ E (takenAt b.ids (r :: rest) (place + 1)) r' := by
            simp only [hround r b hb, hlater, hfirst, or_assoc]
        _ ↔ e ∈ b.edges ∨ ∃ place r', (r :: rest)[place]? = some r'
              ∧ E (takenAt b.ids (r :: rest) place) r' := by
            refine or_congr_right ⟨?_, ?_⟩
            · rintro (h | ⟨place, r', hr', h⟩)
              · exact ⟨0, r, rfl, h⟩
              · exact ⟨place + 1, r', hr', h⟩
            · rintro ⟨place | place, r', hr', h⟩
              · obtain rfl := Option.some.inj hr'
                exact .inl h
              · exact .inr ⟨place, r', hr', h⟩

/-- Joins one after another bring their edges, each among the ids taken by then. The operands come
first in a round, and these edges are of another kind. -/
theorem mem_edges_addJoins (hb : b.Consistent) (rs : Relations) (width : Nat)
    (joins : List JoinRecord) {e : GraphEdge} (hkind : .joinInput ≠ e.kind) :
    e ∈ (b.forEach joins (addJoin rs width)).edges
      ↔ e ∈ b.edges ∨ ∃ place r, joins[place]? = some r
        ∧ JoinEdge rs (takenAt b.ids joins place) r e :=
  mem_edges_addJoins_of_round (E := fun taken r => JoinEdge rs taken r e)
    (fun r htaken => JoinEdge.congr htaken rs r e)
    (fun r d hd => by
      rw [(brings_addJoin hd rs width r).mem_edges_iff, mem_edges_compared width r hkind])
    hb joins

/-! ## The edges of all joins -/

theorem not_mem_edges_named {e : GraphEdge}
    (hkind : e.kind = .joinInput ∨ e.kind = .joinOutput ∨ e.kind = .joinTable) :
    e ∉ (named i).edges := by
  intro he
  have hcolumns := growsAlike_addColumns i.relations i.columns (.refl (tabled i))
  rcases hcolumns.mem_edges he with he | ⟨d, hcall⟩
  · rcases (growsAlike_tabled i).mem_edges he with he | ⟨d, hcall⟩
    · cases he
    · rw [hcall.kind_eq] at hkind
      rcases hkind with hkind | hkind | hkind <;> cases hkind
  · obtain ⟨source, target, kind⟩ := e
    rcases hkind with rfl | rfl | rfl <;> cases hcall <;> rename_i hcolumn <;> cases hcolumn

/-- An aggregation is tied to every join: in the loop that ties it both have nodes, as the joins
came before. -/
theorem mem_edges_addMeasure {m : Slot × Aggregation} (hm : m ∈ measures i.outputs)
    {r : JoinRecord} (hr : r ∈ i.joins) (hb : b.Consistent) (hid : r.id ∈ b.ids) :
    ⟨r.id, m.2.nodeId, .joinOutput⟩ ∈ (addMeasure i m b).edges := by
  have hlink : ∀ column ∈ (measuredColumn? i.tree.mainSelect? m.1).toList, ∀ d : GraphBuilder,
      d.GrowsTo (linkColumn i.relations m.2.nodeId .measure column d) := fun column _ d =>
    (growsAlike_linkColumn column (fun _ => .measure column hm) (.refl d)).growsTo
  let noted := b.addNode ⟨m.2.nodeId, m.2.label, .aggregation m.2.function.name m.2.args⟩
  let linked := noted.forEach (measuredColumn? i.tree.mainSelect? m.1).toList
    (linkColumn i.relations m.2.nodeId .measure)
  have hlinked : noted.GrowsTo linked := .forEach hlink noted
  have hconsistent : linked.Consistent := hlinked.consistent (hb.addNode _)
  have hown : r.id ∈ linked.ids := hlinked.mem_ids ((GrowsTo.addNode b _).mem_ids hid)
  have haggregation : m.2.nodeId ∈ linked.ids := hlinked.mem_ids (mem_ids_addNode hb _)
  have hjoins : ∀ j ∈ i.joins, ∀ d : GraphBuilder,
      d.GrowsTo (d.addEdge j.id m.2.nodeId .joinOutput) := fun j _ d => .addEdge d _ _ _
  have hedge := mem_edges_forEach (b := linked) hjoins hr
    (e := ⟨r.id, m.2.nodeId, .joinOutput⟩) fun d hd =>
      ((Brings.addEdge (hd.consistent hconsistent) (hd.mem_ids hown) (hd.mem_ids haggregation)
        .joinOutput).mem_edges_iff _).mpr (.inr rfl)
  exact (GrowsTo.addEdge _ _ _ _).mem_edges hedge

theorem mem_ids_joined {r : JoinRecord} (hr : r ∈ i.joins) : r.id ∈ (joined i).ids := by
  refine mem_ids_forEach (P := fun _ => True) (consistent_named i)
    (fun j _ d => ?_) (fun j d hd => ?_) hr
  · exact ((GrowsBy.refl d).addNode trivial).trans (growsBy_addJoin _ _ j d)
  · exact (mem_ids_addJoin hd _ _ j j.id).mpr (by simp)

/-- In the end the edges of joins are those that the joins brought, and those to what is measured.
Of the later stages the measures alone come with an edge of such a kind. -/
theorem mem_edges_build_iff {e : GraphEdge} (hkind : e.kind = .joinOutput ∨ e.kind = .joinTable) :
    e ∈ (build i).edges
      ↔ (∃ place r, i.joins[place]? = some r
          ∧ JoinEdge i.relations (takenAt (named i).ids i.joins place) r e)
        ∨ ∃ m ∈ measures i.outputs, ∃ r ∈ i.joins, e = ⟨r.id, m.2.nodeId, .joinOutput⟩ := by
  have hinput : .joinInput ≠ e.kind := by
    rcases hkind with h | h <;> rw [h] <;> nofun
  have hjoined :=
    mem_edges_addJoins (consistent_named i) i.relations i.joinLabelWidth i.joins hinput
  rw [or_iff_right (not_mem_edges_named (.inr hkind))] at hjoined
  rw [← hjoined]
  constructor
  · intro he
    rcases (growsAlike_addKpi i (.refl (joined i))).mem_edges he with he | ⟨d, hcall⟩
    · exact .inl (edges_addNode (kpiNode i) (joined i) ▸ he)
    · obtain ⟨source, target, kind⟩ := e
      rcases hkind with rfl | rfl
      · cases hcall with
        | column _ hcolumn => cases hcolumn
        | joined hm hr => exact .inr ⟨_, hm, _, hr, rfl⟩
      · cases hcall with
        | column _ hcolumn => cases hcolumn
  · rintro (he | ⟨m, hm, r, hr, rfl⟩)
    · exact (growsTo_build_of_joined i).mem_edges he
    · have hmeasure : ∀ m ∈ measures i.outputs, ∀ d : GraphBuilder,
          d.GrowsTo (addMeasure i m d) := fun m hm d =>
        (growsAlike_addMeasure hm (.refl d)).growsTo
      have hdimensions : ∀ select ∈ i.tree.mainSelect?.toList, ∀ d : GraphBuilder,
          d.GrowsTo (addDimensions i.relations select d) := fun select _ d =>
        (growsAlike_addDimensions select (.refl d)).growsTo
      have hid := mem_ids_joined hr
      have hstart := GrowsTo.addNode (joined i) (kpiNode i)
      refine (GrowsTo.forEach hdimensions _).mem_edges ?_
      exact mem_edges_forEach hmeasure hm fun d hd =>
        mem_edges_addMeasure hm hr ((hstart.trans hd).consistent (consistent_joined i))
          ((hstart.trans hd).mem_ids hid)

/-! ## The ids before the joins -/

theorem LaterCall.type_ne {d : GraphBuilder} {n : GraphNode} (h : LaterCall i d (.addNode n)) :
    n.type ≠ .schema ∧ n.type ≠ .database := by
  cases h with
  | name h =>
      cases h with
      | output _ => exact ⟨nofun, nofun⟩
      | column _ h =>
          cases h
          exact ⟨nofun, nofun⟩
  | join h =>
      cases h
      exact ⟨nofun, nofun⟩
  | indicator => exact ⟨nofun, nofun⟩
  | kpi h =>
      cases h with
      | aggregation _ => exact ⟨nofun, nofun⟩
      | column _ h =>
          cases h
          exact ⟨nofun, nofun⟩

theorem mem_ids_named_iff_or {id : String} :
    id ∈ (named i).ids ↔ id ∈ queryIds i.relations.sources i.columns
      ∨ ∃ n ∈ (build i).nodes, (n.type = .schema ∨ n.type = .database) ∧ n.id = id := by
  constructor
  · intro hid
    obtain ⟨n, hn, rfl⟩ := List.mem_map.mp hid
    refine (of_mem_named hn).1.imp_right fun hcontainer => ⟨n, ?_, ?_, rfl⟩
    · exact (growsTo_build_of_joined i).mem_nodes ((growsBy_joined i).growsTo.mem_nodes hn)
    · cases hcontainer with
      | database project => exact .inr rfl
      | schema project dataset => exact .inl rfl
  · rintro (hid | ⟨n, hn, htype, rfl⟩)
    · exact mem_ids_named hid
    · have htabled : n ∈ (tabled i).nodes := by
        rcases (growsAlike_build i).mem_nodes hn with hn | ⟨d, -, -, hcall⟩
        · exact hn
        · exact absurd htype (not_or.mpr hcall.type_ne)
      have hnamed := (growsBy_addColumns i.relations i.columns (tabled i)).growsTo
      exact List.mem_map_of_mem (hnamed.mem_nodes htabled)

end Assembly

/-! ## Sides that are misread -/

namespace JoinSide

/-- The name of a side is taken for what the side does not stand for: it is the id of a node, though
the side is no single table, or the name of an expression that reads tables, though the side stands
for none. -/
def IsMisread (rs : Relations) (taken : List String) (side : JoinSide) : Prop :=
  (side.tables rs).length ≠ 1 ∧ side.name rs ∈ taken
    ∨ side.tables rs = [] ∧ ∃ cte, rs.ctes.named? (side.name rs) = some cte ∧ cte.bases.toList ≠ []

/-- Where the sources have nodes, a side stands for its tables, unless its name is misread. The
cases are those of `standIns`: a taken name stands for itself, which is right if it is that of the
one table, and any other name for the tables of the expression it names. -/
theorem standIns_eq_iff {rs : Relations} {defaults : TableDefaults} {root : Tree}
    (hrs : rs = .ofTree defaults root) {side : JoinSide} (hside : side.IsIn root)
    {taken : List String} (hsources : ∀ t ∈ rs.sources.toList, t.text ∈ taken) :
    Assembly.standIns rs taken (side.name rs) = (side.tables rs).map TableName.text
      ↔ ¬side.IsMisread rs taken := by
  have htables : side.tables rs ⊆ rs.sources.toList := hrs ▸ tables_subset_sources hside
  have hbases : ∀ {name cte}, rs.ctes.named? name = some cte →
      cte.bases.toList ⊆ rs.sources.toList := by
    subst hrs
    exact Relations.bases_subset_sources
  have hnamed : (side.tables rs).length ≠ 1 → side.tables rs ≠ [] →
      ∃ cte, rs.ctes.named? (side.name rs) = some cte ∧ cte.bases.toList = side.tables rs := by
    subst hrs
    exact named?_name
  have hexpression : ∀ {cte}, side.name rs ∉ taken → rs.ctes.named? (side.name rs) = some cte →
      Assembly.standIns rs taken (side.name rs) = cte.bases.toList.map TableName.text := by
    intro cte hname hcte
    rw [Assembly.standIns, if_neg hname, ResolvedCtes.bases?, hcte]
    refine List.filter_eq_self.mpr fun id hid => ?_
    obtain ⟨t, ht, rfl⟩ := List.mem_map.mp hid
    exact decide_eq_true (hsources t (hbases hcte ht))
  constructor
  · rintro heq (⟨hone, hname⟩ | ⟨hnone, cte, hcte, hsome⟩)
    · rw [Assembly.standIns, if_pos hname] at heq
      exact hone (by simpa using (congrArg List.length heq).symm)
    · by_cases hname : side.name rs ∈ taken
      · rw [Assembly.standIns, if_pos hname, hnone] at heq
        cases heq
      · rw [hexpression hname hcte, hnone, List.map_nil, List.map_eq_nil_iff] at heq
        exact hsome heq
  · intro hread
    by_cases hone : (side.tables rs).length = 1
    · obtain ⟨t, ht⟩ := List.length_eq_one_iff.mp hone
      have htaken := hsources t (htables (ht ▸ List.mem_singleton_self t))
      rw [name_of_tables_eq_singleton ht, ht, Assembly.standIns, if_pos htaken]
      rfl
    · have hname : side.name rs ∉ taken := fun h => hread (.inl ⟨hone, h⟩)
      by_cases hnone : side.tables rs = []
      · cases hcte : rs.ctes.named? (side.name rs) with
        | none => rw [Assembly.standIns, if_neg hname, ResolvedCtes.bases?, hcte, hnone]; rfl
        | some cte =>
            have hempty : cte.bases.toList = [] := by
              by_contra hsome
              exact hread (.inr ⟨hnone, cte, hcte, hsome⟩)
            rw [hexpression hname hcte, hempty, hnone]
      · obtain ⟨cte, hcte, hreads⟩ := hnamed hone hnone
        rw [hexpression hname hcte, hreads]

end JoinSide

/-! ## The graph of an analysis -/

namespace Analysis

variable {σ : Type}

/-- The ids that are taken when the join at a place comes: the names of the query, those of schemas
and databases, and the ids of the joins up to this one. -/
def takenAt (a : Analysis) (place : Nat) : List String :=
  a.queryIds ++ (a.graph.nodesOfType .schema ++ a.graph.nodesOfType .database).map GraphNode.id
    ++ (List.range (place + 1)).map joinId

/-- The ids that a side of the join at a place stands for. -/
def standIns (a : Analysis) (place : Nat) (side : JoinSide) : List String :=
  Assembly.standIns a.relations (a.takenAt place) (side.name a.relations)

/-- What is taken in the analysis is what was taken when its graph was assembled. Decorating keeps
ids and types, and the joins have the ids that their places give. -/
theorem mem_takenAt_iff {a : Analysis} {i : AssemblyInput} {root : Tree}
    (hrelations : a.relations = i.relations) (hcolumns : a.columns = i.columns)
    (hjoins : i.joins = root.joins i.relations)
    (hnodes : List.Forall₂ GraphNode.Decorates (assembleGraph i).nodes a.graph.nodes) {place : Nat}
    (hplace : place < i.joins.length) (id : String) :
    id ∈ Assembly.takenAt (Assembly.named i).ids i.joins place ↔ id ∈ a.takenAt place := by
  have hids : (i.joins.take (place + 1)).map JoinRecord.id
      = (List.range (place + 1)).map joinId := by
    rw [List.map_take, hjoins, root.ids_joins, ← List.map_take, List.take_range, ← hjoins,
      Nat.min_eq_left hplace]
  have hcontainers : ∀ type : NodeType, type ≠ .table → type ≠ .column →
      a.graph.nodesOfType type = (assembleGraph i).nodesOfType type :=
    fun type htable hcolumn => GraphNode.Decorates.filter_type_eq hnodes htable hcolumn
  have hbefore : id ∈ (Assembly.named i).ids ↔ id ∈ a.queryIds
      ∨ id ∈ (a.graph.nodesOfType .schema ++ a.graph.nodesOfType .database).map GraphNode.id := by
    rw [Assembly.mem_ids_named_iff_or, hcontainers .schema nofun nofun,
      hcontainers .database nofun nofun, queryIds, hrelations, hcolumns]
    refine or_congr_right ?_
    simp only [List.mem_map, List.mem_append, LineageGraph.nodesOfType, List.mem_filter,
      decide_eq_true_iff, ← and_or_left, and_assoc]
    rfl
  simp only [Assembly.takenAt, takenAt, List.mem_append, hids, hbefore]

/-- **The edges of joins.** The records of the joins are numbered and name the sides that the joins
have in the statement. A join leads to what its right side stands for, and to the aggregations that
are measured; what the left side stands for leads to what the right side does; and there are no
other edges of these kinds. A side stands for its tables, unless its name is misread. The edges come
from `mem_edges_build_iff`, which speaks of the names in the records; these are the names of the
sides (`Tree.joins_joinSides`), and for these `standIns_eq_iff` says what they stand for. -/
theorem join_edges (o : LineageOptions) (provider : Option (Provider σ)) (timestamp : String)
    (root : Tree) (s : σ) :
    let a := ((ofTree o provider timestamp root).run s).1
    a.joins.map (fun r => (r.id, r.leftTable, r.rightTable))
        = root.joinSides.mapIdx (fun place sides =>
          (joinId place, sides.1.name a.relations, sides.2.name a.relations))
      ∧ (∀ place left right, root.joinSides[place]? = some (left, right) →
        (∀ id, ⟨joinId place, id, .joinOutput⟩ ∈ a.graph.edges
            ↔ id ∈ a.standIns place right ∨ ∃ m ∈ Assembly.measures a.outputs, id = m.2.nodeId)
          ∧ ∀ side ∈ [left, right],
            a.standIns place side = (side.tables a.relations).map TableName.text
              ↔ ¬side.IsMisread a.relations (a.takenAt place))
      ∧ ∀ id id', ⟨id, id', .joinTable⟩ ∈ a.graph.edges
          ↔ ∃ place left right, root.joinSides[place]? = some (left, right)
            ∧ id ∈ a.standIns place left ∧ id' ∈ a.standIns place right := by
  rw [run_ofTree]
  intro a
  let i := input o timestamp root ((qualified o provider root).run s).1.1
  have hnodes : List.Forall₂ GraphNode.Decorates (assembleGraph i).nodes a.graph.nodes :=
    forall₂_decorated .refl .decorate provider _ _
  have hedges : a.graph.edges = (Assembly.build i).edges := edges_decorated provider _ _
  have htaken : ∀ {place r}, i.joins[place]? = some r → ∀ id,
      id ∈ Assembly.takenAt (Assembly.named i).ids i.joins place ↔ id ∈ a.takenAt place :=
    fun {place r} hr => mem_takenAt_iff rfl rfl rfl hnodes (List.getElem?_eq_some_iff.mp hr).1
  have hstands : ∀ {place r}, i.joins[place]? = some r → ∀ side : JoinSide,
      Assembly.standIns i.relations (Assembly.takenAt (Assembly.named i).ids i.joins place)
        (side.name i.relations) = a.standIns place side :=
    fun hr side => Assembly.standIns_congr (htaken hr) i.relations _
  refine ⟨root.joins_joinSides i.relations,
    fun place left right hsides => ⟨fun id => ?_, fun side hside => ?_⟩, fun id id' => ?_⟩
  · obtain ⟨r, hr, hof⟩ := Tree.exists_record i.relations hsides
    rw [hedges, Assembly.mem_edges_build_iff (.inl rfl)]
    constructor
    · rintro (⟨place', r', hr', hedge⟩ | ⟨m, hm, r', hr', hedge⟩)
      · obtain ⟨hid, hright⟩ := Assembly.joinEdge_output_iff.mp hedge
        obtain ⟨sides, hsides', hof'⟩ := Tree.exists_sides i.relations hr'
        obtain rfl := joinId_injective (hid.trans hof'.id_eq)
        obtain rfl := Option.some.inj (hsides'.symm.trans hsides)
        rw [hof'.right_eq, hstands hr'] at hright
        exact .inl hright
      · exact .inr ⟨m, hm, congrArg GraphEdge.target hedge⟩
    · rintro (hright | ⟨m, hm, rfl⟩)
      · refine .inl ⟨place, r, hr, Assembly.joinEdge_output_iff.mpr ⟨hof.id_eq.symm, ?_⟩⟩
        rw [hof.right_eq, hstands hr]
        exact hright
      · exact .inr ⟨m, hm, r, List.mem_of_getElem? hr, by rw [hof.id_eq]⟩
  · refine JoinSide.standIns_eq_iff rfl (fun ref href => ?_) fun t ht => ?_
    · have hmem := List.mem_of_getElem? hsides
      rcases List.mem_pair.mp hside with rfl | rfl
      · exact Tree.mem_tableRefs_of_mem_joinSides hmem (.inl href)
      · exact Tree.mem_tableRefs_of_mem_joinSides hmem (.inr href)
    · have htext := List.mem_map_of_mem (f := TableName.text) ht
      exact List.mem_append_left _ (List.mem_append_left _
        (List.mem_append_left _ (List.mem_append_left _ htext)))
  · rw [hedges, Assembly.mem_edges_build_iff (.inr rfl)]
    constructor
    · rintro (⟨place, r, hr, hedge⟩ | ⟨m, hm, r, hr, hedge⟩)
      · obtain ⟨hleft, hright⟩ := Assembly.joinEdge_tables_iff.mp hedge
        obtain ⟨sides, hsides, hof⟩ := Tree.exists_sides i.relations hr
        rw [hof.left_eq, hstands hr] at hleft
        rw [hof.right_eq, hstands hr] at hright
        exact ⟨place, sides.1, sides.2, hsides, hleft, hright⟩
      · cases congrArg GraphEdge.kind hedge
    · rintro ⟨place, left, right, hsides, hleft, hright⟩
      obtain ⟨r, hr, hof⟩ := Tree.exists_record i.relations hsides
      refine .inl ⟨place, r, hr, Assembly.joinEdge_tables_iff.mpr ⟨?_, ?_⟩⟩
      · rw [hof.left_eq, hstands hr]
        exact hleft
      · rw [hof.right_eq, hstands hr]
        exact hright

/-- An output has the name of an expression that reads two tables, and joins with the expression
lead to the output instead of the tables. -/
theorem joinEdges_of_outputNamedExpression :
    (({ sql := "WITH c AS (SELECT a.x FROM a JOIN b ON a.i = b.i)
        SELECT c.x AS c FROM t JOIN c ON t.i = c.i" } : LineageRequest).tree.map fun root =>
      let a := ((ofTree (.ofConfig {}) (none : Option (Provider Unit)) "" root.1).run ()).1
      (root.1.joinSides[1]?.map fun sides => (sides.2.tables a.relations).map TableName.text,
        a.graph.node? "c",
        (a.graph.edgesOfKind .joinOutput).filter (·.source = "J2"),
        (a.graph.edgesOfKind .joinTable).filter (·.source = "t"))).toOption
      = some (some ["a", "b"], some ⟨"c", "c", .output⟩, [⟨"J2", "c", .joinOutput⟩],
          [⟨"t", "c", .joinTable⟩]) := by
  decide +kernel

example :
    (({ sql := "SELECT u.id, tag FROM users u, UNNEST(u.tags) AS tag" } : LineageRequest).tree.map
      fun root =>
        let a := ((ofTree (.ofConfig {}) (none : Option (Provider Unit)) "" root.1).run ()).1
        (root.1.joinSides, a.graph.node? "tag", a.graph.edgesOfKind .joinOutput)).toOption
      = some ([(.table ⟨["users"], some "u"⟩, .derived "tag")], some ⟨"tag", "tag", .output⟩,
          [⟨"J1", "tag", .joinOutput⟩]) := by
  decide +kernel

end Analysis

end QueryLineage
