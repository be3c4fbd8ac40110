import QueryLineage.Proofs.FirstOccurrences
import QueryLineage.Proofs.LookUps

/-!
# What enriching comes to

A graph is enriched node after node, and what has been learnt about a table is noted by the text of
its name, for all its nodes. With a provider whose answers depend on the question alone the notes do
not show: each node is as it would be if it were looked at alone (`GraphNode.informed`). They show
in the look-ups. A table is looked up where its text first comes up and nowhere else
(`Enrichment.names_mapM`).

Nothing is asked of the graph: ids may be repeated, and edges may lead nowhere.
-/

namespace QueryLineage

/-! ## Nodes one by one -/

/-- What the answers say about the table that a text names. There is no answer unless the text is a
name of three segments. -/
def metadataNamed (f : TableKey → MetadataAnswer) (text : String) : Option TableMetadata :=
  match TableName.parse text with
  | .ok t =>
    match t.segments with
    | [project, dataset, table] => (f ⟨project, dataset, table⟩).toOption
    | _ => none
  | .error _ => none

namespace GraphNode

variable {know : String → Option TableMetadata} {n : GraphNode}

/-- A node with what is known. A table has the number of its rows from what is known by its id, a
column its type, description and flag from what is known of its table, by its label. -/
def informed (know : String → Option TableMetadata) (n : GraphNode) : GraphNode :=
  match n.detail with
  | .table database schema _ =>
    match know n.id with
    | some m => { n with detail := .table database schema m.rowCount }
    | none => n
  | .column (some table) _ _ _ =>
    match (know table).bind (·.column n.label) with
    | some c => { n with detail := .column (some table) (some c.dataType) c.description c.pii }
    | none => n
  | _ => n

/-- Nothing is known that concerns the node: nothing about its table, or of a column only that its
table is known without it. -/
def IsUnknown (know : String → Option TableMetadata) (n : GraphNode) : Prop :=
  ∀ table m, Enrichment.tableOf? n = some table → know table = some m →
    n.type = .column ∧ m.column n.label = none

theorem informed_frame (know : String → Option TableMetadata) (n : GraphNode) :
    (n.informed know).id = n.id ∧ (n.informed know).label = n.label := by
  unfold informed
  split
  · split <;> exact ⟨rfl, rfl⟩
  · split <;> exact ⟨rfl, rfl⟩
  · exact ⟨rfl, rfl⟩

theorem informed_of_isUnknown (h : n.IsUnknown know) : n.informed know = n := by
  unfold informed
  split
  · rename_i database schema rowCount hdetail
    split
    · rename_i m hknown
      have htable : Enrichment.tableOf? n = some n.id := by rw [Enrichment.tableOf?, hdetail]
      have htype := (h n.id m htable hknown).1
      rw [type, hdetail] at htype
      cases htype
    · rfl
  · rename_i table dataType description pii hdetail
    split
    · rename_i c hcolumn
      obtain ⟨m, hknown, hcolumn⟩ := Option.bind_eq_some_iff.mp hcolumn
      have htable : Enrichment.tableOf? n = some table := by rw [Enrichment.tableOf?, hdetail]
      cases (h table m htable hknown).2.symm.trans hcolumn
    · rfl
  · rfl

/-- What is known is put in the place of what was known, by the same id and label; so a second time
puts in the same. -/
theorem informed_informed (know : String → Option TableMetadata) (n : GraphNode) :
    (n.informed know).informed know = n.informed know := by
  obtain ⟨id, label, detail⟩ := n
  cases detail with
  | table database schema rowCount =>
      cases hknown : know id <;> simp [informed, hknown]
  | column table dataType description pii =>
      cases table with
      | none => rfl
      | some table =>
          cases hcolumn : (know table).bind (·.column label) <;> simp [informed, hcolumn]
  | _ => rfl

end GraphNode

namespace Enrichment

theorem metadataNamed_eq_knownBy (f : TableKey → MetadataAnswer) :
    metadataNamed f = knownBy keyOfText? fun key => (f key).toOption := by
  funext text
  unfold metadataNamed knownBy keyOfText?
  cases TableName.parse text with
  | error e => rfl
  | ok t =>
      simp only [Except.toOption, Option.bind_some, TableKey.ofName?]
      generalize t.segments = segments
      rcases segments with _ | ⟨_, _ | ⟨_, _ | ⟨_, _ | _⟩⟩⟩ <;> rfl

theorem decorateBy_eq_informed (know : String → Option TableMetadata) :
    decorateBy know = GraphNode.informed know := by
  funext ⟨id, label, detail⟩
  cases detail with
  | table database schema rowCount =>
      cases hknown : know id <;> simp [decorateBy, tableOf?, decorate, GraphNode.informed, hknown]
  | column table dataType description pii =>
      cases table with
      | none => rfl
      | some table =>
          cases hknown : know table with
          | none => simp [decorateBy, tableOf?, GraphNode.informed, hknown]
          | some m =>
              cases hcolumn : m.column label <;>
                simp [decorateBy, tableOf?, decorate, GraphNode.informed, hknown, hcolumn]
  | _ => rfl

end Enrichment

/-! ## Tables in order -/

section Order

variable {κ α σ : Type} [DecidableEq κ]

/-- The names in the notes, the latest first, are those that have come up, each where it first came
up; and so they are after a question. A name that is noted has come up before, and a new one goes to
the end. -/
theorem names_askOnce (ask : κ → StateM σ α) (k : κ) {names : List κ} {state : List (κ × α) × σ}
    (h : (state.1.map Prod.fst).reverse = names.eraseDups) :
    (((askOnce ask k).run state).2.1.map Prod.fst).reverse = (names ++ [k]).eraseDups := by
  obtain ⟨notes, s⟩ := state
  have hnoted : k ∈ notes.map Prod.fst ↔ k ∈ names := by
    rw [← List.mem_eraseDups (l := names), ← h, List.mem_reverse]
  rw [eraseDups_concat, ← h]
  rcases run_askOnce_cases ask k notes s with ⟨known, hmem, hrun⟩ | ⟨hnew, hrun⟩
  · rw [hrun, if_pos (hnoted.mp (List.mem_map_of_mem hmem))]
  · rw [hrun, if_neg fun hmem => hnew (hnoted.mpr hmem), List.map_cons, List.reverse_cons]

end Order

namespace Enrichment

variable {σ : Type}

theorem names_enrichNode (p : Provider σ) (n : GraphNode) {texts : List String}
    {state : Memo × σ} (h : (state.1.map Prod.fst).reverse = texts.eraseDups) :
    (((enrichNode p n).run state).2.1.map Prod.fst).reverse
      = (texts ++ (tableOf? n).toList).eraseDups := by
  cases htable : tableOf? n with
  | none =>
      rw [enrichNode_of_none p htable, Option.toList_none, List.append_nil]
      exact h
  | some table =>
      rw [run_enrichNode_of_some p htable, metadataOf_eq_askOnce, Option.toList_some]
      exact names_askOnce _ table h

/-- The texts noted in the end are those of the nodes' tables, each where it first comes up. -/
theorem names_mapM (p : Provider σ) (nodes : List GraphNode) {texts : List String}
    {state : Memo × σ} (h : (state.1.map Prod.fst).reverse = texts.eraseDups) :
    (((nodes.mapM (enrichNode p)).run state).2.1.map Prod.fst).reverse
      = (texts ++ nodes.filterMap tableOf?).eraseDups := by
  -- The induction is on the nodes still to come, with the texts that have come up by then.
  induction nodes generalizing texts state with
  | nil =>
      rw [List.filterMap_nil, List.append_nil]
      exact h
  | cons n rest ih =>
      have hrest := ih (names_enrichNode p n h)
      have htexts : texts ++ (n :: rest).filterMap tableOf?
          = texts ++ (tableOf? n).toList ++ rest.filterMap tableOf? := by
        cases htable : tableOf? n <;> simp [htable]
      rw [htexts, ← hrest, List.mapM_cons]
      rfl

/-- The look-ups of a run: those of the texts of the nodes' tables that are names of three segments,
in the order in which the texts first come up. The log of the look-ups goes with the notes
(`Logged`), and the notes with the texts (`names_mapM`). -/
theorem lookUps_enrich (p : Provider σ) (g : LineageGraph) (s : σ) (seen : List TableKey) :
    ((g.enrich p.noting).run (s, seen)).2.2
      = seen ++ (g.nodes.filterMap tableOf?).eraseDups.filterMap keyOfText? := by
  have hkept := Keeps.mapM (I := Logged keyOfText? (fun _ => True) seen) (l := g.nodes)
    (f := enrichNode p.noting) fun n _ => keeps_enrichNode p fun _ _ => trivial
  have hlogged := (hkept ([], s, seen) (Logged.start keyOfText? _ (s, seen))).1
  have hnames : (((g.nodes.mapM (enrichNode p.noting)).run ([], s, seen)).2.1.map Prod.fst).reverse
      = ([] ++ g.nodes.filterMap tableOf?).eraseDups := names_mapM p.noting g.nodes rfl
  rw [List.nil_append] at hnames
  rw [← hnames]
  exact hlogged.seen_eq

end Enrichment

namespace LineageGraph

open Enrichment

variable {σ : Type}

/-- **Enriching a graph.** If the answers of the provider depend on the question alone, the graph
comes out as if each node were looked at alone: in their order and with their ids and labels, and
the same where nothing is known that concerns it. The text of a table is looked up once, where it
first comes up and if it is a name of three segments. And enriching again changes nothing. All but
the look-ups is read off the run as a map over the nodes (`run_enrich`), the last part with
`informed_informed`. -/
theorem enrich_nodewise {p : Provider σ} {f : TableKey → MetadataAnswer}
    (hp : ∀ key s, ((p key).run s).1 = f key) (g : LineageGraph) (s : σ) (seen : List TableKey) :
    let g' := ((g.enrich p).run s).1
    g' = ⟨g.nodes.map (GraphNode.informed (metadataNamed f)), g.edges⟩
      ∧ g'.nodes.map (fun n => (n.id, n.label)) = g.nodes.map (fun n => (n.id, n.label))
      ∧ (∀ (place : Nat) n, g.nodes[place]? = some n → n.IsUnknown (metadataNamed f) →
        g'.nodes[place]? = some n)
      ∧ ((g.enrich p.noting).run (s, seen)).2.2
        = seen ++ (g.nodes.filterMap tableOf?).eraseDups.filterMap keyOfText?
      ∧ ∀ s', ((g'.enrich p).run s').1 = g' := by
  have hhas : p.Has fun key => (f key).toOption := fun key s => by rw [hp]
  have hrun : ∀ (h : LineageGraph) s, ((h.enrich p).run s).1
      = ⟨h.nodes.map (GraphNode.informed (metadataNamed f)), h.edges⟩ := fun h s => by
    rw [run_enrich hhas, decorateBy, ← metadataNamed_eq_knownBy, decorateBy_eq_informed]
  intro g'
  have hg' : g' = ⟨g.nodes.map (GraphNode.informed (metadataNamed f)), g.edges⟩ := hrun g s
  refine ⟨hg', ?_, fun place n hn hunknown => ?_, lookUps_enrich p g s seen, fun s' => ?_⟩
  · rw [hg', List.map_map]
    refine List.map_congr_left fun n _ => ?_
    obtain ⟨hid, hlabel⟩ := n.informed_frame (metadataNamed f)
    exact Prod.ext hid hlabel
  · rw [hg', List.getElem?_map, hn, Option.map_some, GraphNode.informed_of_isUnknown hunknown]
  · rw [hrun, hg', List.map_map]
    exact congrArg (LineageGraph.mk · g.edges)
      (List.map_congr_left fun n _ => GraphNode.informed_informed _ n)

/-- A catalog with one table. -/
def ordersAnswers (key : TableKey) : MetadataAnswer :=
  if key = ⟨"p", "d", "orders"⟩ then
    .ok { rowCount := some 3, columns := .ofList [("id", ⟨"INT64", some "key", true⟩)] }
  else .error (.notFound key)

def ordersCatalog : Provider Unit := .ofAnswers ordersAnswers

/-- A graph with a table that is there twice and has a column, one that is not in the catalog, one
that is not looked up, and an edge from nowhere. -/
def ordersGraph : LineageGraph where
  nodes := [⟨"p.d.gone", "gone", .table (some "p") (some "d") (some 7)⟩,
    ⟨"p.d.orders.ID", "ID", .column (some "p.d.orders") none none false⟩,
    ⟨"p.d.orders", "orders", .table (some "p") (some "d") none⟩,
    ⟨"p.d.orders", "orders", .table none none (some 1)⟩,
    ⟨"orders", "orders", .table none none none⟩]
  edges := [⟨"nowhere", "p.d.gone", .derives⟩]

theorem enrich_nodewise_orders :
    ((ordersGraph.enrich ordersCatalog).run ()).1
        = { ordersGraph with
            nodes := [⟨"p.d.gone", "gone", .table (some "p") (some "d") (some 7)⟩,
              ⟨"p.d.orders.ID", "ID", .column (some "p.d.orders") (some "INT64") (some "key") true⟩,
              ⟨"p.d.orders", "orders", .table (some "p") (some "d") (some 3)⟩,
              ⟨"p.d.orders", "orders", .table none none (some 3)⟩,
              ⟨"orders", "orders", .table none none none⟩] }
      ∧ ((ordersGraph.enrich ordersCatalog.noting).run ((), [])).2.2
        = [⟨"p", "d", "gone"⟩, ⟨"p", "d", "orders"⟩] := by
  have hanswers : ∀ key s, ((ordersCatalog key).run s).1 = ordersAnswers key := fun _ _ => rfl
  have h := enrich_nodewise hanswers ordersGraph () []
  exact ⟨h.1.trans (by decide +kernel), h.2.2.2.1.trans (by decide +kernel)⟩

end LineageGraph

end QueryLineage
