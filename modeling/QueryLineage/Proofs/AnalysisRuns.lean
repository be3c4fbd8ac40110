import QueryLineage.Analysis
import QueryLineage.Proofs.AskingOnce

/-!
# Runs of an analysis

An analysis asks its provider at two places, when the columns of the tree are qualified and when the
nodes of the graph are decorated, and each place keeps its own notes. All that lies between is a
function of the qualified tree (`Analysis.run_ofTree`). Decorating by known metadata is a function
of the graph (`LineageGraph.decorateBy`), and with a provider that has this metadata the run comes
to it (`LineageGraph.run_enrich`).
-/

namespace QueryLineage

variable {σ : Type}

/-! ## Questions about tables -/

namespace Qualification

theorem ask_eq_metadata? (p : Provider σ) : ask p = p.metadata? TableKey.ofName? := rfl

theorem metadataOf_eq_askOnce (p : Provider σ) :
    metadataOf p = askOnce (p.metadata? TableKey.ofName?) := by
  funext table ⟨memo, s⟩
  dsimp only [metadataOf, askOnce]
  cases memo.lookup table with
  | none => rfl
  | some found => rfl

end Qualification

namespace Enrichment

/-- The address of the table whose name has this text. -/
def keyOfText? (table : String) : Option TableKey :=
  (TableName.parse table).toOption.bind TableKey.ofName?

theorem ask_eq_metadata? (p : Provider σ) : ask p = p.metadata? keyOfText? := by
  funext table
  unfold ask Provider.metadata? keyOfText?
  generalize (TableName.parse table).toOption.bind TableKey.ofName? = key
  cases key with
  | none => rfl
  | some key => rfl

theorem metadataOf_eq_askOnce (p : Provider σ) :
    metadataOf p = askOnce (p.metadata? keyOfText?) := by
  funext table ⟨memo, s⟩
  rw [← ask_eq_metadata?]
  dsimp only [metadataOf, askOnce]
  cases memo.lookup table with
  | none => rfl
  | some found => rfl

/-! ## Decoration -/

/-- The node with what is known about its table. -/
def decorateBy (know : String → Option TableMetadata) (n : GraphNode) : GraphNode :=
  ((tableOf? n).bind know).elim n fun m => decorate m n

theorem decorateBy_of_unknown {know : String → Option TableMetadata}
    (h : ∀ table, know table = none) (n : GraphNode) : decorateBy know n = n := by
  rw [decorateBy, Option.bind_eq_none_iff.mpr fun table _ => h table]
  rfl

theorem enrichNode_of_none (p : Provider σ) {n : GraphNode} (h : tableOf? n = none) :
    enrichNode p n = pure n := by
  rw [enrichNode, h]

theorem run_enrichNode_of_some (p : Provider σ) {n : GraphNode} {table : String}
    (h : tableOf? n = some table) (s : Memo × σ) :
    (enrichNode p n).run s
      = (((metadataOf p table).run s).1.elim n fun m => decorate m n,
        ((metadataOf p table).run s).2) := by
  rw [enrichNode, h]
  simp only [StateT.run_bind]
  obtain ⟨found, after⟩ := (metadataOf p table).run s
  cases found <;> rfl

/-- A node is left alone or decorated, whatever the provider says. -/
theorem enrichNode_cases (p : Provider σ) (n : GraphNode) (s : Memo × σ) :
    ((enrichNode p n).run s).1 = n ∨ ∃ m, ((enrichNode p n).run s).1 = decorate m n := by
  cases htable : tableOf? n with
  | none =>
      rw [enrichNode_of_none p htable]
      exact .inl rfl
  | some table =>
      rw [run_enrichNode_of_some p htable]
      cases ((metadataOf p table).run s).1 with
      | none => exact .inl rfl
      | some m => exact .inr ⟨m, rfl⟩

/-- What the provider has is what the node is decorated with, and the notes stay true: the answer
comes from the notes or from the provider, and is the same either way (`run_askOnce_of_notesOf`). -/
theorem run_enrichNode_of_has {p : Provider σ} {f : TableKey → Option TableMetadata}
    (h : p.Has f) (n : GraphNode) {memo : Memo}
    (hmemo : NotesOf (knownBy keyOfText? f) memo) (s : σ) :
    ((enrichNode p n).run (memo, s)).1 = decorateBy (knownBy keyOfText? f) n
      ∧ NotesOf (knownBy keyOfText? f)
        ((enrichNode p n).run (memo, s)).2.1 := by
  rw [decorateBy]
  cases htable : tableOf? n with
  | none =>
      rw [enrichNode_of_none p htable]
      exact ⟨rfl, hmemo⟩
  | some table =>
      obtain ⟨hfound, hnotes⟩ :=
        run_askOnce_of_notesOf (h.run_metadata? keyOfText?) hmemo table s
      simp only [run_enrichNode_of_some p htable, metadataOf_eq_askOnce, hfound, Option.bind_some]
      exact ⟨trivial, hnotes⟩

end Enrichment

namespace LineageGraph

open Enrichment

/-- The graph with what is known about its tables and columns. -/
def decorateBy (know : String → Option TableMetadata) (g : LineageGraph) : LineageGraph :=
  { g with nodes := g.nodes.map (Enrichment.decorateBy know) }

theorem decorateBy_of_unknown {know : String → Option TableMetadata}
    (h : ∀ table, know table = none) (g : LineageGraph) : g.decorateBy know = g := by
  have hnodes : g.nodes.map (Enrichment.decorateBy know) = g.nodes :=
    (List.map_congr_left fun n _ => Enrichment.decorateBy_of_unknown h n).trans (List.map_id _)
  rw [decorateBy, hnodes]

theorem forall₂_enrich {R : GraphNode → GraphNode → Prop} (hrefl : ∀ n, R n n)
    (hdecorate : ∀ m n, R n (decorate m n)) (p : Provider σ) (g : LineageGraph) (s : σ) :
    List.Forall₂ R g.nodes ((g.enrich p).run s).1.nodes := by
  have hmapM : ∀ (nodes : List GraphNode) (s : Memo × σ),
      List.Forall₂ R nodes ((nodes.mapM (enrichNode p)).run s).1 := by
    intro nodes
    induction nodes with
    | nil => exact fun _ => .nil
    | cons n rest ih =>
        intro s
        have hnode : R n ((enrichNode p n).run s).1 := by
          rcases enrichNode_cases p n s with h | ⟨m, h⟩
          · rw [h]
            exact hrefl n
          · rw [h]
            exact hdecorate m n
        rw [List.mapM_cons]
        exact .cons hnode (ih _)
  exact hmapM g.nodes ([], s)

/-- With a provider that has certain metadata, a graph is decorated by that. -/
theorem run_enrich {p : Provider σ} {f : TableKey → Option TableMetadata} (h : p.Has f)
    (g : LineageGraph) (s : σ) :
    ((g.enrich p).run s).1 = g.decorateBy (knownBy keyOfText? f) := by
  -- The induction is on the nodes still to come, with whatever true notes there are by then.
  have hmapM : ∀ (nodes : List GraphNode) (memo : Memo) (s : σ),
      NotesOf (knownBy keyOfText? f) memo →
      ((nodes.mapM (enrichNode p)).run (memo, s)).1
        = nodes.map (Enrichment.decorateBy (knownBy keyOfText? f)) := by
    intro nodes
    induction nodes with
    | nil => exact fun _ _ _ => rfl
    | cons n rest ih =>
        intro memo s hmemo
        obtain ⟨hnode, hnotes⟩ := run_enrichNode_of_has h n hmemo s
        rw [List.mapM_cons, List.map_cons, ← hnode, ← ih _ _ hnotes]
        rfl
  have hnodes := hmapM g.nodes [] s fun _ hnoted => nomatch hnoted
  exact congrArg (LineageGraph.mk · g.edges) hnodes

end LineageGraph

/-! ## The parts of an analysis -/

namespace Analysis

/-- The graph as a provider decorates it, if there is one. -/
def decorated (provider : Option (Provider σ)) (g : LineageGraph) : StateM σ LineageGraph :=
  match provider with
  | some p => g.enrich p
  | none => pure g

theorem edges_decorated (provider : Option (Provider σ)) (g : LineageGraph) (s : σ) :
    ((decorated provider g).run s).1.edges = g.edges := by
  cases provider with
  | none => rfl
  | some p => rfl

/-- The nodes keep their order, and each is left alone or decorated. -/
theorem forall₂_decorated {R : GraphNode → GraphNode → Prop} (hrefl : ∀ n, R n n)
    (hdecorate : ∀ m n, R n (Enrichment.decorate m n)) (provider : Option (Provider σ))
    (g : LineageGraph) (s : σ) :
    List.Forall₂ R g.nodes ((decorated provider g).run s).1.nodes := by
  cases provider with
  | none => exact List.forall₂_same.mpr fun n _ => hrefl n
  | some p => exact LineageGraph.forall₂_enrich hrefl hdecorate p g s

/-- What the graph is assembled from, by the tree and the tree with its columns qualified. -/
def input (o : LineageOptions) (timestamp : String) (root tree : Tree) : AssemblyInput :=
  let relations := Relations.ofTree o.defaults root
  { relations, joins := root.joins relations, outputs := root.outputs, groupings := root.groupings
    columns := ColumnLineage.ofTree tree (root.joins relations), tree, timestamp
    governance := o.governance
    joinLabelWidth := o.joinLabelWidth
    dedupeEdges := o.dedupeEdges }

/-- All that was found out, from what the graph is assembled from and the decorated graph. -/
def ofInput (o : LineageOptions) (root : Tree) (unqualified : Option UnusableRelation)
    (i : AssemblyInput) (graph : LineageGraph) : Analysis where
  unqualified
  relations := i.relations
  joins := i.joins
  filters := root.filters
  groupings := i.groupings
  outputs := i.outputs
  columns := i.columns
  graph
  governance := ⟨o.governance.createdBy, i.timestamp, o.governance.lineageVersion⟩

/-- An analysis asks when it qualifies and when it decorates; the rest is a function of the tree. So
whatever is proved about runs is proved about these two passes and this function. -/
theorem run_ofTree (o : LineageOptions) (provider : Option (Provider σ)) (timestamp : String)
    (root : Tree) (s : σ) :
    (ofTree o provider timestamp root).run s
      = let found := (qualified o provider root).run s
        let i := input o timestamp root found.1.1
        let graph := (decorated provider (assembleGraph i)).run found.2
        (ofInput o root found.1.2 i graph.1, graph.2) := by
  cases provider with
  | none => rfl
  | some p => rfl

end Analysis

end QueryLineage
