import Mathlib.Data.List.Nodup
import QueryLineage.Graph.Builder

/-!
# What building a graph keeps

A graph is built by two kinds of calls, `addNode` and `addEdge`, in any order. `Consistent` couples
the nodes, their index, the edges and the edges already seen; one call keeps it (`consistent_step`),
and so any list of calls does (`consistent_run`). Nodes are only ever put at the end
(`nodes_prefix_run`), which is why no later call changes or moves one.
-/

namespace QueryLineage

/-- A call that a graph is built by. -/
inductive GraphCall where
  | addNode (n : GraphNode)
  | addEdge (source target : String) (kind : EdgeKind)

namespace GraphBuilder

def step (b : GraphBuilder) : GraphCall → GraphBuilder
  | .addNode n => b.addNode n
  | .addEdge source target kind => b.addEdge source target kind

/-- The graph after calls one after another. -/
def run (b : GraphBuilder) (calls : List GraphCall) : GraphBuilder := calls.foldl step b

def ids (b : GraphBuilder) : List String := b.nodes.map GraphNode.id

theorem run_append (b : GraphBuilder) (first second : List GraphCall) :
    b.run (first ++ second) = (b.run first).run second :=
  List.foldl_append ..

/-! ## Nodes -/

theorem addNode_of_hasNode {b : GraphBuilder} {n : GraphNode} (h : b.hasNode n.id = true) :
    b.addNode n = b := by
  rw [addNode, if_pos h]

theorem addNode_of_not_hasNode {b : GraphBuilder} {n : GraphNode} (h : ¬b.hasNode n.id = true) :
    b.addNode n
      = { b with index := b.index.put n.id b.nodes.length, nodes := b.nodes ++ [n] } := by
  rw [addNode, if_neg h]

/-- What adding an edge can do: nothing, or put the edge at the end. In the latter case both ends
are there, and with `dedupe` the edge was not seen before and is seen from now on. -/
theorem addEdge_cases (source target : String) (kind : EdgeKind) (b : GraphBuilder) :
    b.addEdge source target kind = b
      ∨ b.hasNode source = true ∧ b.hasNode target = true
        ∧ ∃ seen, b.addEdge source target kind
            = { b with seen := seen, edges := b.edges ++ [⟨source, target, kind⟩] }
          ∧ (b.dedupe = true →
              ⟨source, target, kind⟩ ∉ b.seen ∧ seen = ⟨source, target, kind⟩ :: b.seen) := by
  rw [addEdge]
  split
  · rename_i hends
    obtain ⟨hsource, htarget⟩ := (Bool.and_eq_true ..).mp hends
    rw [takeEdge]
    split
    · rename_i hdedupe
      split
      · exact .inl rfl
      · rename_i hnew
        exact .inr ⟨hsource, htarget, _, rfl, fun _ => ⟨hnew, rfl⟩⟩
    · rename_i hdedupe
      exact .inr ⟨hsource, htarget, b.seen, rfl, fun h => absurd h hdedupe⟩
  · exact .inl rfl

theorem dedupe_step (b : GraphBuilder) (c : GraphCall) : (b.step c).dedupe = b.dedupe := by
  cases c with
  | addNode n =>
      by_cases h : b.hasNode n.id = true
      · rw [step, addNode_of_hasNode h]
      · rw [step, addNode_of_not_hasNode h]
  | addEdge source target kind =>
      rcases addEdge_cases source target kind b with h | ⟨-, -, seen, h, -⟩ <;> rw [step, h]

theorem nodes_prefix_step (b : GraphBuilder) (c : GraphCall) : b.nodes <+: (b.step c).nodes := by
  cases c with
  | addNode n =>
      by_cases h : b.hasNode n.id = true
      · simpa only [step, addNode_of_hasNode h] using List.prefix_rfl
      · simpa only [step, addNode_of_not_hasNode h] using List.prefix_append ..
  | addEdge source target kind =>
      rcases addEdge_cases source target kind b with h | ⟨-, -, seen, h, -⟩
      · simpa only [step, h] using List.prefix_rfl
      · simpa only [step, h] using List.prefix_rfl

theorem nodes_prefix_run (b : GraphBuilder) (calls : List GraphCall) :
    b.nodes <+: (b.run calls).nodes := by
  induction calls generalizing b with
  | nil => exact List.prefix_rfl
  | cons c rest ih => exact (nodes_prefix_step b c).trans (ih (b.step c))

/-- A node that is there stays as it is and where it is, as nodes are put at the end only. -/
theorem getElem?_nodes_run {b : GraphBuilder} {place : Nat} {n : GraphNode}
    (h : b.nodes[place]? = some n) (calls : List GraphCall) :
    (b.run calls).nodes[place]? = some n := by
  obtain ⟨added, hadded⟩ := nodes_prefix_run b calls
  obtain ⟨hlt, -⟩ := List.getElem?_eq_some_iff.mp h
  rw [← hadded, List.getElem?_append_left hlt, h]

theorem dedupe_run (b : GraphBuilder) (calls : List GraphCall) :
    (b.run calls).dedupe = b.dedupe := by
  induction calls generalizing b with
  | nil => rfl
  | cons c rest ih => exact (ih (b.step c)).trans (dedupe_step b c)

/-! ## The invariant -/

/-- The parts of a graph under construction agree with each other. -/
structure Consistent (b : GraphBuilder) : Prop where
  ids_nodup : b.ids.Nodup
  /-- The index holds the place of each id, and of nothing else. -/
  find?_index : ∀ id place, b.index.find? id = some place ↔ b.ids[place]? = some id
  ends_mem : ∀ e ∈ b.edges, e.source ∈ b.ids ∧ e.target ∈ b.ids
  seen_iff : b.dedupe = true → ∀ e, e ∈ b.seen ↔ e ∈ b.edges
  edges_nodup : b.dedupe = true → b.edges.Nodup

theorem consistent_fresh (dedupe : Bool) : Consistent { dedupe } where
  ids_nodup := List.nodup_nil
  find?_index := by simp [Dict.find?_empty, ids]
  ends_mem := by simp
  seen_iff := by simp
  edges_nodup := fun _ => List.nodup_nil

namespace Consistent

variable {b : GraphBuilder}

theorem hasNode_iff (hb : b.Consistent) (id : String) : b.hasNode id = true ↔ id ∈ b.ids := by
  rw [hasNode, Dict.hasKey_iff_find?, List.mem_iff_getElem?]
  exact exists_congr (hb.find?_index id)

/-- The index leads from an id to the one node of it: to a place, by what the index keeps, and to
the node at that place. -/
theorem node?_eq_some_iff (hb : b.Consistent) {id : String} {n : GraphNode} :
    b.node? id = some n ↔ n ∈ b.nodes ∧ n.id = id := by
  have hplace : ∀ place, b.index.find? id = some place
      ↔ ∃ m, b.nodes[place]? = some m ∧ m.id = id := by
    intro place
    rw [hb.find?_index, ids, List.getElem?_map, Option.map_eq_some_iff]
  rw [node?, Option.bind_eq_some_iff, List.mem_iff_getElem?]
  constructor
  · rintro ⟨place, hfound, hn⟩
    obtain ⟨m, hm, hid⟩ := (hplace place).mp hfound
    obtain rfl := Option.some.inj (hn.symm.trans hm)
    exact ⟨⟨place, hn⟩, hid⟩
  · rintro ⟨⟨place, hn⟩, hid⟩
    exact ⟨place, (hplace place).mpr ⟨n, hn, hid⟩, hn⟩

/-- The place of a new id is the end of the list, and every other id keeps its own. -/
theorem find?_index_put (hb : b.Consistent) {new : String} (hnew : new ∉ b.ids) (id : String)
    (place : Nat) :
    (b.index.put new b.ids.length).find? id = some place ↔ (b.ids ++ [new])[place]? = some id := by
  rw [Dict.find?_put, List.getElem?_append]
  by_cases hid : id = new
  · subst hid
    rw [if_pos rfl, Option.some.injEq]
    split
    · rename_i hlt
      refine iff_of_false (Nat.ne_of_gt hlt) fun hmem => ?_
      exact hnew (List.mem_of_getElem? hmem)
    · rw [List.getElem?_singleton]
      split <;> simp <;> omega
  · rw [if_neg hid, hb.find?_index]
    split
    · rfl
    · rename_i hge
      rw [List.getElem?_eq_none (Nat.not_lt.mp hge), List.getElem?_singleton]
      split <;> simp [Ne.symm hid]

theorem addNode (hb : b.Consistent) (n : GraphNode) : (b.addNode n).Consistent := by
  by_cases h : b.hasNode n.id = true
  · rwa [addNode_of_hasNode h]
  · have hnew : n.id ∉ b.ids := fun hmem => h ((hb.hasNode_iff n.id).mpr hmem)
    have hlength : b.ids.length = b.nodes.length := List.length_map ..
    rw [addNode_of_not_hasNode h]
    have hids : ids { b with index := b.index.put n.id b.nodes.length, nodes := b.nodes ++ [n] }
        = b.ids ++ [n.id] := List.map_append ..
    constructor
    case ids_nodup =>
      rw [hids, ← List.concat_eq_append]
      exact List.Nodup.concat hnew hb.ids_nodup
    case find?_index =>
      intro id place
      rw [hids, ← hlength]
      exact hb.find?_index_put hnew id place
    case ends_mem =>
      intro e he
      rw [hids]
      exact (hb.ends_mem e he).imp (List.mem_append_left _) (List.mem_append_left _)
    case seen_iff => exact hb.seen_iff
    case edges_nodup => exact hb.edges_nodup

theorem addEdge (hb : b.Consistent) (source target : String) (kind : EdgeKind) :
    (b.addEdge source target kind).Consistent := by
  rcases addEdge_cases source target kind b with h | ⟨hsource, htarget, seen, h, hseen⟩
  · rwa [h]
  · rw [h]
    constructor
    case ids_nodup => exact hb.ids_nodup
    case find?_index => exact hb.find?_index
    case ends_mem =>
      intro e he
      rcases List.mem_append.mp he with he | he
      · exact hb.ends_mem e he
      · obtain rfl := List.mem_singleton.mp he
        exact ⟨(hb.hasNode_iff _).mp hsource, (hb.hasNode_iff _).mp htarget⟩
    case seen_iff =>
      intro hdedupe e
      obtain ⟨-, rfl⟩ := hseen hdedupe
      rw [List.mem_cons, List.mem_append, List.mem_singleton, hb.seen_iff hdedupe e, or_comm]
    case edges_nodup =>
      intro hdedupe
      have hnew := (hseen hdedupe).1
      rw [hb.seen_iff hdedupe] at hnew
      rw [← List.concat_eq_append]
      exact List.Nodup.concat hnew (hb.edges_nodup hdedupe)

end Consistent

/-- **One call keeps the graph consistent.** A node is taken only under a new id, and an edge only
between nodes that are there. -/
theorem consistent_step {b : GraphBuilder} (hb : b.Consistent) (c : GraphCall) :
    (b.step c).Consistent := by
  cases c with
  | addNode n => exact hb.addNode n
  | addEdge source target kind => exact hb.addEdge source target kind

/-- **Any calls keep the graph consistent**, in whatever order they come. By induction on the calls,
from any consistent graph. -/
theorem consistent_run {b : GraphBuilder} (hb : b.Consistent) (calls : List GraphCall) :
    (b.run calls).Consistent := by
  induction calls generalizing b with
  | nil => exact hb
  | cons c rest ih => exact ih (consistent_step hb c)

end GraphBuilder

end QueryLineage
