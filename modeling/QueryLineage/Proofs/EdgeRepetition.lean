import QueryLineage.Proofs.FirstOccurrences
import QueryLineage.Proofs.StageCalls

/-!
# Repeated edges

Whether repeated edges are left out is settled before the assembly starts, and no stage asks about
it. So the assembly runs alike either way, and of its two results the one without repetitions is the
other with all but the first of equal edges erased (`assembleGraph_of_dedupe`). `once` is what a
graph would be had repetitions been left out of it from the start; each call keeps a graph and its
`once` in step (`once_step`).
-/

namespace QueryLineage

namespace GraphBuilder

/-- The graph as it would be had repeated edges been left out. -/
def once (b : GraphBuilder) : GraphBuilder :=
  { b with dedupe := true, edges := b.edges.eraseDups, seen := b.edges.eraseDups.reverse }

/-- An edge that is there already is taken again only where repetitions stay. What has been seen are
the edges that are there, so the two agree on which edge is new. -/
theorem once_takeEdge {b : GraphBuilder} (hb : b.dedupe = false) (e : GraphEdge) :
    b.once.takeEdge e = (b.takeEdge e).once := by
  have htaken : b.takeEdge e = { b with edges := b.edges ++ [e] } := by simp [takeEdge, hb]
  have hseen : e ∈ b.once.seen ↔ e ∈ b.edges := List.mem_reverse.trans List.mem_eraseDups
  have honce : b.once.dedupe = true := rfl
  rw [htaken, takeEdge, if_pos honce]
  by_cases h : e ∈ b.edges
  · rw [if_pos (hseen.mpr h)]
    simp [once, eraseDups_concat, h]
  · rw [if_neg fun hmem => h (hseen.mp hmem)]
    simp [once, eraseDups_concat, h]

theorem once_step {b : GraphBuilder} (hb : b.dedupe = false) (call : GraphCall) :
    b.once.step call = (b.step call).once := by
  have hnode : ∀ id, b.once.hasNode id = b.hasNode id := fun _ => rfl
  cases call with
  | addNode n =>
      simp only [step, addNode, hnode]
      split <;> rfl
  | addEdge source target kind =>
      simp only [step, addEdge, hnode]
      split
      · exact once_takeEdge hb ⟨source, target, kind⟩
      · rfl

theorem sameNodes_once (b : GraphBuilder) : SameNodes b b.once := ⟨rfl, rfl⟩

/-- The same calls lead from a graph and its `once` to a graph and its `once`. By induction on the
calls; no call turns `dedupe` on. -/
theorem GrowsAlike.eq_once {C : GraphBuilder → GraphCall → Prop} {b c b' c' : GraphBuilder}
    (h : GrowsAlike C b c b' c') (hb : b.dedupe = false) (hc : c = b.once) :
    c' = b'.once ∧ b'.dedupe = false := by
  induction h with
  | refl _ => exact ⟨hc, hb⟩
  | call call _ _ ih =>
      obtain ⟨rfl, hb'⟩ := ih
      exact ⟨once_step hb' call, (dedupe_step _ call).trans hb'⟩

end GraphBuilder

namespace Assembly

open GraphBuilder

/-- The two assemblies stay in step: they make the same calls, since what an assembly asks of the
graph it builds is about nodes only. The tables come first, from the empty graph; all else follows
from where these have led. -/
theorem build_of_dedupe (i : AssemblyInput) :
    build { i with dedupeEdges := true } = (build { i with dedupeEdges := false }).once := by
  obtain ⟨htables, hdedupe⟩ := (growsAlike_addTables i.relations.sources
    (sameNodes_once { dedupe := false })).eq_once rfl rfl
  obtain ⟨hrest, -⟩ := (growsAlike_addRest i (sameNodes_once _)).eq_once hdedupe rfl
  change addRest i (addTables i.relations.sources (once { dedupe := false })) = _
  rw [htables, hrest]
  rfl

end Assembly

/-- **Leaving out repeated edges leaves out nothing else.** The nodes are the same, and of equal
edges the first one stays, in its order among the others. The two graphs are one graph and its
`once` from the first call to the last (`build_of_dedupe`). -/
theorem assembleGraph_of_dedupe (i : AssemblyInput) :
    let all := assembleGraph { i with dedupeEdges := false }
    assembleGraph { i with dedupeEdges := true }
      = { nodes := all.nodes, edges := all.edges.eraseDups } :=
  congrArg GraphBuilder.graph (Assembly.build_of_dedupe i)

end QueryLineage
