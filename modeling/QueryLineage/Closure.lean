/-!
# Transitive closure

A finite relation is a list of pairs. Its closure is built one intermediate node at a time: after a
node has been passed, every path whose inner nodes have been passed is a pair.
-/

namespace QueryLineage.Closure

variable {α : Type} [DecidableEq α]

/-- The relation with a pair for every two pairs that meet in `m`. -/
def passThrough (r : List (α × α)) (m : α) : List (α × α) :=
  r ++ (r.flatMap fun p =>
    if p.2 = m then (r.filter (·.1 = m)).map fun q => (p.1, q.2) else []).filter (· ∉ r)

/-- The pairs joined by a path whose inner nodes are among `nodes`. -/
def through (r : List (α × α)) (nodes : List α) : List (α × α) := nodes.foldl passThrough r

theorem mem_passThrough {r : List (α × α)} {m a b : α} :
    (a, b) ∈ passThrough r m ↔ (a, b) ∈ r ∨ (a, m) ∈ r ∧ (m, b) ∈ r := by
  constructor
  · intro h
    rcases List.mem_append.1 h with h | h
    · exact .inl h
    · obtain ⟨p, hp, h⟩ := List.mem_flatMap.1 (List.mem_filter.1 h).1
      split at h
      · rename_i hm
        obtain ⟨q, hq, he⟩ := List.mem_map.1 h
        obtain ⟨hq, hqm⟩ := List.mem_filter.1 hq
        cases p; cases q
        simp_all
      · simp at h
  · rintro (h | ⟨hl, hr⟩)
    · exact List.mem_append_left _ h
    · by_cases hin : (a, b) ∈ r
      · exact List.mem_append_left _ hin
      · refine List.mem_append_right _ (List.mem_filter.2 ⟨?_, by simpa using hin⟩)
        refine List.mem_flatMap.2 ⟨(a, m), hl, ?_⟩
        simpa using hr

end QueryLineage.Closure
