import QueryLineage.Proofs.ReservedIds

/-!
# Edges that calls bring

Three things about the edges of a graph under construction. Calls for edges of other kinds leave
those of a kind as they are (`GrowsAlike.edgesOfKind_eq`). An edge that is there stays
(`GrowsTo.mem_edges`). And an edge comes if both its ends are there: `Takes` keeps account of it in
order and with repetitions, where these are not left out, and `Brings` says of a part of the
assembly that brings no nodes which edges it brings.
-/

namespace QueryLineage

namespace GraphBuilder

variable {kind other : EdgeKind} {b c b' c' : GraphBuilder}

/-! ## Edges of one kind -/

/-- A call that is not for an edge of this kind. -/
def IsOtherThan (kind : EdgeKind) (_ : GraphBuilder) (call : GraphCall) : Prop :=
  ∀ source target, call ≠ .addEdge source target kind

theorem isOtherThan_addNode (n : GraphNode) : IsOtherThan kind b (.addNode n) := nofun

theorem isOtherThan_addEdge (h : other ≠ kind) (source target : String) :
    IsOtherThan kind b (.addEdge source target other) :=
  fun _ _ heq => h (GraphCall.addEdge.inj heq).2.2

theorem edges_addNode (n : GraphNode) (b : GraphBuilder) : (b.addNode n).edges = b.edges := by
  rw [addNode]
  split <;> rfl

theorem edgesOfKind_step {call : GraphCall} (h : IsOtherThan kind b call) :
    (b.step call).graph.edgesOfKind kind = b.graph.edgesOfKind kind := by
  cases call with
  | addNode n => exact congrArg (List.filter _) (edges_addNode n b)
  | addEdge source target other =>
      have hother : other ≠ kind := fun heq => h source target (by rw [heq])
      rcases addEdge_cases source target other b with hsame | ⟨-, -, seen, htaken, -⟩
      · rw [step, hsame]
      · rw [step, htaken]
        simp [LineageGraph.edgesOfKind, graph, hother]

theorem GrowsAlike.edgesOfKind_eq (h : GrowsAlike (IsOtherThan kind) b c b' c') :
    b'.graph.edgesOfKind kind = b.graph.edgesOfKind kind := by
  induction h with
  | refl _ => rfl
  | call call _ hcall ih => exact (edgesOfKind_step hcall).trans ih

theorem GrowsAlike.mem_edges_iff {e : GraphEdge}
    (h : GrowsAlike (IsOtherThan e.kind) b c b' c') : e ∈ b'.edges ↔ e ∈ b.edges := by
  have hmem : ∀ d : GraphBuilder, e ∈ d.graph.edgesOfKind e.kind ↔ e ∈ d.edges := fun d => by
    simp [LineageGraph.edgesOfKind, graph]
  rw [← hmem b', ← hmem b, h.edgesOfKind_eq]

theorem edgesOfKind_forEach_of_ne {α : Type} (h : other ≠ kind) (items : List α)
    (source target : α → String) (b : GraphBuilder) :
    (b.forEach items fun a => addEdge (source a) (target a) other).graph.edgesOfKind kind
      = b.graph.edgesOfKind kind :=
  ((GrowsAlike.refl (SameNodes.refl b)).forEach_addEdge items fun _ _ _ =>
    isOtherThan_addEdge h _ _).edgesOfKind_eq

/-! ## Edges that are there -/

theorem mem_edges_run {e : GraphEdge} (he : e ∈ b.edges) (calls : List GraphCall) :
    e ∈ (b.run calls).edges := by
  induction calls generalizing b with
  | nil => exact he
  | cons call rest ih =>
      refine ih (b := b.step call) ?_
      cases call with
      | addNode n => rwa [step, edges_addNode]
      | addEdge source target kind =>
          rcases addEdge_cases source target kind b with h | ⟨-, -, seen, h, -⟩
          · rwa [step, h]
          · rw [step, h]
            exact List.mem_append_left _ he

theorem GrowsTo.mem_edges (h : b.GrowsTo c) {e : GraphEdge} (he : e ∈ b.edges) : e ∈ c.edges := by
  obtain ⟨calls, rfl⟩ := h
  exact mem_edges_run he calls

theorem GrowsTo.forEach {α : Type} {items : List α} {f : α → GraphBuilder → GraphBuilder}
    (hf : ∀ a ∈ items, ∀ d : GraphBuilder, d.GrowsTo (f a d)) (b : GraphBuilder) :
    b.GrowsTo (b.forEach items f) := by
  induction items generalizing b with
  | nil => exact .refl b
  | cons a rest ih =>
      exact (hf a List.mem_cons_self b).trans (ih (fun a ha => hf a (List.mem_cons_of_mem _ ha)) _)

/-- An edge that one round of a loop brings, whatever the graph has come to by then, is there in the
end: the loop goes on to grow the graph. -/
theorem mem_edges_forEach {α : Type} {items : List α} {f : α → GraphBuilder → GraphBuilder}
    (hf : ∀ a ∈ items, ∀ d : GraphBuilder, d.GrowsTo (f a d)) {a : α} (ha : a ∈ items)
    {e : GraphEdge} (he : ∀ d, b.GrowsTo d → e ∈ (f a d).edges) :
    e ∈ (b.forEach items f).edges := by
  obtain ⟨before, after, rfl⟩ := List.append_of_mem ha
  have hbefore : b.GrowsTo (b.forEach before f) :=
    .forEach (fun a ha => hf a (List.mem_append_left _ ha)) b
  have hafter : (f a (b.forEach before f)).GrowsTo
      ((f a (b.forEach before f)).forEach after f) :=
    .forEach (fun a ha => hf a (List.mem_append_right _ (List.mem_cons_of_mem _ ha))) _
  have hloop : b.forEach (before ++ a :: after) f
      = (f a (b.forEach before f)).forEach after f := by
    simp only [GraphBuilder.forEach, List.foldl_append, List.foldl_cons]
  rw [hloop]
  exact hafter.mem_edges (he _ hbefore)

/-! ## Edges that come -/

theorem addEdge_of_mem_ids (hb : b.Consistent) {source target : String} (hsource : source ∈ b.ids)
    (htarget : target ∈ b.ids) (kind : EdgeKind) :
    b.addEdge source target kind = b.takeEdge ⟨source, target, kind⟩ := by
  have hends : (b.hasNode source && b.hasNode target) = true :=
    (Bool.and_eq_true ..).mpr ⟨(hb.hasNode_iff source).mpr hsource,
      (hb.hasNode_iff target).mpr htarget⟩
  rw [addEdge, if_pos hends]

/-- An edge that is taken is there, by now or from before. -/
theorem mem_edges_takeEdge_iff (hb : b.Consistent) {e taken : GraphEdge} :
    e ∈ (b.takeEdge taken).edges ↔ e ∈ b.edges ∨ e = taken := by
  rw [takeEdge]
  split
  · rename_i hdedupe
    split
    · rename_i hrepeated
      have hthere := (hb.seen_iff hdedupe taken).mp hrepeated
      exact (or_iff_left_of_imp fun h => h ▸ hthere).symm
    · exact List.mem_append.trans (or_congr_right List.mem_singleton)
  · exact List.mem_append.trans (or_congr_right List.mem_singleton)

theorem mem_edges_addEdge_iff (hb : b.Consistent) {source target : String}
    (hsource : source ∈ b.ids) (htarget : target ∈ b.ids) {e : GraphEdge} :
    e ∈ (b.addEdge source target kind).edges ↔ e ∈ b.edges ∨ e = ⟨source, target, kind⟩ := by
  rw [addEdge_of_mem_ids hb hsource htarget, mem_edges_takeEdge_iff hb]

theorem GrowsBy.ids_eq (h : GrowsBy (fun _ => False) b c) : c.ids = b.ids := by
  obtain ⟨added, hadded, hnone⟩ := h.exists_added
  obtain rfl : added = [] := List.eq_nil_iff_forall_not_mem.mpr hnone
  rw [ids, hadded, List.append_nil, ids]

theorem ids_addEdge (source target : String) (kind : EdgeKind) (b : GraphBuilder) :
    (b.addEdge source target kind).ids = b.ids :=
  ((GrowsBy.refl b).addEdge source target kind).ids_eq

/-- Every edge between these ids is taken, a repeated one too. -/
structure Takes (b : GraphBuilder) (ids : List String) : Prop where
  consistent : b.Consistent
  dedupe_eq : b.dedupe = false
  subset : ids ⊆ b.ids

namespace Takes

variable {ids : List String}

theorem of_growsTo (h : b.Takes ids) (hbc : b.GrowsTo c) : c.Takes ids where
  consistent := hbc.consistent h.consistent
  dedupe_eq := by
    obtain ⟨calls, rfl⟩ := hbc
    rw [dedupe_run, h.dedupe_eq]
  subset := fun _ hid => hbc.mem_ids (h.subset hid)

theorem edgesOfKind_addEdge (h : b.Takes ids) {source target : String} (hsource : source ∈ ids)
    (htarget : target ∈ ids) :
    (b.addEdge source target kind).graph.edgesOfKind kind
      = b.graph.edgesOfKind kind ++ [⟨source, target, kind⟩] := by
  have hdedupe : ¬b.dedupe = true := by simp [h.dedupe_eq]
  rw [addEdge_of_mem_ids h.consistent (h.subset hsource) (h.subset htarget), takeEdge,
    if_neg hdedupe]
  simp [LineageGraph.edgesOfKind, graph]

/-- A loop brings the edges of its rounds, in order. By induction on the items, from any graph that
takes edges between `ids`, as growing keeps that. -/
theorem edgesOfKind_forEach {α : Type} (h : b.Takes ids) {items : List α}
    {f : α → GraphBuilder → GraphBuilder} {edge : α → GraphEdge}
    (hgrows : ∀ a ∈ items, ∀ d : GraphBuilder, d.GrowsTo (f a d))
    (hround : ∀ a ∈ items, ∀ d : GraphBuilder, d.Takes ids →
      (f a d).graph.edgesOfKind kind = d.graph.edgesOfKind kind ++ [edge a]) :
    (b.forEach items f).graph.edgesOfKind kind
      = b.graph.edgesOfKind kind ++ items.map edge := by
  induction items generalizing b with
  | nil => exact (List.append_nil _).symm
  | cons a rest ih =>
      have hfirst := hround a List.mem_cons_self b h
      have hrest := ih (h.of_growsTo (hgrows a List.mem_cons_self b))
        (fun a ha => hgrows a (List.mem_cons_of_mem _ ha))
        fun a ha => hround a (List.mem_cons_of_mem _ ha)
      calc ((f a b).forEach rest f).graph.edgesOfKind kind
          = (f a b).graph.edgesOfKind kind ++ rest.map edge := hrest
        _ = b.graph.edgesOfKind kind ++ (a :: rest).map edge := by
            rw [hfirst, List.append_assoc, List.map_cons, List.singleton_append]

end Takes

/-- From `b` to `c` there come the edges with `E`, and no nodes. -/
structure Brings (E : GraphEdge → Prop) (b c : GraphBuilder) : Prop where
  consistent : c.Consistent
  ids_eq : c.ids = b.ids
  mem_edges_iff : ∀ e, e ∈ c.edges ↔ e ∈ b.edges ∨ E e

namespace Brings

variable {d : GraphBuilder} {E F : GraphEdge → Prop}

theorem congr (h : Brings E b c) (hEF : ∀ e, E e ↔ F e) : Brings F b c :=
  ⟨h.consistent, h.ids_eq, fun e => (h.mem_edges_iff e).trans (or_congr_right (hEF e))⟩

theorem trans (h : Brings E b c) (h' : Brings F c d) : Brings (fun e => E e ∨ F e) b d where
  consistent := h'.consistent
  ids_eq := h'.ids_eq.trans h.ids_eq
  mem_edges_iff e := by rw [h'.mem_edges_iff, h.mem_edges_iff, or_assoc]

theorem addEdge (hb : b.Consistent) {source target : String} (hsource : source ∈ b.ids)
    (htarget : target ∈ b.ids) (kind : EdgeKind) :
    Brings (· = ⟨source, target, kind⟩) b (b.addEdge source target kind) where
  consistent := hb.addEdge source target kind
  ids_eq := ids_addEdge source target kind b
  mem_edges_iff _ := mem_edges_addEdge_iff hb hsource htarget

/-- A loop brings what its rounds bring. The rounds need only be looked at where the ids are those
of the start, since nothing in the loop adds a node. -/
theorem forEach {α : Type} {E : α → GraphEdge → Prop} (hb : b.Consistent) {items : List α}
    {f : α → GraphBuilder → GraphBuilder}
    (hf : ∀ a ∈ items, ∀ d : GraphBuilder, d.Consistent → d.ids = b.ids →
      Brings (E a) d (f a d)) :
    Brings (fun e => ∃ a ∈ items, E a e) b (b.forEach items f) := by
  induction items generalizing b with
  | nil => exact ⟨hb, rfl, by simp [GraphBuilder.forEach]⟩
  | cons a rest ih =>
      have hfirst := hf a List.mem_cons_self b hb rfl
      have hrest := ih hfirst.consistent fun a ha d hd hids =>
        hf a (List.mem_cons_of_mem _ ha) d hd (hids.trans hfirst.ids_eq)
      exact (hfirst.trans hrest).congr fun e => by simp

theorem forEach_addEdge {α : Type} (hb : b.Consistent) {items : List α} {source target : α → String}
    (kind : EdgeKind) (hends : ∀ a ∈ items, source a ∈ b.ids ∧ target a ∈ b.ids) :
    Brings (fun e => ∃ a ∈ items, e = ⟨source a, target a, kind⟩) b
      (b.forEach items fun a => GraphBuilder.addEdge (source a) (target a) kind) :=
  forEach hb fun a ha _ hd hids =>
    addEdge hd (hids ▸ (hends a ha).1) (hids ▸ (hends a ha).2) kind

end Brings

end GraphBuilder

end QueryLineage
