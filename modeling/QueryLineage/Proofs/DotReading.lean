import QueryLineage.Graph.Dot
import QueryLineage.Proofs.AssembledGraph

/-!
# Reading DOT text

A graph's DOT text says what it was written from: in each layer the id, the label and the shape of
each node, and each edge. Nothing an id or a label holds can change that, for a quoted text tells
where it ends whatever comes after it, and so do the lines made of such texts. `TellsEnd` is that
property; it passes from the quoted texts to the lines, from the lines to a list of them before a
text that begins no line, and from there to the clusters and to the whole.
-/

namespace QueryLineage

namespace Dot

/-! ## Quoted texts -/

/-- A backslash before this one character. -/
def backslash (c d : Char) : List Char := if d = c then ['\\', d] else [d]

/-- Backslashes are doubled before quotation marks get theirs. The other way round, those would be
doubled as well. -/
theorem flatMap_escapeChar (cs : List Char) :
    cs.flatMap escapeChar = (cs.flatMap (backslash '\\')).flatMap (backslash '\x22') := by
  rw [List.flatMap_assoc]
  congr 1
  funext c
  rw [escapeChar.eq_def]
  split
  · decide
  · decide
  · next hbackslash hquote =>
      rw [backslash, if_neg hbackslash, List.flatMap_singleton, backslash, if_neg hquote]

/-- Reads a quoted text up to its closing mark. What follows a backslash stands for itself. -/
def readToClose : List Char → Option (List Char × List Char)
  | '\x22' :: rest => some ([], rest)
  | '\\' :: c :: rest => (readToClose rest).map (Prod.map (c :: ·) id)
  | c :: rest => (readToClose rest).map (Prod.map (c :: ·) id)
  | [] => none

/-- Reads a quoted text and gives what comes after it. -/
def readQuoted : List Char → Option (List Char × List Char)
  | '\x22' :: rest => readToClose rest
  | _ => none

theorem readToClose_escapeChar (c : Char) (rest : List Char) :
    readToClose (escapeChar c ++ rest) = (readToClose rest).map (Prod.map (c :: ·) id) := by
  rw [escapeChar.eq_def]
  split
  · rfl
  · rfl
  · next hbackslash hquote =>
      rw [List.singleton_append, readToClose.eq_def]
      split
      · next heq => exact absurd (List.cons.inj heq).1 hquote
      · next heq => exact absurd (List.cons.inj heq).1 hbackslash
      · next heq =>
          obtain ⟨rfl, rfl⟩ := List.cons.inj heq
          rfl
      · next heq => exact nomatch heq

theorem readToClose_flatMap (cs rest : List Char) :
    readToClose (cs.flatMap escapeChar ++ '\x22' :: rest) = some (cs, rest) := by
  induction cs with
  | nil => rfl
  | cons c cs ih => rw [List.flatMap_cons, List.append_assoc, readToClose_escapeChar, ih]; rfl

/-- Reading a quoted text gives the text and leaves what stands after it, whatever either holds. The
reader takes one escaped character after the other, and no character of the text is written as a
bare quotation mark. -/
theorem readQuoted_quote (s rest : String) :
    readQuoted (quote s ++ rest).toList = some (s.toList, rest.toList) := by
  have htext : (quote s ++ rest).toList
      = '\x22' :: (s.toList.flatMap escapeChar ++ '\x22' :: rest.toList) := by
    simp [quote, String.toList_append]
  rw [htext]
  exact readToClose_flatMap s.toList rest.toList

/-! ## Texts that tell where they end -/

/-- Two of these texts, whatever comes after each, are equal only if they mean the same. -/
def TellsEnd {α β : Type} (text : α → String) (meaning : α → β) : Prop :=
  ∀ a b u v, text a ++ u = text b ++ v ↔ meaning a = meaning b ∧ u = v

theorem tellsEnd_quote : TellsEnd quote id := by
  intro s t u v
  refine ⟨fun h => ?_, ?_⟩
  · have hread := congrArg (fun text => readQuoted text.toList) h
    simp only [readQuoted_quote, Option.some.injEq, Prod.mk.injEq, String.toList_inj] at hread
    exact hread
  · rintro ⟨rfl, rfl⟩
    rfl

/-- A word tells its end by a character that is in no such word. By induction on the first word:
while both go on they have the same characters, and they end together, as neither has the
character. -/
theorem append_cons_eq_iff {c : Char} {a b : List Char} (ha : c ∉ a) (hb : c ∉ b)
    (u v : List Char) : a ++ c :: u = b ++ c :: v ↔ a = b ∧ u = v := by
  induction a generalizing b with
  | nil =>
      cases b with
      | nil => simp
      | cons d b => simpa using fun h : c = d => absurd (h ▸ List.mem_cons_self) hb
  | cons d a ih =>
      cases b with
      | nil => simpa using fun h : d = c => absurd (h ▸ List.mem_cons_self) ha
      | cons e b =>
          rw [List.mem_cons, not_or] at ha hb
          simp only [List.cons_append, List.cons.injEq, ih ha.2 hb.2, and_assoc]

/-! ## Lines -/

/-- What the text shows of a node. -/
def shown (n : GraphNode) : String × String × String := (n.id, n.label, shape n.type)

theorem bracket_notMem_shape (t : NodeType) : ']' ∉ (shape t).toList := by
  cases t <;> decide

theorem quote_notMem_kindName (k : EdgeKind) : '\x22' ∉ k.name.toList := by
  cases k <;> decide

theorem kindName_inj {j k : EdgeKind} : j.name = k.name ↔ j = k := by
  cases j <;> cases k <;> decide

theorem tellsEnd_shape : TellsEnd (fun t => shape t ++ "];\n") shape := by
  intro t t' u v
  have h := append_cons_eq_iff (bracket_notMem_shape t) (bracket_notMem_shape t')
    (";\n".toList ++ u.toList) (";\n".toList ++ v.toList)
  rw [List.append_right_inj, String.toList_inj, String.toList_inj] at h
  rw [← h, ← String.toList_inj]
  simp [String.toList_append]

theorem tellsEnd_kindName : TellsEnd (fun k : EdgeKind => k.name ++ "\"];\n") id := by
  intro j k u v
  have h := append_cons_eq_iff (quote_notMem_kindName j) (quote_notMem_kindName k)
    ("];\n".toList ++ u.toList) ("];\n".toList ++ v.toList)
  rw [List.append_right_inj, String.toList_inj, String.toList_inj, kindName_inj] at h
  rw [id, id, ← h, ← String.toList_inj]
  simp [String.toList_append]

theorem tellsEnd_nodeLine : TellsEnd nodeLine shown := by
  intro n m u v
  have hid := tellsEnd_quote n.id m.id
  have hlabel := tellsEnd_quote n.label m.label
  have hshape := tellsEnd_shape n.type m.type u v
  simp only [String.append_assoc] at hshape
  simp only [nodeLine, String.append_assoc, String.append_right_inj, hid, hlabel, hshape, id, shown,
    Prod.mk.injEq, and_assoc]

theorem tellsEnd_edgeLine : TellsEnd edgeLine id := by
  intro e d u v
  have hsource := tellsEnd_quote e.source d.source
  have htarget := tellsEnd_quote e.target d.target
  have hkind := tellsEnd_kindName e.kind d.kind u v
  simp only [String.append_assoc] at hkind
  simp only [edgeLine, String.append_assoc, String.append_right_inj, hsource, htarget, hkind, id]
  cases e
  cases d
  simp only [GraphEdge.mk.injEq, and_assoc]

/-! ## Lists of lines -/

/-- The lines before a text that begins none of them tell where they end. By induction on the first
list: a line against a line is told by `h`, and a line against the stop is impossible. -/
theorem TellsEnd.join {α β : Type} {text : α → String} {meaning : α → β} {stop : String}
    (h : TellsEnd text meaning) (hstop : ∀ a u v, text a ++ u ≠ stop ++ v) :
    TellsEnd (fun as : List α => String.join (as.map text) ++ stop) (List.map meaning) := by
  intro as bs u v
  induction as generalizing bs with
  | nil =>
      cases bs with
      | nil => simp
      | cons b bs =>
          simpa [String.join_cons, String.append_assoc] using
            fun heq => (hstop b _ _ heq.symm).elim
  | cons a as ih =>
      cases bs with
      | nil =>
          simpa [String.join_cons, String.append_assoc] using fun heq => (hstop a _ _ heq).elim
      | cons b bs =>
          have hrest := ih bs
          simp only [String.append_assoc] at hrest
          simp only [List.map_cons, String.join_cons, String.append_assoc, h a b, hrest,
            List.cons.injEq, and_assoc]

theorem nodeLine_append_ne (n : GraphNode) (u v : String) : nodeLine n ++ u ≠ "  \x7d\n" ++ v :=
  fun h => by
    have hthird := congrArg (fun text : String => text.toList[2]?) h
    simp [nodeLine, String.toList_append] at hthird

theorem edgeLine_append_ne (e : GraphEdge) (u v : String) : edgeLine e ++ u ≠ "\x7d\n" ++ v :=
  fun h => by
    have hfirst := congrArg (fun text : String => text.toList[0]?) h
    simp [edgeLine, String.toList_append] at hfirst

/-! ## The whole text -/

theorem tellsEnd_cluster (l : Layer) :
    TellsEnd (fun g => cluster g l) fun g : LineageGraph => (g.layer l).map shown := by
  intro g h u v
  have hlines := tellsEnd_nodeLine.join nodeLine_append_ne (g.layer l) (h.layer l) u v
  simp only [String.append_assoc] at hlines
  beta_reduce
  unfold cluster
  simp only [String.append_assoc]
  rw [String.append_right_inj, String.append_right_inj, String.append_right_inj,
    String.append_right_inj, String.append_right_inj, hlines]

end Dot

namespace LineageGraph

open Dot

/-- Two graphs have the same text iff each layer shows the same nodes in the same order and the
edges are the same. The text is a head, one cluster for each layer and the lines of the edges; each
part tells its end, so equal texts are equal part by part. -/
theorem toDot_eq_iff (g h : LineageGraph) :
    g.toDot = h.toDot ↔
      (∀ l, (g.layer l).map shown = (h.layer l).map shown) ∧ g.edges = h.edges := by
  have hcluster : ∀ l u v, cluster g l ++ u = cluster h l ++ v ↔
      (g.layer l).map shown = (h.layer l).map shown ∧ u = v := fun l => tellsEnd_cluster l g h
  have hedges := tellsEnd_edgeLine.join edgeLine_append_ne g.edges h.edges "" ""
  simp only [String.append_empty, List.map_id, and_true] at hedges
  unfold toDot
  simp only [Layer.all, List.map_cons, List.map_nil, String.join_cons, String.join_nil,
    String.append_empty, String.append_assoc]
  rw [String.append_right_inj, hcluster, hcluster, hcluster, String.append_right_inj, hedges]
  constructor
  · rintro ⟨hphysical, hlogical, hsemantic, hedges⟩
    refine ⟨fun l => ?_, hedges⟩
    cases l with
    | physical => exact hphysical
    | logical => exact hlogical
    | semantic => exact hsemantic
  · rintro ⟨hlayers, hedges⟩
    exact ⟨hlayers .physical, hlayers .logical, hlayers .semantic, hedges⟩

theorem flatMap_layer_perm (g : LineageGraph) : (Layer.all.flatMap g.layer).Perm g.nodes := by
  have hall : Layer.all.flatMap g.layer
      = g.layer .physical ++ g.layer .logical ++ g.layer .semantic := by
    simp [Layer.all]
  rw [hall]
  exact g.layer_perm

/-- **What DOT text holds.** Graphs have the same text iff they show the same ids, labels and shapes
in each layer, in the same order, and have the same edges. Each node stands in one layer and no
more, and a quoted text is read back whole wherever it stands, with the reader left at its end. The
last part is what the first rests on: no id or label, whatever it holds, can end its quotation
early. -/
theorem toDot_determines :
    (∀ g h : LineageGraph, g.toDot = h.toDot ↔
      (∀ l, (g.layer l).map (fun n => (n.id, n.label, shape n.type))
        = (h.layer l).map (fun n => (n.id, n.label, shape n.type))) ∧ g.edges = h.edges)
    ∧ (∀ g : LineageGraph, (Layer.all.flatMap g.layer).Perm g.nodes)
    ∧ (∀ s rest, readQuoted (quote s ++ rest).toList = some (s.toList, rest.toList)) :=
  ⟨toDot_eq_iff, flatMap_layer_perm, readQuoted_quote⟩

end LineageGraph

end QueryLineage
