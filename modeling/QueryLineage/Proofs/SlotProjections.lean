import QueryLineage.Assembly
import QueryLineage.Proofs.AsciiLetters
import QueryLineage.Proofs.QualificationRuns

/-!
# The projection of a slot

What fills a slot is read off the tree of a statement, and what an aggregation measures off that
tree with its columns qualified, by another search with another rule for the case of letters. The
two come to one projection: the slots have names of plain letters, so that both rules take the same
aliases for them (`Slot.lower_eq_iff`), and qualifying leaves the select list in its order. A
projection that selects nothing would be found without filling its slot, but no statement has one.
-/

namespace QueryLineage

theorem Slot.lower_eq_iff {aliasName : String} (s : Slot) :
    Text.lower aliasName = s.name ↔ Text.eqIgnoringCase aliasName s.name = true := by
  have hall : (s.name.toList.all fun l => l.toNat ∈ Text.plainLetters) = true := by
    cases s <;> decide
  have hplain : ∀ l ∈ s.name.toList, l.toNat ∈ Text.plainLetters := by
    simpa only [List.all_eq_true, decide_eq_true_eq] using hall
  have hsmall : Text.lowerAscii s.name = s.name := by cases s <;> decide
  rw [Text.lower_eq_iff hplain, Text.eqIgnoringCase, hsmall, beq_iff_eq]

/-! ## One select -/

namespace Tree

/-- Whether the alias of a projection is the name of a slot, ignoring the case of ASCII letters. -/
def standsFor (s : Slot) (c : Tree) : Bool :=
  c.projectionAlias?.any (Text.eqIgnoringCase · s.name)

/-- The place among the children of a select of the one that fills a slot. -/
def filledPlace? (s : Slot) (select : Tree) : Option Nat :=
  select.children.findIdx? fun c => (c.fills? s).isSome

/-- The place among the children of a select of the projection that is found for a slot. -/
def foundPlace? (s : Slot) (select : Tree) : Option Nat :=
  select.children.findIdx? (standsFor s)

theorem fills?_eq_some_iff {s : Slot} {c : Tree} {e : String} :
    c.fills? s = some e ↔ c.standsFor s = true ∧ c.children.head?.map sql = some e := by
  simp only [fills?, standsFor, bind, Option.bind_eq_some_iff, Option.any_eq_true,
    Option.map_eq_some_iff, ← s.lower_eq_iff]
  constructor
  · rintro ⟨aliasName, halias, expr, hexpr, h⟩
    split at h
    · rename_i hname
      exact ⟨⟨aliasName, halias, hname⟩, expr, hexpr, Option.some.inj h⟩
    · cases h
  · rintro ⟨⟨aliasName, halias, hname⟩, expr, hexpr, rfl⟩
    exact ⟨aliasName, halias, expr, hexpr, if_pos hname⟩

theorem kind_of_projectionAlias? {c : Tree} {aliasName : String}
    (h : c.projectionAlias? = some aliasName) : c.kind = .projection := by
  unfold projectionAlias? at h
  split at h
  · rename_i hlabel
    rw [kind, hlabel, Label.kind]
  · cases h

theorem isSome_fills?_eq {s : Slot} {c : Tree} (hc : c.kind = .projection → c.children ≠ []) :
    (c.fills? s).isSome = c.standsFor s := by
  rw [Bool.eq_iff_iff, Option.isSome_iff_exists]
  simp only [fills?_eq_some_iff, exists_and_left, and_iff_left_iff_imp]
  intro hstands
  obtain ⟨aliasName, halias, -⟩ := (Option.any_eq_true ..).mp hstands
  obtain ⟨expr, rest, hchildren⟩ :=
    List.exists_cons_of_ne_nil (hc (kind_of_projectionAlias? halias))
  exact ⟨expr.sql, by rw [hchildren, List.head?_cons, Option.map_some]⟩

end Tree

theorem findSome?_eq_bind_find? {α β : Type} (f : α → Option β) (l : List α) :
    l.findSome? f = (l.find? fun a => (f a).isSome).bind f := by
  induction l with
  | nil => rfl
  | cons a rest ih =>
      rw [List.findSome?_cons, List.find?_cons]
      cases hf : f a with
      | none => simpa using ih
      | some b => simp [hf]

namespace Tree

/-- Looking for what fills a slot, one passes over what is no projection anyway, since nothing else
has an alias. -/
theorem findSome?_projections (s : Slot) (select : Tree) :
    select.projections.findSome? (fills? s)
      = ((select.filledPlace? s).bind (select.children[·]?)).bind (fills? s) := by
  have hothers : ∀ c : Tree, (if c.kind = .projection then c.fills? s else none) = c.fills? s := by
    intro c
    split
    · rfl
    · rename_i hkind
      refine (Option.eq_none_iff_forall_ne_some.mpr fun e he => hkind ?_).symm
      obtain ⟨aliasName, halias, -⟩ := (Option.any_eq_true ..).mp (fills?_eq_some_iff.mp he).1
      exact kind_of_projectionAlias? halias
  rw [filledPlace?, ← List.find?_eq_bind_findIdx?_getElem?, ← findSome?_eq_bind_find?,
    projections, ← List.head?_filterMap, ← List.head?_filterMap, List.filterMap_filter]
  simp only [decide_eq_true_eq, hothers]

theorem slot_outputs_eq (t : Tree) (s : Slot) :
    t.outputs.slot s = t.mainSelect?.bind fun select =>
      ((select.filledPlace? s).bind (select.children[·]?)).bind (fills? s) := by
  have hslot : t.outputs.slot s
      = t.mainSelect?.bind fun select => select.projections.findSome? (fills? s) := by
    rw [outputs]
    cases t.mainSelect? <;> cases s <;> rfl
  simp only [hslot, findSome?_projections]

/-- Every projection selects something. -/
def ProjectsSomething (t : Tree) : Prop := ∀ p ∈ t.findAll .projection, p.children ≠ []

instance (t : Tree) : Decidable t.ProjectsSomething := List.decidableBAll _ _

theorem ProjectsSomething.mainSelect? {t select : Tree} (h : t.ProjectsSomething)
    (hselect : t.mainSelect? = some select) :
    ∀ c ∈ select.children, c.kind = .projection → c.children ≠ [] := by
  intro c hc hkind
  have hinSelect : c ∈ select.preorder :=
    mem_preorder_iff.mpr (.inr ⟨c, hc, mem_preorder_iff.mpr (.inl rfl)⟩)
  have hinTree := mem_preorder_trans (mem_preorder_of_mainSelect? hselect) hinSelect
  exact h c (List.mem_filter.mpr ⟨hinTree, by simpa using hkind⟩)

/-- Of two lists that differ in qualifiers, one has the projection that is found for a slot where
the other has what fills it. A projection keeps its alias, by which it is found; and as it projects
something, it fills the slot that it is found for. -/
theorem findIdx?_standsFor_eq {s : Slot} {ts ts' : List Tree}
    (h : List.Forall₂ QualifiesTo ts ts')
    (hts : ∀ c ∈ ts, c.kind = .projection → c.children ≠ []) :
    ts'.findIdx? (standsFor s) = ts.findIdx? fun c => (c.fills? s).isSome := by
  induction h with
  | nil => rfl
  | @cons c c' _ _ hhead _ ih =>
      obtain ⟨hc, hrest⟩ := List.forall_mem_cons.mp hts
      have hstands : c'.standsFor s = c.standsFor s := by
        rw [standsFor, standsFor, hhead.projectionAlias?_eq]
      rw [List.findIdx?_cons, List.findIdx?_cons, hstands, isSome_fills?_eq hc, ih hrest]

end Tree

/-! ## Two trees -/

namespace Assembly

theorem projectionForSlot?_eq (select : Tree) (s : Slot) :
    projectionForSlot? select s = (select.foundPlace? s).bind (select.children[·]?) :=
  List.find?_eq_bind_findIdx?_getElem?

/-- The projection that is found for a slot in the main select. -/
def slotProjection? (t : Tree) (s : Slot) : Option Tree :=
  t.mainSelect?.bind (projectionForSlot? · s)

/-- At one place of the main selects of two trees stand `p`, which fills the slot in the first, and
`p'`, which is found for it in the second. -/
def SharePlace (s : Slot) (t t' p p' : Tree) : Prop :=
  ∃ select select' i, t.mainSelect? = some select ∧ t'.mainSelect? = some select'
    ∧ select.filledPlace? s = some i ∧ select.children[i]? = some p
    ∧ select'.foundPlace? s = some i ∧ select'.children[i]? = some p'

variable {s : Slot} {t t' p p' : Tree}

theorem SharePlace.found (h : SharePlace s t t' p p') : slotProjection? t' s = some p' := by
  obtain ⟨select, select', i, -, hselect', -, -, hi', hp'⟩ := h
  simp only [slotProjection?, hselect', projectionForSlot?_eq, hi', Option.bind_some, hp']

theorem SharePlace.filled (h : SharePlace s t t' p p') :
    ∃ e, t.outputs.slot s = some e ∧ p.children.head?.map Tree.sql = some e := by
  obtain ⟨select, select', i, hselect, -, hi, hp, -⟩ := h
  have hfills := List.of_findIdx?_eq_some hi
  rw [hp] at hfills
  obtain ⟨e, he⟩ := Option.isSome_iff_exists.mp hfills
  refine ⟨e, ?_, (Tree.fills?_eq_some_iff.mp he).2⟩
  simp only [Tree.slot_outputs_eq, hselect, hi, Option.bind_some, hp, he]

/-- Trees that differ in qualifiers have one place for a slot, or none: then it is not filled, and
nothing is found for it. Both searches run over the children of the main select, and stop at the
same place. -/
theorem place_cases (hto : t.QualifiesTo t') (hprojects : t.ProjectsSomething) (s : Slot) :
    (∃ p p', SharePlace s t t' p p')
      ∨ (t.outputs.slot s = none ∧ slotProjection? t' s = none) := by
  have hmain := hto.mainSelect?
  generalize hselect : t.mainSelect? = main at hmain
  generalize hselect' : t'.mainSelect? = main' at hmain
  cases hmain with
  | none =>
      refine .inr ⟨?_, ?_⟩
      · rw [Tree.slot_outputs_eq, hselect, Option.bind_none]
      · rw [slotProjection?, hselect', Option.bind_none]
  | @some select select' hpair =>
      have hplace : select'.foundPlace? s = select.filledPlace? s :=
        Tree.findIdx?_standsFor_eq hpair.children (hprojects.mainSelect? hselect)
      cases hi : select.filledPlace? s with
      | none =>
          refine .inr ⟨?_, ?_⟩
          · simp [Tree.slot_outputs_eq, hselect, hi]
          · simp [slotProjection?, hselect', projectionForSlot?_eq, hplace, hi]
      | some i =>
          have hi' := hplace.trans hi
          obtain ⟨hbound, -⟩ := List.findIdx?_eq_some_iff_getElem.mp hi
          obtain ⟨hbound', -⟩ := List.findIdx?_eq_some_iff_getElem.mp hi'
          exact .inl ⟨select.children[i], select'.children[i], select, select', i, hselect,
            hselect', hi, List.getElem?_eq_getElem hbound, hi', List.getElem?_eq_getElem hbound'⟩

theorem ofText?_of_mem_measures {o : Outputs} {m : Slot × Aggregation} (hm : m ∈ measures o) :
    (o.slot m.1).bind Aggregation.ofText? = some m.2 := by
  have hin : ∀ s, aggregationIn? o s = some m →
      (o.slot m.1).bind Aggregation.ofText? = some m.2 := by
    intro s h
    obtain ⟨a, ha, rfl⟩ := Option.map_eq_some_iff.mp h
    exact ha
  rcases List.mem_append.mp hm with hfirst | hsecond
  · exact hin _ (Option.mem_toList.mp hfirst)
  · exact hin _ (Option.mem_filter_iff.mp (Option.mem_toList.mp hsecond)).1

/-- **What fills a slot and what is found for it are one projection**, also when the tree has been
qualified in between: a slot is filled just when a projection is found for it, the two have one
place, and so an aggregation measures a column of the projection its text was read from. All three
parts follow from `place_cases`. -/
theorem measured_in_place {σ : Type} {defaults : TableDefaults} {provider : Option (Provider σ)}
    {state : σ} (hprojects : t.ProjectsSomething)
    (h : t' = t ∨ ((t.qualify defaults provider).run state).1 = .ok t') :
    (∀ s, (t.outputs.slot s).isSome ↔ (slotProjection? t' s).isSome)
      ∧ (∀ s e p', t.outputs.slot s = some e → slotProjection? t' s = some p' →
          ∃ p, SharePlace s t t' p p' ∧ p.children.head?.map Tree.sql = some e)
      ∧ ∀ m ∈ measures t.outputs, ∃ p p', SharePlace m.1 t t' p p'
          ∧ (p.children.head?.map Tree.sql).bind Aggregation.ofText? = some m.2
          ∧ measuredColumn? t'.mainSelect? m.1 = (p'.find? .column).map Tree.sql := by
  have hto : t.QualifiesTo t' := by
    rcases h with rfl | h
    · exact .refl t'
    · obtain ⟨know, hknow⟩ := t.exists_qualify_eq defaults provider state
      exact Tree.qualifiesTo_of_qualifyBy (hknow.symm.trans h)
  refine ⟨fun s => ?_, fun s e p' he hp' => ?_, fun m hm => ?_⟩
  · rcases place_cases hto hprojects s with ⟨p, p', hplace⟩ | ⟨hopen, hmissing⟩
    · obtain ⟨e, he, -⟩ := hplace.filled
      rw [he, hplace.found, Option.isSome_some, Option.isSome_some]
    · rw [hopen, hmissing, Option.isSome_none, Option.isSome_none]
  · rcases place_cases hto hprojects s with ⟨p, found, hplace⟩ | ⟨hopen, -⟩
    · obtain rfl := Option.some.inj (hplace.found.symm.trans hp')
      obtain ⟨filled, hfilled, hsql⟩ := hplace.filled
      obtain rfl := Option.some.inj (hfilled.symm.trans he)
      exact ⟨p, hplace, hsql⟩
    · cases hopen.symm.trans he
  · have hagg := ofText?_of_mem_measures hm
    rcases place_cases hto hprojects m.1 with ⟨p, p', hplace⟩ | ⟨hopen, -⟩
    · obtain ⟨e, he, hsql⟩ := hplace.filled
      refine ⟨p, p', hplace, ?_, ?_⟩
      · rw [hsql, ← he, hagg]
      · obtain ⟨select', hselect', hfound⟩ := Option.bind_eq_some_iff.mp hplace.found
        simp only [measuredColumn?, hselect', bind, Option.bind_some, hfound]
        cases p'.find? .column <;> rfl
    · rw [hopen] at hagg
      cases hagg

/-- `SELECT MAX(id) AS note, SUM(qty) AS VALUE, MIN(qty) AS value FROM items`, with the columns as
written. -/
def soldQuantities (id qty : Tree) : Tree :=
  ⟨.query, "SELECT MAX(id) AS note, SUM(qty) AS VALUE, MIN(qty) AS value FROM items",
    [⟨.select, "SELECT MAX(id) AS note, SUM(qty) AS VALUE, MIN(qty) AS value FROM items",
      [⟨.projection (some "note") (some "note"), "MAX(id) AS note",
          [⟨.expr .other, "MAX(id)", [id]⟩]⟩,
        ⟨.projection (some "VALUE") (some "VALUE"), "SUM(qty) AS VALUE",
          [⟨.expr .other, "SUM(qty)", [qty]⟩]⟩,
        ⟨.projection (some "value") (some "value"), "MIN(qty) AS value",
          [⟨.expr .other, "MIN(qty)", [qty]⟩]⟩,
        ⟨.fromClause, "items", [.leaf (.table ⟨["items"], none⟩) "items"]⟩]⟩]⟩

theorem measured_in_place_soldQuantities :
    let t := soldQuantities (.leaf (.column ["id"]) "id") (.leaf (.column ["qty"]) "qty")
    let t' := soldQuantities (.leaf (.column ["items", "id"]) "items.id")
      (.leaf (.column ["items", "qty"]) "items.qty")
    t.ProjectsSomething ∧ t.outputs.slot .value = some "SUM(qty)"
      ∧ measuredColumn? t'.mainSelect? .value = some "items.qty"
      ∧ ∃ p p', SharePlace .value t t' p p'
          ∧ (p.children.head?.map Tree.sql).bind Aggregation.ofText? = some ⟨.sum, "qty"⟩
          ∧ (p'.find? .column).map Tree.sql = some "items.qty" := by
  intro t t'
  have hprojects : t.ProjectsSomething := by decide +kernel
  have hqualified : ((t.qualify {} (none : Option (Provider Unit))).run ()).1 = .ok t' := by
    decide +kernel
  have hmeasured : measuredColumn? t'.mainSelect? .value = some "items.qty" := by decide +kernel
  obtain ⟨p, p', hplace, hagg, hcolumn⟩ := (measured_in_place hprojects (.inr hqualified)).2.2
    (.value, ⟨.sum, "qty"⟩) (by decide +kernel)
  exact ⟨hprojects, by decide +kernel, hmeasured, p, p', hplace, hagg, hcolumn ▸ hmeasured⟩

end Assembly

end QueryLineage
