import QueryLineage.Proofs.ProviderAnswers

/-!
# Which select decides a column

The qualification treats the selects of a tree one after another, from the root down, and each
rewrites the columns that its scope reaches. What it comes to is said here column by column, by what
lies above a column in the tree as it was: `Tree.reachedFrom` are the selects that reach it, and the
first of these with a qualifier for it decides (`eq_withOwners_of_qualifyBy`). On its way down the
walk meets the subtrees as the selects above have left them, and that is all that the induction
carries: a subtree with the qualifiers from above in it becomes the subtree decided column by
column (`eq_withOwners_of_rewriteDown`).

A query ends the scope of the selects above it. So where each select within another lies below some
query, no column is reached by two selects, and it is the innermost around it that decides, or none
if a query lies between the two (`reachedFrom_of_isScoped`).
-/

namespace QueryLineage

open Qualification

namespace Tree

/-! ## What lies above a node -/

mutual

/-- The nodes of a tree, in preorder, each with those it lies below, the nearest first. -/
def places (above : List Tree) : Tree → List (Tree × List Tree)
  | ⟨label, sql, children⟩ =>
    (⟨label, sql, children⟩, above) :: placesAll (⟨label, sql, children⟩ :: above) children

def placesAll (above : List Tree) : List Tree → List (Tree × List Tree)
  | [] => []
  | t :: ts => places above t ++ placesAll above ts

end

theorem mem_placesAll {above : List Tree} {ts : List Tree} {p : Tree × List Tree} :
    p ∈ placesAll above ts ↔ ∃ t ∈ ts, p ∈ t.places above := by
  induction ts with
  | nil => simp [placesAll]
  | cons t rest ih => simp [placesAll, ih]

theorem mem_places {t : Tree} {above : List Tree} {p : Tree × List Tree} :
    p ∈ t.places above ↔ p = (t, above) ∨ ∃ c ∈ t.children, p ∈ c.places (t :: above) := by
  cases t
  rw [places, List.mem_cons, mem_placesAll]

/-- The selects that reach a node, the outermost first, each with the child that the node is or lies
in. From that child down to the node there is no column above the node, and no query but the child
itself. -/
def reachedFrom : Tree → List Tree → List (Tree × Tree)
  | _, [] => []
  | u, parent :: outer =>
    (if u.label = .query ∨ parent.kind = .column then [] else reachedFrom parent outer)
      ++ if parent.kind = .select then [(parent, u)] else []

/-- The innermost select around a node, whatever lies between, with the child that the node is or
lies in. -/
def enclosingSelect? : Tree → List Tree → Option (Tree × Tree)
  | _, [] => none
  | u, parent :: outer =>
    if parent.kind = .select then some (parent, u) else enclosingSelect? parent outer

/-- Whether a query lies between a node and the innermost select around it. -/
def isCutOff (above : List Tree) : Bool :=
  (above.takeWhile (·.kind ≠ .select)).any (·.label = .query)

/-- At this place stands a column without children, a select that lies in no other or below a query
inside that, or another node. -/
def IsScopedAt (p : Tree × List Tree) : Prop :=
  (p.1.kind = .column → p.1.children = [])
    ∧ (p.1.kind = .select → p.2.any (·.kind = .select) = true → isCutOff p.2 = true)

instance : DecidablePred IsScopedAt := fun p =>
  inferInstanceAs (Decidable ((p.1.kind = .column → p.1.children = [])
    ∧ (p.1.kind = .select → p.2.any (·.kind = .select) = true → isCutOff p.2 = true)))

/-- Columns are leaves, and every select within another lies below a query inside that. -/
def IsScoped (root : Tree) : Prop := ∀ p ∈ root.places [], IsScopedAt p

instance : DecidablePred IsScoped := fun root =>
  inferInstanceAs (Decidable (∀ p ∈ root.places [], IsScopedAt p))

/-- The node is no select with a query for a child; selects have projections and clauses. -/
def HasNoBareQuery (t : Tree) : Prop := t.kind = .select → ∀ c ∈ t.children, c.label ≠ .query

instance : DecidablePred HasNoBareQuery := fun t =>
  inferInstanceAs (Decidable (t.kind = .select → ∀ c ∈ t.children, c.label ≠ .query))

/-! ## Deciding column by column -/

mutual

/-- The tree with each bare column qualified as its owner says, who goes by the column, by what lies
above it and by its name. -/
def withOwners (owner : Tree → List Tree → String → Option String) (above : List Tree) :
    Tree → Tree
  | ⟨label, sql, children⟩ =>
    let u : Tree := ⟨label, sql, children⟩
    let below := withOwnersAll owner (u :: above) children
    match label with
    | .column [name] =>
      match owner u above name with
      | some qualifier => ⟨.column [qualifier, name], qualifier ++ "." ++ sql, below⟩
      | none => ⟨label, sql, below⟩
    | _ => ⟨label, sql, below⟩

def withOwnersAll (owner : Tree → List Tree → String → Option String) (above : List Tree) :
    List Tree → List Tree
  | [] => []
  | t :: ts => withOwners owner above t :: withOwnersAll owner above ts

end

variable {owner owner' : Tree → List Tree → String → Option String} {above : List Tree}

theorem withOwnersAll_eq_map (ts : List Tree) :
    withOwnersAll owner above ts = ts.map (withOwners owner above) := by
  induction ts with
  | nil => rfl
  | cons t rest ih => rw [withOwnersAll, List.map_cons, ih]

theorem withOwners_bare (name sql : String) (children : List Tree) :
    withOwners owner above ⟨.column [name], sql, children⟩
      = match owner ⟨.column [name], sql, children⟩ above name with
        | some qualifier => ⟨.column [qualifier, name], qualifier ++ "." ++ sql,
            children.map (withOwners owner (⟨.column [name], sql, children⟩ :: above))⟩
        | none => ⟨.column [name], sql,
            children.map (withOwners owner (⟨.column [name], sql, children⟩ :: above))⟩ := by
  rw [withOwners]
  simp only [withOwnersAll_eq_map]

theorem withOwners_node {label : Label} (hlabel : ∀ name, label ≠ .column [name]) (sql : String)
    (children : List Tree) :
    withOwners owner above ⟨label, sql, children⟩
      = ⟨label, sql, children.map (withOwners owner (⟨label, sql, children⟩ :: above))⟩ := by
  rw [withOwners]
  · simp only [withOwnersAll_eq_map]
  · exact hlabel

theorem withOwners_congr {t : Tree} :
    ∀ {above : List Tree},
      (∀ p ∈ t.places above, p.1.kind = .column → owner p.1 p.2 = owner' p.1 p.2) →
      t.withOwners owner above = t.withOwners owner' above := by
  induction t using children_induction with
  | node label sql children ih =>
      intro above h
      have hbelow := List.map_congr_left fun c hc =>
        ih c hc fun p hp => h p (mem_places.mpr (.inr ⟨c, hc, hp⟩))
      by_cases hbare : ∃ name, label = .column [name]
      · obtain ⟨name, rfl⟩ := hbare
        rw [withOwners_bare, withOwners_bare, hbelow, h _ (mem_places.mpr (.inl rfl)) rfl]
      · have hlabel : ∀ name, label ≠ .column [name] := fun name hname => hbare ⟨name, hname⟩
        rw [withOwners_node hlabel, withOwners_node hlabel, hbelow]

/-! ## One select for a column -/

theorem isCutOff_cons (parent : Tree) (outer : List Tree) :
    isCutOff (parent :: outer)
      = if parent.kind = .select then false
        else decide (parent.label = .query) || isCutOff outer := by
  rw [isCutOff, List.takeWhile_cons]
  by_cases hselect : parent.kind = .select <;> simp [hselect, isCutOff]

theorem enclosingSelect?_eq_none {above : List Tree} (h : above.any (·.kind = .select) = false) :
    ∀ u, enclosingSelect? u above = none := by
  induction above with
  | nil => exact fun _ => rfl
  | cons parent outer ih =>
      simp only [List.any_cons, Bool.or_eq_false_iff, decide_eq_false_iff_not] at h
      intro u
      rw [enclosingSelect?, if_neg h.1, ih h.2]

/-- In a tree whose selects have scopes of their own, the innermost select around a node reaches it,
unless a query lies between, and no other does. -/
theorem reachedFrom_of_isScoped {t : Tree} :
    ∀ {above : List Tree}, (∀ p ∈ t.places above, IsScopedAt p) →
      (∀ p ∈ t.places above, p.1.HasNoBareQuery) →
      reachedFrom t above
        = (if t.label = .query ∨ isCutOff above = true then []
          else (enclosingSelect? t above).toList) →
      ∀ p ∈ t.places above, reachedFrom p.1 p.2
        = if p.1.label = .query ∨ isCutOff p.2 = true then []
          else (enclosingSelect? p.1 p.2).toList := by
  induction t using children_induction with
  | node label sql children ih =>
      intro above hscoped hbare hroot p hp
      rcases mem_places.mp hp with rfl | ⟨c, hc, hp⟩
      · exact hroot
      · have hin : ∀ q ∈ c.places (⟨label, sql, children⟩ :: above),
            q ∈ places above ⟨label, sql, children⟩ :=
          fun q hq => mem_places.mpr (.inr ⟨c, hc, hq⟩)
        refine ih c hc (fun q hq => hscoped q (hin q hq)) (fun q hq => hbare q (hin q hq)) ?_ p hp
        obtain ⟨hleaf, hapart⟩ := hscoped _ (mem_places.mpr (.inl rfl))
        have hclause := hbare _ (mem_places.mpr (.inl rfl))
        generalize hparent : Tree.mk label sql children = parent at hroot hleaf hapart hclause ⊢
        have hcp : c ∈ parent.children := hparent ▸ hc
        have hcolumn : parent.kind ≠ .column := fun h => by
          rw [hleaf h] at hcp
          cases hcp
        rw [reachedFrom, enclosingSelect?, isCutOff_cons]
        by_cases hselect : parent.kind = .select
        · -- The select is reached by no other, so it alone reaches its child.
          have halone : reachedFrom parent above = [] := by
            rw [hroot]
            cases hany : above.any (·.kind = .select) with
            | true => simp [hapart hselect hany]
            | false => simp [enclosingSelect?_eq_none hany]
          simp [hselect, hclause hselect c hcp, halone]
        · by_cases hquery : c.label = .query
          · simp [hselect, hquery]
          · simp [hselect, hquery, hcolumn, hroot]

/-! ## Columns of one scope -/

theorem withQualifiers_none (t : Tree) : t.withQualifiers (fun _ => none) = t := by
  induction t using children_induction with
  | node label sql children ih =>
      rcases column_cases label with ⟨name, rfl⟩ | ⟨parts, hparts, rfl⟩ | hlabel
      · rw [withQualifiers_bare]
      · rw [withQualifiers_column _ hparts]
      · rw [withQualifiers_node _ hlabel]
        congr 1
        refine (List.map_congr_left fun c hc => ?_).trans (List.map_id children)
        rw [ih c hc, ite_self, id]

/-- Of two passes the first has the say. By induction on the tree with the three cases of
`column_cases`: only a bare column that the first pass leaves bare is there for the second. -/
theorem withQualifiers_then (f g : String → Option String) (t : Tree) :
    (t.withQualifiers f).withQualifiers g = t.withQualifiers fun name => (f name).or (g name) := by
  induction t using children_induction with
  | node label sql children ih =>
      rcases column_cases label with ⟨name, rfl⟩ | ⟨parts, hparts, rfl⟩ | hlabel
      · rw [withQualifiers_bare, withQualifiers_bare]
        cases f name with
        | none => rw [withQualifiers_bare, Option.none_or]
        | some qualifier => exact withQualifiers_column g (by simp) ..
      · simp only [withQualifiers_column _ hparts]
      · rw [withQualifiers_node f hlabel, withQualifiers_node g hlabel,
          withQualifiers_node _ hlabel, List.map_map]
        congr 1
        refine List.map_congr_left fun c hc => ?_
        by_cases hquery : c.label = .query
        · simp [hquery]
        · have hrewritten : (c.withQualifiers f).label ≠ .query := fun h =>
            hquery ((qualifiesTo_withQualifiers f c).query_iff.mp h)
          simp [hquery, hrewritten, ih c hc]

end Tree

/-! ## What a select says of a column -/

namespace Qualification.Knowledge

/-- The qualifier that a select has for a bare column in one of its children. -/
def ruling? (know : Knowledge) (defaults : TableDefaults) (select child : Tree) (column : String) :
    Option String :=
  match scopeRelations defaults select with
  | .ok relations => know.qualifierIn relations (projectionAliases select) child column
  | .error _ => none

/-- The qualifier that some selects have for a bare column, the first one that has any. -/
def firstRuling? (know : Knowledge) (defaults : TableDefaults) (selects : List (Tree × Tree))
    (column : String) : Option String :=
  selects.findSome? fun (select, child) => know.ruling? defaults select child column

/-- When a select has a qualifier for a column: outside the select list its aliases come first, and
then one relation has to be the only one, or the only one known to have the column. -/
theorem ruling?_eq_some_iff {know : Knowledge} {defaults : TableDefaults} {select child : Tree}
    {column q : String} :
    know.ruling? defaults select child column = some q
      ↔ (child.kind = .projection ∨ Text.lower column ∉ projectionAliases select)
        ∧ ∃ relations, scopeRelations defaults select = .ok relations
          ∧ ((∃ table, relations = [⟨q, table⟩] ∧ q ≠ "")
            ∨ 2 ≤ relations.length
              ∧ ∃ table, relations.filter (know.hasColumn column) = [⟨q, table⟩]) := by
  rw [ruling?]
  cases scopeRelations defaults select with
  | error e => simp
  | ok relations =>
      have hpassed : (¬(child.kind ≠ .projection ∧ Text.lower column ∈ projectionAliases select))
          ↔ child.kind = .projection ∨ Text.lower column ∉ projectionAliases select := by
        rw [not_and_or, not_ne_iff]
      simp only [qualifierIn, Option.ite_none_left_eq_some, hpassed, Except.ok.injEq,
        exists_eq_left']
      rw [and_congr_right_iff]
      intro _
      rcases relations with _ | ⟨⟨qualifier, table⟩, _ | ⟨second, rest⟩⟩
      · simp [qualifierOf]
      · by_cases hempty : qualifier = ""
        · simp [qualifierOf, hempty]
        · have hne : qualifier = q → q ≠ "" := fun h => h ▸ hempty
          simpa [qualifierOf, hempty] using hne
      · rw [know.qualifierOf_of_many (by simp)]
        rcases List.filter (know.hasColumn column) (⟨qualifier, table⟩ :: second :: rest) with
          _ | ⟨⟨found, origin⟩, _ | ⟨other, more⟩⟩ <;> simp

variable {know : Knowledge} {defaults : TableDefaults} {t u : Tree}

theorem ruling?_of_qualifiesTo {t' c c' : Tree} (ht : t.QualifiesTo t') (hc : c'.kind = c.kind) :
    know.ruling? defaults t' c' = know.ruling? defaults t c := by
  funext column
  rw [ruling?, ruling?, scopeRelations_eq ht, projectionAliases_eq ht]
  simp only [qualifierIn, hc]

/-- The step on a select has each child qualified as the select says. Without relations there is
nothing to qualify by, and the pass over the children changes nothing. -/
theorem eq_of_qualifyScope_of_select (hselect : t.kind = .select)
    (h : know.qualifyScope defaults t = .ok u) :
    u = { t with children :=
      t.children.map fun c => c.withQualifiers (know.ruling? defaults t c) } := by
  rw [qualifyScope, if_pos hselect] at h
  unfold ruling?
  split at h
  · cases h
  · rename_i hnone
    obtain rfl := Except.ok.inj h
    have hnobody : ∀ c : Tree,
        (fun column => know.qualifierIn [] (projectionAliases t) c column) = fun _ => none := by
      intro c
      funext column
      simp [qualifierIn, qualifierOf]
    cases t
    simp only [hnone, hnobody, Tree.withQualifiers_none, List.map_id']
  · rename_i hsome
    obtain rfl := Except.ok.inj h
    simp only [hsome]

/-- The selects that reach a child are those that reach its parent, unless they end there, and the
parent, if it is a select. -/
theorem firstRuling?_child (parent c : Tree) (above : List Tree) (column : String) :
    know.firstRuling? defaults (Tree.reachedFrom c (parent :: above)) column
      = (if c.label = .query ∨ parent.kind = .column then none
          else know.firstRuling? defaults (Tree.reachedFrom parent above) column).or
        (if parent.kind = .select then know.ruling? defaults parent c column else none) := by
  rw [Tree.reachedFrom, firstRuling?, List.findSome?_append]
  congr 1
  · split <;> rfl
  · split
    · rw [List.findSome?_singleton]
    · rfl

end Qualification.Knowledge

namespace Tree

open Knowledge

variable {know : Knowledge} {defaults : TableDefaults}

theorem height_le_heightAll {c : Tree} {ts : List Tree} (h : c ∈ ts) : c.height ≤ heightAll ts := by
  induction ts with
  | nil => cases h
  | cons t rest ih =>
      rw [heightAll]
      rcases List.mem_cons.mp h with rfl | h
      · exact Nat.le_max_left ..
      · exact Nat.le_trans (ih h) (Nat.le_max_right ..)

theorem kind_ne_column {label : Label} (hlabel : ∀ parts, label ≠ .column parts) (sql : String)
    (children : List Tree) : (Tree.mk label sql children).kind ≠ .column := by
  cases label with
  | column parts => exact absurd rfl (hlabel parts)
  | _ => simp [kind, Label.kind]

/-- The step on a node that the selects above have been through leaves each child as they and the
node itself would have it. -/
theorem eq_of_qualifyScope_withQualifiers {label : Label} (hlabel : ∀ parts, label ≠ .column parts)
    {sql : String} {children : List Tree} {above : List Tree} {u : Tree}
    (h : know.qualifyScope defaults
        (withQualifiers (know.firstRuling? defaults (reachedFrom ⟨label, sql, children⟩ above))
          ⟨label, sql, children⟩) = .ok u) :
    u = ⟨label, sql, children.map fun c =>
      c.withQualifiers (know.firstRuling? defaults
        (reachedFrom c (⟨label, sql, children⟩ :: above)))⟩ := by
  have hcolumn := kind_ne_column hlabel sql children
  generalize ht : Tree.mk label sql children = t at h hcolumn ⊢
  generalize hf : know.firstRuling? defaults (reachedFrom t above) = f at h
  have hto := qualifiesTo_withQualifiers f t
  have hnode : t.withQualifiers f = ⟨label, sql, children.map fun c =>
      if c.label = .query then c else c.withQualifiers f⟩ := by
    rw [← ht, withQualifiers_node f hlabel]
  -- What reaches a child from above has been through it, unless it is a query.
  have hchild : ∀ c : Tree, (if c.label = .query then c else c.withQualifiers f).withQualifiers
        (fun name => if t.kind = .select then know.ruling? defaults t c name else none)
      = c.withQualifiers (know.firstRuling? defaults (reachedFrom c (t :: above))) := by
    intro c
    have hruling : know.firstRuling? defaults (reachedFrom c (t :: above))
        = fun name => (if c.label = .query then none else f name).or
          (if t.kind = .select then know.ruling? defaults t c name else none) := by
      funext name
      simp only [firstRuling?_child, hcolumn, or_false, hf]
    by_cases hquery : c.label = .query
    · simp only [hruling, hquery, if_true, Option.none_or]
    · simp only [hruling, hquery, if_false, withQualifiers_then]
  by_cases hselect : t.kind = .select
  · obtain rfl := eq_of_qualifyScope_of_select (hto.kind_eq.trans hselect) h
    have hruling : ∀ c : Tree, know.ruling? defaults (t.withQualifiers f)
          (if c.label = .query then c else c.withQualifiers f)
        = know.ruling? defaults t c := by
      intro c
      refine ruling?_of_qualifiesTo hto ?_
      split
      · rfl
      · exact (qualifiesTo_withQualifiers f c).kind_eq
    simp only [hselect, if_true] at hchild
    rw [hnode] at hruling ⊢
    simp only [List.map_map, Function.comp_def, hruling, hchild]
  · have hpassed : know.qualifyScope defaults (t.withQualifiers f) = .ok (t.withQualifiers f) := by
      rw [Knowledge.qualifyScope, if_neg fun h => hselect (hto.kind_eq.symm.trans h)]
    obtain rfl := Except.ok.inj (hpassed.symm.trans h)
    simp only [hselect, if_false, withQualifiers_none] at hchild
    simp only [hnode, hchild]

/-- A column is qualified or not, and what lies below it is left alone. -/
theorem exists_withQualifiers_column (f : String → Option String) (parts : List String)
    (sql : String) (children : List Tree) :
    ∃ parts' sql',
      withQualifiers f ⟨.column parts, sql, children⟩ = ⟨.column parts', sql', children⟩
      ∧ ∀ owner above, owner ⟨.column parts, sql, children⟩ above = f →
        withOwners owner above ⟨.column parts, sql, children⟩
          = ⟨.column parts', sql',
            children.map (withOwners owner (⟨.column parts, sql, children⟩ :: above))⟩ := by
  by_cases hbare : ∃ name, parts = [name]
  · obtain ⟨name, rfl⟩ := hbare
    simp only [withQualifiers_bare, withOwners_bare]
    cases hname : f name with
    | none => exact ⟨_, _, rfl, fun owner above howner => by rw [howner, hname]⟩
    | some qualifier => exact ⟨_, _, rfl, fun owner above howner => by rw [howner, hname]⟩
  · push Not at hbare
    refine ⟨parts, sql, withQualifiers_column f hbare sql children, fun owner above _ => ?_⟩
    exact withOwners_node (fun name => by simpa using hbare name) sql children

theorem eq_map_of_forall₂ {α β : Type} {R : α → β → Prop} {g : α → β} {l : List α} {l' : List β}
    (h : List.Forall₂ R l l') (hR : ∀ a ∈ l, ∀ b, R a b → b = g a) : l' = l.map g := by
  induction h with
  | nil => rfl
  | cons hhead _ ih =>
      rw [List.map_cons, ← hR _ List.mem_cons_self _ hhead,
        ← ih fun a ha => hR a (List.mem_cons_of_mem _ ha)]

/-- **The walk decides column by column.** A subtree with the qualifiers in it that the selects
above have for it is rewritten to the subtree with its columns qualified as their owners say. -/
theorem eq_withOwners_of_rewriteDown {n : Nat} {t t' : Tree} {above : List Tree}
    (hn : t.height ≤ n)
    (h : rewriteDown (know.qualifyScope defaults) n
      (t.withQualifiers (know.firstRuling? defaults (reachedFrom t above))) = .ok t') :
    t' = t.withOwners (fun u above => know.firstRuling? defaults (reachedFrom u above)) above := by
  induction n generalizing t t' above with
  | zero =>
      cases t
      rw [height] at hn
      omega
  | succ n ih =>
      obtain ⟨label, sql, children⟩ := t
      rw [height] at hn
      have hchildren : ∀ c ∈ children, c.height ≤ n := fun c hc =>
        Nat.le_trans (height_le_heightAll hc) (Nat.le_of_succ_le_succ hn)
      obtain ⟨label', sql', below, below', hu, hbelow, rfl⟩ := rewriteDown_succ_eq_ok_iff.mp h
      by_cases hcolumn : ∃ parts, label = .column parts
      · obtain ⟨parts, rfl⟩ := hcolumn
        obtain ⟨parts', sql₁, hpass, howners⟩ := exists_withQualifiers_column
          (know.firstRuling? defaults (reachedFrom ⟨.column parts, sql, children⟩ above))
          parts sql children
        rw [hpass] at hu
        obtain ⟨rfl, rfl, rfl⟩ := Tree.mk.inj (Except.ok.inj hu)
        rw [howners _ above rfl]
        congr 1
        refine eq_map_of_forall₂ hbelow fun c hc c' hc' => ih (hchildren c hc) ?_
        -- No select reaches below a column.
        have hnobody : know.firstRuling? defaults
            (reachedFrom c (⟨.column parts, sql, children⟩ :: above)) = fun _ => none := by
          funext name
          simp [firstRuling?_child, kind, Label.kind]
        rwa [hnobody, withQualifiers_none]
      · push Not at hcolumn
        obtain ⟨rfl, rfl, rfl⟩ := Tree.mk.inj (eq_of_qualifyScope_withQualifiers hcolumn hu)
        rw [withOwners_node fun name => hcolumn [name]]
        congr 1
        rw [List.forall₂_map_left_iff] at hbelow
        exact eq_map_of_forall₂ hbelow fun c hc c' => ih (hchildren c hc)

end Tree

/-! ## Failing -/

namespace Qualification

/-- What went wrong, if anything did. -/
def failure? {ε α : Type} : Except ε α → Option ε
  | .error e => some e
  | .ok _ => none

theorem failure?_eq_some_iff {ε α : Type} {x : Except ε α} {e : ε} :
    failure? x = some e ↔ x = .error e := by
  cases x <;> simp [failure?]

theorem failure?_mapM {ε α β : Type} (f : α → Except ε β) (l : List α) :
    failure? (l.mapM f) = l.findSome? fun a => failure? (f a) := by
  induction l with
  | nil => rfl
  | cons a rest ih =>
      rw [List.mapM_cons, List.findSome?_cons]
      cases f a with
      | error e => rfl
      | ok b =>
          refine Eq.trans ?_ ih
          change failure? (rest.mapM f >>= _) = _
          cases rest.mapM f <;> rfl

/-- What is wrong with a select. -/
def unusable? (defaults : TableDefaults) (t : Tree) : Option UnusableRelation :=
  if t.kind = .select then failure? (scopeRelations defaults t) else none

theorem failure?_qualifyScope (know : Knowledge) (defaults : TableDefaults) (t : Tree) :
    failure? (know.qualifyScope defaults t) = unusable? defaults t := by
  rw [Knowledge.qualifyScope, unusable?]
  split
  · split
    · rename_i hrelations
      rw [hrelations]
      rfl
    · rename_i hrelations
      rw [hrelations]
      rfl
    · rename_i hrelations
      rw [hrelations]
      rfl
  · rfl

theorem unusable?_of_qualifiesTo (defaults : TableDefaults) {t t' : Tree} (h : t.QualifiesTo t') :
    unusable? defaults t' = unusable? defaults t := by
  rw [unusable?, unusable?, h.kind_eq, scopeRelations_eq h]

end Qualification

namespace Tree

open Knowledge

variable {know : Knowledge} {defaults : TableDefaults}

theorem findSome?_preorderAll {α : Type} (f : Tree → Option α) (ts : List Tree) :
    (preorderAll ts).findSome? f = ts.findSome? fun t => t.preorder.findSome? f := by
  induction ts with
  | nil => rfl
  | cons t rest ih =>
      rw [preorderAll, List.findSome?_append, List.findSome?_cons, ih]
      cases t.preorder.findSome? f <;> rfl

/-- The walk fails with the first select in preorder that something is wrong with. By induction on
the levels that are left: what a step makes of a node has below it the same selects, as qualifying
only touches columns. -/
theorem failure?_rewriteDown {n : Nat} {t : Tree} (hn : t.height ≤ n) :
    failure? (rewriteDown (know.qualifyScope defaults) n t)
      = t.preorder.findSome? (unusable? defaults) := by
  induction n generalizing t with
  | zero =>
      cases t
      rw [height] at hn
      omega
  | succ n ih =>
      have hfirst := failure?_qualifyScope know defaults t
      rw [rewriteDown]
      obtain ⟨label, sql, children⟩ := t
      rw [preorder, List.findSome?_cons, ← hfirst]
      cases hstep : know.qualifyScope defaults ⟨label, sql, children⟩ with
      | error e => rfl
      | ok u =>
          obtain ⟨label', sql', below⟩ := u
          have hto := qualifiesTo_of_qualifyScope hstep
          have hbelow : ∀ c ∈ below, c.height ≤ n := fun c hc => by
            have hheight := Nat.le_trans (Nat.le_of_eq hto.height_eq) hn
            rw [height] at hheight
            exact Nat.le_trans (height_le_heightAll hc) (Nat.le_of_succ_le_succ hheight)
          calc failure? (below.mapM (rewriteDown (know.qualifyScope defaults) n)
                  >>= fun children' => pure (Tree.mk label' sql' children'))
            _ = failure? (below.mapM (rewriteDown (know.qualifyScope defaults) n)) := by
                cases below.mapM (rewriteDown (know.qualifyScope defaults) n) <;> rfl
            _ = below.findSome? fun c => c.preorder.findSome? (unusable? defaults) := by
                rw [failure?_mapM, ← List.head?_filterMap, ← List.head?_filterMap,
                  List.filterMap_congr fun c hc => ih (hbelow c hc)]
            _ = (preorderAll children).findSome? (unusable? defaults) := by
                rw [← findSome?_preorderAll, ← List.head?_filterMap, ← List.head?_filterMap,
                  QualifiesTo.filterMap_eq (unusable?_of_qualifiesTo defaults)
                    (QualifiesTo.preorderAll hto.children)]

/-- A table in the from clause of a select is no table name. Derived tables cannot be unusable, so
only the tables of the clause decide. -/
theorem exists_unusable?_iff {select : Tree} :
    (∃ e, unusable? defaults select = some e)
      ↔ select.kind = .select
        ∧ ∃ clause, select.child? .fromClause = some clause
        ∧ ∃ ref ∈ clause.scopeTableRefs, ∃ defect,
          TableName.ofSegments ref.path = .error defect := by
  have hclause : ∀ clause : Tree, failure? (do
      let tables ← clause.scopeTableRefs.mapM (tableRelation defaults)
      return tables ++ clause.scope.filterMap derivedRelation?)
        = failure? (clause.scopeTableRefs.mapM (tableRelation defaults)) := by
    intro clause
    cases clause.scopeTableRefs.mapM (tableRelation defaults) <;> rfl
  have htable : ∀ ref : TableRef, (failure? (tableRelation defaults ref)).isSome = true
      ↔ ∃ defect, TableName.ofSegments ref.path = .error defect := by
    intro ref
    rw [tableRelation]
    cases TableName.ofSegments ref.path <;> simp [failure?]
  rw [unusable?]
  by_cases hselect : select.kind = .select
  · rw [if_pos hselect, and_iff_right hselect, scopeRelations]
    cases select.child? .fromClause with
    | none => simp [failure?]
    | some clause =>
        rw [← Option.isSome_iff_exists]
        simp only [hclause, failure?_mapM, List.findSome?_isSome_iff, htable, Option.some.injEq,
          exists_eq_left']
  · simp [hselect]

/-- The qualification comes to deciding column by column: the first of the selects that reach a
column with a qualifier for it decides. -/
theorem eq_withOwners_of_qualifyBy {t t' : Tree} (h : t.qualifyBy know defaults = .ok t') :
    t' = t.withOwners (fun u above => know.firstRuling? defaults (reachedFrom u above)) [] := by
  refine eq_withOwners_of_rewriteDown (Nat.le_refl _) ?_
  have hnobody : know.firstRuling? defaults (reachedFrom t []) = fun _ => none := rfl
  rw [hnobody, withQualifiers_none]
  exact h

/-- **Which select decides a column.** With a provider whose metadata is known, or none, qualifying
fails just when a table in the own scope of some select is no table name. Otherwise, where selects
within others lie below queries, each bare column gets the qualifier that the innermost select
around it has for it, unless it has none or a query lies between the two, and all else stays as it
is. The walk qualifies a whole scope at each select, from the outside in;
`eq_withOwners_of_rewriteDown` turns that around, column by column. -/
theorem qualify_by_selects {f : TableKey → Option TableMetadata} {σ : Type}
    {provider : Option (Provider σ)} (h : Provider.Offers f provider) (defaults : TableDefaults)
    (t : Tree) (s : σ) :
    let result := ((t.qualify defaults provider).run s).1
    let know : Knowledge := knownBy TableKey.ofName? f
    ((∃ e, result = .error e)
        ↔ ∃ select ∈ t.preorder, select.kind = .select
          ∧ ∃ clause, select.child? .fromClause = some clause
          ∧ ∃ ref ∈ clause.scopeTableRefs, ∃ defect, TableName.ofSegments ref.path = .error defect)
      ∧ (t.IsScoped → (∀ p ∈ t.places [], p.1.HasNoBareQuery) → ∀ t', result = .ok t' →
        t' = t.withOwners (fun u above column => if isCutOff above then none
          else know.firstRuling? defaults (enclosingSelect? u above).toList column) [])
      ∧ ∀ select child column q, know.ruling? defaults select child column = some q
        ↔ (child.kind = .projection ∨ Text.lower column ∉ projectionAliases select)
          ∧ ∃ relations, scopeRelations defaults select = .ok relations
            ∧ ((∃ table, relations = [⟨q, table⟩] ∧ q ≠ "")
              ∨ 2 ≤ relations.length
                ∧ ∃ table, relations.filter (know.hasColumn column) = [⟨q, table⟩]) := by
  intro result know
  have hresult : result = t.qualifyBy know defaults := run_qualify_of_offers h defaults t s
  refine ⟨?_, fun hscoped hbare t' ht' => ?_, fun _ _ _ _ => ruling?_eq_some_iff⟩
  · have hfailure : failure? result = t.preorder.findSome? (unusable? defaults) := by
      rw [hresult, qualifyBy, failure?_rewriteDown (Nat.le_refl t.height)]
    have hexists : (∃ e, result = .error e)
        ↔ ∃ select ∈ t.preorder, ∃ e, unusable? defaults select = some e := by
      simp only [← failure?_eq_some_iff, hfailure, ← Option.isSome_iff_exists,
        List.findSome?_isSome_iff]
    simp only [hexists, exists_unusable?_iff]
  · rw [eq_withOwners_of_qualifyBy (hresult.symm.trans ht')]
    refine withOwners_congr fun p hp hcolumn => ?_
    have hquery : p.1.label ≠ .query := fun hlabel => by
      rw [kind, hlabel] at hcolumn
      cases hcolumn
    have hroot : reachedFrom t [] = if t.label = .query ∨ isCutOff [] = true then []
        else (enclosingSelect? t []).toList := (ite_self _).symm
    rw [reachedFrom_of_isScoped hscoped hbare hroot p hp]
    funext column
    cases isCutOff p.2 with
    | true => simp [hquery, Knowledge.firstRuling?]
    | false => simp [hquery]

theorem qualify_by_selects_orderedQuantities :
    (orderedQuantities (.leaf (.column ["qty"]) "qty")).IsScoped
      ∧ orderedQuantities (.leaf (.column ["i", "qty"]) "i.qty")
        = (orderedQuantities (.leaf (.column ["qty"]) "qty")).withOwners (fun u above column =>
          if isCutOff above then none else Knowledge.firstRuling?
            (knownBy TableKey.ofName? fun key => ((itemsProvider key).run ()).1.toOption) {}
            (enclosingSelect? u above).toList column) [] := by
  have hoffers : Provider.Offers (fun key => ((itemsProvider key).run ()).1.toOption)
      (some itemsProvider) := fun _ _ => rfl
  have hscoped : (orderedQuantities (.leaf (.column ["qty"]) "qty")).IsScoped := by
    decide +kernel
  have hbare : ∀ p ∈ (orderedQuantities (.leaf (.column ["qty"]) "qty")).places [],
      p.1.HasNoBareQuery := by
    decide +kernel
  obtain ⟨-, hdecided, -⟩ := qualify_by_selects hoffers {}
    (orderedQuantities (.leaf (.column ["qty"]) "qty")) ()
  exact ⟨hscoped, hdecided hscoped hbare _ (by decide +kernel)⟩

/-- `SELECT a FROM (VALUES (b)) AS v`, with the columns as written. -/
def selectedValues (a b : Tree) : Tree :=
  ⟨.query, "SELECT a FROM (VALUES (b)) AS v",
    [⟨.select, "SELECT a FROM (VALUES (b)) AS v",
      [⟨.projection none (some "a"), "a", [a]⟩,
        ⟨.fromClause, "(VALUES (b)) AS v",
          [⟨.derived (some "v"), "(VALUES (b)) AS v",
            [⟨.query, "VALUES (b)", [⟨.expr .other, "VALUES (b)", [b]⟩]⟩]⟩]⟩]⟩]⟩

/-- A select from one table over a query for its child, which selects from another. -/
def selectOverQuery (x : Tree) : Tree :=
  ⟨.select, "", [⟨.query, "", [⟨.select, "", [⟨.projection none (some "x"), "x", [x]⟩,
      ⟨.fromClause, "u", [.leaf (.table ⟨["u"], none⟩) "u"]⟩]⟩]⟩,
    ⟨.fromClause, "t", [.leaf (.table ⟨["t"], none⟩) "t"]⟩]⟩

/-- The innermost select around a column need not decide it: a query between them that is no select
itself keeps it from doing so, and one that is a child of an outer select lets that come first. -/
theorem qualify_by_enclosingSelect :
    let enclosing := fun u above =>
      Knowledge.firstRuling? (fun _ => none) {} (enclosingSelect? u above).toList
    let bare := fun name => Tree.leaf (.column [name]) name
    let qualified := fun (q name : String) => Tree.leaf (.column [q, name]) (q ++ "." ++ name)
    let qualify := fun t : Tree => ((t.qualify {} (none : Option (Provider Unit))).run ()).1
    let values := selectedValues (bare "a") (bare "b")
    let nested := selectOverQuery (bare "x")
    (({ sql := "SELECT a FROM (VALUES (b)) AS v" } : LineageRequest).tree.map Prod.fst).toOption
        = some values
      ∧ values.IsScoped ∧ qualify values ≠ .ok (values.withOwners enclosing [])
      ∧ qualify values = .ok (selectedValues (qualified "v" "a") (bare "b"))
      ∧ values.withOwners enclosing [] = selectedValues (qualified "v" "a") (qualified "v" "b")
      ∧ nested.IsScoped ∧ qualify nested ≠ .ok (nested.withOwners enclosing [])
      ∧ qualify nested = .ok (selectOverQuery (qualified "t" "x"))
      ∧ nested.withOwners enclosing [] = selectOverQuery (qualified "u" "x") := by
  decide +kernel

end Tree

end QueryLineage
