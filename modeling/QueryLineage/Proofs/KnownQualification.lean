import QueryLineage.Proofs.QualifiedTree

/-!
# Qualifying by fixed knowledge

With the metadata of every table known beforehand, qualifying asks nobody and is a function of the
tree (`Tree.qualifyBy`). Its step on a select takes everything it decides by, the relations in scope
and the aliases of the select list, from nodes that qualifying leaves alone, so the step comes to
the same decisions on any tree that the first one qualifies to. A column it has passed over it
passes over again (`withQualifiers_of_qualifiesTo`); hence a second pass changes nothing
(`qualifyBy_qualifyBy`).
-/

namespace QueryLineage

/-- The tree with those of its bare columns outside nested queries qualified that `f` has a
qualifier for. -/
def Tree.withQualifiers (f : String → Option String) (t : Tree) : Tree :=
  Id.run (Qualification.rewriteColumns (m := Id) f t)

namespace Qualification

/-- What is known about tables. -/
abbrev Knowledge := TableName → Option TableMetadata

namespace Knowledge

variable (know : Knowledge)

def hasColumn (column : String) (r : ScopeRelation) : Bool :=
  ((r.table.bind know).bind (·.column column)).isSome

/-- The qualifier of a bare column: that of the only relation, or of the only one that has the
column. -/
def qualifierOf (relations : List ScopeRelation) (column : String) : Option String :=
  match relations with
  | [only] => if only.qualifier.isEmpty then none else some only.qualifier
  | _ =>
    match relations.filter (know.hasColumn column) with
    | [owner] => some owner.qualifier
    | _ => none

/-- What a bare column below a child of a select is qualified by. -/
def qualifierIn (relations : List ScopeRelation) (aliases : List String) (child : Tree)
    (column : String) : Option String :=
  if child.kind ≠ .projection ∧ Text.lower column ∈ aliases then none
  else know.qualifierOf relations column

def qualifyScope (defaults : TableDefaults) (t : Tree) : Except UnusableRelation Tree :=
  if t.kind = .select then
    match scopeRelations defaults t with
    | .error e => .error e
    | .ok [] => .ok t
    | .ok relations =>
      .ok { t with children := t.children.map fun child =>
              child.withQualifiers (know.qualifierIn relations (projectionAliases t) child) }
  else .ok t

end Knowledge

end Qualification

open Qualification

/-- The tree with its bare columns qualified by what is known. -/
def Tree.qualifyBy (know : Knowledge) (defaults : TableDefaults) (t : Tree) :
    Except UnusableRelation Tree :=
  t.rewriteDown (know.qualifyScope defaults) t.height

namespace Tree

/-! ## Columns of one scope -/

theorem withQualifiers_bare (f : String → Option String) (name sql : String)
    (children : List Tree) :
    withQualifiers f ⟨.column [name], sql, children⟩
      = match f name with
        | some qualifier => ⟨.column [qualifier, name], qualifier ++ "." ++ sql, children⟩
        | none => ⟨.column [name], sql, children⟩ := by
  rw [withQualifiers, rewriteColumns]
  cases f name <;> rfl

theorem withQualifiers_column (f : String → Option String) {parts : List String}
    (hparts : ∀ name, parts ≠ [name]) (sql : String) (children : List Tree) :
    withQualifiers f ⟨.column parts, sql, children⟩ = ⟨.column parts, sql, children⟩ := by
  rw [withQualifiers, rewriteColumns]
  · rfl
  · exact hparts

theorem rewriteColumnsBelow_eq_map (f : String → Option String) (ts : List Tree) :
    Id.run (rewriteColumnsBelow (m := Id) f ts)
      = ts.map fun t => if t.label = .query then t else t.withQualifiers f := by
  induction ts with
  | nil => rfl
  | cons t rest ih =>
      obtain ⟨label, sql, children⟩ := t
      rw [List.map_cons, ← ih, rewriteColumnsBelow]
      split
      · rfl
      · rfl

theorem withQualifiers_node (f : String → Option String) {label : Label}
    (hlabel : ∀ parts, label ≠ .column parts) (sql : String) (children : List Tree) :
    withQualifiers f ⟨label, sql, children⟩
      = ⟨label, sql, children.map fun t => if t.label = .query then t else t.withQualifiers f⟩ := by
  rw [← rewriteColumnsBelow_eq_map]
  cases label with
  | column parts => exact absurd rfl (hlabel parts)
  | _ => rfl

/-- The three things a node can be to a pass over columns. -/
theorem column_cases (label : Label) :
    (∃ name, label = .column [name])
      ∨ (∃ parts, (∀ name, parts ≠ [name]) ∧ label = .column parts)
      ∨ ∀ parts, label ≠ .column parts := by
  cases label with
  | column parts =>
      by_cases hbare : ∃ name, parts = [name]
      · obtain ⟨name, rfl⟩ := hbare
        exact .inl ⟨name, rfl⟩
      · exact .inr (.inl ⟨parts, fun name h => hbare ⟨name, h⟩, rfl⟩)
  | _ => exact .inr (.inr fun _ h => nomatch h)

theorem qualifiesTo_withQualifiers (f : String → Option String) (t : Tree) :
    t.QualifiesTo (t.withQualifiers f) := by
  induction t using children_induction with
  | node label sql children ih =>
      rcases column_cases label with ⟨name, rfl⟩ | ⟨parts, hparts, rfl⟩ | hlabel
      · rw [withQualifiers_bare]
        split
        · exact .node (.qualified ..) (List.forall₂_same.mpr fun c _ => .refl c)
        · exact .refl _
      · rw [withQualifiers_column f hparts]
        exact .refl _
      · rw [withQualifiers_node f hlabel]
        refine .node (.kept ..) (List.forall₂_map_right_iff.mpr (List.forall₂_same.mpr ?_))
        intro c hc
        split
        · exact .refl c
        · exact ih c hc

/-- A column that a pass over a scope has seen, it need not see again: a qualified column has two
parts and is passed over, and one that was left bare is left so again. By induction on the tree,
queries apart. -/
theorem withQualifiers_withQualifiers (f : String → Option String) (t : Tree) :
    (t.withQualifiers f).withQualifiers f = t.withQualifiers f := by
  induction t using children_induction with
  | node label sql children ih =>
      rcases column_cases label with ⟨name, rfl⟩ | ⟨parts, hparts, rfl⟩ | hlabel
      · rw [withQualifiers_bare]
        cases hname : f name with
        | none => simp only [withQualifiers_bare, hname]
        | some qualifier => exact withQualifiers_column f (by simp) ..
      · rw [withQualifiers_column f hparts, withQualifiers_column f hparts]
      · rw [withQualifiers_node f hlabel, withQualifiers_node f hlabel, List.map_map]
        congr 1
        refine List.map_congr_left fun c hc => ?_
        by_cases hquery : c.label = .query
        · simp [hquery]
        · have hrewritten : (c.withQualifiers f).label ≠ .query := fun h =>
            hquery ((qualifiesTo_withQualifiers f c).query_iff.mp h)
          simp [hquery, hrewritten, ih c hc]

/-- Where a pass finds nothing to do, it finds nothing to do later, whatever columns have got their
qualifiers by then. By induction on the tree: a column that is qualified meanwhile is passed over,
and any other node is as it was. -/
theorem withQualifiers_of_qualifiesTo {f : String → Option String} {t t' : Tree}
    (h : t.QualifiesTo t') (hfixed : t.withQualifiers f = t) : t'.withQualifiers f = t' := by
  induction t using children_induction generalizing t' with
  | node label sql children ih =>
      cases h with
      | @node _ label' _ sql' _ children' hnode hchildren =>
          cases hnode with
          | qualified name qualifier => exact withQualifiers_column f (by simp) ..
          | kept =>
              rcases column_cases label with ⟨name, rfl⟩ | ⟨parts, hparts, rfl⟩ | hlabel
              · rw [withQualifiers_bare] at hfixed ⊢
                cases hname : f name with
                | none => rfl
                | some qualifier =>
                    rw [hname] at hfixed
                    simp at hfixed
              · exact withQualifiers_column f hparts ..
              · rw [withQualifiers_node f hlabel] at hfixed ⊢
                have hkept := List.map_inj_left.mp
                  ((Tree.mk.inj hfixed).2.2.trans (List.map_id children).symm)
                congr 1
                refine (List.map_congr_left fun c' hc' => ?_).trans (List.map_id children')
                obtain ⟨c, hc, hcc'⟩ := exists_of_mem_forall₂ hchildren hc'
                by_cases hquery : c'.label = .query
                · rw [if_pos hquery, id]
                · have hquery' : c.label ≠ .query := fun h => hquery (hcc'.query_iff.mpr h)
                  have hfixed' := hkept c hc
                  rw [if_neg hquery'] at hfixed'
                  rw [if_neg hquery, id]
                  exact ih c hc hcc' hfixed'

end Tree

/-! ## One select -/

namespace Qualification

theorem scopeRelations_eq {t t' : Tree} (h : t.QualifiesTo t') (defaults : TableDefaults) :
    scopeRelations defaults t' = scopeRelations defaults t := by
  rw [scopeRelations, scopeRelations]
  have hclause := h.child? .fromClause
  generalize t.child? .fromClause = clause, t'.child? .fromClause = clause' at hclause ⊢
  cases hclause with
  | none => rfl
  | some hclause =>
      have hderived := Tree.QualifiesTo.filterMap_eq
        Tree.QualifiesTo.derivedRelation?_eq hclause.scope
      simp only [hclause.scopeTableRefs_eq, hderived]

theorem projectionAliases_eq {t t' : Tree} (h : t.QualifiesTo t') :
    projectionAliases t' = projectionAliases t :=
  Tree.QualifiesTo.filterMap_eq (fun hu => by rw [hu.projectionAlias?_eq]) h.children

namespace Knowledge

variable {know : Knowledge} {defaults : TableDefaults} {t u t' : Tree}

theorem qualifiesTo_of_qualifyScope (h : know.qualifyScope defaults t = .ok u) :
    t.QualifiesTo u := by
  unfold qualifyScope at h
  split at h
  · split at h
    · cases h
    · obtain rfl := Except.ok.inj h
      exact .refl t
    · obtain rfl := Except.ok.inj h
      obtain ⟨label, sql, children⟩ := t
      refine .node (.kept ..) (List.forall₂_map_right_iff.mpr (List.forall₂_same.mpr ?_))
      intro c _
      exact Tree.qualifiesTo_withQualifiers _ c
  · obtain rfl := Except.ok.inj h
    exact .refl t

/-- What the step on a select has left alone it leaves alone in any tree that its result qualifies
to: there it has the same relations and aliases to decide by. -/
theorem qualifyScope_of_qualifiesTo (h : know.qualifyScope defaults t = .ok u)
    (hu : u.QualifiesTo t') : know.qualifyScope defaults t' = .ok t' := by
  have ht := (qualifiesTo_of_qualifyScope h).trans hu
  unfold qualifyScope at h ⊢
  rw [ht.kind_eq, scopeRelations_eq ht, projectionAliases_eq ht]
  split at h
  · rename_i hselect
    rw [if_pos hselect]
    split at h
    · cases h
    · rfl
    · rename_i relations hsome hrelations
      obtain rfl := Except.ok.inj h
      obtain ⟨label, sql, children⟩ := t'
      refine congrArg (fun below => Except.ok (Tree.mk label sql below)) ?_
      refine (List.map_congr_left fun c' hc' => ?_).trans (List.map_id children)
      obtain ⟨u, hu', huc'⟩ := exists_of_mem_forall₂ hu.children hc'
      obtain ⟨c, -, rfl⟩ := List.mem_map.mp hu'
      have hkind := ((Tree.qualifiesTo_withQualifiers _ c).trans huc').kind_eq
      refine Tree.withQualifiers_of_qualifiesTo huc' ?_
      -- The child is a projection just when it was one before, so it is passed over as before.
      have hsame : know.qualifierIn relations (projectionAliases t) c'
          = know.qualifierIn relations (projectionAliases t) c := by
        funext column
        rw [qualifierIn, qualifierIn, hkind]
      rw [hsame]
      exact Tree.withQualifiers_withQualifiers _ c
  · rename_i hselect
    rw [if_neg hselect]

end Knowledge

end Qualification

/-! ## The whole tree -/

theorem mapM_eq_ok_iff {ε α β : Type} {f : α → Except ε β} {l : List α} {l' : List β} :
    l.mapM f = .ok l' ↔ List.Forall₂ (fun a b => f a = .ok b) l l' := by
  induction l generalizing l' with
  | nil =>
      rw [List.mapM_nil, List.forall₂_nil_left_iff]
      exact ⟨fun h => (Except.ok.inj h).symm, fun h => h ▸ rfl⟩
  | cons a rest ih =>
      rw [List.mapM_cons, List.forall₂_cons_left_iff]
      simp only [← ih]
      cases f a with
      | error e => simp [bind, Except.bind]
      | ok b =>
          cases rest.mapM f with
          | error e => simp [bind, Except.bind]
          | ok bs => simp [bind, Except.bind, pure, Except.pure, eq_comm]

namespace Tree

variable {ε : Type} {f : Tree → Except ε Tree}

theorem rewriteDown_succ_eq_ok_iff {n : Nat} {t t' : Tree} :
    rewriteDown f (n + 1) t = .ok t'
      ↔ ∃ label sql children children', f t = .ok ⟨label, sql, children⟩
        ∧ List.Forall₂ (fun c c' => rewriteDown f n c = .ok c') children children'
        ∧ t' = ⟨label, sql, children'⟩ := by
  rw [rewriteDown]
  simp only [← mapM_eq_ok_iff]
  cases f t with
  | error e => simp [bind, Except.bind]
  | ok u =>
      obtain ⟨label, sql, children⟩ := u
      cases hchildren : children.mapM (rewriteDown f n) with
      | error e => simp [bind, Except.bind, hchildren]
      | ok children' =>
          simp [bind, Except.bind, pure, Except.pure, hchildren, eq_comm]

theorem qualifiesTo_of_rewriteDown (hf : ∀ {t u}, f t = .ok u → t.QualifiesTo u) {n : Nat}
    {t t' : Tree} (h : rewriteDown f n t = .ok t') : t.QualifiesTo t' := by
  induction n generalizing t t' with
  | zero =>
      obtain rfl := Except.ok.inj h
      exact .refl t
  | succ n ih =>
      obtain ⟨label, sql, children, children', hu, hchildren, rfl⟩ :=
        rewriteDown_succ_eq_ok_iff.mp h
      exact (hf hu).trans (.node (.kept ..) (hchildren.imp fun _ _ => ih))

/-- If besides it leaves its results alone, whatever has been qualified in them since, then a second
rewriting of the tree changes nothing. By induction on the levels: what the first rewriting made of
a node is qualified further below only, and this is what `hsettled` allows for. -/
theorem rewriteDown_rewriteDown (hf : ∀ {t u}, f t = .ok u → t.QualifiesTo u)
    (hsettled : ∀ {t u t'}, f t = .ok u → u.QualifiesTo t' → f t' = .ok t') {n : Nat}
    {t t' : Tree} (h : rewriteDown f n t = .ok t') : rewriteDown f n t' = .ok t' := by
  induction n generalizing t t' with
  | zero => rfl
  | succ n ih =>
      obtain ⟨label, sql, children, children', hu, hchildren, rfl⟩ :=
        rewriteDown_succ_eq_ok_iff.mp h
      have hbelow : List.Forall₂ QualifiesTo children children' :=
        hchildren.imp fun _ _ => qualifiesTo_of_rewriteDown hf
      refine rewriteDown_succ_eq_ok_iff.mpr
        ⟨label, sql, children', children', hsettled hu (.node (.kept ..) hbelow), ?_, rfl⟩
      refine List.forall₂_same.mpr fun c' hc' => ?_
      obtain ⟨c, -, hc⟩ := exists_of_mem_forall₂ hchildren hc'
      exact ih hc

theorem qualifiesTo_of_qualifyBy {know : Knowledge} {defaults : TableDefaults} {t t' : Tree}
    (h : t.qualifyBy know defaults = .ok t') : t.QualifiesTo t' :=
  qualifiesTo_of_rewriteDown Knowledge.qualifiesTo_of_qualifyScope h

/-- **A second pass changes nothing.** The passes go down the same number of levels, since
qualifying leaves the height as it is, and what the first pass has made of a select the second
leaves alone (`Knowledge.qualifyScope_of_qualifiesTo`). -/
theorem qualifyBy_qualifyBy {know : Knowledge} {defaults : TableDefaults} {t t' : Tree}
    (h : t.qualifyBy know defaults = .ok t') : t'.qualifyBy know defaults = .ok t' := by
  rw [qualifyBy, (qualifiesTo_of_qualifyBy h).height_eq]
  exact rewriteDown_rewriteDown Knowledge.qualifiesTo_of_qualifyScope
    Knowledge.qualifyScope_of_qualifiesTo h

end Tree

end QueryLineage
