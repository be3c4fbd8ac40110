import QueryLineage.Proofs.AsciiLetters
import QueryLineage.Proofs.ColumnScopes
import QueryLineage.Proofs.DimensionEdges
import QueryLineage.Proofs.SlotProjections

/-!
# Grouping by an alias

That a grouping column is an alias of the select list is found out twice: by the qualification,
which then leaves the column bare, and by the assembly, which then goes on with the projection. The
one compares names in their lower case, the other ignores the case of ASCII letters. What passes the
second test passes the first (`Tree.isAliased_of_spells`), but not the other way round: the assembly
finds the first projection with the alias only if that passes both
(`Assembly.groupTarget?_eq_some_iff`). It does if the alias and the name are in ASCII.

Nothing but the main select decides a column in its grouping clause, so what is an alias to the
qualification comes to the assembly as it was written (`Analysis.forall₂_groupExprs_of_qualifyBy`).
-/

namespace QueryLineage

namespace Tree

/-! ## Two ways to compare an alias -/

/-- The alias of a projection has the lower case of this name. -/
def isAliased (name : String) (p : Tree) : Bool :=
  p.projectionAlias?.any fun aliasName => Text.lower aliasName = Text.lower name

/-- The alias of a projection is this name, but for the case of ASCII letters. -/
def spells (name : String) (p : Tree) : Bool :=
  p.projectionAlias?.any (Text.eqIgnoringCase · name)

/-- The first projection with an alias of this lower case. -/
def aliasedProjection? (select : Tree) (name : String) : Option Tree :=
  select.projections.find? (isAliased name)

theorem isAliased_of_spells {name : String} {p : Tree} (h : p.spells name = true) :
    p.isAliased name = true := by
  obtain ⟨aliasName, halias, hname⟩ := (Option.any_eq_true ..).mp h
  exact (Option.any_eq_true ..).mpr
    ⟨aliasName, halias, decide_eq_true (Text.lower_eq_of_eqIgnoringCase hname)⟩

theorem spells_of_isAliased {name : String} {p : Tree} (h : p.isAliased name = true)
    (hname : Text.IsAscii name)
    (halias : ∀ aliasName ∈ p.projectionAlias?, Text.IsAscii aliasName) :
    p.spells name = true := by
  obtain ⟨aliasName, hsome, hlower⟩ := (Option.any_eq_true ..).mp h
  exact (Option.any_eq_true ..).mpr ⟨aliasName, hsome,
    (Text.eqIgnoringCase_iff_of_isAscii (halias aliasName hsome) hname).mpr
      (of_decide_eq_true hlower)⟩

/-- The aliases of a select list are those of its projections, so a name is one of them just when a
projection is found for it. -/
theorem lower_mem_projectionAliases_iff {select : Tree} {name : String} :
    Text.lower name ∈ Qualification.projectionAliases select
      ↔ ∃ p, select.aliasedProjection? name = some p := by
  rw [← Option.isSome_iff_exists, aliasedProjection?, List.find?_isSome]
  simp only [Qualification.projectionAliases, List.mem_filterMap, Option.map_eq_some_iff, isAliased,
    Option.any_eq_true, projections, List.mem_filter, decide_eq_true_eq]
  constructor
  · rintro ⟨p, hp, aliasName, halias, hlower⟩
    exact ⟨p, ⟨hp, kind_of_projectionAlias? halias⟩, aliasName, halias, hlower⟩
  · rintro ⟨p, ⟨hp, -⟩, aliasName, halias, hlower⟩
    exact ⟨p, hp, aliasName, halias, hlower⟩

end Tree

/-- A search for something rarer finds what is found first if that is what it looks for. -/
theorem find?_eq_some_iff_of_imp {α : Type} {p q : α → Bool} (h : ∀ a, q a = true → p a = true)
    {l : List α} {a : α} (ha : l.find? p = some a) : l.find? q = some a ↔ q a = true := by
  refine ⟨List.find?_some, fun hq => ?_⟩
  obtain ⟨-, before, after, hl, hbefore⟩ := List.find?_eq_some_iff_append.mp ha
  -- What stands before fails the wider test, and so the narrower one.
  refine List.find?_eq_some_iff_append.mpr ⟨hq, before, after, hl, fun b hb => ?_⟩
  have hother := hbefore b hb
  simp only [Bool.not_eq_true', Bool.eq_false_iff] at hother ⊢
  exact fun hb => hother (h b hb)

namespace Assembly

variable {select expr : Tree} {name : String}

theorem groupTarget?_of_column (hlabel : expr.label = .column [name])
    (hnumber : Text.count? (Text.trim expr.sql) = none) (projections : List Tree) :
    groupTarget? projections expr = projections.find? (Tree.spells name) := by
  rw [groupTarget?, hnumber, hlabel]
  rfl

/-- Of the projections with this alias a grouping column refers to the first, if that spells it.
Spelling a name is the narrower test, so no earlier projection passes it either
(`find?_eq_some_iff_of_imp`). -/
theorem groupTarget?_eq_some_iff (hlabel : expr.label = .column [name])
    (hnumber : Text.count? (Text.trim expr.sql) = none) {p : Tree}
    (hp : select.aliasedProjection? name = some p) :
    groupTarget? select.projections expr = some p ↔ p.spells name = true := by
  rw [groupTarget?_of_column hlabel hnumber]
  exact find?_eq_some_iff_of_imp (fun _ => Tree.isAliased_of_spells) hp

/-- What the assembly takes for an alias is one, as names that differ in the case of ASCII letters
only have the same lower case. -/
theorem lower_mem_projectionAliases_of_groupTarget? (hlabel : expr.label = .column [name])
    (hnumber : Text.count? (Text.trim expr.sql) = none) {p : Tree}
    (hp : groupTarget? select.projections expr = some p) :
    Text.lower name ∈ Qualification.projectionAliases select := by
  rw [groupTarget?_of_column hlabel hnumber] at hp
  rw [Tree.lower_mem_projectionAliases_iff, ← Option.isSome_iff_exists, Tree.aliasedProjection?,
    List.find?_isSome]
  exact ⟨p, List.mem_of_find?_eq_some hp, Tree.isAliased_of_spells (List.find?_some hp)⟩

theorem isDimension_of_target {g : LineageGraph} {projections : List Tree} {p : Tree}
    (hp : groupTarget? projections expr = some p) {source : String} :
    IsDimension g projections expr source
      ↔ source ∈ p.scopeColumns.map Tree.sql ∧ g.HasOfType source .column
        ∨ (∀ column ∈ p.scopeColumns.map Tree.sql, ¬g.HasOfType column .column)
          ∧ p.projectionName? = some source := by
  rw [IsDimension, dimensionColumns, hp, Option.getD_some, Option.bind_some]

theorem isDimension_self_iff {g : LineageGraph} {projections : List Tree}
    (hlabel : expr.label = .column [name]) (hnone : groupTarget? projections expr = none) :
    IsDimension g projections expr expr.sql ↔ g.HasOfType expr.sql .column := by
  have hcolumn : expr ∈ expr.scopeColumns := by
    obtain ⟨label, sql, children⟩ := expr
    obtain rfl : label = .column [name] := hlabel
    simp [Tree.scopeColumns, Tree.findInScope, Tree.scope, Tree.kind, Label.kind]
  have hself : expr.sql ∈ dimensionColumns projections expr := by
    rw [dimensionColumns, hnone]
    exact List.mem_map_of_mem hcolumn
  rw [IsDimension, hnone]
  simp [hself]

end Assembly

/-! ## What the qualification leaves to the assembly -/

namespace Tree

variable {owner : Tree → List Tree → String → Option String}

theorem reachedFrom_child {t : Tree} {above : List Tree} (hkind : t.kind ≠ .select)
    (h : reachedFrom t above = []) (c : Tree) : reachedFrom c (t :: above) = [] := by
  rw [reachedFrom, h, ite_self, if_neg hkind, List.append_nil]

mutual

/-- The main select is qualified where it stands, and no select reaches it. By the cases of
`mainSelect?`, which goes through queries and set operations only, and neither is a select. -/
theorem mainSelect?_withOwners {select : Tree} : ∀ {t : Tree} {above : List Tree},
    t.mainSelect? = some select → reachedFrom t above = [] →
    select.kind = .select ∧ ∃ outer, reachedFrom select outer = []
      ∧ (t.withOwners owner above).mainSelect? = some (select.withOwners owner outer)
  | ⟨label, sql, children⟩, above, h, hreached => by
      have hchildren : label.kind ≠ .select →
          ∀ c ∈ children, reachedFrom c (⟨label, sql, children⟩ :: above) = [] :=
        fun hkind c _ => reachedFrom_child (t := ⟨label, sql, children⟩) hkind hreached c
      cases label with
      | select =>
          obtain rfl := Option.some.inj h
          refine ⟨rfl, above, hreached, ?_⟩
          rw [withOwners_node]
          · rfl
          · exact fun _ => nofun
      | query =>
          rw [withOwners_node]
          · exact mainSelectOfLast?_withOwners h (hchildren nofun)
          · exact fun _ => nofun
      | expr shape =>
          cases shape with
          | setOperation =>
              rw [withOwners_node]
              · exact mainSelectOfFirst?_withOwners h (hchildren nofun)
              · exact fun _ => nofun
          | _ => cases h
      | _ => cases h

theorem mainSelectOfLast?_withOwners {select : Tree} : ∀ {ts : List Tree} {above : List Tree},
    mainSelectOfLast? ts = some select → (∀ c ∈ ts, reachedFrom c above = []) →
    select.kind = .select ∧ ∃ outer, reachedFrom select outer = []
      ∧ mainSelectOfLast? (ts.map (withOwners owner above)) = some (select.withOwners owner outer)
  | [t], _, h, hreached => mainSelect?_withOwners (t := t) h (hreached t List.mem_cons_self)
  | _ :: t :: ts, above, h, hreached => by
      have hrest : ∀ c ∈ t :: ts, reachedFrom c above = [] := fun c hc =>
        hreached c (List.mem_cons_of_mem _ hc)
      have hlast : mainSelectOfLast? (t :: ts) = some select := h
      exact (mainSelectOfLast?_withOwners hlast hrest :)

theorem mainSelectOfFirst?_withOwners {select : Tree} : ∀ {ts : List Tree} {above : List Tree},
    mainSelectOfFirst? ts = some select → (∀ c ∈ ts, reachedFrom c above = []) →
    select.kind = .select ∧ ∃ outer, reachedFrom select outer = []
      ∧ mainSelectOfFirst? (ts.map (withOwners owner above)) = some (select.withOwners owner outer)
  | t :: _, _, h, hreached => mainSelect?_withOwners (t := t) h (hreached t List.mem_cons_self)

end

theorem kind_withOwners (t : Tree) (above : List Tree) :
    (t.withOwners owner above).kind = t.kind := by
  obtain ⟨label, sql, children⟩ := t
  by_cases hbare : ∃ name, label = .column [name]
  · obtain ⟨name, rfl⟩ := hbare
    rw [withOwners_bare]
    split <;> rfl
  · rw [withOwners_node fun name hname => hbare ⟨name, hname⟩]
    rfl

theorem children_withOwners (t : Tree) (above : List Tree) :
    (t.withOwners owner above).children = t.children.map (withOwners owner (t :: above)) := by
  obtain ⟨label, sql, children⟩ := t
  by_cases hbare : ∃ name, label = .column [name]
  · obtain ⟨name, rfl⟩ := hbare
    rw [withOwners_bare]
    split <;> rfl
  · rw [withOwners_node fun name hname => hbare ⟨name, hname⟩]

theorem child?_withOwners (t : Tree) (above : List Tree) (k : Kind) :
    (t.withOwners owner above).child? k
      = (t.child? k).map (withOwners owner (t :: above)) := by
  rw [child?, child?, children_withOwners, List.find?_map]
  simp only [Function.comp_def, kind_withOwners]

theorem withOwners_of_none {expr : Tree} {above : List Tree} {name : String}
    (hlabel : expr.label = .column [name]) (hnone : owner expr above name = none) :
    (expr.withOwners owner above).label = expr.label
      ∧ (expr.withOwners owner above).sql = expr.sql := by
  obtain ⟨label, sql, children⟩ := expr
  obtain rfl : label = .column [name] := hlabel
  rw [withOwners_bare, hnone]
  exact ⟨rfl, rfl⟩

end Tree

namespace Qualification.Knowledge

open QueryLineage.Tree

theorem ruling?_of_alias (know : Knowledge) (defaults : TableDefaults) {select child : Tree}
    {name : String} (hchild : child.kind ≠ .projection)
    (halias : Text.lower name ∈ projectionAliases select) :
    know.ruling? defaults select child name = none := by
  refine Option.eq_none_iff_forall_ne_some.mpr fun q hq => ?_
  rcases (ruling?_eq_some_iff.mp hq).1 with hprojection | hother
  · exact hchild hprojection
  · exact hother halias

theorem reachedFrom_groupExpr {select group expr : Tree} {above : List Tree}
    (hselect : select.kind = .select) (hreached : reachedFrom select above = [])
    (hgroup : group.kind = .groupClause) (hexpr : expr.kind = .column) :
    reachedFrom expr (group :: select :: above) = [(select, group)] := by
  have hquery : ∀ {t : Tree}, t.kind ≠ .query → t.label ≠ .query := fun hkind hlabel =>
    hkind (congrArg Label.kind hlabel)
  have hexprQuery : expr.label ≠ .query := hquery (by simp [hexpr])
  have hgroupQuery : group.label ≠ .query := hquery (by simp [hgroup])
  simp [reachedFrom, hselect, hreached, hgroup, hexprQuery, hgroupQuery]

end Qualification.Knowledge

namespace Analysis

open Qualification Assembly QueryLineage.Tree

variable {σ : Type}

/-- The tree stays as it is, or is qualified by some knowledge: without qualification asked for, or
where the knowledge does not go through, it is as it was read. -/
theorem qualified_cases (o : LineageOptions) (provider : Option (Provider σ)) (root : Tree)
    (s : σ) :
    ((qualified o provider root).run s).1.1 = root
      ∨ ∃ know : Knowledge,
        root.qualifyBy know o.defaults = .ok ((qualified o provider root).run s).1.1 := by
  unfold qualified
  split
  · obtain ⟨know, hknow⟩ := root.exists_qualify_eq o.defaults provider s
    rw [StateT.run_bind]
    generalize (root.qualify o.defaults provider).run s = found at hknow ⊢
    obtain ⟨e | tree, after⟩ := found
    · exact .inl rfl
    · exact .inr ⟨know, hknow.symm⟩
  · exact .inl rfl

/-- A grouping column that is an alias of the main select comes out as it was written. The main
select is the only one to decide there, and outside its select list it passes over its aliases. -/
theorem forall₂_groupExprs_of_qualifyBy {know : Knowledge} {defaults : TableDefaults}
    {root tree written : Tree} (h : root.qualifyBy know defaults = .ok tree)
    (hwritten : root.mainSelect? = some written) :
    ∃ select, tree.mainSelect? = some select ∧ written.QualifiesTo select
      ∧ List.Forall₂ (fun expr expr' => ∀ name, expr.label = .column [name] →
          Text.lower name ∈ projectionAliases written →
          expr'.label = expr.label ∧ expr'.sql = expr.sql)
        (groupExprs written) (groupExprs select) := by
  have hmain := (qualifiesTo_of_qualifyBy h).mainSelect?
  let owner := fun u above => know.firstRuling? defaults (reachedFrom u above)
  obtain ⟨hselect, outer, houter, hfound⟩ : written.kind = .select ∧ ∃ outer,
      reachedFrom written outer = []
        ∧ (root.withOwners owner []).mainSelect? = some (written.withOwners owner outer) :=
    mainSelect?_withOwners hwritten rfl
  rw [eq_withOwners_of_qualifyBy h, hwritten, hfound] at hmain
  refine ⟨written.withOwners owner outer, eq_withOwners_of_qualifyBy h ▸ hfound, ?_, ?_⟩
  · cases hmain with
    | some hpair => exact hpair
  · rw [groupExprs, groupExprs, child?_withOwners]
    cases hgroup : written.child? .groupClause with
    | none => exact .nil
    | some group =>
        have hkind : group.kind = .groupClause := by
          simpa using List.find?_some hgroup
        simp only [Option.map_some, Option.getD_some, children_withOwners]
        refine List.forall₂_map_right_iff.mpr (List.forall₂_same.mpr ?_)
        intro expr _ name hlabel halias
        -- The main select alone has a say here, and it passes over its aliases.
        refine withOwners_of_none hlabel ?_
        have hcolumn : expr.kind = .column := congrArg Label.kind hlabel
        have hruling : know.ruling? defaults written group name = none :=
          know.ruling?_of_alias defaults (by simp [hkind]) halias
        simp only [owner, Knowledge.reachedFrom_groupExpr hselect houter hkind hcolumn,
          Knowledge.firstRuling?, List.findSome?_singleton, hruling]

end Analysis

namespace ColumnLineage

theorem mem_outputs_ofTree {root select p : Tree} {name : String}
    (hselect : root.mainSelect? = some select) (hp : p ∈ select.projections)
    (hname : p.projectionName? = some name) (joins : List JoinRecord) :
    name ∈ (ofTree root joins).outputs := by
  have hprojection : (name, p) ∈ namedProjections root := by
    rw [namedProjections, hselect]
    exact List.mem_filterMap.mpr ⟨p, hp, by rw [hname, Option.map_some]⟩
  exact List.mem_eraseDups.mpr (List.mem_map_of_mem hprojection)

end ColumnLineage

namespace Assembly

theorem isDimension_congr {g g' : LineageGraph}
    (h : ∀ id, g'.HasOfType id .column ↔ g.HasOfType id .column) {projections : List Tree}
    {expr : Tree} {source : String} :
    IsDimension g' projections expr source ↔ IsDimension g projections expr source := by
  simp only [IsDimension, h]

end Assembly

namespace Analysis

open Qualification Assembly QueryLineage.Tree

variable {σ : Type}

/-- **Grouping by an alias.** The dimensions of the graph are those of the grouping expressions of
the main select, one for each column of what the expression refers to. A grouping column whose name
has the lower case of an alias comes to the assembly as it was written. There it refers to the first
projection with this alias if, and only if, the alias is the name but for the case of ASCII letters;
if both are in ASCII, it does. Then its dimensions are the columns of the projection, or the output
of one without columns. No other name refers to a projection; and a column that refers to none is a
dimension itself, if there is a column under its text. The first part is `mem_edges_dimension_iff`,
as decorating changes neither the edges nor the type of a node; the second is by the two ways the
qualification goes, and the third looks at the search for the projection. -/
theorem dimensions_of_aliases (o : LineageOptions) (provider : Option (Provider σ))
    (timestamp : String) (root : Tree) (s : σ) :
    let tree := ((qualified o provider root).run s).1.1
    let a := ((ofTree o provider timestamp root).run s).1
    (∀ source target, ⟨source, target, .dimension⟩ ∈ a.graph.edges
        ↔ target = kpiId ∧ ∃ select ∈ tree.mainSelect?, ∃ expr ∈ groupExprs select,
          IsDimension a.graph select.projections expr source)
      ∧ (∀ written ∈ root.mainSelect?, ∃ select ∈ tree.mainSelect?,
        projectionAliases select = projectionAliases written
          ∧ List.Forall₂ (fun expr expr' => ∀ name, expr.label = .column [name] →
              Text.lower name ∈ projectionAliases written →
              expr'.label = expr.label ∧ expr'.sql = expr.sql)
            (groupExprs written) (groupExprs select))
      ∧ ∀ select ∈ tree.mainSelect?, ∀ expr ∈ groupExprs select, ∀ name,
        expr.label = .column [name] → Text.count? (Text.trim expr.sql) = none →
        let target := groupTarget? select.projections expr
        (Text.lower name ∈ projectionAliases select →
            ∃ p, select.aliasedProjection? name = some p
              ∧ (target = some p ↔ p.spells name = true)
              ∧ (Text.IsAscii name → (∀ aliasName ∈ p.projectionAlias?, Text.IsAscii aliasName) →
                target = some p))
          ∧ (∀ p, target = some p → Text.lower name ∈ projectionAliases select
            ∧ ∀ source, IsDimension a.graph select.projections expr source
              ↔ source ∈ p.scopeColumns.map Tree.sql ∧ a.graph.HasOfType source .column
                ∨ (∀ column ∈ p.scopeColumns.map Tree.sql, ¬a.graph.HasOfType column .column)
                  ∧ p.projectionName? = some source)
          ∧ (target = none →
            (IsDimension a.graph select.projections expr expr.sql
              ↔ a.graph.HasOfType expr.sql .column)) := by
  rw [run_ofTree]
  intro tree a
  let i := input o timestamp root tree
  have hnodes : List.Forall₂ GraphNode.Decorates (assembleGraph i).nodes a.graph.nodes :=
    forall₂_decorated .refl .decorate provider _ _
  have hedges : a.graph.edges = (Assembly.build i).edges := edges_decorated provider _ _
  refine ⟨fun source target => ?_, fun written hwritten => ?_, ?_⟩
  · have hdimensions : ⟨source, target, .dimension⟩ ∈ (build i).edges
        ↔ target = kpiId ∧ ∃ select ∈ tree.mainSelect?, ∃ expr ∈ groupExprs select,
          IsDimension (assembleGraph i) select.projections expr source :=
      mem_edges_dimension_iff fun select hselect p hp name hname =>
        ColumnLineage.mem_outputs_ofTree hselect hp hname i.joins
    rw [hedges, hdimensions]
    simp only [isDimension_congr fun id => GraphNode.Decorates.hasOfType_iff hnodes id .column]
  · rcases qualified_cases o provider root s with hroot | ⟨know, hknow⟩
    · have hselect : tree.mainSelect? = some written := (congrArg mainSelect? hroot).trans hwritten
      exact ⟨written, hselect, rfl, List.forall₂_same.mpr fun _ _ _ _ _ => ⟨rfl, rfl⟩⟩
    · obtain ⟨select, hselect, hpair, hgroups⟩ := forall₂_groupExprs_of_qualifyBy hknow hwritten
      exact ⟨select, hselect, projectionAliases_eq hpair, hgroups⟩
  · intro select _ expr _ name hlabel hnumber target
    refine ⟨fun halias => ?_, fun p hp => ?_, isDimension_self_iff hlabel⟩
    · obtain ⟨p, hp⟩ := lower_mem_projectionAliases_iff.mp halias
      have hrefers := groupTarget?_eq_some_iff hlabel hnumber hp
      refine ⟨p, hp, hrefers, fun hname hascii => hrefers.mpr ?_⟩
      exact spells_of_isAliased (List.find?_some hp) hname hascii
    · exact ⟨lower_mem_projectionAliases_of_groupTarget? hlabel hnumber hp,
        fun source => isDimension_of_target hp⟩

example :
    (({ sql := "SELECT LOWER(o.region) AS lbl FROM o GROUP BY LBL" } : LineageRequest).tree.map
      fun root =>
        let a := ((ofTree (.ofConfig {}) (none : Option (Provider Unit)) "" root.1).run ()).1
        a.graph.edgesOfKind .dimension).toOption
      = some [⟨"o.region", "kpi", .dimension⟩] := by
  decide +kernel

/-- The alias and the name of the grouping column differ in the case of a letter outside of ASCII:
the column stays bare, and then it is a column of its own. -/
theorem dimensions_of_accentedAlias :
    (({ sql := "SELECT a AS `É` FROM t GROUP BY `é`" } : LineageRequest).tree.map fun root =>
      let tree := ((qualified (.ofConfig {}) (none : Option (Provider Unit)) root.1).run ()).1.1
      let a := ((ofTree (.ofConfig {}) (none : Option (Provider Unit)) "" root.1).run ()).1
      (tree.mainSelect?.toList.flatMap fun select => (groupExprs select).map fun expr =>
          (expr.label, projectionAliases select,
            (groupTarget? select.projections expr).map Tree.sql),
        a.graph.edgesOfKind .dimension, (a.graph.nodesOfType .column).map GraphNode.id)).toOption
      = some ([(.column ["é"], ["é"], none)], [⟨"`é`", "kpi", .dimension⟩], ["t.a", "`é`"]) := by
  decide +kernel

end Analysis

end QueryLineage
