import QueryLineage.Proofs.AnalysisRuns
import QueryLineage.Proofs.QualificationRuns

/-!
# What a report takes from its provider

A report depends on the metadata that its provider has, and on nothing else about it: not on why the
provider has none of some table, not on its state, nor on whether there is a provider where none has
anything to say (`LineageRequest.report_depends_on_metadata`). For `Analysis.ofTreeBy` does the
whole analysis by known metadata without asking, and every run comes to it for what its provider
offers (`Analysis.run_ofTree_of_offers`).
-/

namespace QueryLineage

variable {σ τ : Type}

namespace Provider

/-- The two have the same metadata. Where they have none, each may have reasons of its own. -/
def AgreesWith (p : Provider σ) (q : Provider τ) : Prop :=
  ∀ key s t, ((p key).run s).1.toOption = ((q key).run t).1.toOption

/-- The provider has this metadata, or there is neither a provider nor metadata. -/
def Offers (f : TableKey → Option TableMetadata) : Option (Provider σ) → Prop
  | some p => p.Has f
  | none => ∀ key, f key = none

/-- Any answer of one of two providers that agree tells what both of them have. What one has in any
state the other has in every state, so what either has does not depend on its own. -/
theorem AgreesWith.exists_offers {p : Provider σ} {q : Provider τ} (h : p.AgreesWith q) (s : σ)
    (t : τ) : ∃ f, Offers f (some p) ∧ Offers f (some q) :=
  ⟨fun key => ((q key).run t).1.toOption, fun key s => h key s t,
    fun key t' => (h key s t').symm.trans (h key s t)⟩

end Provider

open Provider

/-! ## Qualifying -/

namespace Qualification

theorem run_qualify_of_offers {f : TableKey → Option TableMetadata}
    {provider : Option (Provider σ)} (h : Offers f provider) (defaults : TableDefaults) (t : Tree)
    (s : σ) :
    ((t.qualify defaults provider).run s).1
      = t.qualifyBy (knownBy TableKey.ofName? f) defaults := by
  cases provider with
  | some p =>
      refine Tree.run_qualify (fun p' hp table s => ?_)
        (fun h => absurd h (Option.some_ne_none p)) t s
      obtain rfl := Option.some.inj hp
      rw [ask_eq_metadata?]
      exact Has.run_metadata? h TableKey.ofName? table s
  | none =>
      exact Tree.run_qualify (fun p hp => absurd hp (Option.not_mem_none p))
        (fun _ => knownBy_of_unknown TableKey.ofName? h) t s

end Qualification

namespace Analysis

open Qualification Enrichment

/-! ## Analysing by known metadata -/

variable {f : TableKey → Option TableMetadata} {provider : Option (Provider σ)}

/-- The tree with its columns qualified by what is known; the tree itself, and why, if that cannot
be. -/
def qualifiedBy (f : TableKey → Option TableMetadata) (o : LineageOptions) (root : Tree) :
    Tree × Option UnusableRelation :=
  if o.qualifyColumns then
    match root.qualifyBy (knownBy TableKey.ofName? f) o.defaults with
    | .ok tree => (tree, none)
    | .error e => (root, some e)
  else (root, none)

/-- The analysis of a tree by known metadata. -/
def ofTreeBy (f : TableKey → Option TableMetadata) (o : LineageOptions) (timestamp : String)
    (root : Tree) : Analysis :=
  let found := qualifiedBy f o root
  let i := input o timestamp root found.1
  ofInput o root found.2 i ((assembleGraph i).decorateBy (knownBy keyOfText? f))

theorem run_qualified (h : Offers f provider) (o : LineageOptions) (root : Tree) (s : σ) :
    ((qualified o provider root).run s).1 = qualifiedBy f o root := by
  rw [qualified, qualifiedBy]
  split
  · rw [StateT.run_bind, ← run_qualify_of_offers h o.defaults root s]
    rcases (root.qualify o.defaults provider).run s with ⟨e | tree, after⟩ <;> rfl
  · rfl

theorem run_decorated (h : Offers f provider) (g : LineageGraph) (s : σ) :
    ((decorated provider g).run s).1 = g.decorateBy (knownBy keyOfText? f) := by
  cases provider with
  | some p => exact LineageGraph.run_enrich h g s
  | none => exact (LineageGraph.decorateBy_of_unknown (knownBy_of_unknown keyOfText? h) g).symm

theorem run_ofTree_of_offers (h : Offers f provider) (o : LineageOptions) (timestamp : String)
    (root : Tree) (s : σ) :
    ((ofTree o provider timestamp root).run s).1 = ofTreeBy f o timestamp root := by
  rw [run_ofTree, ofTreeBy]
  simp only [run_qualified h, run_decorated h]

end Analysis

/-! ## Reports -/

namespace LineageRequest

/-- Whatever their states, providers that offer the same have the same report. -/
theorem run_report_eq {f : TableKey → Option TableMetadata} {provider : Option (Provider σ)}
    {provider' : Option (Provider τ)} (h : Offers f provider) (h' : Offers f provider')
    (o : LineageOptions) (timestamp : String) (r : LineageRequest) (s : σ) (t : τ) :
    ((r.report o provider timestamp).run s).1 = ((r.report o provider' timestamp).run t).1 := by
  rw [report, report]
  cases r.tree with
  | error e => rfl
  | ok found =>
      have hanalysis := (Analysis.run_ofTree_of_offers h o timestamp found.1 s).trans
        (Analysis.run_ofTree_of_offers h' o timestamp found.1 t).symm
      exact congrArg (fun a => Except.ok (a.report, found.2 ++ a.relations.ctes.notices)) hanalysis

/-- **A report depends on the metadata alone.** Two providers that both have the same metadata of a
table, or both have none of it for whatever reasons, have the same report of every request; and one
that has none of any table has the report there is without a provider. All these are runs with
providers that offer the same (`Offers`), of which having no provider is the one that offers
nothing; and every such run is one function of what is offered. -/
theorem report_depends_on_metadata (o : LineageOptions) (timestamp : String)
    (r : LineageRequest) :
    (∀ (p : Provider σ) (q : Provider τ), p.AgreesWith q → ∀ s t,
        ((r.report o (some p) timestamp).run s).1 = ((r.report o (some q) timestamp).run t).1)
      ∧ ∀ p : Provider σ, (∀ key s, ∃ e, ((p key).run s).1 = .error e) → ∀ s t,
        ((r.report o (some p) timestamp).run s).1
          = ((r.report o (none : Option (Provider τ)) timestamp).run t).1 := by
  constructor
  · intro p q h s t
    obtain ⟨f, hp, hq⟩ := h.exists_offers s t
    exact run_report_eq hp hq o timestamp r s t
  · intro p h s t
    have hp : Offers (fun _ => none) (some p) := fun key s => by
      obtain ⟨e, he⟩ := h key s
      rw [he]
      rfl
    have hnobody : Offers (fun _ => none) (none : Option (Provider τ)) := fun _ => rfl
    exact run_report_eq hp hnobody o timestamp r s t

/-- Has what `Tree.itemsProvider` has, and else tells how often it was asked. -/
def countingProvider : Provider Nat := fun key n =>
  (((Tree.itemsProvider key).run ()).1.mapError fun _ => .unavailable s!"asked {n} times", n + 1)

/-- Has nothing, and tells how often it was asked. -/
def failingProvider : Provider Nat := fun _ n => (.error (.unavailable s!"asked {n} times"), n + 1)

/-- A select of a column that one of two tables has. -/
def orderedQuantities : LineageRequest where
  sql := "SELECT qty FROM p.d.orders o JOIN p.d.items i ON id = order_id"

/-- The column is traced to its table with both providers that have it, and neither with one that
has nothing nor without any. -/
theorem report_orderedQuantities :
    let known := ((orderedQuantities.report (.ofConfig {}) (some Tree.itemsProvider) "").run ()).1
    let unknown := ((orderedQuantities.report (.ofConfig {}) (some failingProvider) "").run 2).1
    Tree.itemsProvider.AgreesWith countingProvider
      ∧ known = ((orderedQuantities.report (.ofConfig {}) (some countingProvider) "").run 5).1
      ∧ unknown
        = ((orderedQuantities.report (.ofConfig {}) (none : Option (Provider Unit)) "").run ()).1
      ∧ known.toOption.map (fun r => r.1.graph.node? "i.qty")
        = some (some ⟨"i.qty", "qty", .column (some "p.d.items") (some "INT64") none false⟩)
      ∧ unknown.toOption.map (fun r => r.1.graph.node? "i.qty") = some none := by
  intro known unknown
  have hagree : Tree.itemsProvider.AgreesWith countingProvider := by
    intro key s t
    change _ = (Except.mapError _ ((Tree.itemsProvider key).run s).1).toOption
    cases ((Tree.itemsProvider key).run s).1 <;> rfl
  exact ⟨hagree, (report_depends_on_metadata ..).1 _ _ hagree () 5,
    (report_depends_on_metadata ..).2 _ (fun _ _ => ⟨_, rfl⟩) 2 (), by decide +kernel,
    by decide +kernel⟩

end LineageRequest

end QueryLineage
