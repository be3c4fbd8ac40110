import QueryLineage.Proofs.AliasPrecedence
import QueryLineage.Proofs.SourceGrounding

/-!
# What an alias stands for

Under each name the alias map of a statement holds the first of all relations that answer to it
(`find?_aliases`). Here that is said without the list of answers: by the last reference that is
given the name, by the expression of that name, and by the least source of that short name, each
where those before it have nothing to offer (`relation?_eq_some_iff`).
-/

namespace QueryLineage

/-! ## Targets -/

/-- The expression `k` has the target `r`: the only table it reads, or else itself, if it has a
name that is not blank. -/
def ResolvedCtes.HasTarget (ctes : ResolvedCtes) (k : String) (r : Relation) : Prop :=
  ∃ cte, ctes.find? k = some cte
    ∧ ((∃ t, cte.bases.toList = [t] ∧ r = .table t)
      ∨ cte.bases.size ≠ 1 ∧ ∃ name, cte.name = some name ∧ r = .cte name)

namespace Relations

variable {defaults : TableDefaults} {root : Tree} {key : String} {r : Relation}

/-- The reference is given the name `key` and its path has the target `r`: that of the expression
it names, or the table where it names none. -/
def Gives (rs : Relations) (key : String) (ref : TableRef) (r : Relation) : Prop :=
  (∃ aliasName, ref.aliasName = some aliasName ∧ Text.lower aliasName = Text.lower key)
    ∧ ((∃ name, ref.path = [name] ∧ rs.ctes.HasTarget (Text.lower name) r)
      ∨ (∀ name, ref.path = [name] → rs.ctes.hasKey (Text.lower name) = false)
        ∧ ∃ t, TableName.ofSegments ref.path = .ok t
          ∧ r = .table (t.qualify rs.defaults.project rs.defaults.dataset))

/-- The source is the least of those with the short name `key`. -/
def IsLeastShort (rs : Relations) (key : String) (t : TableName) : Prop :=
  (t ∈ rs.sources.toList ∧ Text.lower t.shortName = Text.lower key)
    ∧ ∀ other ∈ rs.sources.toList, Text.lower other.shortName = Text.lower key →
      t.text ≤ other.text

theorem relation?_eq_some_iff_hasTarget {ctes : ResolvedCtes} {name : String} :
    ctes.relation? name = some r ↔ ctes.HasTarget (Text.lower name) r := by
  cases hnamed : ctes.named? name with
  | none =>
      have hfound : ctes.find? (Text.lower name) = none := hnamed
      simp [ResolvedCtes.HasTarget, hfound, ResolvedCtes.relation?, ResolvedCtes.singleBase?,
        ResolvedCtes.bases?, ResolvedCtes.spelling?, hnamed]
  | some cte =>
      have hfound : ctes.find? (Text.lower name) = some cte := hnamed
      rw [relation?_of_named? hnamed, ResolvedCtes.HasTarget]
      simp only [hfound, Option.some.injEq, exists_eq_left', SortedBy.size]
      rcases cte.bases.toList with _ | ⟨t, _ | ⟨u, rest⟩⟩ <;> simp [eq_comm]

theorem relationOfPath?_eq_some_iff {ctes : ResolvedCtes} {path : List String} :
    ctes.relationOfPath? defaults path = some r
      ↔ (∃ name, path = [name] ∧ ctes.HasTarget (Text.lower name) r)
        ∨ (∀ name, path = [name] → ctes.hasKey (Text.lower name) = false)
          ∧ ∃ t, TableName.ofSegments path = .ok t
            ∧ r = .table (t.qualify defaults.project defaults.dataset) := by
  rw [ResolvedCtes.relationOfPath?]
  cases hkey : ResolvedCtes.keyOf? ctes path with
  | some key =>
      obtain ⟨name, rfl, rfl, hhas⟩ := ResolvedCtes.keyOf?_eq_some_iff.mp hkey
      simp [relation?_eq_some_iff_hasTarget, Text.lower_lower, hhas]
  | none =>
      have hno : ∀ name, path = [name] → ctes.hasKey (Text.lower name) = false := by
        rintro name rfl
        simpa [ResolvedCtes.keyOf?] using hkey
      have htarget : ¬∃ name, path = [name] ∧ ctes.HasTarget (Text.lower name) r := by
        rintro ⟨name, hpath, cte, hfound, -⟩
        have hhas := Dict.hasKey_iff_find?.mpr ⟨cte, hfound⟩
        rw [hno name hpath] at hhas
        cases hhas
      rw [or_iff_right htarget, and_iff_right hno]
      dsimp only
      rw [TableDefaults.resolve]
      cases TableName.ofSegments path <;> simp [eq_comm]

theorem gives_iff {rs : Relations} {ref : TableRef} :
    rs.Gives key ref r ↔ ref.aliasName.map Text.lower = some (Text.lower key)
      ∧ rs.ctes.relationOfPath? rs.defaults ref.path = some r := by
  rw [Gives, relationOfPath?_eq_some_iff, Option.map_eq_some_iff]

/-! ## The first of the answers -/

/-- The last of the references that are given the name decides, those without a target aside. The
references are gone through from the last one, and the first answer counts. -/
theorem head?_givenAnswers {rs : Relations} {refs : List TableRef} :
    ((refs.reverse.filter fun ref => ref.aliasName.map Text.lower = some (Text.lower key)).filterMap
        fun ref => rs.ctes.relationOfPath? rs.defaults ref.path).head? = some r
      ↔ ∃ before ref after, refs = before ++ ref :: after ∧ rs.Gives key ref r
        ∧ ∀ later ∈ after, ∀ other, ¬rs.Gives key later other := by
  simp only [List.filterMap_filter, List.head?_filterMap, List.findSome?_eq_some_iff,
    decide_eq_true_eq, Option.ite_none_right_eq_some, Option.eq_none_iff_forall_ne_some, ne_eq,
    ← gives_iff]
  constructor
  · rintro ⟨after, ref, before, hrefs, hgives, hlater⟩
    refine ⟨before.reverse, ref, after.reverse, ?_, hgives, ?_⟩
    · simpa using List.reverse_eq_append_iff.mp hrefs
    · simpa using hlater
  · rintro ⟨before, ref, after, rfl, hgives, hlater⟩
    exact ⟨after.reverse, ref, before.reverse, by simp, hgives, by simpa using hlater⟩

theorem head?_shortAnswers {sources : TableName.Set} {k : String} :
    ((sources.toList.filter fun t => Text.lower t.shortName = k).map Relation.table).head? = some r
      ↔ ∃ t, r = .table t ∧ (t ∈ sources.toList ∧ Text.lower t.shortName = k)
        ∧ ∀ other ∈ sources.toList, Text.lower other.shortName = k → t.text ≤ other.text := by
  simp only [List.head?_map, List.head?_filter, Option.map_eq_some_iff,
    SortedBy.find?_toList_eq_some_iff, decide_eq_true_eq, eq_comm (a := r), and_comm]

theorem givenAnswers_eq_nil {rs : Relations} {refs : List TableRef} :
    ((refs.reverse.filter fun ref => ref.aliasName.map Text.lower = some (Text.lower key)).filterMap
        fun ref => rs.ctes.relationOfPath? rs.defaults ref.path) = []
      ↔ ∀ ref ∈ refs, ∀ other, ¬rs.Gives key ref other := by
  simp only [List.filterMap_filter, List.filterMap_eq_nil_iff, decide_eq_true_eq, List.mem_reverse,
    Option.eq_none_iff_forall_ne_some, ne_eq, Option.ite_none_right_eq_some, ← gives_iff]

theorem ownAnswer_eq_some_iff {ctes : ResolvedCtes} :
    (if ctes.hasKey (Text.lower key) then ctes.relation? (Text.lower key) else none) = some r
      ↔ ctes.HasTarget (Text.lower key) r := by
  rw [Option.ite_none_right_eq_some, relation?_eq_some_iff_hasTarget, Text.lower_lower,
    and_iff_right_iff_imp]
  rintro ⟨cte, hfound, -⟩
  exact Dict.hasKey_iff_find?.mpr ⟨cte, hfound⟩

/-- **What an alias stands for.** The last reference that is given the name, of those with a target,
decides; if there is none, the expression of that name, if it has a target; if it has none, the
least source of that short name; and if there is none, the name stands for nothing. By
`find?_aliases` the map holds the first of the answers, and these come in three parts; each part is
told by its own lemma. -/
theorem aliases_stand_for (defaults : TableDefaults) (root : Tree) (key : String) :
    let rs := ofTree defaults root
    (∀ r, rs.aliases.relation? key = some r
      ↔ (∃ before ref after, root.tableRefs = before ++ ref :: after ∧ rs.Gives key ref r
          ∧ ∀ later ∈ after, ∀ other, ¬rs.Gives key later other)
        ∨ (∀ ref ∈ root.tableRefs, ∀ other, ¬rs.Gives key ref other)
          ∧ (rs.ctes.HasTarget (Text.lower key) r
            ∨ (∀ other, ¬rs.ctes.HasTarget (Text.lower key) other)
              ∧ ∃ t, r = .table t ∧ rs.IsLeastShort key t))
      ∧ (rs.aliases.relation? key = none
        ↔ (∀ ref ∈ root.tableRefs, ∀ other, ¬rs.Gives key ref other)
          ∧ (∀ other, ¬rs.ctes.HasTarget (Text.lower key) other)
          ∧ ∀ t ∈ rs.sources.toList, Text.lower t.shortName ≠ Text.lower key) := by
  intro rs
  have hmap : rs.aliases.relation? key = (rs.answers root key).head? :=
    find?_aliases defaults root key
  have hown : (if rs.ctes.hasKey (Text.lower key) then rs.ctes.relation? (Text.lower key) else none)
      = none ↔ ∀ other, ¬rs.ctes.HasTarget (Text.lower key) other := by
    simp only [Option.eq_none_iff_forall_ne_some, ne_eq, ownAnswer_eq_some_iff]
  rw [hmap, answers, List.append_assoc, List.head?_append, List.head?_append, Option.head?_toList]
  constructor
  · intro r
    rw [Option.or_eq_some_iff, Option.or_eq_some_iff, head?_givenAnswers, List.head?_eq_none_iff,
      givenAnswers_eq_nil, ownAnswer_eq_some_iff, hown, head?_shortAnswers]
    exact Iff.rfl
  · rw [Option.or_eq_none_iff, Option.or_eq_none_iff, List.head?_eq_none_iff, givenAnswers_eq_nil,
      hown, List.head?_eq_none_iff, List.map_eq_nil_iff, List.filter_eq_nil_iff]
    simp only [decide_eq_true_eq, ne_eq]

end Relations

end QueryLineage
