import Mathlib.Data.List.Perm.Subperm
import Mathlib.Logic.Function.Iterate
import Mathlib.Logic.Relation
import QueryLineage.Proofs.CteDefinitions

/-!
# What a common table expression reads

The expansion works on the tables of all expressions at once and in place; what it comes to is said
here by reachability. A sweep is sound step by step: whatever relation between expressions and
tables holds before it and passes along references holds after it (`of_has_sweep`). A sweep that
reports nothing new has found the tables closed under references (`closed_of_quiet`), which gives
completeness along any path, cycles included. `expand_eq_iterate` says which sweeps the expansion is
made of, and carries both through; `reads_iff_reaches` puts them together for the expressions of a
statement.
-/

namespace QueryLineage

open Relation (ReflTransGen)

namespace BaseTables

/-! ## One expression absorbs what it refers to -/

theorem hasKey_absorb (bases : BaseTables) (k j : String) (refs : TextSet) :
    (bases.absorb k refs).1.hasKey j = bases.hasKey j := by
  rw [Bool.eq_iff_iff]
  cases hown : bases.find? k with
  | none => simp [absorb, hown]
  | some own =>
      simp only [absorb, hown, Dict.hasKey_put]
      refine or_iff_right_of_imp ?_
      rintro rfl
      exact Dict.hasKey_iff_find?.mpr ⟨own, hown⟩

/-- An expression that gains nothing in number gains nothing: what it had is among what it has now,
and two sets of one size of which one is in the other are the same. -/
theorem has_of_has_absorb_of_quiet {bases : BaseTables} {k j : String} {refs : TextSet}
    {t : TableName} (hquiet : (bases.absorb k refs).2 = false)
    (h : (bases.absorb k refs).1.Has j t) : bases.Has j t := by
  cases hown : bases.find? k with
  | none => simpa [absorb, hown] using h
  | some own =>
      simp only [absorb, hown, ne_eq, decide_eq_false_iff_not, not_not] at hquiet h
      obtain ⟨found, hfound, ht⟩ := h
      rw [Dict.find?_put] at hfound
      split at hfound
      · rename_i hj
        subst hj
        obtain rfl := Option.some.inj hfound
        have hsub : own.toList ⊆ (own.union (bases.incoming refs)).toList := fun x hx =>
          (SortedBy.mem_union TableName.text_injective).mpr (.inl hx)
        -- What it had is among what it has now, and that is no more, so the two are the same.
        have hsubperm := List.subperm_of_subset own.nodup_toList hsub
        have hperm := hsubperm.perm_of_length_le (Nat.le_of_eq hquiet)
        exact ⟨own, hown, hperm.mem_iff.mpr ht⟩
      · exact ⟨found, hfound, ht⟩

/-! ## One sweep -/

theorem has_sweep_of_has (l : List (String × TextSet)) {bases : BaseTables} {k : String}
    {t : TableName} (h : bases.Has k t) : (sweep l bases).1.Has k t := by
  induction l generalizing bases with
  | nil => exact h
  | cons e rest ih => exact ih (has_absorb.mpr (.inl h))

/-- **Soundness of a sweep.** What holds of every expression and its tables beforehand, and passes
from an expression to those that refer to it, holds afterwards. By induction on the expressions
still to be swept, for whatever tables they start from. -/
theorem of_has_sweep {P : String → TableName → Prop} {l : List (String × TextSet)}
    (hpass : ∀ e ∈ l, ∀ r ∈ e.2.toList, ∀ t, P r t → P e.1 t) {bases : BaseTables}
    (hbases : ∀ k t, bases.Has k t → P k t) {k : String} {t : TableName}
    (h : (sweep l bases).1.Has k t) : P k t := by
  induction l generalizing bases with
  | nil => exact hbases k t h
  | cons e rest ih =>
      refine ih (fun e' he' => hpass e' (List.mem_cons_of_mem e he')) ?_ h
      intro j s hj
      rcases has_absorb.mp hj with hold | ⟨rfl, -, r, hr, hs⟩
      · exact hbases j s hold
      · exact hpass e List.mem_cons_self r hr s (hbases r s hs)

theorem quiet_cons {e : String × TextSet} {rest : List (String × TextSet)} {bases : BaseTables}
    (hquiet : (sweep (e :: rest) bases).2 = false) :
    (bases.absorb e.1 e.2).2 = false ∧ (sweep rest (bases.absorb e.1 e.2).1).2 = false :=
  Bool.or_eq_false_iff.mp hquiet

theorem has_of_has_sweep_of_quiet {l : List (String × TextSet)} {bases : BaseTables}
    (hquiet : (sweep l bases).2 = false) {k : String} {t : TableName}
    (h : (sweep l bases).1.Has k t) : bases.Has k t := by
  induction l generalizing bases with
  | nil => exact h
  | cons e rest ih =>
      obtain ⟨here, later⟩ := quiet_cons hquiet
      exact has_of_has_absorb_of_quiet here (ih later h)

/-- **Completeness of a quiet sweep.** Where a sweep brings nothing new, every expression in it had
the tables of what it refers to already. At the expression itself nothing is gained; and as nothing
is gained anywhere else, what it has there it had at the start. -/
theorem closed_of_quiet {l : List (String × TextSet)} {bases : BaseTables}
    (hquiet : (sweep l bases).2 = false) {e : String × TextSet} (he : e ∈ l)
    (hkey : bases.hasKey e.1 = true) {r : String} (hr : r ∈ e.2.toList) {t : TableName}
    (h : bases.Has r t) : bases.Has e.1 t := by
  induction l generalizing bases with
  | nil => cases he
  | cons e' rest ih =>
      obtain ⟨here, later⟩ := quiet_cons hquiet
      rcases List.mem_cons.mp he with rfl | he
      · exact has_of_has_absorb_of_quiet here (has_absorb.mpr (.inr ⟨rfl, hkey, r, hr, h⟩))
      · have hkey' := (hasKey_absorb bases e'.1 e.1 e'.2).trans hkey
        have hgained := ih later he hkey' (has_absorb.mpr (.inl h))
        exact has_of_has_absorb_of_quiet here hgained

theorem hasKey_sweep (l : List (String × TextSet)) (bases : BaseTables) (k : String) :
    (sweep l bases).1.hasKey k = bases.hasKey k := by
  induction l generalizing bases with
  | nil => rfl
  | cons e rest ih => exact (ih _).trans (hasKey_absorb ..)

/-! ## Sweeps until nothing is new -/

def swept (refs : Dict TextSet) (bases : BaseTables) : BaseTables := (sweep refs.toList bases).1

/-- The expansion is a number of sweeps of which the last is the first to bring nothing new to those
before it; each of the others takes up some of the room there was. The induction follows the
recursion of `expand`, one case for a sweep that goes on and one for the last. -/
theorem expand_eq_iterate (refs : Dict TextSet) (bases : BaseTables) :
    ∃ n ≤ bases.room, (sweep refs.toList ((swept refs)^[n] bases)).2 = false
      ∧ expand refs bases = (swept refs)^[n + 1] bases := by
  induction bases using expand.induct refs with
  | case1 bases next hswept ih =>
      have hnext : swept refs bases = next := by rw [swept, hswept]
      obtain ⟨n, hn, hquiet, heq⟩ := ih
      refine ⟨n + 1, ?_, ?_, ?_⟩
      · have hlt := (room_sweep_le refs.toList bases).2
        rw [hswept] at hlt
        exact Nat.le_trans (Nat.succ_le_succ hn) (hlt rfl)
      · rwa [Function.iterate_succ_apply, hnext]
      · rw [expand, hswept, Function.iterate_succ_apply, hnext]
        exact heq
  | case2 bases next hswept =>
      refine ⟨0, Nat.zero_le _, ?_, ?_⟩
      · rw [Function.iterate_zero, id, hswept]
      · rw [expand, hswept, Function.iterate_one, swept, hswept]

theorem iterate_swept_induction {Q : BaseTables → Prop} {refs : Dict TextSet}
    (hsweep : ∀ bases, Q bases → Q (swept refs bases)) {bases : BaseTables} (h : Q bases)
    (n : Nat) : Q ((swept refs)^[n] bases) :=
  Function.Iterate.rec Q h hsweep n

/-- What one sweep keeps, the expansion keeps. -/
theorem expand_induction {Q : BaseTables → Prop} {refs : Dict TextSet}
    (hsweep : ∀ bases, Q bases → Q (swept refs bases)) {bases : BaseTables} (h : Q bases) :
    Q (expand refs bases) := by
  obtain ⟨n, -, -, heq⟩ := expand_eq_iterate refs bases
  rw [heq]
  exact iterate_swept_induction hsweep h (n + 1)

theorem hasKey_expand (refs : Dict TextSet) (bases : BaseTables) (k : String) :
    (expand refs bases).hasKey k = bases.hasKey k :=
  expand_induction (Q := fun b => b.hasKey k = bases.hasKey k)
    (fun b hb => (hasKey_sweep refs.toList b k).trans hb) rfl

theorem has_expand_of_has (refs : Dict TextSet) {bases : BaseTables} {k : String} {t : TableName}
    (h : bases.Has k t) : (expand refs bases).Has k t :=
  expand_induction (Q := fun b => b.Has k t) (fun _ => has_sweep_of_has refs.toList) h

/-- The expression `k` refers to `m`. -/
def Refers (refs : Dict TextSet) (k m : String) : Prop :=
  ∃ keys, refs.find? k = some keys ∧ m ∈ keys.toList

theorem of_has_expand {P : String → TableName → Prop} {refs : Dict TextSet}
    (hpass : ∀ k r, Refers refs k r → ∀ t, P r t → P k t) {bases : BaseTables}
    (hbases : ∀ k t, bases.Has k t → P k t) {k : String} {t : TableName}
    (h : (expand refs bases).Has k t) : P k t := by
  refine expand_induction (Q := fun b => ∀ k t, b.Has k t → P k t) ?_ hbases k t h
  intro b hb k t
  refine of_has_sweep (fun e he r hr => hpass e.1 r ⟨e.2, ?_, hr⟩) hb
  exact Dict.find?_eq_some_iff.mpr he

theorem closed_expand {refs : Dict TextSet} {bases : BaseTables}
    (hkeys : ∀ k, refs.hasKey k = true → bases.hasKey k = true) {k r : String}
    (hkr : Refers refs k r) {t : TableName} (h : (expand refs bases).Has r t) :
    (expand refs bases).Has k t := by
  obtain ⟨n, -, hquiet, heq⟩ := expand_eq_iterate refs bases
  -- The last sweep is quiet, so what holds after it held before it, where nothing was missing.
  rw [heq, Function.iterate_succ_apply'] at h ⊢
  generalize hlast : (swept refs)^[n] bases = last at hquiet h ⊢
  obtain ⟨keys, hfound, hr⟩ := hkr
  have hkey : last.hasKey k = true := by
    rw [← hlast]
    exact iterate_swept_induction (Q := fun b => b.hasKey k = true)
      (fun b hb => (hasKey_sweep refs.toList b k).trans hb)
      (hkeys k (Dict.hasKey_iff_find?.mpr ⟨keys, hfound⟩)) n
  have hold : last.Has r t := has_of_has_sweep_of_quiet hquiet h
  have hgained := closed_of_quiet hquiet (Dict.find?_eq_some_iff.mp hfound) hkey hr hold
  exact has_sweep_of_has refs.toList hgained

/-- **The expansion is the closure.** In the end an expression has the tables that those it reaches
had at first, and no others. One way, reaching is kept by every sweep (`of_has_expand`). The other
way is by induction on the references passed, from the far end, as the result is closed under each
of them (`closed_expand`). -/
theorem has_expand_iff {refs : Dict TextSet} {own : BaseTables}
    (hkeys : ∀ k, refs.hasKey k = true → own.hasKey k = true) {k : String} {t : TableName} :
    (expand refs own).Has k t ↔ ∃ m, ReflTransGen (Refers refs) k m ∧ own.Has m t := by
  constructor
  · refine of_has_expand (P := fun k t => ∃ m, ReflTransGen (Refers refs) k m ∧ own.Has m t) ?_ ?_
    · rintro k r hkr t ⟨m, hrm, hm⟩
      exact ⟨m, hrm.head hkr, hm⟩
    · intro k t h
      exact ⟨k, .refl, h⟩
  · rintro ⟨m, hkm, hm⟩
    induction hkm using ReflTransGen.head_induction_on with
    | refl => exact has_expand_of_has refs hm
    | head hkr _ ih => exact closed_expand hkeys hkr ih

/-! ## How many sweeps there are -/

theorem room_le (bases : BaseTables) : bases.room ≤ bases.size * bases.tables.size := by
  have hfold : ∀ (size : Nat) (l : List TableName.Set),
      l.foldr (fun own total => size - own.size + total) 0 ≤ l.length * size := by
    intro size l
    induction l with
    | nil => simp
    | cons own rest ih =>
        rw [List.foldr_cons, List.length_cons, Nat.succ_mul]
        omega
  simpa [room, Dict.values, SortedBy.size] using hfold bases.tables.size bases.values

end BaseTables

/-! ## The expressions of a statement -/

/-- The definition of `k` holds a reference to the expression `m`. -/
def Tree.RefersTo (root : Tree) (k m : String) : Prop :=
  ∃ body, root.preorder.find? (·.definedKey? = some k) = some body
    ∧ ∃ ref ∈ body.tableRefs, ∃ name, ref.path = [name] ∧ Text.lower name = m ∧ root.Defines m

/-- The definition of `k` holds a reference to the table `t`: its path names no expression. -/
def Tree.NamesTable (defaults : TableDefaults) (root : Tree) (k : String) (t : TableName) : Prop :=
  ∃ body, root.preorder.find? (·.definedKey? = some k) = some body
    ∧ ∃ ref ∈ body.tableRefs, (∀ name, ref.path = [name] → ¬root.Defines (Text.lower name))
      ∧ defaults.resolve ref.path = some t

namespace ResolvedCtes

/-- The expression `k` was found to refer to `m`. -/
def Refers (ctes : ResolvedCtes) (k m : String) : Prop :=
  ∃ cte, ctes.find? k = some cte ∧ m ∈ cte.references.toList

/-- The expression `k` was found to read `t` in the end. -/
def Reads (ctes : ResolvedCtes) (k : String) (t : TableName) : Prop :=
  ∃ cte, ctes.find? k = some cte ∧ t ∈ cte.bases.toList

theorem refers_references_iff {root : Tree} {k m : String} :
    BaseTables.Refers (references (definitions root)) k m ↔ root.RefersTo k m := by
  simp only [BaseTables.Refers, references, Dict.find?_mapValues, Option.map_eq_some_iff,
    find?_definitions, Tree.RefersTo]
  constructor
  · rintro ⟨_, ⟨body, hbody, rfl⟩, hm⟩
    obtain ⟨ref, href, hkey⟩ := mem_referencedKeys.mp hm
    exact ⟨body, hbody, ref, href, keyOf?_definitions_eq_some_iff.mp hkey⟩
  · rintro ⟨body, hbody, ref, href, hkey⟩
    refine ⟨_, ⟨body, hbody, rfl⟩, mem_referencedKeys.mpr ⟨ref, href, ?_⟩⟩
    exact keyOf?_definitions_eq_some_iff.mpr hkey

theorem has_ownTables_iff {defaults : TableDefaults} {root : Tree} {k : String} {t : TableName} :
    (ownTables defaults (definitions root)).Has k t ↔ root.NamesTable defaults k t := by
  simp only [BaseTables.Has, ownTables, Dict.find?_mapValues, Option.map_eq_some_iff,
    find?_definitions, Tree.NamesTable]
  constructor
  · rintro ⟨_, ⟨body, hbody, rfl⟩, ht⟩
    obtain ⟨ref, href, hkey, hresolve⟩ := mem_referencedTables.mp ht
    exact ⟨body, hbody, ref, href, keyOf?_definitions_eq_none_iff.mp hkey, hresolve⟩
  · rintro ⟨body, hbody, ref, href, hkey, hresolve⟩
    refine ⟨_, ⟨body, hbody, rfl⟩, mem_referencedTables.mpr ⟨ref, href, ?_, hresolve⟩⟩
    exact keyOf?_definitions_eq_none_iff.mpr hkey

theorem refers_ofTree_iff {defaults : TableDefaults} {root : Tree} {k m : String} :
    (ofTree defaults root).Refers k m ↔ root.RefersTo k m := by
  rw [← refers_references_iff]
  simp only [Refers, BaseTables.Refers, find?_ofTree, references, Dict.find?_mapValues]
  cases (definitions root).find? k <;> simp

/-- The resolution keeps the tables that the expansion came to: it has the same keys, and adds only
the names and the references. -/
theorem reads_ofTree_iff {defaults : TableDefaults} {root : Tree} {k : String} {t : TableName} :
    (ofTree defaults root).Reads k t
      ↔ (BaseTables.expand (references (definitions root))
          (ownTables defaults (definitions root))).Has k t := by
  have hkey : (BaseTables.expand (references (definitions root))
      (ownTables defaults (definitions root))).hasKey k = true
        ↔ (definitions root).hasKey k = true := by
    rw [BaseTables.hasKey_expand, ownTables, Dict.hasKey_mapValues]
  simp only [Dict.hasKey_iff_find?] at hkey
  simp only [Reads, BaseTables.Has, find?_ofTree, Option.map_eq_some_iff]
  constructor
  · rintro ⟨_, ⟨body, hbody, rfl⟩, ht⟩
    obtain ⟨own, hown⟩ := hkey.mpr ⟨body, hbody⟩
    exact ⟨own, hown, by simpa [hown] using ht⟩
  · rintro ⟨own, hown, ht⟩
    obtain ⟨body, hbody⟩ := hkey.mp ⟨own, hown⟩
    exact ⟨_, ⟨body, hbody, rfl⟩, by simpa [hown] using ht⟩

/-- **What a common table expression reads.** The resolution of any statement has one entry for each
key that some node defines, with the references of that key's definition. The bases of `k` are the
tables that some expression it reaches, itself among them, names: none is missing and none is added,
whatever cycles the references run in. And the sweeps come to an end: before there are more of them
than pairs of an expression and a table, one brings nothing new. The third part is `has_expand_iff`
for the references and tables of the definitions, the fourth `expand_eq_iterate` with `room_le` for
its bound. -/
theorem reads_iff_reaches (defaults : TableDefaults) (root : Tree) :
    (∀ k, (ofTree defaults root).hasKey k = true ↔ root.Defines k)
      ∧ (∀ k m, (ofTree defaults root).Refers k m ↔ root.RefersTo k m)
      ∧ (∀ k t, (ofTree defaults root).Reads k t
          ↔ ∃ m, ReflTransGen (ofTree defaults root).Refers k m ∧ root.NamesTable defaults m t)
      ∧ (let refs := references (definitions root)
          let own := ownTables defaults (definitions root)
          ∃ n ≤ own.size * own.tables.size,
            (BaseTables.sweep refs.toList ((BaseTables.swept refs)^[n] own)).2 = false
              ∧ BaseTables.expand refs own = (BaseTables.swept refs)^[n + 1] own) := by
  refine ⟨fun k => hasKey_ofTree, fun k m => refers_ofTree_iff, fun k t => ?_, ?_⟩
  · have hkeys : ∀ j, (references (definitions root)).hasKey j = true →
        (ownTables defaults (definitions root)).hasKey j = true := fun j hj => by
      rw [references, Dict.hasKey_mapValues] at hj
      rwa [ownTables, Dict.hasKey_mapValues]
    have hrefers : (ofTree defaults root).Refers
        = BaseTables.Refers (references (definitions root)) := by
      funext k m
      exact propext (refers_ofTree_iff.trans refers_references_iff.symm)
    rw [reads_ofTree_iff, BaseTables.has_expand_iff hkeys, hrefers]
    simp only [has_ownTables_iff]
  · obtain ⟨n, hn, hlast⟩ := BaseTables.expand_eq_iterate (references (definitions root))
      (ownTables defaults (definitions root))
    exact ⟨n, Nat.le_trans hn (BaseTables.room_le _), hlast⟩

end ResolvedCtes

end QueryLineage
