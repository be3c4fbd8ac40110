import Mathlib.Data.List.Chain
import QueryLineage.Proofs.JoinRecords

/-!
# Chains of joins

The joins of a from clause follow one another: the first takes up the relation that the clause
starts with, each later one what the join before it has joined. Joins without a right operand are
passed over on the way and break no chain.

The walk carries the operand before and whether it is still the table that the clause starts with.
`joinsOfChildren_chain` says what one walk makes of these, from any operand on; the step is
`exists_joinsOfChildren_cons`. All walks together give the records of a statement, numbered through
(`Tree.joins_chained`).
-/

namespace QueryLineage

namespace Tree

/-- The from clause is one relation followed by joins. -/
def StartsChain (clause : Tree) : Prop :=
  (clause.children.head?.any fun base => base.kind ≠ .join)
    ∧ ∀ j ∈ clause.children.tail, j.kind = .join

instance (clause : Tree) : Decidable clause.StartsChain :=
  inferInstanceAs (Decidable (_ ∧ _))

/-- The joins of a from clause that have a right operand. -/
def namedJoins (rs : Relations) (clause : Tree) : List Tree :=
  clause.joinNodes.filter fun join => (join.rightOperand? rs).isSome

/-- The text of the relation that a from clause starts with; empty if it has no name. -/
def baseText (rs : Relations) (clause : Tree) : String :=
  ((clause.children.head?.bind (JoinOperand.ofTree? rs)).map (·.table)).getD ""

/-- The joins are those of the from clause, one after another from its base on. -/
structure Chains (rs : Relations) (clause : Tree) (joins : List Join) : Prop where
  records : List.Forall₂ (Join.IsRecordOf rs) (clause.namedJoins rs) joins
  first : ∀ j ∈ joins.head?, j.leftTable = clause.baseText rs
  later : joins.IsChain fun j next => next.leftTable = j.rightTable
  resolved : ∀ place j, joins[place]? = some j →
    (j.resolved = true ↔ place = 0 ∧ ∃ base ∈ clause.children.head?, base.kind = .table)

end Tree

/-- From an operand on, the joins are a chain, and only the first can be resolved. By induction on
the children, for every operand and flag: the record of a join hands its right side on, with the
flag put out. -/
theorem joinsOfChildren_chain (rs : Relations) (previous : Option JoinOperand) (based : Bool)
    {children : List Tree} (h : ∀ child ∈ children, child.kind = .join) :
    (∀ j ∈ (joinsOfChildren rs previous based children).head?,
        j.leftTable = (previous.map (·.table)).getD "" ∧ j.resolved = based)
      ∧ ((joinsOfChildren rs previous based children).IsChain
        fun j next => next.leftTable = j.rightTable)
      ∧ ∀ j ∈ (joinsOfChildren rs previous based children).tail, j.resolved = false := by
  induction children generalizing previous based with
  | nil => exact ⟨nofun, .nil, nofun⟩
  | cons child rest ih =>
      rw [List.forall_mem_cons] at h
      cases hright : child.rightOperand? rs with
      | none =>
          -- passing over a join moves neither the operand nor the flag
          rw [joinsOfChildren_cons_of_none h.1 hright]
          exact ih previous based h.2
      | some right =>
          obtain ⟨j, heq, -, hleft, hrightTable, hresolved⟩ :=
            exists_joinsOfChildren_cons previous based rest h.1 hright
          obtain ⟨hfirst, hlater, hunresolved⟩ := ih (some right) false h.2
          rw [heq]
          refine ⟨?_, ?_, ?_⟩
          · intro j' hj'
            obtain rfl := Option.some.inj hj'
            exact ⟨hleft, hresolved⟩
          · refine List.isChain_cons.mpr ⟨fun next hnext => ?_, hlater⟩
            rw [(hfirst next hnext).1, hrightTable]
            rfl
          · intro next hnext
            rw [List.tail_cons] at hnext
            cases hjoins : joinsOfChildren rs (some right) false rest with
            | nil => rw [hjoins] at hnext; cases hnext
            | cons j' later =>
                rw [hjoins] at hfirst hunresolved hnext
                rcases List.mem_cons.mp hnext with rfl | hnext
                · exact (hfirst next rfl).2
                · exact hunresolved next hnext

/-- The joins of a from clause are a chain: the relation that it starts with gives the first
operand, and sets the flag if it is a table. -/
theorem Tree.StartsChain.chains_joinsOfFrom {clause : Tree} (h : clause.StartsChain)
    (rs : Relations) : clause.Chains rs (joinsOfFrom rs clause) := by
  obtain ⟨label, sql, children⟩ := clause
  cases children with
  | nil => simp [StartsChain] at h
  | cons base joins =>
      have hbase : base.kind ≠ .join := by simpa using h.1
      have hwalk : joinsOfFrom rs ⟨label, sql, base :: joins⟩
          = joinsOfChildren rs (JoinOperand.ofTree? rs base) (base.kind = .table) joins := by
        rw [joinsOfFrom, joinsOfChildren_cons_of_ne_join hbase, Option.or_none]
        rfl
      obtain ⟨hfirst, hlater, hunresolved⟩ := joinsOfChildren_chain rs
        (JoinOperand.ofTree? rs base) (base.kind = .table) h.2
      constructor
      case records =>
        exact forall₂_joinsOfChildren rs none _ (base :: joins)
      case first =>
        rw [hwalk]
        exact fun j hj => (hfirst j hj).1
      case later =>
        rw [hwalk]
        exact hlater
      case resolved =>
        rw [hwalk]
        intro place j hj
        cases place with
        | zero =>
            rw [(hfirst j (by rw [List.head?_eq_getElem?]; exact hj)).2]
            simp
        | succ place =>
            have hj' := hunresolved j (List.mem_of_getElem? (by rwa [List.getElem?_tail]))
            simp [hj']

/-- A list that is mapped to the members of some lists falls into as many parts. -/
theorem exists_parts_of_map_eq_flatten {α β : Type} {f : α → β} {xs : List α}
    {parts : List (List β)} (h : xs.map f = parts.flatten) :
    ∃ groups : List (List α), xs = groups.flatten ∧ groups.map (List.map f) = parts := by
  induction parts generalizing xs with
  | nil => exact ⟨[], by simpa using h, rfl⟩
  | cons part rest ih =>
      obtain ⟨group, later, rfl, hgroup, hlater⟩ := List.map_eq_append_iff.mp h
      obtain ⟨groups, rfl, hgroups⟩ := ih hlater
      exact ⟨group :: groups, rfl, by rw [List.map_cons, hgroup, hgroups]⟩

/-- **The records of joins are numbered chains.** If each from clause is one relation followed by
joins, the records fall into one part for each from clause, in preorder. A part holds the joins of
its clause that have a right operand, in order. The first has the text of the relation that the
clause starts with on its left, each later one what is on the right of the one before, and the first
one alone is resolved, if that relation is a table. All together are numbered without gaps. The
parts are first those of the joins without their numbers, and are then found again in the numbered
list (`exists_parts_of_map_eq_flatten`). -/
theorem Tree.joins_chained (rs : Relations) (root : Tree)
    (h : ∀ clause ∈ root.findAll .fromClause, clause.StartsChain) :
    (∃ chains : List (List JoinRecord), root.joins rs = chains.flatten
      ∧ List.Forall₂ (fun clause chain => clause.Chains rs (chain.map (·.toJoin)))
        (root.findAll .fromClause) chains)
    ∧ ∀ place r, (root.joins rs)[place]? = some r → r.id = s!"J{place + 1}" := by
  constructor
  · have hparts : (root.joins rs).map (·.toJoin)
        = ((root.findAll .fromClause).map (joinsOfFrom rs)).flatten := by
      rw [root.map_toJoin_joins rs, List.flatMap_def]
    obtain ⟨chains, hchains, hgroups⟩ := exists_parts_of_map_eq_flatten hparts
    refine ⟨chains, hchains, ?_⟩
    have hall : List.Forall₂ (fun clause joins => clause.Chains rs joins)
        (root.findAll .fromClause) (chains.map (List.map (·.toJoin))) := by
      rw [hgroups, List.forall₂_map_right_iff, List.forall₂_same]
      exact fun clause hclause => (h clause hclause).chains_joinsOfFrom rs
    exact List.forall₂_map_right_iff.mp hall
  · intro place r hr
    rw [joins, List.getElem?_mapIdx] at hr
    obtain ⟨j, -, rfl⟩ := Option.map_eq_some_iff.mp hr
    rfl

/-- Orders, beside arrays that are joined in parentheses, and tables that are. -/
def Tree.shippedOrders : Tree :=
  let table (name : String) : Tree := .leaf (.table ⟨[name], none⟩) name
  let array (name : String) : Tree := .leaf (.derived (some name)) ("UNNEST(" ++ name ++ ")")
  let cross (relation : Tree) : Tree := ⟨.join "CROSS" .unconditional, "", [relation]⟩
  ⟨.fromClause, "", [table "orders",
    cross ⟨.fromClause, "", [array "days", cross (array "hours")]⟩,
    cross ⟨.fromClause, "", [table "items", cross (table "parts")]⟩,
    cross (table "customers")]⟩

theorem Tree.joins_chained_shippedOrders :
    (∀ clause ∈ shippedOrders.findAll .fromClause, clause.StartsChain)
    ∧ (∃ chains : List (List JoinRecord),
      shippedOrders.joins (.ofTree {} shippedOrders) = chains.flatten
      ∧ List.Forall₂
        (fun clause chain => clause.Chains (.ofTree {} shippedOrders) (chain.map (·.toJoin)))
        (shippedOrders.findAll .fromClause) chains)
    ∧ ∀ place r, (shippedOrders.joins (.ofTree {} shippedOrders))[place]? = some r →
      r.id = s!"J{place + 1}" := by
  have hchains : ∀ clause ∈ shippedOrders.findAll .fromClause, clause.StartsChain := by decide
  exact ⟨hchains, joins_chained _ _ hchains⟩

example :
    (Tree.shippedOrders.joins (.ofTree {} Tree.shippedOrders)).map
        (fun r => (r.id, r.leftTable, r.rightTable, r.resolved))
      = [("J1", "orders", "parts", true), ("J2", "parts", "customers", false),
        ("J3", "days", "hours", false), ("J4", "items", "parts", true)] := by
  decide +kernel

end QueryLineage
