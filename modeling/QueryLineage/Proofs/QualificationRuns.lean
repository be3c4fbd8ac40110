import QueryLineage.Proofs.KnownQualification

/-!
# What a run of the qualification comes to

A run asks a provider about a table the first time it needs to and goes by its notes from then on.
So there is one answer for each table in it, whatever the provider would say if it were asked again,
and the run comes to what qualifying by fixed knowledge comes to (`exists_qualify_eq`). `Computes`
says this of a part of a run, and each function of the qualification has its own such statement.
From a provider whose answers depend on the question alone, every run has the same knowledge
(`exists_forall_qualify_eq`), so a second run finds nothing to do (`qualify_qualify`).
-/

namespace QueryLineage

/-- The answers of the provider depend on the question alone. -/
def Provider.IsConsistent {σ : Type} (p : Provider σ) : Prop :=
  ∃ f : TableKey → MetadataAnswer, ∀ k s, ((p k).run s).1 = f k

namespace Qualification

variable {σ α β : Type} {provider : Option (Provider σ)}

/-! ## Notes -/

/-- Knowledge that goes with the notes of a run; without a provider there is none. -/
structure Fits (provider : Option (Provider σ)) (memo : Memo) (know : Knowledge) : Prop where
  noted : ∀ table found, memo.lookup table = some found → know table = found
  unasked : provider = none → ∀ table, know table = none

/-- The notes after a part of a run are those before it with what the provider was asked. -/
structure Learns (provider : Option (Provider σ)) (before after : Memo) : Prop where
  kept : ∀ table found, before.lookup table = some found → after.lookup table = some found
  asked : ∀ table found, after.lookup table = some found →
    before.lookup table = some found ∨ ∃ p ∈ provider, ∃ s, ((ask p table).run s).1 = found

theorem Learns.refl (memo : Memo) : Learns provider memo memo :=
  ⟨fun _ _ h => h, fun _ _ h => .inl h⟩

theorem Learns.trans {m m' m'' : Memo} (h : Learns provider m m') (h' : Learns provider m' m'') :
    Learns provider m m'' where
  kept table found hfound := h'.kept table found (h.kept table found hfound)
  asked table found hfound := by
    rcases h'.asked table found hfound with hbefore | hasked
    · exact h.asked table found hbefore
    · exact .inr hasked

theorem Fits.before {before after : Memo} {know : Knowledge} (hfits : Fits provider after know)
    (h : Learns provider before after) : Fits provider before know where
  noted table found hfound := hfits.noted table found (h.kept table found hfound)
  unasked := hfits.unasked

/-! ## Parts of a run -/

/-- The part `x` of a run comes to what `g` makes of any knowledge that goes with the notes at its
end. -/
def Computes (provider : Option (Provider σ)) (x : StateM (Memo × σ) α) (g : Knowledge → α) :
    Prop :=
  ∀ memo s, Learns provider memo (x.run (memo, s)).2.1
    ∧ ∀ know, Fits provider (x.run (memo, s)).2.1 know → (x.run (memo, s)).1 = g know

namespace Computes

theorem pure (a : α) : Computes provider (Pure.pure a) fun _ => a :=
  fun memo _ => ⟨.refl memo, fun _ _ => rfl⟩

theorem pure_of_eq {a : α} {g : Knowledge → α}
    (h : ∀ know, (provider = none → ∀ table, know table = none) → a = g know) :
    Computes provider (Pure.pure a) g :=
  fun memo _ => ⟨.refl memo, fun know hfits => h know hfits.unasked⟩

/-- Of two parts the second goes on from the notes of the first, and what goes with its notes goes
with those of the first. -/
theorem bind {x : StateM (Memo × σ) α} {g : Knowledge → α} {f : α → StateM (Memo × σ) β}
    {h : α → Knowledge → β} (hx : Computes provider x g)
    (hf : ∀ a, Computes provider (f a) (h a)) :
    Computes provider (x >>= f) fun know => h (g know) know := by
  intro memo s
  obtain ⟨hlearns, hvalue⟩ := hx memo s
  obtain ⟨hlearns', hvalue'⟩ := hf (x.run (memo, s)).1 (x.run (memo, s)).2.1 (x.run (memo, s)).2.2
  refine ⟨hlearns.trans hlearns', fun know hfits => ?_⟩
  change _ = h (g know) know
  rw [← hvalue know (hfits.before hlearns')]
  exact hvalue' know hfits

/-- Asked of a provider, a part of a run comes to what the notes at its end make of it. The
knowledge is what these notes say, and nothing about the other tables. -/
theorem exists_know {p : Provider σ} {x : StateM (Memo × σ) α} {g : Knowledge → α}
    (hx : Computes (some p) x g) (s : Memo × σ) : ∃ know, (x.run s).1 = g know := by
  refine ⟨fun table => ((x.run s).2.1.lookup table).join, (hx s.1 s.2).2 _ ⟨?_, nofun⟩⟩
  intro table found hfound
  rw [hfound, Option.join_some]

theorem congr {x : StateM (Memo × σ) α} {g h : Knowledge → α} (hx : Computes provider x g)
    (heq : ∀ know, g know = h know) : Computes provider x h := by
  obtain rfl : g = h := funext heq
  exact hx

end Computes

/-! ## The functions of the qualification -/

theorem run_metadataOf (p : Provider σ) (table : TableName) (memo : Memo) (s : σ) :
    (metadataOf p table).run (memo, s)
      = match memo.lookup table with
        | some known => (known, memo, s)
        | none => (((ask p table).run s).1, (table, ((ask p table).run s).1) :: memo,
            ((ask p table).run s).2) :=
  rfl

theorem computes_metadataOf (p : Provider σ) (table : TableName) :
    Computes (some p) (metadataOf p table) fun know => know table := by
  intro memo s
  rw [run_metadataOf]
  cases hknown : memo.lookup table with
  | some known => exact ⟨.refl memo, fun know hfits => (hfits.noted table known hknown).symm⟩
  | none =>
      refine ⟨⟨fun other found hfound => ?_, fun other found hfound => ?_⟩, fun know hfits => ?_⟩
      · have hother : (other == table) = false := beq_eq_false_iff_ne.mpr fun h => by
          rw [h, hknown] at hfound
          cases hfound
        rw [List.lookup_cons, hother]
        exact hfound
      · rw [List.lookup_cons] at hfound
        split at hfound
        · rename_i hother
          obtain rfl := eq_of_beq hother
          exact .inr ⟨p, rfl, s, Option.some.inj hfound⟩
        · exact .inl hfound
      · exact (hfits.noted table _ List.lookup_cons_self).symm

theorem computes_hasColumn (p : Provider σ) (column : String) (r : ScopeRelation) :
    Computes (some p) (hasColumn p column r) fun know => know.hasColumn column r := by
  obtain ⟨qualifier, table⟩ := r
  cases table with
  | none => exact .pure false
  | some table =>
      exact (computes_metadataOf p table).bind fun found => .pure _

/-- The relations from the first one known to have the column on. By induction on the relations, as
the search itself goes. -/
theorem computes_fromFirstOwner (p : Provider σ) (column : String)
    (relations : List ScopeRelation) :
    Computes (some p) (fromFirstOwner p column relations) fun know =>
      relations.dropWhile fun r => !know.hasColumn column r := by
  induction relations with
  | nil => exact .pure []
  | cons r rest ih =>
      have hcons := (computes_hasColumn p column r).bind
        (f := fun has => if has then Pure.pure (r :: rest) else fromFirstOwner p column rest)
        (h := fun has know =>
          if has then r :: rest else rest.dropWhile fun r => !know.hasColumn column r)
        fun has => by
          cases has with
          | true => exact .pure (r :: rest)
          | false => exact ih
      refine hcons.congr fun know => ?_
      rw [List.dropWhile_cons]
      cases know.hasColumn column r <;> rfl

theorem filter_eq_match_dropWhile (q : α → Bool) (l : List α) :
    l.filter q = match l.dropWhile (!q ·) with
      | [] => []
      | a :: rest => a :: rest.filter q := by
  induction l with
  | nil => rfl
  | cons a rest ih =>
      rw [List.dropWhile_cons, List.filter_cons]
      cases q a with
      | true => rfl
      | false => exact ih

/-- The qualifier of the first of some owners, if no other relation after it has the column. -/
def Knowledge.onlyOwner (know : Knowledge) (column : String) : List ScopeRelation → Option String
  | [] => none
  | first :: rest =>
    if (rest.dropWhile (!know.hasColumn column ·)).isEmpty then some first.qualifier else none

theorem Knowledge.qualifierOf_of_many (know : Knowledge) {relations : List ScopeRelation}
    (hmany : ∀ only, relations ≠ [only]) (column : String) :
    know.qualifierOf relations column
      = match relations.filter (know.hasColumn column) with
        | [owner] => some owner.qualifier
        | _ => none := by
  unfold qualifierOf
  split
  · exact absurd rfl (hmany _)
  · rfl

/-- Looking for the first owner twice finds out whether there is exactly one: the second search goes
on after the relation that the first one found. -/
theorem Knowledge.qualifierOf_eq (know : Knowledge) {relations : List ScopeRelation}
    (hmany : ∀ only, relations ≠ [only]) (column : String) :
    know.qualifierOf relations column
      = know.onlyOwner column (relations.dropWhile (!know.hasColumn column ·)) := by
  rw [know.qualifierOf_of_many hmany, filter_eq_match_dropWhile]
  cases relations.dropWhile (!know.hasColumn column ·) with
  | nil => rfl
  | cons first rest =>
      simp only [filter_eq_match_dropWhile _ rest, onlyOwner]
      cases rest.dropWhile (!know.hasColumn column ·) with
      | nil => rfl
      | cons second rest => rfl

theorem Knowledge.qualifierOf_of_unknown {know : Knowledge} (hknow : ∀ table, know table = none)
    {relations : List ScopeRelation} (hmany : ∀ only, relations ≠ [only]) (column : String) :
    know.qualifierOf relations column = none := by
  have hnobody : ∀ r ∈ relations, ¬ know.hasColumn column r := by
    intro ⟨qualifier, table⟩ _
    cases table with
    | none => exact Bool.false_ne_true
    | some table => simp [hasColumn, hknow table]
  rw [know.qualifierOf_of_many hmany, List.filter_eq_nil_iff.mpr hnobody]

theorem qualifierOf_none_of_many {relations : List ScopeRelation}
    (hmany : ∀ only, relations ≠ [only]) (column : String) :
    qualifierOf (none : Option (Provider σ)) relations column = Pure.pure none := by
  rcases relations with _ | ⟨first, _ | ⟨second, rest⟩⟩
  · rfl
  · exact absurd rfl (hmany first)
  · rfl

theorem qualifierOf_some_of_many (p : Provider σ) {relations : List ScopeRelation}
    (hmany : ∀ only, relations ≠ [only]) (column : String) :
    qualifierOf (some p) relations column
      = fromFirstOwner p column relations >>= fun owners => match owners with
        | [] => Pure.pure none
        | first :: rest => fromFirstOwner p column rest >>= fun others => match others with
          | [] => Pure.pure (some first.qualifier)
          | _ :: _ => Pure.pure none := by
  rcases relations with _ | ⟨first, _ | ⟨second, rest⟩⟩
  · rfl
  · exact absurd rfl (hmany first)
  · rfl

theorem computes_qualifierOf (provider : Option (Provider σ)) (relations : List ScopeRelation)
    (column : String) :
    Computes provider (qualifierOf provider relations column) fun know =>
      know.qualifierOf relations column := by
  by_cases hmany : ∀ only, relations ≠ [only]
  · cases provider with
    | none =>
        rw [qualifierOf_none_of_many hmany]
        exact .pure_of_eq fun know hknow =>
          (know.qualifierOf_of_unknown (hknow rfl) hmany column).symm
    | some p =>
        rw [qualifierOf_some_of_many p hmany]
        refine ((computes_fromFirstOwner p column relations).bind
          (h := fun owners know => know.onlyOwner column owners) fun owners => ?_).congr
          fun know => (know.qualifierOf_eq hmany column).symm
        cases owners with
        | nil => exact .pure none
        | cons first rest =>
            refine (computes_fromFirstOwner p column rest).bind
              (h := fun others _ => if others.isEmpty then some first.qualifier else none)
              fun others => ?_
            cases others with
            | nil => exact .pure _
            | cons second rest => exact .pure none
  · push Not at hmany
    obtain ⟨only, rfl⟩ := hmany
    exact .pure _

theorem computes_qualifierIn (provider : Option (Provider σ)) (relations : List ScopeRelation)
    (aliases : List String) (child : Tree) (column : String) :
    Computes provider (qualifierIn provider relations aliases child column) fun know =>
      know.qualifierIn relations aliases child column := by
  unfold qualifierIn Knowledge.qualifierIn
  split
  · exact .pure none
  · exact computes_qualifierOf provider relations column

theorem computes_rewriteColumnsBelow {f : String → StateM (Memo × σ) (Option String)}
    {g : Knowledge → Tree → Tree} {ts : List Tree}
    (hts : ∀ t ∈ ts, Computes provider (rewriteColumns f t) fun know => g know t) :
    Computes provider (rewriteColumnsBelow f ts) fun know =>
      ts.map fun t => if t.label = .query then t else g know t := by
  induction ts with
  | nil => exact .pure []
  | cons t rest ih =>
      have hrest := ih fun t ht => hts t (List.mem_cons_of_mem _ ht)
      have hfirst := hts t List.mem_cons_self
      obtain ⟨label, sql, children⟩ := t
      rw [rewriteColumnsBelow]
      by_cases hquery : label = .query
      · simp only [if_pos hquery, List.map_cons, pure_bind]
        exact hrest.bind fun rest' => .pure (_ :: rest')
      · simp only [if_neg hquery, List.map_cons]
        exact hfirst.bind (h := fun t' know =>
            t' :: rest.map fun t => if t.label = .query then t else g know t)
          fun t' => hrest.bind fun rest' => .pure (t' :: rest')

theorem rewriteColumns_node {m : Type → Type} [Monad m] (f : String → m (Option String))
    {label : Label} (hlabel : ∀ parts, label ≠ .column parts) (sql : String)
    (children : List Tree) :
    rewriteColumns f ⟨label, sql, children⟩
      = rewriteColumnsBelow f children >>= fun below => Pure.pure ⟨label, sql, below⟩ := by
  cases label with
  | column parts => exact absurd rfl (hlabel parts)
  | _ => rfl

/-- What is computed for the columns is computed for the tree that has them. By induction on the
tree, by the three things that a node can be to the pass. -/
theorem computes_rewriteColumns {f : String → StateM (Memo × σ) (Option String)}
    {g : Knowledge → String → Option String}
    (hf : ∀ column, Computes provider (f column) fun know => g know column) (t : Tree) :
    Computes provider (rewriteColumns f t) fun know => t.withQualifiers (g know) := by
  induction t using Tree.children_induction with
  | node label sql children ih =>
      rcases Tree.column_cases label with ⟨name, rfl⟩ | ⟨parts, hparts, rfl⟩ | hlabel
      · rw [rewriteColumns]
        refine ((hf name).bind (h := fun qualifier _ =>
          qualifier.elim (Tree.mk (.column [name]) sql children) fun qualifier =>
            ⟨.column [qualifier, name], qualifier ++ "." ++ sql, children⟩)
          fun qualifier => ?_).congr fun know => ?_
        · cases qualifier with
          | some qualifier => exact .pure _
          | none => exact .pure _
        · rw [Tree.withQualifiers_bare]
          cases g know name <;> rfl
      · rw [rewriteColumns]
        · exact .pure_of_eq fun know _ => (Tree.withQualifiers_column _ hparts ..).symm
        · exact hparts
      · rw [rewriteColumns_node f hlabel]
        exact ((computes_rewriteColumnsBelow ih).bind fun below =>
            .pure (Tree.mk label sql below)).congr
          fun know => (Tree.withQualifiers_node (g know) hlabel sql children).symm

/-! ## Parts that can fail -/

section Failing

variable {ε : Type}

theorem Computes.bind_run {x : ExceptT ε (StateM (Memo × σ)) α}
    {g : Knowledge → Except ε α} {f : α → ExceptT ε (StateM (Memo × σ)) β}
    {h : α → Knowledge → Except ε β} (hx : Computes provider x.run g)
    (hf : ∀ a, Computes provider (f a).run (h a)) :
    Computes provider (x >>= f).run fun know => g know >>= (h · know) := by
  rw [ExceptT.run_bind]
  refine hx.bind (h := fun result know => result >>= (h · know)) fun result => ?_
  cases result with
  | error e => exact .pure (Except.error e)
  | ok a => exact hf a

theorem Computes.lift_run {x : StateM (Memo × σ) α} {g : Knowledge → α}
    (hx : Computes provider x g) :
    Computes provider (ExceptT.lift x : ExceptT ε (StateM (Memo × σ)) α).run
      fun know => Except.ok (g know) :=
  hx.bind fun a => .pure (Except.ok a)

theorem computes_mapM {f : α → ExceptT ε (StateM (Memo × σ)) β}
    {g : Knowledge → α → Except ε β} {l : List α}
    (hf : ∀ a ∈ l, Computes provider (f a).run fun know => g know a) :
    Computes provider (l.mapM f).run fun know => l.mapM (g know) := by
  induction l with
  | nil => exact .pure (Except.ok [])
  | cons a rest ih =>
      simp only [List.mapM_cons]
      refine (hf a List.mem_cons_self).bind_run (h := fun b know => do
        let bs ← rest.mapM (g know)
        return b :: bs) fun b => ?_
      exact (ih fun a ha => hf a (List.mem_cons_of_mem _ ha)).bind_run
        fun bs => .pure (Except.ok (b :: bs))

/-- What is computed at each node is computed for the tree. By induction on the levels; a node comes
before its children, and the notes go on from it to them. -/
theorem computes_rewriteDown {f : Tree → ExceptT ε (StateM (Memo × σ)) Tree}
    {g : Knowledge → Tree → Except ε Tree}
    (hf : ∀ t, Computes provider (f t).run fun know => g know t) (n : Nat) (t : Tree) :
    Computes provider (t.rewriteDown f n).run fun know => t.rewriteDown (g know) n := by
  induction n generalizing t with
  | zero => exact .pure (Except.ok t)
  | succ n ih =>
      simp only [Tree.rewriteDown]
      refine (hf t).bind_run (h := fun u know => do
        let children ← u.children.mapM (Tree.rewriteDown (g know) n)
        return { u with children }) fun u => ?_
      exact (computes_mapM fun c _ => ih c).bind_run
        fun children => .pure (Except.ok { u with children })

end Failing

theorem computes_qualifyScope (defaults : TableDefaults) (provider : Option (Provider σ))
    (t : Tree) :
    Computes provider (qualifyScope defaults provider t).run fun know =>
      know.qualifyScope defaults t := by
  unfold qualifyScope Knowledge.qualifyScope
  split
  · rcases scopeRelations defaults t with e | _ | ⟨r, rest⟩
    · exact .pure (Except.error e)
    · exact .pure (Except.ok t)
    · have hchild : ∀ child ∈ t.children,
          Computes provider (ExceptT.lift (rewriteColumns
            (qualifierIn provider (r :: rest) (projectionAliases t) child) child) :
              ExceptT UnusableRelation (StateM (Memo × σ)) Tree).run
            fun know => Except.ok (child.withQualifiers
              (know.qualifierIn (r :: rest) (projectionAliases t) child)) := by
        intro child _
        have hcolumns := computes_qualifierIn provider (r :: rest) (projectionAliases t) child
        exact (computes_rewriteColumns hcolumns child).lift_run
      refine ((computes_mapM hchild).bind_run
        (f := fun children => Pure.pure { t with children })
        fun children => .pure (Except.ok { t with children })).congr fun know => ?_
      exact congrArg (· >>= _) List.mapM_pure
  · exact .pure (Except.ok t)

/-! ## Whole runs -/

/-- The notes of a run are answers of the provider, and what goes with them decides the run. This is
`Computes` for the whole of it, from empty notes. -/
theorem exists_notes (defaults : TableDefaults) (provider : Option (Provider σ)) (t : Tree)
    (s : σ) :
    ∃ memo, Learns provider [] memo ∧ ∀ know, Fits provider memo know →
      ((t.qualify defaults provider).run s).1 = t.qualifyBy know defaults := by
  have hrun := computes_rewriteDown (computes_qualifyScope defaults provider) t.height t
  obtain ⟨hlearns, hvalue⟩ := hrun [] s
  exact ⟨_, hlearns, hvalue⟩

/-- Consistent answers are knowledge. -/
theorem exists_knowledge (hprovider : ∀ p ∈ provider, p.IsConsistent) :
    ∃ know : Knowledge, (∀ p ∈ provider, ∀ table s, ((ask p table).run s).1 = know table)
      ∧ (provider = none → ∀ table, know table = none) := by
  cases provider with
  | none => exact ⟨fun _ => none, by simp, fun _ _ => rfl⟩
  | some p =>
      obtain ⟨f, hf⟩ := hprovider p rfl
      refine ⟨fun table => (TableKey.ofName? table).bind fun key => (f key).toOption, ?_, nofun⟩
      intro p' hp table s
      obtain rfl := Option.some.inj hp
      change _ = (TableKey.ofName? table).bind _
      unfold ask
      cases TableKey.ofName? table with
      | none => rfl
      | some key => exact congrArg Except.toOption (hf key s)

end Qualification

open Qualification

variable {σ : Type} {defaults : TableDefaults} {provider : Option (Provider σ)}

namespace Tree

theorem exists_qualify_eq (defaults : TableDefaults) (provider : Option (Provider σ)) (t : Tree)
    (s : σ) :
    ∃ know, ((t.qualify defaults provider).run s).1 = t.qualifyBy know defaults := by
  obtain ⟨memo, hlearns, hvalue⟩ := exists_notes defaults provider t s
  refine ⟨fun table => (memo.lookup table).join, hvalue _ ⟨fun table found hfound => ?_, ?_⟩⟩
  · simp only [hfound, Option.join_some]
  · rintro rfl table
    cases hfound : memo.lookup table with
    | none => rfl
    | some found =>
        rcases hlearns.asked table found hfound with hnoted | ⟨p, hp, -⟩
        · cases hnoted
        · cases hp

/-- With answers that are known, every run has the same knowledge: what it has noted by the end is
part of it. -/
theorem run_qualify {know : Knowledge}
    (hasked : ∀ p ∈ provider, ∀ table s, ((ask p table).run s).1 = know table)
    (hunasked : provider = none → ∀ table, know table = none) (t : Tree) (s : σ) :
    ((t.qualify defaults provider).run s).1 = t.qualifyBy know defaults := by
  obtain ⟨memo, hlearns, hvalue⟩ := exists_notes defaults provider t s
  refine hvalue know ⟨fun table found hfound => ?_, hunasked⟩
  rcases hlearns.asked table found hfound with hnoted | ⟨p, hp, s, rfl⟩
  · cases hnoted
  · exact (hasked p hp table s).symm

theorem exists_forall_qualify_eq (defaults : TableDefaults)
    (hprovider : ∀ p ∈ provider, p.IsConsistent) :
    ∃ know, ∀ (t : Tree) (s : σ),
      ((t.qualify defaults provider).run s).1 = t.qualifyBy know defaults := by
  obtain ⟨know, hasked, hunasked⟩ := exists_knowledge hprovider
  exact ⟨know, run_qualify hasked hunasked⟩

/-- **Qualifying what has been qualified changes nothing**, whatever run asks again. With consistent
answers both runs qualify by one knowledge, and for that it is `qualifyBy_qualifyBy`. -/
theorem qualify_qualify (hprovider : ∀ p ∈ provider, p.IsConsistent) {t t' : Tree} {s : σ}
    (h : ((t.qualify defaults provider).run s).1 = .ok t') (s' : σ) :
    ((t'.qualify defaults provider).run s').1 = .ok t' := by
  obtain ⟨know, hknow⟩ := exists_forall_qualify_eq defaults hprovider
  rw [hknow] at h ⊢
  exact qualifyBy_qualifyBy h

/-- `SELECT qty FROM p.d.orders o JOIN p.d.items i ON id = order_id`, with `qty` as written. -/
def orderedQuantities (qty : Tree) : Tree :=
  ⟨.select, "SELECT qty FROM p.d.orders o JOIN p.d.items i ON id = order_id",
    [⟨.projection none (some "qty"), "qty", [qty]⟩,
      ⟨.fromClause, "p.d.orders o JOIN p.d.items i ON id = order_id",
        [.leaf (.table ⟨["p", "d", "orders"], some "o"⟩) "p.d.orders o",
          ⟨.join "JOIN" .predicate, "JOIN p.d.items i ON id = order_id",
            [.leaf (.table ⟨["p", "d", "items"], some "i"⟩) "p.d.items i",
              ⟨.equality, "id = order_id",
                [.leaf (.column ["id"]) "id", .leaf (.column ["order_id"]) "order_id"]⟩]⟩]⟩]⟩

/-- A provider that knows of one table that it has a column `qty`. -/
def itemsProvider : Provider Unit :=
  .ofAnswers fun key =>
    if key.table = "items" then .ok { columns := .ofList [("qty", ⟨"INT64", none, false⟩)] }
    else .error (.notFound key)

theorem itemsProvider_isConsistent : ∀ p ∈ some itemsProvider, p.IsConsistent := by
  intro p hp
  obtain rfl := Option.some.inj hp
  exact ⟨_, fun _ _ => rfl⟩

theorem qualify_orderedQuantities :
    (((orderedQuantities (.leaf (.column ["qty"]) "qty")).qualify {} (some itemsProvider)).run ()).1
        = .ok (orderedQuantities (.leaf (.column ["i", "qty"]) "i.qty"))
      ∧ (((orderedQuantities (.leaf (.column ["i", "qty"]) "i.qty")).qualify {}
          (some itemsProvider)).run ()).1
        = .ok (orderedQuantities (.leaf (.column ["i", "qty"]) "i.qty")) := by
  have hfirst : (((orderedQuantities (.leaf (.column ["qty"]) "qty")).qualify {}
      (some itemsProvider)).run ()).1
      = .ok (orderedQuantities (.leaf (.column ["i", "qty"]) "i.qty")) := by
    decide +kernel
  exact ⟨hfirst, qualify_qualify itemsProvider_isConsistent hfirst ()⟩

/-- **A qualified tree differs in its bare columns only**, so what is read off anything else is read
off as before. Any run qualifies by some knowledge, consistent or not, and each of the parts holds
of any two trees that differ so (`QualifiesTo`). -/
theorem qualify_frame {t t' : Tree} {s : σ}
    (h : ((t.qualify defaults provider).run s).1 = .ok t') :
    t.QualifiesTo t' ∧ (∀ d, Relations.ofTree d t' = Relations.ofTree d t)
      ∧ t'.filters = t.filters
      ∧ ∀ rs, (t'.joins rs).map JoinRecord.frame = (t.joins rs).map JoinRecord.frame := by
  obtain ⟨know, hknow⟩ := t.exists_qualify_eq defaults provider s
  have hto := qualifiesTo_of_qualifyBy (hknow.symm.trans h)
  exact ⟨hto, hto.relations_eq, hto.filters_eq, fun rs => QualifiesTo.joins_eq rs hto⟩

/-- `SELECT o.x FROM orders o JOIN (SELECT id FROM items) ON x = id`, with the `id` of the nested
query as written. -/
def matchedOrders (id : Tree) : Tree :=
  ⟨.select, "SELECT o.x FROM orders o JOIN (SELECT id FROM items) ON x = id",
    [⟨.projection none (some "x"), "o.x", [.leaf (.column ["o", "x"]) "o.x"]⟩,
      ⟨.fromClause, "orders o JOIN (SELECT id FROM items) ON x = id",
        [.leaf (.table ⟨["orders"], some "o"⟩) "orders o",
          ⟨.join "JOIN" .predicate, "JOIN (SELECT id FROM items) ON x = id",
            [⟨.derived none, "(SELECT id FROM items)",
                [⟨.query, "SELECT id FROM items",
                  [⟨.select, "SELECT id FROM items",
                    [⟨.projection none (some "id"), "id", [id]⟩,
                      ⟨.fromClause, "items",
                        [.leaf (.table ⟨["items"], none⟩) "items"]⟩]⟩]⟩]⟩,
              ⟨.equality, "x = id",
                [.leaf (.column ["x"]) "x", .leaf (.column ["id"]) "id"]⟩]⟩]⟩]⟩

theorem qualify_frame_matchedOrders :
    (matchedOrders (.leaf (.column ["id"]) "id")).QualifiesTo
        (matchedOrders (.leaf (.column ["items", "id"]) "items.id"))
      ∧ Relations.ofTree {} (matchedOrders (.leaf (.column ["items", "id"]) "items.id"))
        = Relations.ofTree {} (matchedOrders (.leaf (.column ["id"]) "id")) := by
  have h : (((matchedOrders (.leaf (.column ["id"]) "id")).qualify {}
      (none : Option (Provider Unit))).run ()).1
      = .ok (matchedOrders (.leaf (.column ["items", "id"]) "items.id")) := by
    decide +kernel
  have hframe := qualify_frame h
  exact ⟨hframe.1, hframe.2.1 {}⟩

end Tree

end QueryLineage
