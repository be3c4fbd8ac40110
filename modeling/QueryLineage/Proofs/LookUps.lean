import QueryLineage.Proofs.ColumnOwners
import QueryLineage.Proofs.QualificationRuns

/-!
# What a provider is asked

An analysis asks its provider in two passes, and in each every name at most once. When columns are
qualified it asks about the tables that the selects refer to, as they are written: a reference to a
common table expression is taken for one to a table of that name. When the graph is decorated it
asks about its table nodes and about the owners of its columns, by their texts. `Logged` holds the
names asked about so far against the look-ups seen so far; `Keeps` carries it through each function
of a pass, and `Analysis.exists_lookUps` puts the passes together.
-/

namespace QueryLineage

/-! ## Parts of a run -/

section Keeping

variable {S α β ε : Type} {I : S → Prop} {Q : α → Prop} {R : β → Prop}

/-- From any state with `I` the part `x` of a run leads to one with `I`, and its result has `Q`. -/
def Keeps (I : S → Prop) (Q : α → Prop) (x : StateM S α) : Prop :=
  ∀ s, I s → I (x.run s).2 ∧ Q (x.run s).1

/-- The part keeps `I`, whatever its result. -/
abbrev Preserves (I : S → Prop) (x : StateM S α) : Prop := Keeps I (fun _ => True) x

namespace Keeps

theorem pure {a : α} (ha : Q a) : Keeps I Q (Pure.pure a) := fun _ hs => ⟨hs, ha⟩

theorem mono {P : α → Prop} {x : StateM S α} (hx : Keeps I P x) (hPQ : ∀ a, P a → Q a) :
    Keeps I Q x := fun s hs => (hx s hs).imp_right (hPQ _)

theorem of_forall_run {P : α → Prop} {x : StateM S α} (hx : Keeps I P x)
    (hQ : ∀ s, Q (x.run s).1) : Keeps I Q x := fun s hs => ⟨(hx s hs).1, hQ s⟩

theorem bind {x : StateM S α} {f : α → StateM S β} (hx : Keeps I Q x)
    (hf : ∀ a, Q a → Keeps I R (f a)) : Keeps I R (x >>= f) := fun s hs =>
  hf _ (hx s hs).2 _ (hx s hs).1

theorem mapM {f : α → StateM S β} {l : List α} (hf : ∀ a ∈ l, Preserves I (f a)) :
    Preserves I (l.mapM f) := by
  induction l with
  | nil => exact .pure trivial
  | cons a rest ih =>
      rw [List.mapM_cons]
      have hrest := ih fun a ha => hf a (List.mem_cons_of_mem _ ha)
      exact (hf a List.mem_cons_self).bind fun b _ => hrest.bind fun bs _ => .pure trivial

theorem bind_run {x : ExceptT ε (StateM S) α} {f : α → ExceptT ε (StateM S) β}
    (hx : Keeps I (fun result => ∀ a, result = .ok a → Q a) x.run)
    (hf : ∀ a, Q a → Preserves I (f a).run) :
    Preserves I (x >>= f).run := by
  rw [ExceptT.run_bind]
  refine hx.bind fun result hresult => ?_
  cases result with
  | error e => exact .pure trivial
  | ok a => exact hf a (hresult a rfl)

theorem andThen_run {x : ExceptT ε (StateM S) α} {f : α → ExceptT ε (StateM S) β}
    (hx : Preserves I x.run) (hf : ∀ a, Preserves I (f a).run) :
    Preserves I (x >>= f).run :=
  (hx.mono fun _ _ _ _ => trivial).bind_run (Q := fun _ => True) fun a _ => hf a

theorem mapM_run {f : α → ExceptT ε (StateM S) β} {l : List α}
    (hf : ∀ a ∈ l, Preserves I (f a).run) :
    Preserves I (l.mapM f).run := by
  induction l with
  | nil => exact .pure trivial
  | cons a rest ih =>
      rw [List.mapM_cons]
      have hrest := ih fun a ha => hf a (List.mem_cons_of_mem _ ha)
      exact (hf a List.mem_cons_self).andThen_run fun b => hrest.andThen_run fun bs => .pure trivial

/-- A rewriting of nodes keeps what it keeps at each node that it comes to. By induction on the
levels, with `P` for what is known of a node from those above it. -/
theorem rewriteDown {f : Tree → ExceptT ε (StateM S) Tree} {P : Tree → Prop}
    (hchildren : ∀ t, P t → ∀ c ∈ t.children, P c)
    (hf : ∀ t, P t → Keeps I (fun result => ∀ u, result = .ok u → P u) (f t).run) (n : Nat)
    {t : Tree} (ht : P t) : Preserves I (t.rewriteDown f n).run := by
  induction n generalizing t with
  | zero => exact .pure trivial
  | succ n ih =>
      simp only [Tree.rewriteDown]
      refine (hf t ht).bind_run fun u hu => ?_
      exact (mapM_run fun c hc => ih (hchildren u hu c hc)).andThen_run fun _ => .pure trivial

end Keeps

end Keeping

/-! ## Qualifying -/

namespace Qualification

variable {σ : Type} {p : Provider σ} {T : TableName → Prop} {before : List TableKey}

theorem keeps_metadataOf {table : TableName} (htable : T table) :
    Preserves (Logged TableKey.ofName? T before) (metadataOf p.noting table) := by
  rw [metadataOf_eq_askOnce]
  exact fun state hstate =>
    ⟨hstate.askOnce (Provider.run_metadata?_noting p TableKey.ofName?) htable, trivial⟩

/-- The tables of some relations may be asked about. -/
def MayAsk (T : TableName → Prop) (relations : List ScopeRelation) : Prop :=
  ∀ r ∈ relations, ∀ table ∈ r.table, T table

theorem keeps_hasColumn (column : String) {r : ScopeRelation} (hr : ∀ table ∈ r.table, T table) :
    Preserves (Logged TableKey.ofName? T before) (hasColumn p.noting column r) := by
  obtain ⟨qualifier, table⟩ := r
  cases table with
  | none => exact .pure trivial
  | some table => exact (keeps_metadataOf (hr table rfl)).bind fun _ _ => .pure trivial

theorem keeps_fromFirstOwner (column : String) {relations : List ScopeRelation}
    (hrelations : MayAsk T relations) :
    Keeps (Logged TableKey.ofName? T before) (MayAsk T)
      (fromFirstOwner p.noting column relations) := by
  induction relations with
  | nil => exact .pure hrelations
  | cons r rest ih =>
      obtain ⟨hr, hrest⟩ := List.forall_mem_cons.mp hrelations
      refine (keeps_hasColumn column hr).bind fun has _ => ?_
      cases has with
      | true => exact .pure hrelations
      | false => exact ih hrest

theorem keeps_qualifierOf {relations : List ScopeRelation} (hrelations : MayAsk T relations)
    (column : String) :
    Preserves (Logged TableKey.ofName? T before)
      (qualifierOf (some p.noting) relations column) := by
  by_cases hmany : ∀ only, relations ≠ [only]
  · -- The second search goes on in what the first one left, so among the same relations.
    rw [qualifierOf_some_of_many p.noting hmany]
    refine (keeps_fromFirstOwner column hrelations).bind fun owners howners => ?_
    cases owners with
    | nil => exact .pure trivial
    | cons first rest =>
        obtain ⟨-, hrest⟩ := List.forall_mem_cons.mp howners
        refine (keeps_fromFirstOwner column hrest).bind fun others _ => ?_
        cases others with
        | nil => exact .pure trivial
        | cons second rest => exact .pure trivial
  · push Not at hmany
    obtain ⟨only, rfl⟩ := hmany
    exact .pure trivial

theorem keeps_qualifierIn {relations : List ScopeRelation} (hrelations : MayAsk T relations)
    (aliases : List String) (child : Tree) (column : String) :
    Preserves (Logged TableKey.ofName? T before)
      (qualifierIn (some p.noting) relations aliases child column) := by
  unfold qualifierIn
  split
  · exact .pure trivial
  · exact keeps_qualifierOf hrelations column

section Columns

variable {S : Type} {I : S → Prop} {f : String → StateM S (Option String)}

theorem keeps_rewriteColumnsBelow {ts : List Tree}
    (hts : ∀ t ∈ ts, Preserves I (rewriteColumns f t)) :
    Preserves I (rewriteColumnsBelow f ts) := by
  induction ts with
  | nil => exact .pure trivial
  | cons t rest ih =>
      have hrest := ih fun t ht => hts t (List.mem_cons_of_mem _ ht)
      have hfirst := hts t List.mem_cons_self
      obtain ⟨label, sql, children⟩ := t
      rw [rewriteColumnsBelow]
      by_cases hquery : label = .query
      · simp only [if_pos hquery, pure_bind]
        exact hrest.bind fun _ _ => .pure trivial
      · simp only [if_neg hquery]
        exact hfirst.bind fun _ _ => hrest.bind fun _ _ => .pure trivial

/-- Rewriting columns keeps what each question for a qualifier keeps. By induction on the tree; only
a bare column has a question. -/
theorem keeps_rewriteColumns (hf : ∀ column, Preserves I (f column)) (t : Tree) :
    Preserves I (rewriteColumns f t) := by
  induction t using Tree.children_induction with
  | node label sql children ih =>
      rcases Tree.column_cases label with ⟨name, rfl⟩ | ⟨parts, hparts, rfl⟩ | hlabel
      · rw [rewriteColumns]
        refine (hf name).bind fun qualifier _ => ?_
        cases qualifier with
        | some qualifier => exact .pure trivial
        | none => exact .pure trivial
      · rw [rewriteColumns]
        · exact .pure trivial
        · exact hparts
      · rw [rewriteColumns_node f hlabel]
        exact (keeps_rewriteColumnsBelow ih).bind fun _ _ => .pure trivial

end Columns

/-- A table that a reference in the tree stands for, by its path alone. -/
def IsReferredTo (defaults : TableDefaults) (t : Tree) (table : TableName) : Prop :=
  ∃ ref ∈ t.tableRefs, defaults.resolve ref.path = some table

theorem resolve_of_tableRelation {defaults : TableDefaults} {ref : TableRef} {r : ScopeRelation}
    (h : tableRelation defaults ref = .ok r) {table : TableName} (htable : table ∈ r.table) :
    defaults.resolve ref.path = some table := by
  rw [tableRelation] at h
  rw [TableDefaults.resolve]
  cases hname : TableName.ofSegments ref.path with
  | error defect =>
      rw [hname] at h
      cases h
  | ok name =>
      rw [hname] at h
      obtain rfl := Except.ok.inj h
      exact htable

/-- The tables in the scope of a select are referred to in it: each relation that has a table comes
from a reference in the from clause, completed by the defaults, and a derived relation has none. -/
theorem mayAsk_scopeRelations {defaults : TableDefaults} {t : Tree}
    {relations : List ScopeRelation} (h : scopeRelations defaults t = .ok relations) :
    MayAsk (IsReferredTo defaults t) relations := by
  intro r hr table htable
  unfold scopeRelations at h
  split at h
  · obtain rfl := Except.ok.inj h
    cases hr
  · rename_i clause hclause
    cases htables : clause.scopeTableRefs.mapM (tableRelation defaults) with
    | error e =>
        rw [htables] at h
        cases h
    | ok tables =>
        rw [htables] at h
        obtain rfl := Except.ok.inj h
        rcases List.mem_append.mp hr with hr | hr
        · obtain ⟨ref, href, hrelation⟩ := exists_of_mem_forall₂ (mapM_eq_ok_iff.mp htables) hr
          obtain ⟨u, hu, htable'⟩ := List.mem_filterMap.mp href
          have hbelow : ref ∈ clause.tableRefs :=
            List.mem_filterMap.mpr ⟨u, Tree.mem_preorder_of_mem_scope hu, htable'⟩
          have hchild : clause ∈ t.children := List.mem_of_find?_eq_some hclause
          exact ⟨ref, Tree.mem_tableRefs_iff.mpr (.inr ⟨clause, hchild, hbelow⟩),
            resolve_of_tableRelation hrelation htable⟩
        · obtain ⟨u, -, hderived⟩ := List.mem_filterMap.mp hr
          unfold derivedRelation? at hderived
          split at hderived
          · obtain rfl := Option.some.inj hderived
            cases htable
          · cases hderived

/-- Whatever the notes, the step on a select comes to what some knowledge makes of it, so it only
qualifies. -/
theorem qualifiesTo_of_run_qualifyScope {defaults : TableDefaults} {t u : Tree} {s : Memo × σ}
    (h : ((qualifyScope defaults (some p) t).run.run s).1 = .ok u) : t.QualifiesTo u := by
  obtain ⟨know, hknow⟩ := (computes_qualifyScope defaults (some p) t).exists_know s
  exact Knowledge.qualifiesTo_of_qualifyScope (hknow.symm.trans h)

/-- The step on a select asks about tables that it refers to. Its questions are those for the
columns of its children, and they go to the relations in its scope. -/
theorem keeps_qualifyScope {defaults : TableDefaults} {t : Tree}
    (ht : ∀ table, IsReferredTo defaults t table → T table) :
    Keeps (Logged TableKey.ofName? T before) (fun result => ∀ u, result = .ok u → t.QualifiesTo u)
      (qualifyScope defaults (some p.noting) t).run := by
  refine Keeps.of_forall_run (P := fun _ => True) ?_ fun s u => qualifiesTo_of_run_qualifyScope
  unfold qualifyScope
  split
  · rcases hscope : scopeRelations defaults t with e | _ | ⟨r, rest⟩
    · exact .pure trivial
    · exact .pure trivial
    · have hrelations : MayAsk T (r :: rest) := fun r hr table htable =>
        ht table (mayAsk_scopeRelations hscope r hr table htable)
      refine (Keeps.mapM_run fun child _ => ?_).andThen_run fun _ => .pure trivial
      refine (keeps_rewriteColumns (fun column => ?_) child).bind fun _ _ => .pure trivial
      exact keeps_qualifierIn hrelations (projectionAliases t) child column
  · exact .pure trivial

/-- All tables that `u` refers to, `t` refers to. -/
def RefersWithin (defaults : TableDefaults) (t u : Tree) : Prop :=
  ∀ table, IsReferredTo defaults u table → IsReferredTo defaults t table

theorem RefersWithin.child {defaults : TableDefaults} {t u : Tree}
    (hu : RefersWithin defaults t u) : ∀ c ∈ u.children, RefersWithin defaults t c := by
  rintro c hc table ⟨ref, href, hresolve⟩
  exact hu table ⟨ref, Tree.mem_tableRefs_iff.mpr (.inr ⟨c, hc, href⟩), hresolve⟩

theorem RefersWithin.qualifiesTo {defaults : TableDefaults} {t u u' : Tree}
    (hu : RefersWithin defaults t u) (h : u.QualifiesTo u') : RefersWithin defaults t u' := by
  rintro table ⟨ref, href, hresolve⟩
  exact hu table ⟨ref, h.tableRefs_eq ▸ href, hresolve⟩

/-- Qualifying asks, each once, about tables that the tree refers to. Each select it comes to refers
to nothing that the tree does not, also after the selects above it are qualified, and the log of the
questions is kept by every step (`Logged`). -/
theorem exists_asked (defaults : TableDefaults) (p : Provider σ) (t : Tree)
    (s : σ × List TableKey) :
    ∃ asked : List TableName, asked.Nodup ∧ (∀ table ∈ asked, IsReferredTo defaults t table)
      ∧ ((t.qualify defaults (some p.noting)).run s).2.2
        = s.2 ++ asked.filterMap TableKey.ofName? := by
  have hselect : ∀ u, RefersWithin defaults t u →
      Keeps (Logged TableKey.ofName? (IsReferredTo defaults t) s.2)
        (fun result => ∀ u', result = .ok u' → RefersWithin defaults t u')
        (qualifyScope defaults (some p.noting) u).run :=
    fun u hu => (keeps_qualifyScope hu).mono fun _ hresult u' hok =>
      hu.qualifiesTo (hresult u' hok)
  have hrun := Keeps.rewriteDown (fun _ => RefersWithin.child) hselect t.height fun _ h => h
  exact (hrun ([], s) (Logged.start TableKey.ofName? _ s)).1.exists_asked

end Qualification

/-! ## Decorating -/

namespace Enrichment

variable {σ : Type} {T : String → Prop} {before : List TableKey}

theorem keeps_enrichNode (p : Provider σ) {n : GraphNode} (hn : ∀ table ∈ tableOf? n, T table) :
    Preserves (Logged keyOfText? T before) (enrichNode p.noting n) := by
  cases htable : tableOf? n with
  | none =>
      rw [enrichNode_of_none p.noting htable]
      exact .pure trivial
  | some table =>
      intro state hstate
      rw [run_enrichNode_of_some p.noting htable, metadataOf_eq_askOnce]
      exact ⟨hstate.askOnce (Provider.run_metadata?_noting p keyOfText?) (hn table htable),
        trivial⟩

/-- Decorating asks, each once, about tables of the nodes by the texts of their names. The pass has
notes of its own, so it may ask again what qualifying has asked. -/
theorem exists_named (p : Provider σ) (g : LineageGraph) (s : σ × List TableKey) :
    ∃ named : List String, named.Nodup
      ∧ (∀ table ∈ named, ∃ n ∈ g.nodes, tableOf? n = some table)
      ∧ ((g.enrich p.noting).run s).2.2 = s.2 ++ named.filterMap keyOfText? := by
  have hrun := Keeps.mapM (I := Logged keyOfText?
    (fun table => ∃ n ∈ g.nodes, tableOf? n = some table) s.2) (l := g.nodes)
    fun n hn => keeps_enrichNode p fun table htable => ⟨n, hn, htable⟩
  exact (hrun ([], s) (Logged.start keyOfText? _ s)).1.exists_asked

end Enrichment

/-- The table of a node is a source, or a table that the node's column may have been read from; only
tables and columns have one. -/
theorem Assembly.source_or_base_of_tableOf? {i : AssemblyInput} {n : GraphNode}
    (hn : n ∈ (build i).nodes) {table : String} (htable : Enrichment.tableOf? n = some table) :
    (∃ t ∈ i.relations.sources.toList, t.text = table)
      ∨ table ∈ (build i).ids ∧ ∃ t ∈ i.relations.baseTables n.id, t.text = table := by
  by_cases hsource : n.type = .table
  · obtain ⟨t, ht, rfl⟩ := exists_source_of_table hn hsource
    exact .inl ⟨t, ht, Option.some.inj htable⟩
  · refine .inr (exists_base_of_column hn ?_ htable)
    unfold Enrichment.tableOf? at htable
    split at htable
    · rename_i hdetail
      exact absurd (by rw [GraphNode.type, hdetail, NodeDetail.type]) hsource
    · rename_i hdetail
      rw [GraphNode.type, hdetail, NodeDetail.type]
    · cases htable

/-! ## Both passes -/

theorem TableKey.ofName?_injective {t u : TableName} {key : TableKey} (ht : key ∈ ofName? t)
    (hu : key ∈ ofName? u) : t = u := by
  have hsegments : ∀ {v : TableName}, key ∈ ofName? v →
      v.segments = [key.project, key.dataset, key.table] := by
    intro v hv
    unfold ofName? at hv
    split at hv
    · rename_i hv'
      obtain rfl := Option.some.inj hv
      exact hv'
    · cases hv
  obtain ⟨segments, _, _⟩ := t
  obtain ⟨segments', _, _⟩ := u
  obtain rfl : segments = segments' := (hsegments ht).trans (hsegments hu).symm
  rfl

namespace Analysis

open Qualification Enrichment

variable {σ : Type}

theorem exists_asked_qualified (o : LineageOptions) (p : Provider σ) (root : Tree)
    (s : σ × List TableKey) :
    ∃ asked : List TableName, asked.Nodup
      ∧ (∀ table ∈ asked, IsReferredTo o.defaults root table)
      ∧ ((qualified o (some p.noting) root).run s).2.2
        = s.2 ++ asked.filterMap TableKey.ofName? := by
  unfold qualified
  split
  · obtain ⟨asked, hnodup, hreferred, hseen⟩ := exists_asked o.defaults p root s
    refine ⟨asked, hnodup, hreferred, ?_⟩
    rw [StateT.run_bind, ← hseen]
    rcases (root.qualify o.defaults (some p.noting)).run s with ⟨e | tree, after⟩ <;> rfl
  · exact ⟨[], List.nodup_nil, nofun, (List.append_nil _).symm⟩

/-- **What a provider is asked.** All look-ups of an analysis are those of its two passes.
Qualifying looks no table up twice, and each is a source or one that the bare name of a common table
expression would stand for. Decorating asks about no name twice, and each is that of a source or of
the owner of a column. Each pass keeps a log of what it has looked up (`exists_asked_qualified`,
`exists_named`); what is left is to see where the tables come from. -/
theorem exists_lookUps (o : LineageOptions) (p : Provider σ) (timestamp : String) (root : Tree)
    (s : σ) :
    let a := ((ofTree o (some p.noting) timestamp root).run (s, [])).1
    ∃ (asked : List TableName) (named : List String),
      ((qualified o (some p.noting) root).run (s, [])).2.2 = asked.filterMap TableKey.ofName?
        ∧ ((ofTree o (some p.noting) timestamp root).run (s, [])).2.2
          = asked.filterMap TableKey.ofName? ++ named.filterMap keyOfText?
        ∧ (asked.filterMap TableKey.ofName?).Nodup ∧ named.Nodup
        ∧ (∀ t ∈ asked, t ∈ a.relations.sources.toList
            ∨ ∃ name, root.Defines (Text.lower name) ∧ o.defaults.resolve [name] = some t)
        ∧ ∀ text ∈ named, (∃ t ∈ a.relations.sources.toList, t.text = text)
            ∨ ∃ column, a.Owns text column := by
  rw [run_ofTree]
  intro a
  let found := (qualified o (some p.noting) root).run (s, [])
  let i := input o timestamp root found.1.1
  obtain ⟨asked, hasked, hreferred, hseen⟩ := exists_asked_qualified o p root (s, [])
  obtain ⟨named, hnamed, htables, hseen'⟩ := exists_named p (assembleGraph i) found.2
  have hkeys : (asked.filterMap TableKey.ofName?).Nodup :=
    hasked.filterMap fun _ _ _ => TableKey.ofName?_injective
  refine ⟨asked, named, hseen, ?_, hkeys, hnamed, fun t ht => ?_, fun text htext => ?_⟩
  · rw [← List.nil_append (asked.filterMap _), ← hseen]
    exact hseen'
  · -- Only by a name that an expression has does a reference not make its table a source.
    obtain ⟨ref, href, hresolve⟩ := hreferred t ht
    by_cases hname : ∃ name, ref.path = [name] ∧ root.Defines (Text.lower name)
    · obtain ⟨name, hpath, hdefines⟩ := hname
      exact .inr ⟨name, hdefines, hpath ▸ hresolve⟩
    · push Not at hname
      exact .inl (Relations.mem_sources.mpr ⟨ref, href, hname, hresolve⟩)
  · obtain ⟨n, hn, htable⟩ := htables text htext
    rcases Assembly.source_or_base_of_tableOf? hn htable with hsource | ⟨hid, t, ht, rfl⟩
    · exact .inl hsource
    · have hnodes : List.Forall₂ GraphNode.KeepsTable (assembleGraph i).nodes a.graph.nodes :=
        forall₂_decorated .refl .decorate (some p.noting) _ _
      exact .inr ⟨n.id, owns_of_mem_ids (i := i) rfl rfl hnodes ht hid⟩

/-- A provider that knows of one table that it has a column `v`. -/
def valuesProvider : Provider Unit :=
  .ofAnswers fun key =>
    if key.table = "b" then .ok { columns := .ofList [("v", ⟨"INT64", none, false⟩)] }
    else .error (.notFound key)

/-- The expression `c` is looked up as the table `p.d.c`, which is no source. -/
theorem lookUps_of_namedExpression :
    (({ sql := "WITH c AS (SELECT k FROM p.d.a) SELECT v FROM c JOIN p.d.b ON c.k = b.k" } :
        LineageRequest).tree.map fun root =>
      let o := { LineageOptions.ofConfig {} with defaults := ⟨some "p", some "d"⟩ }
      let run := (ofTree o (some valuesProvider.noting) "" root.1).run ((), [])
      (run.1.relations.sources.toList.map TableName.text, run.2.2.map TableKey.text)).toOption
      = some (["p.d.a", "p.d.b"], ["p.d.c", "p.d.b", "p.d.a", "p.d.b"]) := by
  decide +kernel

end Analysis

end QueryLineage
