import QueryLineage.Proofs.AnalysisRuns
import QueryLineage.Proofs.QualificationRuns

/-!
# Providers that answer alike

An analysis learns of its provider nothing but answers. So if of two providers each question gets
one answer from both, as long as their states are related, and leaves the states related, then the
analyses with them come to the same, and leave the states related too
(`LineageRequest.alike_report`). `Alike` says this of a part of a run and of another part that is to
take its place. Parts are put together by `bind`, and each function that passes questions on has one
lemma of its own.
-/

namespace QueryLineage

/-! ## Parts of two runs -/

section Parts

variable {S T α β ε : Type} {R : S → T → Prop}

/-- From related states the parts `x` and `y` have the same result and lead to related states. -/
def Alike (R : S → T → Prop) (x : StateM S α) (y : StateM T α) : Prop :=
  ∀ s t, R s t → (x.run s).1 = (y.run t).1 ∧ R (x.run s).2 (y.run t).2

namespace Alike

theorem pure (a : α) : Alike R (Pure.pure a) (Pure.pure a) := fun _ _ h => ⟨rfl, h⟩

theorem bind {x : StateM S α} {y : StateM T α} {f : α → StateM S β} {g : α → StateM T β}
    (hxy : Alike R x y) (hfg : ∀ a, Alike R (f a) (g a)) : Alike R (x >>= f) (y >>= g) := by
  intro s t h
  obtain ⟨hresult, hstates⟩ := hxy s t h
  change ((f (x.run s).1).run (x.run s).2).1 = ((g (y.run t).1).run (y.run t).2).1
    ∧ R ((f (x.run s).1).run (x.run s).2).2 ((g (y.run t).1).run (y.run t).2).2
  rw [← hresult]
  exact hfg _ _ _ hstates

theorem mapM {f : α → StateM S β} {g : α → StateM T β} (hfg : ∀ a, Alike R (f a) (g a))
    (l : List α) : Alike R (l.mapM f) (l.mapM g) := by
  induction l with
  | nil => exact pure []
  | cons a rest ih =>
      rw [List.mapM_cons, List.mapM_cons]
      exact (hfg a).bind fun b => ih.bind fun bs => pure (b :: bs)

theorem bind_run {x : ExceptT ε (StateM S) α} {y : ExceptT ε (StateM T) α}
    {f : α → ExceptT ε (StateM S) β} {g : α → ExceptT ε (StateM T) β}
    (hxy : Alike R x.run y.run) (hfg : ∀ a, Alike R (f a).run (g a).run) :
    Alike R (x >>= f).run (y >>= g).run := by
  rw [ExceptT.run_bind, ExceptT.run_bind]
  refine hxy.bind fun result => ?_
  cases result with
  | error e => exact pure (Except.error e)
  | ok a => exact hfg a

theorem mapM_run {f : α → ExceptT ε (StateM S) β} {g : α → ExceptT ε (StateM T) β}
    (hfg : ∀ a, Alike R (f a).run (g a).run) (l : List α) :
    Alike R (l.mapM f).run (l.mapM g).run := by
  induction l with
  | nil => exact pure (Except.ok [])
  | cons a rest ih =>
      rw [List.mapM_cons, List.mapM_cons]
      exact (hfg a).bind_run fun b => ih.bind_run fun bs => pure (Except.ok (b :: bs))

theorem rewriteDown {f : Tree → ExceptT ε (StateM S) Tree} {g : Tree → ExceptT ε (StateM T) Tree}
    (hfg : ∀ t, Alike R (f t).run (g t).run) (n : Nat) (t : Tree) :
    Alike R (t.rewriteDown f n).run (t.rewriteDown g n).run := by
  induction n generalizing t with
  | zero => exact pure (Except.ok t)
  | succ n ih =>
      simp only [Tree.rewriteDown]
      exact (hfg t).bind_run fun u => (mapM_run ih u.children).bind_run fun children =>
        pure (Except.ok { u with children })

end Alike

end Parts

/-! ## Questions -/

variable {σ τ κ α : Type} {R : σ → τ → Prop} {p : Provider σ} {q : Provider τ}

/-- Both providers answer each question alike. -/
def Provider.Simulates (R : σ → τ → Prop) (p : Provider σ) (q : Provider τ) : Prop :=
  ∀ k, Alike R (p k) (q k)

/-- The states are related, and the notes beside them are the same. -/
def WithNotes (R : σ → τ → Prop) (s : α × σ) (t : α × τ) : Prop := s.1 = t.1 ∧ R s.2 t.2

theorem Provider.Simulates.alike_metadata? (h : p.Simulates R q) (key? : κ → Option TableKey)
    (k : κ) : Alike R (p.metadata? key? k) (q.metadata? key? k) := by
  unfold metadata?
  cases key? k with
  | none => exact .pure none
  | some key => exact (h key).bind fun answer => .pure answer.toOption

/-- With the same notes either both ask or both know. If they ask, their notes are the same again,
as the answers are. -/
theorem alike_askOnce [BEq κ] [LawfulBEq κ] {ask : κ → StateM σ α} {ask' : κ → StateM τ α}
    (h : ∀ k, Alike R (ask k) (ask' k)) (k : κ) :
    Alike (WithNotes R) (askOnce ask k) (askOnce ask' k) := by
  rintro ⟨notes, s⟩ ⟨_, t⟩ ⟨rfl, hstates⟩
  simp only [StateT.run, askOnce]
  cases notes.lookup k with
  | some known => exact ⟨rfl, rfl, hstates⟩
  | none =>
      obtain ⟨hanswer, hafter⟩ := h k s t hstates
      exact ⟨hanswer, congrArg (fun found => (k, found) :: notes) hanswer, hafter⟩

/-! ## Qualifying -/

namespace Qualification

variable (h : p.Simulates R q)

include h

theorem alike_hasColumn (column : String) (r : ScopeRelation) :
    Alike (WithNotes R) (hasColumn p column r) (hasColumn q column r) := by
  obtain ⟨qualifier, table⟩ := r
  cases table with
  | none => exact .pure false
  | some table =>
      simp only [hasColumn, metadataOf_eq_askOnce]
      refine (alike_askOnce (h.alike_metadata? TableKey.ofName?) table).bind fun found => ?_
      exact .pure (found.bind (·.column column)).isSome

theorem alike_fromFirstOwner (column : String) (relations : List ScopeRelation) :
    Alike (WithNotes R) (fromFirstOwner p column relations)
      (fromFirstOwner q column relations) := by
  induction relations with
  | nil => exact .pure []
  | cons r rest ih =>
      refine (alike_hasColumn h column r).bind fun has => ?_
      cases has with
      | true => exact .pure (r :: rest)
      | false => exact ih

theorem alike_qualifierOf (relations : List ScopeRelation) (column : String) :
    Alike (WithNotes R) (qualifierOf (some p) relations column)
      (qualifierOf (some q) relations column) := by
  by_cases hmany : ∀ only, relations ≠ [only]
  · rw [qualifierOf_some_of_many p hmany, qualifierOf_some_of_many q hmany]
    refine (alike_fromFirstOwner h column relations).bind fun owners => ?_
    cases owners with
    | nil => exact .pure none
    | cons first rest =>
        refine (alike_fromFirstOwner h column rest).bind fun others => ?_
        cases others with
        | nil => exact .pure (some first.qualifier)
        | cons second rest => exact .pure none
  · push Not at hmany
    obtain ⟨only, rfl⟩ := hmany
    exact .pure _

theorem alike_qualifierIn (relations : List ScopeRelation) (aliases : List String) (child : Tree)
    (column : String) :
    Alike (WithNotes R) (qualifierIn (some p) relations aliases child column)
      (qualifierIn (some q) relations aliases child column) := by
  unfold qualifierIn
  split
  · exact .pure none
  · exact alike_qualifierOf h relations column

omit h

section Columns

variable {S T : Type} {R : S → T → Prop} {f : String → StateM S (Option String)}
  {g : String → StateM T (Option String)}

theorem alike_rewriteColumnsBelow {ts : List Tree}
    (hts : ∀ t ∈ ts, Alike R (rewriteColumns f t) (rewriteColumns g t)) :
    Alike R (rewriteColumnsBelow f ts) (rewriteColumnsBelow g ts) := by
  induction ts with
  | nil => exact .pure []
  | cons t rest ih =>
      have hrest := ih fun t ht => hts t (List.mem_cons_of_mem _ ht)
      have hfirst := hts t List.mem_cons_self
      obtain ⟨label, sql, children⟩ := t
      rw [rewriteColumnsBelow, rewriteColumnsBelow]
      by_cases hquery : label = .query
      · simp only [if_pos hquery, pure_bind]
        exact hrest.bind fun rest' => .pure (_ :: rest')
      · simp only [if_neg hquery]
        exact hfirst.bind fun t' => hrest.bind fun rest' => .pure (t' :: rest')

theorem alike_rewriteColumns (hfg : ∀ column, Alike R (f column) (g column)) (t : Tree) :
    Alike R (rewriteColumns f t) (rewriteColumns g t) := by
  induction t using Tree.children_induction with
  | node label sql children ih =>
      rcases Tree.column_cases label with ⟨name, rfl⟩ | ⟨parts, hparts, rfl⟩ | hlabel
      · rw [rewriteColumns, rewriteColumns]
        refine (hfg name).bind fun qualifier => ?_
        cases qualifier with
        | some qualifier => exact .pure _
        | none => exact .pure _
      · rw [rewriteColumns, rewriteColumns]
        · exact .pure _
        · exact hparts
        · exact hparts
      · rw [rewriteColumns_node f hlabel, rewriteColumns_node g hlabel]
        exact (alike_rewriteColumnsBelow ih).bind fun below => .pure (Tree.mk label sql below)

end Columns

include h

theorem alike_qualifyScope (defaults : TableDefaults) (t : Tree) :
    Alike (WithNotes R) (qualifyScope defaults (some p) t).run
      (qualifyScope defaults (some q) t).run := by
  unfold qualifyScope
  split
  · rcases scopeRelations defaults t with e | _ | ⟨r, rest⟩
    · exact .pure (Except.error e)
    · exact .pure (Except.ok t)
    · refine (Alike.mapM_run (fun child => ?_) t.children).bind_run fun children =>
        .pure (Except.ok { t with children })
      refine (alike_rewriteColumns (fun column => ?_) child).bind fun child' =>
        .pure (Except.ok child')
      exact alike_qualifierIn h (r :: rest) (projectionAliases t) child column
  · exact .pure (Except.ok t)

theorem alike_qualify (defaults : TableDefaults) (t : Tree) :
    Alike R (t.qualify defaults (some p)) (t.qualify defaults (some q)) := by
  intro s s' hstates
  have hrun := Alike.rewriteDown (alike_qualifyScope h defaults) t.height t
  obtain ⟨hresult, -, hafter⟩ := hrun ([], s) ([], s') ⟨rfl, hstates⟩
  exact ⟨hresult, hafter⟩

end Qualification

/-! ## Decorating -/

namespace Enrichment

theorem alike_enrichNode (h : p.Simulates R q) (n : GraphNode) :
    Alike (WithNotes R) (enrichNode p n) (enrichNode q n) := by
  unfold enrichNode
  cases tableOf? n with
  | none => exact .pure n
  | some table =>
      simp only [metadataOf_eq_askOnce]
      refine (alike_askOnce (h.alike_metadata? keyOfText?) table).bind fun found => ?_
      cases found with
      | none => exact .pure n
      | some m => exact .pure (decorate m n)

theorem alike_enrich (h : p.Simulates R q) (g : LineageGraph) :
    Alike R (g.enrich p) (g.enrich q) := by
  intro s s' hstates
  have hrun := Alike.mapM (alike_enrichNode h) g.nodes
  obtain ⟨hnodes, -, hafter⟩ := hrun ([], s) ([], s') ⟨rfl, hstates⟩
  exact ⟨congrArg (LineageGraph.mk · g.edges) hnodes, hafter⟩

end Enrichment

/-! ## Analyses -/

namespace Analysis

theorem alike_qualified (h : p.Simulates R q) (o : LineageOptions) (root : Tree) :
    Alike R (qualified o (some p) root) (qualified o (some q) root) := by
  unfold qualified
  split
  · refine (Qualification.alike_qualify h o.defaults root).bind fun result => ?_
    cases result with
    | error e => exact .pure (root, some e)
    | ok tree => exact .pure (tree, none)
  · exact .pure (root, none)

theorem alike_ofTree (h : p.Simulates R q) (o : LineageOptions) (timestamp : String)
    (root : Tree) :
    Alike R (ofTree o (some p) timestamp root) (ofTree o (some q) timestamp root) :=
  (alike_qualified h o root).bind fun _ =>
    (Enrichment.alike_enrich h _).bind fun _ => .pure _

end Analysis

/-- Providers that answer alike have the same reports. All steps of an analysis that ask have been
put together by now; to read the request and to write the report takes no provider. -/
theorem LineageRequest.alike_report (h : p.Simulates R q) (o : LineageOptions)
    (timestamp : String) (r : LineageRequest) :
    Alike R (r.report o (some p) timestamp) (r.report o (some q) timestamp) := by
  unfold report
  cases r.tree with
  | error e => exact .pure (Except.error e)
  | ok found => exact (Analysis.alike_ofTree h o timestamp found.1).bind fun _ => .pure _

end QueryLineage
