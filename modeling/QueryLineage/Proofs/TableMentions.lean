import QueryLineage.Proofs.TreeShapes
import QueryLineage.Sql.Script

/-!
# The tables a statement mentions

A *mention* is a place where a relation is a table by its name. The mentions of a statement are
listed along its syntax, each with the *way* that leads to it; nothing here depends on the tree.
What the tree makes of a place is said apart, by the `View` that the steps of a way lead to: a
relation becomes a node where the view is `outlined`, only what lies in it is looked for where the
view is `searched`, and what is `passedOver` leaves nothing in the tree.

The induction is over all of the syntax at once. For what is searched it compares the findings, for
the rest the tree; a query is outlined wherever it is found, which is where the two meet.
-/

namespace QueryLineage

namespace Sql

/-! ## Mentions -/

/-- A step into the syntax, as far as the tree of a statement tells steps apart. -/
inductive Step
  /-- Into a query. -/
  | query
  /-- Into an expression or a relation that is opaque to the analyses, or another statement. -/
  | form
  /-- To what is written beside a relation, behind its name or its alias or instead of the condition
  of a join; beside the clauses of a select, such as `DISTINCT ON` and `QUALIFY`; beside the star of
  a select list; and beside the body of a query, such as `ORDER BY` and `LIMIT`. -/
  | aside
deriving DecidableEq

/-- A table that is named as a relation. -/
structure Mention where
  ref : TableRef
  /-- The steps that lead to it, the outermost first. -/
  way : List Step := []
deriving DecidableEq

/-- The mentions with one more step in front of their ways. -/
def Step.into (step : Step) (ms : List Mention) : List Mention :=
  ms.map fun m => { m with way := step :: m.way }

mutual

/-- The mentions in an expression. -/
def Expr.mentions : Expr → List Mention
  | .column _ _ => []
  | .binary left _ right => left.mentions ++ right.mentions
  | .nested inner => inner.mentions
  | .subquery query => query.mentions
  | .call _ opening args closing groupOrder rest =>
    Step.form.into (piecesMentions opening ++ argumentsMentions args ++ piecesMentions closing
      ++ piecesMentions rest ++ piecesMentions groupOrder)
  | .trimming _ characters text => Step.form.into (text.mentions ++ characters.mentions)
  | .form pieces => Step.form.into (piecesMentions pieces)

def Argument.mentions : Argument → List Mention
  | .expr e => e.mentions
  | .other pieces => piecesMentions pieces

def argumentsMentions : List Argument → List Mention
  | [] => []
  | a :: rest => a.mentions ++ argumentsMentions rest

def Piece.mentions : Piece → List Mention
  | .text _ => []
  | .expr e => e.mentions
  | .query q => q.mentions
  | .relation r => r.mentions

def piecesMentions : List Piece → List Mention
  | [] => []
  | p :: ps => p.mentions ++ piecesMentions ps

def exprsMentions : List Expr → List Mention
  | [] => []
  | e :: es => e.mentions ++ exprsMentions es

def clauseMentions : Option Expr → List Mention
  | some e => e.mentions
  | none => []

/-- The mentions in a relation; a table is one itself. -/
def Relation.mentions : Relation → List Mention
  | .table name afterName alternative afterAlias =>
    ⟨⟨pathOf name, aliasName alternative⟩, []⟩
      :: Step.aside.into (piecesMentions afterName ++ piecesMentions afterAlias)
  | .derived _ query _ afterAlias =>
    query.mentions ++ Step.aside.into (piecesMentions afterAlias)
  | .joined item _ => item.mentions
  | .unnest items _ _ _ => Step.form.into (exprsMentions items)
  | .form pieces => Step.form.into (piecesMentions pieces)

def FromItem.mentions : FromItem → List Mention
  | .mk relation joins => relation.mentions ++ joinsMentions joins

def fromMentions : List FromItem → List Mention
  | [] => []
  | i :: rest => i.mentions ++ fromMentions rest

def Join.mentions : Join → List Mention
  | .conditioned _ relation condition => relation.mentions ++ condition.mentions
  | .matching _ relation _ => relation.mentions
  | .natural _ relation => relation.mentions
  | .unconditional _ relation => relation.mentions
  | .operator _ _ relation rest => relation.mentions ++ Step.aside.into (piecesMentions rest)

def joinsMentions : List Join → List Mention
  | [] => []
  | j :: js => j.mentions ++ joinsMentions js

def SelectItem.mentions : SelectItem → List Mention
  | .unnamed e => e.mentions
  | .aliased e _ => e.mentions
  | .wildcard pieces => Step.aside.into (piecesMentions pieces)

def itemsMentions : List SelectItem → List Mention
  | [] => []
  | i :: rest => i.mentions ++ itemsMentions rest

/-- The mentions in the body of a query. -/
def Body.mentions : Body → List Mention
  | .select opening items sources condition groups _ having rest =>
    Step.aside.into (piecesMentions opening) ++ itemsMentions items ++ fromMentions sources
      ++ clauseMentions condition ++ exprsMentions groups ++ clauseMentions having
      ++ Step.aside.into (piecesMentions rest)
  | .query q => q.mentions
  | .setOperation left _ right => left.mentions ++ right.mentions
  | .other pieces => Step.form.into (piecesMentions pieces)

/-- The mentions in a query. -/
def Query.mentions : Query → List Mention
  | .mk _ ctes body rest =>
    Step.query.into (ctesMentions ctes ++ body.mentions ++ Step.aside.into (piecesMentions rest))

def Cte.mentions : Cte → List Mention
  | .mk _ _ _ query => query.mentions

def ctesMentions : List Cte → List Mention
  | [] => []
  | c :: rest => c.mentions ++ ctesMentions rest

end

/-- The tables a statement names as relations, in any clause and at any depth, in the order they are
written; in `TRIM` the text comes before the characters. -/
def Statement.mentions : Statement → List Mention
  | .query q => q.mentions
  | .other pieces => Step.form.into (piecesMentions pieces)

/-! ## Views -/

/-- What the tree of a statement holds of a place. -/
inductive View
  /-- Relations and clauses are nodes. -/
  | outlined
  /-- The columns and queries in it are nodes. -/
  | searched
  /-- Nothing. -/
  | passedOver
deriving DecidableEq

/-- The view of a place one step further in. -/
def View.step : View → Step → View
  | .passedOver, _ => .passedOver
  | .outlined, .query | .searched, .query => .outlined
  | .outlined, .form | .searched, .form => .searched
  | .outlined, .aside => .passedOver
  | .searched, .aside => .searched

/-- The view of the table where the way starts in a view. -/
def Mention.viewFrom (v : View) (m : Mention) : View := m.way.foldl View.step v

/-- The references among some mentions that are outlined if their ways start in a view. -/
def View.refs (v : View) (ms : List Mention) : List TableRef :=
  (ms.filter (·.viewFrom v = .outlined)).map (·.ref)

section

variable {v : View} {step : Step} {ms ns : List Mention}

@[simp] theorem View.refs_nil : v.refs [] = [] := rfl

@[simp] theorem View.refs_append : v.refs (ms ++ ns) = v.refs ms ++ v.refs ns := by
  simp [View.refs]

@[simp] theorem View.refs_into : v.refs (step.into ms) = (v.step step).refs ms := by
  rw [View.refs, Step.into, List.filter_map, List.map_map]
  rfl

@[simp] theorem View.refs_passedOver : View.passedOver.refs ms = [] := by
  have hstays : ∀ way : List Step, way.foldl View.step .passedOver = .passedOver := by
    intro way
    induction way with
    | nil => rfl
    | cons step rest ih => exact ih
  simp [View.refs, Mention.viewFrom, hstays]

@[simp] theorem View.refs_searched_query (q : Query) :
    View.searched.refs q.mentions = View.outlined.refs q.mentions := by
  obtain ⟨opening, ctes, body, rest⟩ := q
  rw [Query.mentions, View.refs_into, View.refs_into]
  rfl

end

end Sql

namespace Tree

/-- The references to tables anywhere in some trees. -/
def tableRefsAll (ts : List Tree) : List TableRef := (preorderAll ts).filterMap tableRef?

section

variable {t : Tree} {ts us : List Tree} {label : Label} {sql : String}

@[simp] theorem tableRefsAll_nil : tableRefsAll [] = [] := rfl

@[simp] theorem tableRefsAll_cons : tableRefsAll (t :: ts) = t.tableRefs ++ tableRefsAll ts := by
  simp [tableRefsAll, tableRefs, preorderAll]

@[simp] theorem tableRefsAll_append :
    tableRefsAll (ts ++ us) = tableRefsAll ts ++ tableRefsAll us := by
  induction ts with
  | nil => rfl
  | cons t rest ih => simp [ih]

@[simp] theorem tableRefs_node :
    tableRefs ⟨label, sql, ts⟩
      = (match label with | .table ref => [ref] | _ => []) ++ tableRefsAll ts := by
  cases label with
  | table => rfl
  | _ => rfl

end

end Tree

namespace Sql

open QueryLineage.Tree

/-! ## What is passed on -/

@[simp] theorem View.step_form : View.outlined.step .form = .searched := rfl

@[simp] theorem View.step_aside : View.outlined.step .aside = .passedOver := rfl

@[simp] theorem View.step_query : View.outlined.step .query = .outlined := rfl

@[simp] theorem View.searched_step_form : View.searched.step .form = .searched := rfl

@[simp] theorem View.searched_step_aside : View.searched.step .aside = .searched := rfl

@[simp] theorem View.refs_cons_here {ref : TableRef} {ms : List Mention} :
    View.outlined.refs (⟨ref, []⟩ :: ms) = ref :: View.outlined.refs ms := rfl

@[simp] theorem View.searched_refs_cons_here {ref : TableRef} {ms : List Mention} :
    View.searched.refs (⟨ref, []⟩ :: ms) = View.searched.refs ms := rfl

theorem Expr.mentions_eq_nil_of_isDatePart {e : Expr} (h : e.isDatePart) : e.mentions = [] := by
  cases e with
  | column => rw [mentions]
  | _ => simp [isDatePart] at h

@[simp] theorem tableRefs_columnNode (first : Ident) (rest : List Ident) :
    (columnNode first rest).tableRefs = [] := rfl

@[simp] theorem tableRefs_matchingNode (columns : List String) :
    (matchingNode columns).tableRefs = [] := by
  rw [matchingNode, tableRefs_node]
  induction columns with
  | nil => rfl
  | cons name rest ih => simpa [leaf] using ih

theorem tableRefs_fromClauseTrees (sources : List FromItem) :
    tableRefsAll (fromClauseTrees sources) = tableRefsAll (fromTrees sources) := by
  unfold fromClauseTrees
  split
  · rename_i hempty
    rw [List.isEmpty_iff.mp hempty, fromTrees]
  · simp

theorem tableRefs_groupClauseTrees (groups : List Expr) :
    tableRefsAll (groupClauseTrees groups) = tableRefsAll (exprTrees groups) := by
  unfold groupClauseTrees
  split
  · rename_i hempty
    rw [List.isEmpty_iff.mp hempty, exprTrees]
  · simp

/-! ## The induction over the syntax -/

mutual

theorem Expr.tableRefs_findings : (e : Expr) →
    tableRefsAll e.findings = View.searched.refs e.mentions
  | .column first rest => by simp [Expr.findings, Expr.mentions]
  | .binary left _ right => by
      simp [Expr.findings, Expr.mentions, left.tableRefs_findings, right.tableRefs_findings]
  | .nested inner => by simp [Expr.findings, Expr.mentions, inner.tableRefs_findings]
  | .subquery query => by
      -- from here on the tree is compared again: `View.refs_searched_query`
      simp [Expr.findings, Expr.mentions, query.tableRefs_toTree]
  | .call name opening args closing groupOrder rest => by
      simp [Expr.findings, Expr.mentions, tableRefs_piecesFindings opening,
        tableRefs_argumentsFindings args, tableRefs_piecesFindings closing,
        tableRefs_piecesFindings rest, tableRefs_piecesFindings groupOrder]
  | .trimming _ characters text => by
      simp [Expr.findings, Expr.mentions, text.tableRefs_findings, characters.tableRefs_findings]
  | .form pieces => by simp [Expr.findings, Expr.mentions, tableRefs_piecesFindings pieces]

theorem Argument.tableRefs_findings {partAllowed : Bool} : (a : Argument) →
    tableRefsAll (a.findings partAllowed) = View.searched.refs a.mentions
  | .expr e => by
      rw [Argument.findings, Argument.mentions]
      split
      · rename_i hpart
        rw [Bool.and_eq_true] at hpart
        rw [Expr.mentions_eq_nil_of_isDatePart hpart.2]
        rfl
      · exact e.tableRefs_findings
  | .other pieces => by simp [Argument.findings, Argument.mentions, tableRefs_piecesFindings pieces]

theorem tableRefs_argumentsFindings {partAllowed : Bool} : (args : List Argument) →
    tableRefsAll (argumentsFindings partAllowed args)
      = View.searched.refs (argumentsMentions args)
  | [] => by simp [argumentsFindings, argumentsMentions]
  | a :: rest => by
      simp [argumentsFindings, argumentsMentions, a.tableRefs_findings,
        tableRefs_argumentsFindings rest]

theorem Piece.tableRefs_findings : (p : Piece) →
    tableRefsAll p.findings = View.searched.refs p.mentions
  | .text _ => by simp [Piece.findings, Piece.mentions]
  | .expr e => by simp [Piece.findings, Piece.mentions, e.tableRefs_findings]
  | .query q => by simp [Piece.findings, Piece.mentions, q.tableRefs_toTree]
  | .relation r => by simp [Piece.findings, Piece.mentions, r.tableRefs_findings]

theorem tableRefs_piecesFindings : (ps : List Piece) →
    tableRefsAll (piecesFindings ps) = View.searched.refs (piecesMentions ps)
  | [] => by simp [piecesFindings, piecesMentions]
  | p :: ps => by
      simp [piecesFindings, piecesMentions, p.tableRefs_findings, tableRefs_piecesFindings ps]

theorem tableRefs_exprsFindings : (es : List Expr) →
    tableRefsAll (exprsFindings es) = View.searched.refs (exprsMentions es)
  | [] => by simp [exprsFindings, exprsMentions]
  | e :: es => by
      simp [exprsFindings, exprsMentions, e.tableRefs_findings, tableRefs_exprsFindings es]

theorem Relation.tableRefs_findings : (r : Relation) →
    tableRefsAll r.findings = View.searched.refs r.mentions
  | .table _ afterName _ afterAlias => by
      simp [Relation.findings, Relation.mentions, tableRefs_piecesFindings afterName,
        tableRefs_piecesFindings afterAlias]
  | .derived _ query _ afterAlias => by
      simp [Relation.findings, Relation.mentions, query.tableRefs_toTree,
        tableRefs_piecesFindings afterAlias]
  | .joined item _ => by simp [Relation.findings, Relation.mentions, item.tableRefs_findings]
  | .unnest items _ _ _ => by
      simp [Relation.findings, Relation.mentions, tableRefs_exprsFindings items]
  | .form pieces => by simp [Relation.findings, Relation.mentions, tableRefs_piecesFindings pieces]

theorem FromItem.tableRefs_findings : (i : FromItem) →
    tableRefsAll i.findings = View.searched.refs i.mentions
  | .mk relation joins => by
      simp [FromItem.findings, FromItem.mentions, relation.tableRefs_findings,
        tableRefs_joinsFindings joins]

theorem Join.tableRefs_findings : (j : Join) →
    tableRefsAll j.findings = View.searched.refs j.mentions
  | .conditioned _ relation condition => by
      simp [Join.findings, Join.mentions, relation.tableRefs_findings,
        condition.tableRefs_findings]
  | .matching _ relation _ => by simp [Join.findings, Join.mentions, relation.tableRefs_findings]
  | .natural _ relation => by simp [Join.findings, Join.mentions, relation.tableRefs_findings]
  | .unconditional _ relation => by
      simp [Join.findings, Join.mentions, relation.tableRefs_findings]
  | .operator _ _ relation rest => by
      simp [Join.findings, Join.mentions, relation.tableRefs_findings,
        tableRefs_piecesFindings rest]

theorem tableRefs_joinsFindings : (js : List Join) →
    tableRefsAll (joinsFindings js) = View.searched.refs (joinsMentions js)
  | [] => by simp [joinsFindings, joinsMentions]
  | j :: js => by
      simp [joinsFindings, joinsMentions, j.tableRefs_findings, tableRefs_joinsFindings js]

theorem Expr.tableRefs_toTree : (e : Expr) →
    e.toTree.tableRefs = View.outlined.refs e.mentions
  | .column first rest => by simp [Expr.toTree, Expr.mentions]
  | .binary left op right => by
      have hoperands : left.toTree.tableRefs ++ right.toTree.tableRefs
          = View.outlined.refs (Expr.binary left op right).mentions := by
        simp [Expr.mentions, left.tableRefs_toTree, right.tableRefs_toTree]
      cases op with
      | equals => simpa [Expr.toTree] using hoperands
      | conjunction => simpa [Expr.toTree] using hoperands
      | other => simpa [Expr.toTree] using hoperands
  | .nested inner => by
      simp [Expr.toTree, Expr.mentions, inner.tableRefs_toTree]
  | .subquery query => by
      simp [Expr.toTree, Expr.mentions, query.tableRefs_toTree]
  | .call name opening args closing groupOrder rest => by
      simp [Expr.toTree, Expr.mentions, tableRefs_piecesFindings opening,
        tableRefs_argumentsFindings args, tableRefs_piecesFindings closing,
        tableRefs_piecesFindings rest, tableRefs_piecesFindings groupOrder]
  | .trimming side characters text => by
      simp [Expr.toTree, Expr.mentions, text.tableRefs_findings, characters.tableRefs_findings]
  | .form pieces => by
      simp [Expr.toTree, Expr.mentions, tableRefs_piecesFindings pieces]

theorem tableRefs_exprTrees : (es : List Expr) →
    tableRefsAll (exprTrees es) = View.outlined.refs (exprsMentions es)
  | [] => by simp [exprTrees, exprsMentions]
  | e :: es => by simp [exprTrees, exprsMentions, e.tableRefs_toTree, tableRefs_exprTrees es]

theorem tableRefs_clauseTrees {label : Label}
    (hlabel : label = .whereClause ∨ label = .havingClause) :
    (clause : Option Expr) →
      tableRefsAll (clauseTrees label clause) = View.outlined.refs (clauseMentions clause)
  | none => by simp [clauseTrees, clauseMentions]
  | some e => by
      rcases hlabel with rfl | rfl
      · simp [clauseTrees, clauseMentions, e.tableRefs_toTree]
      · simp [clauseTrees, clauseMentions, e.tableRefs_toTree]

theorem Relation.tableRefs_toTree : (r : Relation) →
    r.toTree.tableRefs = View.outlined.refs r.mentions
  | .table name afterName alternative afterAlias => by
      simp [Relation.toTree, Relation.mentions, leaf]
  | .derived _ query _ afterAlias => by
      simp [Relation.toTree, Relation.mentions, query.tableRefs_toTree]
  | .joined item _ => by
      simp [Relation.toTree, Relation.mentions, item.tableRefs_trees]
  | .unnest items _ _ _ => by
      simp [Relation.toTree, Relation.mentions, tableRefs_exprsFindings items]
  | .form pieces => by
      simp [Relation.toTree, Relation.mentions, tableRefs_piecesFindings pieces]

theorem Join.tableRefs_toTree : (j : Join) →
    j.toTree.tableRefs = View.outlined.refs j.mentions
  | .conditioned op relation condition => by
      simp [Join.toTree, Join.mentions, relation.tableRefs_toTree, condition.tableRefs_toTree]
  | .matching _ relation _ => by
      simp [Join.toTree, Join.mentions, relation.tableRefs_toTree]
  | .natural _ relation => by
      simp [Join.toTree, Join.mentions, relation.tableRefs_toTree]
  | .unconditional _ relation => by
      simp [Join.toTree, Join.mentions, relation.tableRefs_toTree]
  | .operator _ _ relation rest => by
      -- `rest` is aside, so the tree does without its mentions as without its findings
      simp [Join.toTree, Join.mentions, relation.tableRefs_toTree]

theorem tableRefs_joinTrees : (js : List Join) →
    tableRefsAll (joinTrees js) = View.outlined.refs (joinsMentions js)
  | [] => by simp [joinTrees, joinsMentions]
  | j :: js => by simp [joinTrees, joinsMentions, j.tableRefs_toTree, tableRefs_joinTrees js]

theorem FromItem.tableRefs_trees : (i : FromItem) →
    tableRefsAll i.trees = View.outlined.refs i.mentions
  | .mk relation joins => by
      simp [FromItem.trees, FromItem.mentions, relation.tableRefs_toTree,
        tableRefs_joinTrees joins]

theorem FromItem.tableRefs_treesAfterComma : (i : FromItem) →
    tableRefsAll i.treesAfterComma = View.outlined.refs i.mentions
  | .mk relation joins => by
      simp [FromItem.treesAfterComma, FromItem.mentions, relation.tableRefs_toTree,
        tableRefs_joinTrees joins]

theorem tableRefs_laterFromTrees : (items : List FromItem) →
    tableRefsAll (laterFromTrees items) = View.outlined.refs (fromMentions items)
  | [] => by simp [laterFromTrees, fromMentions]
  | i :: rest => by
      simp [laterFromTrees, fromMentions, i.tableRefs_treesAfterComma,
        tableRefs_laterFromTrees rest]

theorem tableRefs_fromTrees : (items : List FromItem) →
    tableRefsAll (fromTrees items) = View.outlined.refs (fromMentions items)
  | [] => by simp [fromTrees, fromMentions]
  | i :: rest => by
      simp [fromTrees, fromMentions, i.tableRefs_trees, tableRefs_laterFromTrees rest]

theorem SelectItem.tableRefs_toTree : (i : SelectItem) →
    i.toTree.tableRefs = View.outlined.refs i.mentions
  | .unnamed e => by
      simp [SelectItem.toTree, SelectItem.mentions, e.tableRefs_toTree]
  | .aliased e name => by
      simp [SelectItem.toTree, SelectItem.mentions, e.tableRefs_toTree]
  | .wildcard pieces => by
      simp [SelectItem.toTree, SelectItem.mentions, leaf]

theorem tableRefs_itemTrees : (items : List SelectItem) →
    tableRefsAll (itemTrees items) = View.outlined.refs (itemsMentions items)
  | [] => by simp [itemTrees, itemsMentions]
  | i :: rest => by simp [itemTrees, itemsMentions, i.tableRefs_toTree, tableRefs_itemTrees rest]

theorem Body.tableRefs_toTree : (b : Body) →
    b.toTree.tableRefs = View.outlined.refs b.mentions
  | .select opening items sources condition groups afterGroups having rest => by
      simp [toTree_select, Body.mentions, tableRefs_itemTrees items,
        tableRefs_fromClauseTrees, tableRefs_fromTrees sources,
        tableRefs_clauseTrees (.inl rfl) condition, tableRefs_groupClauseTrees,
        tableRefs_exprTrees groups, tableRefs_clauseTrees (.inr rfl) having]
  | .query q => by rw [Body.toTree, Body.mentions, q.tableRefs_toTree]
  | .setOperation left op right => by
      simp [Body.toTree, Body.mentions, left.tableRefs_toTree, right.tableRefs_toTree]
  | .other pieces => by
      simp [Body.toTree, Body.mentions, tableRefs_piecesFindings pieces]

theorem Query.tableRefs_toTree : (q : Query) →
    q.toTree.tableRefs = View.outlined.refs q.mentions
  | .mk opening ctes body rest => by
      simp [Query.toTree, Query.mentions, tableRefs_cteTrees ctes, body.tableRefs_toTree]

theorem Cte.tableRefs_toTree : (c : Cte) → c.toTree.tableRefs = View.outlined.refs c.mentions
  | .mk name columns opening query => by
      simp [Cte.toTree, Cte.mentions, query.tableRefs_toTree]

theorem tableRefs_cteTrees : (ctes : List Cte) →
    tableRefsAll (cteTrees ctes) = View.outlined.refs (ctesMentions ctes)
  | [] => by simp [cteTrees, ctesMentions]
  | c :: rest => by simp [cteTrees, ctesMentions, c.tableRefs_toTree, tableRefs_cteTrees rest]

end

/-! ## Statements that write -/

namespace Parser

variable {α β : Type}

/-- Whatever the parser reads has a property. -/
def Yields (P : α → Prop) (p : Parser α) : Prop :=
  ∀ d tokens a rest, p d tokens = .ok (a, rest) → P a

namespace Yields

variable {P : α → Prop} {Q : β → Prop}

theorem pure {a : α} (h : P a) : Yields P (Pure.pure a) := by
  rintro d tokens b rest hb
  obtain ⟨rfl, -⟩ := Prod.mk.inj (Except.ok.inj hb)
  exact h

theorem bind {p : Parser β} {f : β → Parser α} (h : ∀ b, Yields P (f b)) : Yields P (p >>= f) := by
  intro d tokens a rest hrun
  change (p d tokens >>= fun r => f r.1 d r.2) = .ok (a, rest) at hrun
  cases hp : p d tokens with
  | error => simp [hp, Bind.bind, Except.bind] at hrun
  | ok r => exact h r.1 d r.2 a rest (by simpa [hp, Bind.bind, Except.bind] using hrun)

theorem ite {c : Prop} [Decidable c] {p q : Parser α} (hp : Yields P p) (hq : Yields P q) :
    Yields P (if c then p else q) := by
  split
  · exact hp
  · exact hq

theorem unexpected (wanted : String) : Yields P (Parser.unexpected wanted : Parser α) :=
  bind fun _ _ _ _ _ hrun => nomatch hrun

end Yields

/-- The statement is text, or text and the query whose rows it writes. -/
def WritesRows (s : Statement) : Prop :=
  ∃ text, s = .other [.text text] ∨ ∃ q, s = .other [.text text, .query q]

theorem yields_text (text : String) : Yields WritesRows (pure (.other [.text text])) :=
  Yields.pure ⟨text, .inl rfl⟩

theorem yields_query (g : Grammar) (text : String) :
    Yields WritesRows (do return .other [.text text, .query (← g.query)]) :=
  Yields.bind fun q => Yields.pure ⟨text, .inr ⟨q, rfl⟩⟩

theorem yields_insert (g : Grammar) : Yields WritesRows (insert g) := by
  unfold insert
  refine Yields.bind fun into => Yields.bind fun tableWord => Yields.bind fun name =>
    Yields.bind fun hasQuery => Yields.ite (Yields.bind fun columns => ?_)
      (Yields.bind fun columns => ?_)
  all_goals
    exact Yields.bind fun hasDefaults => Yields.ite (yields_text _) (yields_query g _)

theorem yields_createTable (g : Grammar) (opening : String) :
    Yields WritesRows (createTable g opening) := by
  unfold createTable
  refine Yields.bind fun condition => Yields.bind fun name => Yields.bind fun hasColumns =>
    Yields.ite (Yields.bind fun definitions => Yields.bind fun columns => ?_)
      (Yields.bind fun columns => ?_)
  all_goals
    exact Yields.bind fun hasQuery => Yields.ite (yields_query g _) (yields_text _)

theorem yields_createView (g : Grammar) (opening : String) :
    Yields WritesRows (createView g opening) := by
  unfold createView
  exact Yields.bind fun condition => Yields.bind fun name => Yields.bind fun columns =>
    Yields.bind fun _ => yields_query g _

theorem yields_create (g : Grammar) : Yields WritesRows (create g) := by
  have hobject : ∀ replace temporary : String, Yields WritesRows (do
      let materialized ← marker "MATERIALIZED"
      if ← acceptWord "VIEW" then
        createView g ("CREATE " ++ replace ++ materialized ++ temporary)
      else if materialized.isEmpty && (← acceptWord "TABLE") then
        createTable g ("CREATE " ++ replace ++ temporary)
      else unexpected "an object type after CREATE") := fun replace temporary =>
    Yields.bind fun materialized => Yields.bind fun isView =>
      Yields.ite (yields_createView g _)
        (Yields.bind fun isTable => Yields.ite (yields_createTable g _) (Yields.unexpected _))
  unfold create
  refine Yields.bind fun replaces => Yields.ite (Yields.bind fun replace => ?_)
    (Yields.bind fun replace => ?_)
  all_goals
    exact Yields.bind fun isTemporary => Yields.ite (Yields.bind fun temporary => hobject _ _)
      (Yields.bind fun temporary => hobject _ _)

end Parser

namespace Statement

/-- What is read about writing refers to the tables of its query alone; its target is text. -/
theorem tableRefs_of_writesRows {s : Statement} (h : Parser.WritesRows s) :
    ∃ text, (s = .other [.text text] ∧ s.toTree.tableRefs = [])
      ∨ ∃ q, s = .other [.text text, .query q] ∧ s.toTree.tableRefs = q.toTree.tableRefs := by
  obtain ⟨text, rfl | ⟨q, rfl⟩⟩ := h
  · refine ⟨text, .inl ⟨rfl, ?_⟩⟩
    simp [toTree, piecesFindings, Piece.findings]
  · refine ⟨text, .inr ⟨q, rfl, ?_⟩⟩
    simp [toTree, piecesFindings, Piece.findings]

theorem refs_mentions (s : Statement) : View.outlined.refs s.mentions = s.toTree.tableRefs := by
  cases s with
  | query q => rw [mentions, toTree, q.tableRefs_toTree]
  | other pieces => simp [mentions, toTree, tableRefs_piecesFindings pieces]

/-- All that some mentions refer to is kept exactly if all of them are outlined. It is enough to
count, as leaving one out makes the list shorter. -/
theorem refs_eq_map_iff {v : View} {ms : List Mention} :
    v.refs ms = ms.map (·.ref) ↔ ∀ m ∈ ms, m.viewFrom v = .outlined := by
  constructor
  case mp =>
    intro h
    have hlength := congrArg List.length h
    rw [View.refs, List.length_map, List.length_map, List.length_filter_eq_length_iff] at hlength
    exact fun m hm => of_decide_eq_true (hlength m hm)
  case mpr =>
    intro h
    rw [View.refs, List.filter_eq_self.mpr fun m hm => decide_eq_true (h m hm)]

/-- **The tree of a statement holds exactly the tables whose mentions are outlined**, one node for
each, in the order of the mentions. So none is there twice, and none is lost if and only if none is
passed over. What is read after `INSERT` and `CREATE` refers to the tables of its query, not to the
target. The first part is by recursion on the syntax, with one case for each kind of it, and for
both ways in which it can be looked at (`refs_mentions`). -/
theorem outlined_mentions (s : Statement) :
    s.toTree.tableRefs = (s.mentions.filter (·.viewFrom .outlined = .outlined)).map (·.ref)
    ∧ (s.toTree.tableRefs = s.mentions.map (·.ref)
        ↔ ∀ m ∈ s.mentions, m.viewFrom .outlined = .outlined)
    ∧ ∀ g d tokens rest,
      (Parser.insert g d tokens = .ok (s, rest) ∨ Parser.create g d tokens = .ok (s, rest)) →
        ∃ text, (s = .other [.text text] ∧ s.toTree.tableRefs = [])
          ∨ ∃ q, s = .other [.text text, .query q] ∧ s.toTree.tableRefs = q.toTree.tableRefs := by
  rw [← s.refs_mentions]
  refine ⟨rfl, refs_eq_map_iff, ?_⟩
  rw [s.refs_mentions]
  rintro g d tokens rest (hread | hread)
  · exact tableRefs_of_writesRows (Parser.yields_insert g d tokens s rest hread)
  · exact tableRefs_of_writesRows (Parser.yields_create g d tokens s rest hread)

/-- A table in what a query is ordered by is passed over. -/
theorem tableRefs_of_orderedBySubquery :
    (readScript .generic "SELECT a FROM t ORDER BY (SELECT MAX(b) FROM u)").toOption.map
        (·.map fun s => (s.mentions.map (·.ref), s.toTree.tableRefs))
      = some [([⟨["t"], none⟩, ⟨["u"], none⟩], [⟨["t"], none⟩])] := by
  decide +kernel

end Statement

end Sql

end QueryLineage
