import QueryLineage.Proofs.ExpressionWalk

/-!
# What is found in an expression

The tree of an expression is made along its structure as far as there are operators and parentheses,
and from the findings below that. Read from left to right without looking into queries, it holds the
columns and queries that a collector finds on a walk of the whole expression, wherever the one way
hands over to the other (`Expr.outermost_toTree`). So whatever is put around an expression adds what
is found in itself, before or after, and takes nothing away; only a bare word that names a part of a
date is no column as an argument of a call (`Expr.findings_fill`).
-/

namespace QueryLineage

namespace Tree

mutual

/-- The columns and queries of a tree from left to right, without those within a query. -/
def outermost : Tree → List Tree
  | ⟨label, sql, children⟩ =>
    if label.kind = .column ∨ label.kind = .query then [⟨label, sql, children⟩]
    else outermostAll children

def outermostAll : List Tree → List Tree
  | [] => []
  | t :: ts => outermost t ++ outermostAll ts

end

end Tree

namespace Sql

open QueryLineage.Tree

/-! ## The tree of an expression -/

theorem IsFinding.outermost_eq {t : Tree} (h : IsFinding t) : t.outermost = [t] := by
  rcases h with ⟨first, rest, rfl⟩ | ⟨q, rfl⟩
  · rfl
  · have hkind := q.kind_toTree
    cases hq : q.toTree with
    | mk label sql children =>
        rw [hq] at hkind
        rw [outermost, if_pos (.inr hkind)]

theorem AllFindings.outermostAll_eq {ts : List Tree} (h : AllFindings ts) :
    outermostAll ts = ts := by
  induction ts with
  | nil => rfl
  | cons t rest ih =>
      rw [allFindings_cons] at h
      rw [outermostAll, h.1.outermost_eq, ih h.2, List.singleton_append]

theorem AllFindings.outermost_other {ts : List Tree} (h : AllFindings ts) (sql : String) :
    outermost ⟨.expr .other, sql, ts⟩ = ts := by
  rw [outermost, h.outermostAll_eq]
  rfl

/-- The tree of an expression holds its findings. By the constructors of expressions: below an
operator or parentheses stand the trees of expressions, and any other tree but a column's has the
findings for children. -/
theorem Expr.outermost_toTree (e : Expr) : e.toTree.outermost = e.findings := by
  cases e with
  | column first rest =>
      rw [toTree, findings]
      rfl
  | binary left op right =>
      have hpair : outermostAll [left.toTree, right.toTree] = left.findings ++ right.findings := by
        rw [outermostAll, outermostAll, outermostAll, left.outermost_toTree,
          right.outermost_toTree, List.append_nil]
      rw [findings, ← hpair]
      cases op with
      | equals => rw [toTree]; rfl
      | conjunction => rw [toTree]; rfl
      | other symbol => rw [toTree]; rfl
  | nested inner =>
      have hone : outermostAll [inner.toTree] = inner.findings := by
        rw [outermostAll, outermostAll, inner.outermost_toTree, List.append_nil]
      rw [toTree, findings, outermost, hone]
      rfl
  | subquery query =>
      rw [toTree, findings, AllFindings.outermost_other (by simp)]
  | call name opening args closing groupOrder rest =>
      have hfound := (Expr.call name opening args closing groupOrder rest).allFindings
      rw [findings] at hfound ⊢
      rw [toTree, hfound.outermost_other]
  | trimming side characters text =>
      have hfound := (Expr.trimming side characters text).allFindings
      rw [findings] at hfound ⊢
      rw [toTree, hfound.outermost_other]
  | form pieces =>
      rw [toTree, findings, (allFindings_pieces pieces).outermost_other]

/-! ## Expressions around an expression -/

/-- An expression with a place for another, which is one of its parts. -/
inductive Wrapper
  | leftOf (op : Operator) (right : Expr)
  | rightOf (left : Expr) (op : Operator)
  | parentheses
  /-- In what stands before the arguments of a call. -/
  | inOpening (name : ObjectName) (before after : List Piece) (args : List Argument)
    (closing groupOrder rest : List Piece)
  /-- As an argument of a call. -/
  | argument (name : ObjectName) (opening : List Piece) (before after : List Argument)
    (closing groupOrder rest : List Piece)
  /-- In an argument that is more than an expression. -/
  | inArgument (name : ObjectName) (opening : List Piece) (argsBefore : List Argument)
    (before after : List Piece) (argsAfter : List Argument) (closing groupOrder rest : List Piece)
  /-- In what closes the arguments of a call. -/
  | inClosing (name : ObjectName) (opening : List Piece) (args : List Argument)
    (before after groupOrder rest : List Piece)
  /-- In the order of the group that a call is computed over. -/
  | inGroupOrder (name : ObjectName) (opening : List Piece) (args : List Argument)
    (closing before after rest : List Piece)
  /-- In the filter or the window of a call. -/
  | inRest (name : ObjectName) (opening : List Piece) (args : List Argument)
    (closing groupOrder before after : List Piece)
  /-- As the text that characters are taken off. -/
  | trimmed (side : String) (characters : Expr)
  /-- As the characters taken off a text. -/
  | takenOff (side : String) (text : Expr)
  | inForm (before after : List Piece)

namespace Wrapper

def fill : Wrapper → Expr → Expr
  | leftOf op right, e => .binary e op right
  | rightOf left op, e => .binary left op e
  | parentheses, e => .nested e
  | inOpening name before after args closing groupOrder rest, e =>
    .call name (before ++ .expr e :: after) args closing groupOrder rest
  | argument name opening before after closing groupOrder rest, e =>
    .call name opening (before ++ .expr e :: after) closing groupOrder rest
  | inArgument name opening argsBefore before after argsAfter closing groupOrder rest, e =>
    .call name opening (argsBefore ++ .other (before ++ .expr e :: after) :: argsAfter) closing
      groupOrder rest
  | inClosing name opening args before after groupOrder rest, e =>
    .call name opening args (before ++ .expr e :: after) groupOrder rest
  | inGroupOrder name opening args closing before after rest, e =>
    .call name opening args closing (before ++ .expr e :: after) rest
  | inRest name opening args closing groupOrder before after, e =>
    .call name opening args closing groupOrder (before ++ .expr e :: after)
  | trimmed side characters, e => .trimming side characters e
  | takenOff side text, e => .trimming side e text
  | inForm before after, e => .form (before ++ .expr e :: after)

/-- Whether a bare word in this place can name a part of a date. -/
def takesDatePart : Wrapper → Bool
  | argument name _ before .. => takesPartFirst name || !before.isEmpty
  | _ => false

/-- What is found before the place: of a call, what is visited before it. -/
def foundBefore : Wrapper → List Tree
  | leftOf _ _ | parentheses | trimmed _ _ => []
  | rightOf left _ => left.findings
  | inOpening _ before .. => piecesFindings before
  | argument name opening before .. =>
    piecesFindings opening ++ argumentsFindings (takesPartFirst name) before
  | inArgument name opening argsBefore before .. =>
    piecesFindings opening ++ argumentsFindings (takesPartFirst name) argsBefore
      ++ piecesFindings before
  | inClosing name opening args before .. =>
    piecesFindings opening ++ argumentsFindings (takesPartFirst name) args
      ++ piecesFindings before
  | inRest name opening args closing _ before _ =>
    piecesFindings opening ++ argumentsFindings (takesPartFirst name) args
      ++ piecesFindings closing ++ piecesFindings before
  | inGroupOrder name opening args closing before _ rest =>
    piecesFindings opening ++ argumentsFindings (takesPartFirst name) args
      ++ piecesFindings closing ++ piecesFindings rest ++ piecesFindings before
  | takenOff _ text => text.findings
  | inForm before _ => piecesFindings before

/-- What is found after the place. -/
def foundAfter : Wrapper → List Tree
  | leftOf _ right => right.findings
  | rightOf _ _ | parentheses | takenOff _ _ => []
  | inOpening name _ after args closing groupOrder rest =>
    piecesFindings after ++ argumentsFindings (takesPartFirst name) args
      ++ piecesFindings closing ++ piecesFindings rest ++ piecesFindings groupOrder
  | argument _ _ _ after closing groupOrder rest =>
    argumentsFindings true after ++ piecesFindings closing ++ piecesFindings rest
      ++ piecesFindings groupOrder
  | inArgument _ _ _ _ after argsAfter closing groupOrder rest =>
    piecesFindings after ++ argumentsFindings true argsAfter ++ piecesFindings closing
      ++ piecesFindings rest ++ piecesFindings groupOrder
  | inClosing _ _ _ _ after groupOrder rest =>
    piecesFindings after ++ piecesFindings rest ++ piecesFindings groupOrder
  | inRest _ _ _ _ groupOrder _ after => piecesFindings after ++ piecesFindings groupOrder
  | inGroupOrder _ _ _ _ _ after _ => piecesFindings after
  | trimmed _ characters => characters.findings
  | inForm _ after => piecesFindings after

/-- Wrappers around each other, the outermost first. -/
def fillAll (ws : List Wrapper) (e : Expr) : Expr := ws.foldr fill e

end Wrapper

@[simp] theorem piecesFindings_append (ps qs : List Piece) :
    piecesFindings (ps ++ qs) = piecesFindings ps ++ piecesFindings qs := by
  induction ps with
  | nil => simp [piecesFindings]
  | cons p ps ih => simp [piecesFindings, ih]

@[simp] theorem piecesFindings_cons_expr (e : Expr) (ps : List Piece) :
    piecesFindings (.expr e :: ps) = e.findings ++ piecesFindings ps := by
  rw [piecesFindings, Piece.findings]

theorem argumentsFindings_append (partAllowed : Bool) (as bs : List Argument) :
    argumentsFindings partAllowed (as ++ bs) = argumentsFindings partAllowed as
      ++ argumentsFindings (partAllowed || !as.isEmpty) bs := by
  induction as generalizing partAllowed with
  | nil => simp [argumentsFindings]
  | cons a as ih => simp [argumentsFindings, ih]

/-- What is found in an expression is found in the same order in whatever is put around it, between
what is found there before and after it. -/
theorem Expr.findings_fill (w : Wrapper) (e : Expr) :
    (w.fill e).findings = w.foundBefore
      ++ (if w.takesDatePart && e.isDatePart then [] else e.findings) ++ w.foundAfter := by
  cases w with
  | argument name opening before after closing groupOrder rest =>
      simp [Wrapper.fill, Wrapper.foundBefore, Wrapper.foundAfter, Wrapper.takesDatePart, findings,
        argumentsFindings_append, argumentsFindings, Argument.findings]
  | inArgument name opening argsBefore before after argsAfter closing groupOrder rest =>
      simp [Wrapper.fill, Wrapper.foundBefore, Wrapper.foundAfter, Wrapper.takesDatePart, findings,
        argumentsFindings_append, argumentsFindings, Argument.findings]
  | _ =>
      simp [Wrapper.fill, Wrapper.foundBefore, Wrapper.foundAfter, Wrapper.takesDatePart, findings]

example : (Expr.call [⟨"DATE_TRUNC", none⟩] []
      [.expr (.column ⟨"day", none⟩ []), .expr (.column ⟨"month", none⟩ [])] [] [] []).findings
    = [columnNode ⟨"day", none⟩ []] := by
  decide +kernel

/-- `PERCENTILE_CONT(x) WITHIN GROUP (ORDER BY a) OVER (PARTITION BY b)` -/
example : (Expr.call [⟨"PERCENTILE_CONT", none⟩] [] [.expr (.column ⟨"x", none⟩ [])] []
      [.expr (.column ⟨"a", none⟩ [])] [.expr (.column ⟨"b", none⟩ [])]).findings
    = [columnNode ⟨"x", none⟩ [], columnNode ⟨"b", none⟩ [], columnNode ⟨"a", none⟩ []] := by
  decide +kernel

theorem Wrapper.isDatePart_fill (w : Wrapper) (e : Expr) : (w.fill e).isDatePart = false := by
  cases w <;> rfl

theorem Expr.findings_fillAll {e : Expr} (he : e.isDatePart = false) (ws : List Wrapper) :
    (Wrapper.fillAll ws e).findings = ws.flatMap Wrapper.foundBefore ++ e.findings
      ++ ws.reverse.flatMap Wrapper.foundAfter := by
  induction ws with
  | nil => simp [Wrapper.fillAll]
  | cons w ws ih =>
      have hinner : (Wrapper.fillAll ws e).isDatePart = false := by
        cases ws with
        | nil => exact he
        | cons v vs => exact v.isDatePart_fill _
      change (w.fill (Wrapper.fillAll ws e)).findings = _
      rw [findings_fill, hinner, Bool.and_false, if_neg Bool.false_ne_true, ih]
      simp

/-- **Findings are kept.** From left to right, the tree of an expression holds the columns and
outermost queries that a collector finds on a walk of it. With any syntax around the expression,
however deep, these stay as they are, and what is found there stands before and after them. -/
theorem Expr.outermost_eq_collected (e : Expr) (he : e.isDatePart = false) :
    e.toTree.outermost = e.collected
    ∧ ∀ ws : List Wrapper, (Wrapper.fillAll ws e).toTree.outermost
        = ws.flatMap Wrapper.foundBefore ++ e.collected
          ++ ws.reverse.flatMap Wrapper.foundAfter := by
  rw [collected_eq_findings]
  exact ⟨e.outermost_toTree, fun ws => by rw [outermost_toTree, findings_fillAll he]⟩

theorem Expr.outermost_coalesce :
    (Expr.column ⟨"a", none⟩ []).isDatePart = false
    ∧ (Wrapper.fillAll
        [.leftOf .equals (.column ⟨"c", none⟩ []),
          .argument [⟨"COALESCE", none⟩] [] [.expr (.column ⟨"b", none⟩ [])] [] [] [] []]
        (.column ⟨"a", none⟩ [])).toTree.outermost
      = [columnNode ⟨"b", none⟩ [], columnNode ⟨"a", none⟩ [], columnNode ⟨"c", none⟩ []] := by
  have hname : (Expr.column ⟨"a", none⟩ []).isDatePart = false := by decide +kernel
  refine ⟨hname, ((Expr.column ⟨"a", none⟩ []).outermost_eq_collected hname).2 _ |>.trans ?_⟩
  decide +kernel

end Sql

end QueryLineage
