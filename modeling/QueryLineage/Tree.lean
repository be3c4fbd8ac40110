/-!
# Statement trees

A statement as the analyses see it: a tree of labelled nodes, each with the text it was written as.
Every analysis is a view of the tree's *preorder*, the list of its subtrees with a node before its
children and the children in order, or of the *scope*, the part of the preorder that lies in no
nested query.
-/

namespace QueryLineage

/-- How a join pairs the rows of its operands. -/
inductive JoinCondition
  /-- By a predicate, the second child of the join. -/
  | predicate
  /-- By equality of the named columns. -/
  | columns (names : List String)
  /-- By equality of all columns of the same name. -/
  | natural
  | unconditional
deriving DecidableEq

/-- What is kept of an expression that is neither a column nor an equality. -/
inductive ExprShape
  /-- `a AND b`: the children are the operands. -/
  | conjunction
  /-- An expression in parentheses, the only child. -/
  | nested
  /-- `UNION`, `EXCEPT` or `INTERSECT`: the children are the operands. -/
  | setOperation
  /-- Anything else: the children are what was found inside. -/
  | other
deriving DecidableEq

/-- A table as a statement refers to it. -/
structure TableRef where
  path : List String
  aliasName : Option String
deriving DecidableEq

inductive Label
  /-- The children are the definitions of common table expressions, then the body. -/
  | query
  /-- The children are projections, then the clauses that are present. -/
  | select
  /-- One item of a select list; its name is its alias, or that of the bare column it selects. -/
  | projection (aliasName name : Option String)
  /-- The children are a relation, then joins; a parenthesized join is one of these too. -/
  | fromClause
  | table (ref : TableRef)
  /-- A derived table, or another relation that is no table. -/
  | derived (aliasName : Option String)
  /-- The children are the joined relation, then what it is joined by. -/
  | join (kind : String) (condition : JoinCondition)
  | whereClause
  | havingClause
  /-- The children are the grouping expressions. -/
  | groupClause
  /-- The definition of a common table expression; the only child is its query. -/
  | cte (name : String)
  /-- A reference to a column, by the parts of its path. -/
  | column (parts : List String)
  /-- `a = b`: the children are the operands. -/
  | equality
  /-- A name that is no column reference by itself. -/
  | identifier (value : String)
  | expr (shape : ExprShape)
deriving DecidableEq

/-- What a node is, apart from what it carries. -/
inductive Kind
  | query | select | projection | fromClause | table | derived | join | whereClause | havingClause
  | groupClause | cte | column | equality | identifier | expr
deriving DecidableEq

def Label.kind : Label → Kind
  | .query => .query
  | .select => .select
  | .projection .. => .projection
  | .fromClause => .fromClause
  | .table _ => .table
  | .derived _ => .derived
  | .join .. => .join
  | .whereClause => .whereClause
  | .havingClause => .havingClause
  | .groupClause => .groupClause
  | .cte _ => .cte
  | .column _ => .column
  | .equality => .equality
  | .identifier _ => .identifier
  | .expr _ => .expr

/-- A node with its subtrees. For a filter the text is the predicate alone, for a grouping the list
of expressions. -/
structure Tree where
  label : Label
  sql : String
  children : List Tree

namespace Tree

def leaf (label : Label) (sql : String) : Tree := ⟨label, sql, []⟩

def kind (t : Tree) : Kind := t.label.kind

/-! ## Equality -/

mutual

def decideEq : (a b : Tree) → Decidable (a = b)
  | ⟨la, sa, ca⟩, ⟨lb, sb, cb⟩ =>
    if h : la = lb ∧ sa = sb then
      match decideEqAll ca cb with
      | isTrue hc => isTrue (by rw [h.1, h.2, hc])
      | isFalse hc => isFalse fun e => hc (Tree.mk.inj e).2.2
    else isFalse fun e => h ⟨(Tree.mk.inj e).1, (Tree.mk.inj e).2.1⟩

def decideEqAll : (as bs : List Tree) → Decidable (as = bs)
  | [], [] => isTrue rfl
  | [], _ :: _ => isFalse nofun
  | _ :: _, [] => isFalse nofun
  | a :: as, b :: bs =>
    match decideEq a b, decideEqAll as bs with
    | isTrue h, isTrue hs => isTrue (by rw [h, hs])
    | isFalse h, _ => isFalse fun e => h (List.cons.inj e).1
    | _, isFalse hs => isFalse fun e => hs (List.cons.inj e).2

end

instance : DecidableEq Tree := decideEq

/-! ## Walking a tree -/

mutual

/-- The subtrees, a node before its children. -/
def preorder : Tree → List Tree
  | ⟨label, sql, children⟩ => ⟨label, sql, children⟩ :: preorderAll children

def preorderAll : List Tree → List Tree
  | [] => []
  | t :: ts => preorder t ++ preorderAll ts

end

mutual

/-- The subtrees that lie in no query below this node. -/
def scope : Tree → List Tree
  | ⟨label, sql, children⟩ => ⟨label, sql, children⟩ :: scopeAll children

/-- The subtrees of those trees of a list that are no queries, each within its scope. -/
def scopeAll : List Tree → List Tree
  | [] => []
  | ⟨label, sql, children⟩ :: ts =>
    if label = .query then scopeAll ts else scope ⟨label, sql, children⟩ ++ scopeAll ts

end

theorem mem_preorderAll {ts : List Tree} {u : Tree} :
    u ∈ preorderAll ts ↔ ∃ t ∈ ts, u ∈ t.preorder := by
  induction ts with
  | nil => simp [preorderAll]
  | cons t rest ih => simp [preorderAll, ih]

theorem mem_preorder_iff {t u : Tree} :
    u ∈ t.preorder ↔ u = t ∨ ∃ child ∈ t.children, u ∈ child.preorder := by
  cases t
  rw [preorder, List.mem_cons, mem_preorderAll]

mutual

theorem mem_preorder_trans {u v : Tree} :
    ∀ {t : Tree}, u ∈ t.preorder → v ∈ u.preorder → v ∈ t.preorder
  | ⟨label, sql, children⟩, hu, hv => by
      rw [preorder, List.mem_cons] at hu
      rcases hu with rfl | hu
      · exact hv
      · exact List.mem_cons_of_mem _ (mem_preorderAll_trans hu hv)

theorem mem_preorderAll_trans {u v : Tree} :
    ∀ {ts : List Tree}, u ∈ preorderAll ts → v ∈ u.preorder → v ∈ preorderAll ts
  | t :: ts, hu, hv => by
      rw [preorderAll, List.mem_append] at hu ⊢
      exact hu.imp (mem_preorder_trans · hv) (mem_preorderAll_trans · hv)

end

mutual

theorem mem_preorder_of_mem_scope {u : Tree} : ∀ {t : Tree}, u ∈ t.scope → u ∈ t.preorder
  | ⟨label, sql, children⟩, hu => by
      rw [scope, List.mem_cons] at hu
      rw [preorder, List.mem_cons]
      exact hu.imp_right mem_preorderAll_of_mem_scopeAll

theorem mem_preorderAll_of_mem_scopeAll {u : Tree} :
    ∀ {ts : List Tree}, u ∈ scopeAll ts → u ∈ preorderAll ts
  | ⟨label, sql, children⟩ :: ts, hu => by
      rw [scopeAll] at hu
      rw [preorderAll, List.mem_append]
      split at hu
      · exact .inr (mem_preorderAll_of_mem_scopeAll hu)
      · rw [List.mem_append] at hu
        exact hu.imp mem_preorder_of_mem_scope mem_preorderAll_of_mem_scopeAll

end

/-- The subtrees of a kind, in preorder. -/
def findAll (k : Kind) (t : Tree) : List Tree := t.preorder.filter (·.kind = k)

/-- The subtrees of a kind that lie in no query below this node. -/
def findInScope (k : Kind) (t : Tree) : List Tree := t.scope.filter (·.kind = k)

def find? (k : Kind) (t : Tree) : Option Tree := t.preorder.find? (·.kind = k)

def child? (k : Kind) (t : Tree) : Option Tree := t.children.find? (·.kind = k)

def tableRef? (t : Tree) : Option TableRef :=
  match t.label with
  | .table ref => some ref
  | _ => none

/-- The references to tables anywhere in a tree, in preorder. -/
def tableRefs (t : Tree) : List TableRef := t.preorder.filterMap tableRef?

theorem mem_tableRefs_iff {t : Tree} {ref : TableRef} :
    ref ∈ t.tableRefs
      ↔ t.tableRef? = some ref ∨ ∃ child ∈ t.children, ref ∈ child.tableRefs := by
  simp only [tableRefs, List.mem_filterMap, mem_preorder_iff (t := t)]
  constructor
  · rintro ⟨u, rfl | ⟨child, hchild, hu⟩, href⟩
    · exact .inl href
    · exact .inr ⟨child, hchild, u, hu, href⟩
  · rintro (href | ⟨child, hchild, u, hu, href⟩)
    · exact ⟨t, .inl rfl, href⟩
    · exact ⟨u, .inr ⟨child, hchild, hu⟩, href⟩

/-- The references to tables in no query below this node. -/
def scopeTableRefs (t : Tree) : List TableRef := t.scope.filterMap tableRef?

/-- The column references in no query below this node. -/
def scopeColumns (t : Tree) : List Tree := t.findInScope .column

mutual

def height : Tree → Nat
  | ⟨_, _, children⟩ => heightAll children + 1

def heightAll : List Tree → Nat
  | [] => 0
  | t :: ts => max (height t) (heightAll ts)

end

/-- Rewrites a node, then the children of what came out, down `levels` levels. -/
def rewriteDown {m : Type → Type} [Monad m] (f : Tree → m Tree) : (levels : Nat) → Tree → m Tree
  | 0, t => pure t
  | n + 1, t => do
    let t ← f t
    let children ← t.children.mapM (rewriteDown f n)
    return { t with children }

/-! ## The main select -/

mutual

/-- The outermost select: through the bodies of queries and the first operands of set
operations. -/
def mainSelect? : Tree → Option Tree
  | ⟨.select, sql, children⟩ => some ⟨.select, sql, children⟩
  | ⟨.query, _, children⟩ => mainSelectOfLast? children
  | ⟨.expr .setOperation, _, children⟩ => mainSelectOfFirst? children
  | _ => none

def mainSelectOfLast? : List Tree → Option Tree
  | [] => none
  | [t] => mainSelect? t
  | _ :: t :: ts => mainSelectOfLast? (t :: ts)

def mainSelectOfFirst? : List Tree → Option Tree
  | [] => none
  | t :: _ => mainSelect? t

end

mutual

theorem mem_preorder_of_mainSelect? {s : Tree} :
    ∀ {t : Tree}, t.mainSelect? = some s → s ∈ t.preorder
  | ⟨label, sql, children⟩, h => by
      rw [preorder, List.mem_cons]
      unfold mainSelect? at h
      split at h
      · rename_i heq
        exact .inl ((Option.some.inj h).symm.trans heq.symm)
      · rename_i heq
        obtain ⟨-, -, rfl⟩ := Tree.mk.inj heq
        exact .inr (mem_preorderAll_of_mainSelectOfLast? h)
      · rename_i heq
        obtain ⟨-, -, rfl⟩ := Tree.mk.inj heq
        exact .inr (mem_preorderAll_of_mainSelectOfFirst? h)
      · cases h

theorem mem_preorderAll_of_mainSelectOfLast? {s : Tree} :
    ∀ {ts : List Tree}, mainSelectOfLast? ts = some s → s ∈ preorderAll ts
  | [t], h => by
      rw [preorderAll, List.mem_append]
      exact .inl (mem_preorder_of_mainSelect? h)
  | _ :: t :: ts, h => by
      rw [preorderAll, List.mem_append]
      exact .inr (mem_preorderAll_of_mainSelectOfLast? h)

theorem mem_preorderAll_of_mainSelectOfFirst? {s : Tree} :
    ∀ {ts : List Tree}, mainSelectOfFirst? ts = some s → s ∈ preorderAll ts
  | t :: ts, h => by
      rw [preorderAll, List.mem_append]
      exact .inl (mem_preorder_of_mainSelect? h)

end

def projections (t : Tree) : List Tree := t.children.filter (·.kind = .projection)

def projectionAlias? (t : Tree) : Option String :=
  match t.label with
  | .projection aliasName _ => aliasName
  | _ => none

/-- The name of a projection: its alias, or that of the bare column it selects. -/
def projectionName? (t : Tree) : Option String :=
  match t.label with
  | .projection _ name => name
  | _ => none

end Tree

end QueryLineage
