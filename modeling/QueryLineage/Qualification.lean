import QueryLineage.Metadata.Provider
import QueryLineage.Text.LowerCase
import QueryLineage.Tree

/-!
# Qualifying columns

A bare column gets the qualifier of the relation that owns it, where that is certain: the scope of
its select has one relation, or metadata shows that exactly one of several has the column. Outside
the select list a name that is also an alias of the select list stays bare. Each select from the
root down is treated in turn; its scope reaches as far as the next query.
-/

namespace QueryLineage

/-- A relation in the scope of a select. -/
structure ScopeRelation where
  /-- The alias, else the short name of the table; empty for a derived table without alias. -/
  qualifier : String
  /-- The table, unless the relation is derived. -/
  table : Option TableName
deriving DecidableEq

/-- A relation whose path is no table name. -/
structure UnusableRelation where
  path : List String
  defect : TableName.Defect
deriving DecidableEq

def UnusableRelation.message (e : UnusableRelation) : String :=
  "[S004] Cannot qualify columns against relation '" ++ Text.join "." e.path ++ "': "
    ++ e.defect.message

namespace Qualification

def tableRelation (defaults : TableDefaults) (ref : TableRef) :
    Except UnusableRelation ScopeRelation :=
  match TableName.ofSegments ref.path with
  | .ok name => .ok {
      qualifier := ref.aliasName.getD name.shortName
      table := some (name.qualify defaults.project defaults.dataset) }
  | .error defect => .error ⟨ref.path, defect⟩

def derivedRelation? (t : Tree) : Option ScopeRelation :=
  match t.label with
  | .derived aliasName => some ⟨aliasName.getD "", none⟩
  | _ => none

/-- The relations of a select's own from clause, its tables before its derived tables. -/
def scopeRelations (defaults : TableDefaults) (select : Tree) :
    Except UnusableRelation (List ScopeRelation) :=
  match select.child? .fromClause with
  | none => .ok []
  | some clause => do
    let tables ← clause.scopeTableRefs.mapM (tableRelation defaults)
    return tables ++ clause.scope.filterMap derivedRelation?

/-- The aliases of a select list, in small letters. -/
def projectionAliases (select : Tree) : List String :=
  select.children.filterMap fun c => c.projectionAlias?.map Text.lower

/-! ## Asking for metadata -/

variable {σ : Type}

/-- What has been learnt about tables, the latest first. -/
abbrev Memo := List (TableName × Option TableMetadata)

/-- The metadata of a table, if the provider has it. Only a name of three parts can be asked for. -/
def ask (p : Provider σ) (table : TableName) : StateM σ (Option TableMetadata) :=
  match TableKey.ofName? table with
  | some key => do return (← p key).toOption
  | none => pure none

/-- The metadata of a table, asked for once. -/
def metadataOf (p : Provider σ) (table : TableName) :
    StateM (Memo × σ) (Option TableMetadata) := fun (memo, s) =>
  match memo.lookup table with
  | some known => (known, memo, s)
  | none =>
    let (found, s) := (ask p table).run s
    (found, (table, found) :: memo, s)

def hasColumn (p : Provider σ) (column : String) (r : ScopeRelation) : StateM (Memo × σ) Bool :=
  match r.table with
  | some table => do return ((← metadataOf p table).bind (·.column column)).isSome
  | none => pure false

/-- The relations from the first one that has a column on. -/
def fromFirstOwner (p : Provider σ) (column : String) :
    List ScopeRelation → StateM (Memo × σ) (List ScopeRelation)
  | [] => pure []
  | r :: rest => do
    if ← hasColumn p column r then return r :: rest else fromFirstOwner p column rest

/-- The qualifier of the relation that owns a bare column: that of the only relation, or of the only
one known to have the column. -/
def qualifierOf (provider : Option (Provider σ)) (relations : List ScopeRelation)
    (column : String) : StateM (Memo × σ) (Option String) :=
  match relations, provider with
  | [only], _ => pure (if only.qualifier.isEmpty then none else some only.qualifier)
  | _, none => pure none
  | _, some p => do
    match ← fromFirstOwner p column relations with
    | [] => return none
    | first :: rest =>
      match ← fromFirstOwner p column rest with
      | [] => return some first.qualifier
      | _ :: _ => return none

/-! ## Rewriting -/

mutual

/-- Qualifies the bare columns of a tree outside nested queries, as `f` says. -/
def rewriteColumns {m : Type → Type} [Monad m] (f : String → m (Option String)) : Tree → m Tree
  | ⟨.column parts, sql, children⟩ =>
    match parts with
    | [name] => do
      match ← f name with
      | some qualifier =>
        return ⟨.column [qualifier, name], qualifier ++ "." ++ sql, children⟩
      | none => return ⟨.column [name], sql, children⟩
    | _ => pure ⟨.column parts, sql, children⟩
  | ⟨label, sql, children⟩ => do return ⟨label, sql, ← rewriteColumnsBelow f children⟩

/-- Qualifies the bare columns of those trees that are no queries. -/
def rewriteColumnsBelow {m : Type → Type} [Monad m] (f : String → m (Option String)) :
    List Tree → m (List Tree)
  | [] => pure []
  | ⟨label, sql, children⟩ :: ts => do
    let t ← if label = .query then pure ⟨label, sql, children⟩
      else rewriteColumns f ⟨label, sql, children⟩
    return t :: (← rewriteColumnsBelow f ts)

end

/-- What a bare column below a child of a select is qualified by. -/
def qualifierIn (provider : Option (Provider σ)) (relations : List ScopeRelation)
    (aliases : List String) (child : Tree) (column : String) :
    StateM (Memo × σ) (Option String) :=
  if child.kind ≠ .projection ∧ Text.lower column ∈ aliases then pure none
  else qualifierOf provider relations column

/-- Qualifies the bare columns in the scope of a select; other nodes stay as they are. -/
def qualifyScope (defaults : TableDefaults) (provider : Option (Provider σ)) (t : Tree) :
    ExceptT UnusableRelation (StateM (Memo × σ)) Tree :=
  if t.kind = .select then do
    match scopeRelations defaults t with
    | .error e => throw e
    | .ok [] => return t
    | .ok relations =>
      let aliases := projectionAliases t
      let children ← t.children.mapM fun child =>
        (rewriteColumns (qualifierIn provider relations aliases child) child :
          StateM (Memo × σ) Tree)
      return { t with children }
  else pure t

end Qualification

/-- The tree with its bare columns qualified, unless a relation in some scope is unusable. -/
def Tree.qualify {σ : Type} (defaults : TableDefaults) (provider : Option (Provider σ))
    (t : Tree) : StateM σ (Except UnusableRelation Tree) := fun s =>
  let run := (t.rewriteDown (Qualification.qualifyScope defaults provider) t.height).run
  let (result, _, s) := run.run ([], s)
  (result, s)

end QueryLineage
