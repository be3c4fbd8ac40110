import QueryLineage.CteResolution

/-!
# What relations and columns stand for

A written name stands for a table or for a common table expression. The *sources* are the tables a
statement reads. One alias map serves the whole statement: an alias given anywhere stands for its
relation, the last one given if there are several; then come the names of common table expressions,
then the short names of sources. An expression that reads one table alone stands for that table.
-/

namespace QueryLineage

/-- What a name in a statement stands for. -/
inductive Relation
  | table (name : TableName)
  /-- A common table expression that does not read exactly one table. -/
  | cte (name : CteName)
deriving DecidableEq

def Relation.text : Relation → String
  | .table name => name.text
  | .cte name => name.text

/-- Relations by alias, in small letters. -/
abbrev AliasMap := Dict Relation

/-- What the names of a statement stand for. -/
structure Relations where
  defaults : TableDefaults
  ctes : ResolvedCtes
  sources : TableName.Set
  aliases : AliasMap
deriving DecidableEq

/-- What a common table expression stands for: the only table it reads, else itself. -/
def ResolvedCtes.relation? (ctes : ResolvedCtes) (name : String) : Option Relation :=
  match ctes.singleBase? name with
  | some table => some (.table table)
  | none => (ctes.spelling? name).map .cte

/-- What a path stands for where a relation is expected. -/
def ResolvedCtes.relationOfPath? (ctes : ResolvedCtes) (defaults : TableDefaults)
    (path : List String) : Option Relation :=
  match keyOf? ctes path with
  | some key => ctes.relation? key
  | none => (defaults.resolve path).map .table

/-- The aliases given to the relations of a tree, with what they stand for, in preorder. -/
def ResolvedCtes.givenAliases (ctes : ResolvedCtes) (defaults : TableDefaults) (root : Tree) :
    List (String × Relation) :=
  root.tableRefs.filterMap fun ref => do
    let aliasName ← ref.aliasName
    let relation ← ctes.relationOfPath? defaults ref.path
    return (Text.lower aliasName, relation)

/-- The names of the common table expressions themselves. -/
def ResolvedCtes.ownAliases (ctes : ResolvedCtes) : List (String × Relation) :=
  ctes.keys.filterMap fun key => (ctes.relation? key).map (key, ·)

def shortAliases (sources : TableName.Set) : List (String × Relation) :=
  sources.toList.map fun table => (Text.lower table.shortName, .table table)

namespace AliasMap

/-- The map of the aliases given in a tree, of its common table expressions and of its sources. -/
def ofTree (defaults : TableDefaults) (ctes : ResolvedCtes) (sources : TableName.Set)
    (root : Tree) : AliasMap :=
  let given : AliasMap := SortedBy.ofList (ctes.givenAliases defaults root)
  (ctes.ownAliases ++ shortAliases sources).foldl (fun m e => Dict.putNew e.1 e.2 m) given

/-- What an alias in any case stands for. -/
def relation? (m : AliasMap) (name : String) : Option Relation := m.find? (Text.lower name)

end AliasMap

namespace Relations

/-- What the names of a statement stand for. -/
def ofTree (defaults : TableDefaults) (root : Tree) : Relations :=
  let ctes := ResolvedCtes.ofTree defaults root
  let sources := ResolvedCtes.referencedTables ctes defaults root.tableRefs
  { defaults, ctes, sources, aliases := AliasMap.ofTree defaults ctes sources root }

/-- The text of the relation a path stands for; the path itself if there is none. -/
def textOfPath (rs : Relations) (path : List String) : String :=
  match rs.ctes.relationOfPath? rs.defaults path with
  | some relation => relation.text
  | none => Text.join "." path

/-- The parts of a column reference without quotation marks and the blanks around them. -/
def columnParts (column : String) : List String :=
  let bare := String.ofList (column.toList.filter fun c => c ≠ '\x60' ∧ c ≠ '\x22')
  (Text.split '.' bare).map Text.trim

/-- The relation a column reference belongs to, as far as its text tells. A qualifier of two or
three parts names a table; one of one part is an alias, else a table. A bare column is nobody's. -/
def owner? (rs : Relations) (column : String) : Option Relation :=
  let parts := columnParts column
  if parts.any (·.isEmpty) then none
  else
    let table? (path : List String) := (rs.defaults.resolve path).map Relation.table
    match parts with
    | [] | [_] => none
    | [qualifier, _] => (rs.aliases.relation? qualifier).or (table? [qualifier])
    | [a, b, _] => table? [a, b]
    | a :: b :: c :: _ => table? [a, b, c]

/-- The tables a column may have been read from: those of the expression it belongs to, or its
table. -/
def baseTables (rs : Relations) (column : String) : List TableName :=
  match rs.owner? column with
  | some (.table table) => [table]
  | some (.cte name) => ((rs.ctes.bases? name.text).map (·.toList)).getD []
  | none => []

end Relations

end QueryLineage
