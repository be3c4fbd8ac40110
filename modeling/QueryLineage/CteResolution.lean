import QueryLineage.Closure
import QueryLineage.CteExpansion
import QueryLineage.Text.Basic
import QueryLineage.Text.LowerCase
import QueryLineage.Tree

/-!
# What common table expressions read

A statement's common table expressions are keyed by their names in small letters; of two with one
key the first in preorder counts. Each refers to tables and to other expressions, itself perhaps,
and so its *bases* are the tables of every expression it reaches. One that reaches itself is
*cyclic*, and its bases are the same union.
-/

namespace QueryLineage

/-- The name of an expression, which is not blank. Two names agree up to the case of ASCII letters. -/
structure CteName where
  text : String
  notBlank : Text.isBlankText text = false
deriving DecidableEq

namespace CteName

/-- The name with this text, unless it is blank. -/
def ofText? (text : String) : Option CteName :=
  if h : Text.isBlankText text = false then some ⟨text, h⟩ else none

/-- Whether a text spells this name, ignoring the case of ASCII letters. -/
def spelledAs (n : CteName) (other : String) : Bool := Text.eqIgnoringCase n.text other

end CteName

/-- A common table expression with what it reads. -/
structure ResolvedCte where
  /-- The name as it is defined, unless that is blank. -/
  name : Option CteName
  /-- The keys of the expressions its query refers to. -/
  references : TextSet
  /-- The tables of every expression it reaches. -/
  bases : TableName.Set
  /-- Whether it reaches itself by way of some reference. -/
  cyclic : Bool
deriving DecidableEq

/-- The common table expressions of a statement, by key. -/
abbrev ResolvedCtes := Dict ResolvedCte

/-- The key under which a node defines an expression. -/
def Tree.definedKey? (t : Tree) : Option String :=
  match t.label with
  | .cte name => some (Text.lower name)
  | _ => none

namespace ResolvedCtes

/-- The definitions with that of a node, unless there is one of its key. -/
def addDefinition (defs : Dict Tree) (t : Tree) : Dict Tree :=
  match t.definedKey? with
  | some k => defs.putNew k t
  | none => defs

/-- The definitions in a tree, the first of each key. -/
def definitions (root : Tree) : Dict Tree := root.preorder.foldl addDefinition ∅

/-- The key of the expression a path names: only a path of one part can. -/
def keyOf? {α : Type} (ctes : Dict α) (path : List String) : Option String :=
  match path with
  | [name] => if ctes.hasKey (Text.lower name) then some (Text.lower name) else none
  | _ => none

def referencedKeys {α : Type} (ctes : Dict α) (refs : List TableRef) : TextSet :=
  SortedBy.ofList (refs.filterMap fun r => keyOf? ctes r.path)

/-- The tables among references: those that name no expression and have a table name. -/
def referencedTables {α : Type} (ctes : Dict α) (defaults : TableDefaults)
    (refs : List TableRef) : TableName.Set :=
  SortedBy.ofList (refs.filterMap fun r =>
    if (keyOf? ctes r.path).isSome then none else defaults.resolve r.path)

def definedName? (definition : Tree) : Option CteName :=
  match definition.label with
  | .cte name => CteName.ofText? name
  | _ => none

def references (defs : Dict Tree) : Dict TextSet :=
  defs.mapValues fun _ definition => referencedKeys defs definition.tableRefs

/-- The tables that each definition names itself. -/
def ownTables (defaults : TableDefaults) (defs : Dict Tree) : BaseTables :=
  defs.mapValues fun _ definition => referencedTables defs defaults definition.tableRefs

/-- The pairs of a key and a key it reaches by one reference or more. -/
def reach (defs : Dict Tree) : List (String × String) :=
  Closure.through ((references defs).toList.flatMap fun (k, refs) => refs.toList.map (k, ·))
    defs.keys

/-- Resolves the expressions defined anywhere in a tree. -/
def ofTree (defaults : TableDefaults) (root : Tree) : ResolvedCtes :=
  let defs := definitions root
  let refs := references defs
  let bases := BaseTables.expand refs (ownTables defaults defs)
  let reached := reach defs
  defs.mapValues fun k definition => {
    name := definedName? definition
    references := (refs.find? k).getD ∅
    bases := (bases.find? k).getD ∅
    cyclic := (k, k) ∈ reached }

/-! ## Looking up by a name in any case -/

def named? (ctes : ResolvedCtes) (name : String) : Option ResolvedCte :=
  ctes.find? (Text.lower name)

def bases? (ctes : ResolvedCtes) (name : String) : Option TableName.Set :=
  (ctes.named? name).map (·.bases)

/-- The only table the expression of a name reads. -/
def singleBase? (ctes : ResolvedCtes) (name : String) : Option TableName :=
  match (ctes.bases? name).map (·.toList) with
  | some [table] => some table
  | _ => none

/-- The name of an expression as it is defined. -/
def spelling? (ctes : ResolvedCtes) (name : String) : Option CteName :=
  (ctes.named? name).bind (·.name)

/-- Whether the name is that of an expression that reaches itself. -/
def isCyclic (ctes : ResolvedCtes) (name : String) : Bool :=
  (ctes.named? name).any fun cte => cte.cyclic && cte.name.isSome

/-! ## Reports -/

/-- The names of the expressions that reach themselves, in order of their keys. -/
def cyclicNames (ctes : ResolvedCtes) : List CteName :=
  ctes.values.filterMap fun cte => if cte.cyclic then cte.name else none

/-- The tables of each expression under the name it is defined with. -/
def summary (ctes : ResolvedCtes) : Dict (List TableName) :=
  SortedBy.ofList (ctes.toList.map fun (k, cte) =>
    ((cte.name.map CteName.text).getD k, cte.bases.toList))

end ResolvedCtes

end QueryLineage
