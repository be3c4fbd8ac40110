import QueryLineage.Json
import QueryLineage.SortedBy
import QueryLineage.Text.Basic

/-!
# Reading values out of JSON

A reader gives nothing when a value does not have the shape it wants. A record is an object with
named members, or an array of its fields in order.
-/

namespace QueryLineage.Json

/-- Reads a value of a type, or nothing. -/
abbrev Reader (α : Type) := Json → Option α

def string : Reader String
  | .str s => some s
  | _ => none

def boolean : Reader Bool
  | .bool b => some b
  | _ => none

/-- A whole number that fits 64 bits. -/
def count : Reader Nat
  | .int n => if 0 ≤ n ∧ n.toNat ≤ Text.maxCount then some n.toNat else none
  | _ => none

def nullable {α : Type} (r : Reader α) : Reader (Option α)
  | .null => some none
  | v => (r v).map some

def list {α : Type} (r : Reader α) : Reader (List α)
  | .arr items => items.mapM r
  | _ => none

/-- Two values in an array. -/
def pair {α β : Type} (r : Reader α) (q : Reader β) : Reader (α × β)
  | .arr [a, b] => do return (← r a, ← q b)
  | _ => none

/-- An object of any member names. -/
def dict {α : Type} (r : Reader α) : Reader (Dict α)
  | .obj members => do
    let entries ← members.mapM fun m => do return (m.1, ← r m.2)
    return SortedBy.ofList entries
  | _ => none

/-- The name of a choice that carries nothing, alone or as the one member of an object. -/
def choice : Reader String
  | .str s => some s
  | .obj [(name, .null)] => some name
  | _ => none

/-- The fields of a record as they were given: by name, or by place. -/
inductive Record
  | named (members : List (String × Json))
  | placed (values : List (String × Json))

/-- The fields of a record that has these field names; `closed` refuses any other name. -/
def record (names : List String) (closed : Bool) : Reader Record
  | .obj members =>
    if closed && members.any (fun m => !names.contains m.1) then none else some (.named members)
  | .arr items => if items.length ≤ names.length then some (.placed (names.zip items)) else none
  | _ => none

namespace Record

/-- The value of a field, if it was given. -/
def value? : Record → String → Option Json
  | .named members, name => members.lookup name
  | .placed values, name => values.lookup name

def required {α : Type} (fields : Record) (name : String) (r : Reader α) : Option α :=
  fields.value? name >>= r

/-- A field with a value to take when it is left out. -/
def withDefault {α : Type} (fields : Record) (name : String) (r : Reader α) (default : α) :
    Option α :=
  match fields.value? name with
  | some v => r v
  | none => some default

/-- A field that may be `null`. It may also be left out of named fields, but not of placed ones. -/
def orNull {α : Type} (fields : Record) (name : String) (r : Reader α) : Option (Option α) :=
  match fields, fields.value? name with
  | _, some v => nullable r v
  | .named _, none => some none
  | .placed _, none => none

end Record

end QueryLineage.Json
