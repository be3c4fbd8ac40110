import QueryLineage.SortedBy
import QueryLineage.Text.Basic

/-!
# YAML nodes and what they are read as

A document is a tree of scalars, sequences and mappings. A scalar keeps its text and whether it was
quoted, because only a plain one can mean a number, a truth value or nothing at all. A mapping keeps
repeated keys; its reader decides what they mean.

The type that is wanted decides what a scalar means. As a text it is what was written, so `123`,
`true` and `~` are texts; as a count or a truth value it has to be plain. Nothing written at all is
an empty mapping.
-/

namespace QueryLineage

inductive Yaml
  | scalar (plain : Bool) (text : String)
  | sequence (items : List Yaml)
  | mapping (entries : List (Yaml × Yaml))
deriving Inhabited

namespace Yaml

/-- The node of a value that was not written. -/
def missing : Yaml := .scalar true ""

/-! ## Readers -/

/-- Reads a value of a type, or nothing. -/
abbrev Reader (α : Type) := Yaml → Option α

def string : Reader String
  | .scalar _ s => some s
  | _ => none

def boolean : Reader Bool
  | .scalar true "true" | .scalar true "True" | .scalar true "TRUE" => some true
  | .scalar true "false" | .scalar true "False" | .scalar true "FALSE" => some false
  | _ => none

/-- The value of a digit in a base of at most sixteen. -/
def digitValue? (base : Nat) (c : Char) : Option Nat :=
  let n :=
    if c.isDigit then some (c.toNat - '0'.toNat)
    else if 'a' ≤ c ∧ c ≤ 'f' then some (c.toNat - 'a'.toNat + 10)
    else if 'A' ≤ c ∧ c ≤ 'F' then some (c.toNat - 'A'.toNat + 10)
    else none
  n.filter (· < base)

/-- The value of a nonempty run of digits in a base. -/
def digits? (base : Nat) : List Char → Option Nat
  | [] => none
  | cs => cs.foldlM (fun acc c => (digitValue? base c).map (acc * base + ·)) 0

/-- The number that digits spell: decimal without leading zeros, or marked hexadecimal, octal or
binary. -/
def unsigned? : List Char → Option Nat
  | '0' :: 'x' :: rest => digits? 16 rest
  | '0' :: 'o' :: rest => digits? 8 rest
  | '0' :: 'b' :: rest => digits? 2 rest
  | '0' :: _ :: _ => none
  | cs => digits? 10 cs

/-- The number a plain scalar spells, after at most one sign. The only number with a minus sign is
zero. -/
def numeral? : List Char → Option Nat
  | '+' :: cs => unsigned? cs
  | '-' :: cs => (unsigned? cs).filter (· = 0)
  | cs => unsigned? cs

/-- A whole number that fits 64 bits. -/
def count : Reader Nat
  | .scalar true s => (numeral? s.toList).filter (· ≤ Text.maxCount)
  | _ => none

/-- Whether a node says that there is no value. -/
def isNull : Yaml → Bool
  | .scalar true s => ["", "~", "null", "Null", "NULL"].contains s
  | _ => false

/-- A value, or a plain scalar that says there is none. -/
def nullable {α : Type} (r : Reader α) (v : Yaml) : Option (Option α) :=
  if v.isNull then some none else (r v).map some

def entries : Reader (List (String × Yaml))
  | .mapping es => es.mapM fun e => do return (← string e.1, e.2)
  | .scalar true "" => some []
  | _ => none

/-- A mapping of any keys; the last entry of a key counts. -/
def dict {α : Type} (r : Reader α) (v : Yaml) : Option (Dict α) := do
  let es ← (← v.entries).mapM fun e => do return (e.1, ← r e.2)
  return SortedBy.ofList es

/-- The entries of a record. None of its own fields comes twice, and `closed` refuses any other. -/
def record (names : List String) (closed : Bool) (v : Yaml) : Option (List (String × Yaml)) := do
  let es ← v.entries
  if closed && es.any (fun e => !names.contains e.1) then none
  else if names.any (fun n => 1 < es.countP (·.1 == n)) then none
  else some es

def required {α : Type} (es : List (String × Yaml)) (name : String) (r : Reader α) : Option α :=
  es.lookup name >>= r

/-- A field with a value to take when it is left out. -/
def withDefault {α : Type} (es : List (String × Yaml)) (name : String) (r : Reader α)
    (default : α) : Option α :=
  match es.lookup name with
  | some v => r v
  | none => some default

end Yaml

end QueryLineage
