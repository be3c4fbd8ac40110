import QueryLineage.Metadata
import QueryLineage.TableName

/-!
# Metadata providers

A provider answers look-ups by project, dataset and table. It may keep a state, and its answers may
depend on it; one whose answers depend on the key alone is given by a function (`ofAnswers`). A cache
in front of a provider keeps the first answer to each address, failures included, until it is
cleared, so that the provider is asked once per address.
-/

namespace QueryLineage

/-- The full address of a table. -/
structure TableKey where
  project : String
  dataset : String
  table : String
deriving DecidableEq

namespace TableKey

def text (k : TableKey) : String := Text.join "." [k.project, k.dataset, k.table]

/-- The address of a name of three segments. -/
def ofName? (t : TableName) : Option TableKey :=
  match t.segments with
  | [p, d, n] => some ⟨p, d, n⟩
  | _ => none

end TableKey

inductive MetadataError
  | notFound (key : TableKey)
  | unavailable (reason : String)
deriving DecidableEq

def MetadataError.message : MetadataError → String
  | .notFound k => s!"table not found: {k.text}"
  | .unavailable reason => s!"metadata unavailable: {reason}"

abbrev MetadataAnswer := Except MetadataError TableMetadata

/-- A source of metadata with a state. -/
abbrev Provider (σ : Type) := TableKey → StateM σ MetadataAnswer

namespace Provider

variable {σ : Type}

/-- The provider that gives these answers, whatever its state. -/
def ofAnswers (f : TableKey → MetadataAnswer) : Provider σ := fun k => pure (f k)

/-- The provider that also notes each look-up, the earliest first. -/
def noting (p : Provider σ) : Provider (σ × List TableKey) := fun k (s, seen) =>
  let (answer, s) := (p k).run s
  (answer, s, seen ++ [k])

end Provider

/-! ## Caches -/

/-- The answers given since the cache was last cleared, the latest first, one per address. -/
abbrev MetadataCache := List (TableKey × MetadataAnswer)

namespace MetadataCache

variable {σ : Type}

/-- The provider that asks `p` only about addresses the cache has no answer for. -/
def inFrontOf (p : Provider σ) : Provider (MetadataCache × σ) := fun k (cache, s) =>
  match cache.lookup k with
  | some answer => (answer, cache, s)
  | none =>
    let (answer, s) := (p k).run s
    (answer, (k, answer) :: cache, s)

/-- Forgets every answer. -/
def clear : StateM (MetadataCache × σ) Unit := modify fun (_, s) => ([], s)

end MetadataCache

end QueryLineage
