import QueryLineage.Text.Basic
import QueryLineage.Text.LowerCase

/-!
# SQL dialects

The dialects a statement can be written in, by the names they go under.
-/

namespace QueryLineage

inductive Dialect
  | bigquery
  | duckdb
  | snowflake
  | generic
deriving DecidableEq, Inhabited

namespace Dialect

def name : Dialect → String
  | .bigquery => "bigquery"
  | .duckdb => "duckdb"
  | .snowflake => "snowflake"
  | .generic => "generic"

def all : List Dialect := [.bigquery, .duckdb, .snowflake, .generic]

/-- The dialect whose name is exactly this. -/
def ofExactName? (text : String) : Option Dialect := all.find? (·.name == text)

/-- The dialect a user names: blanks around the name and letter case are ignored, and two dialects
have a second name. -/
def ofName? (text : String) : Option Dialect :=
  match Text.lower (Text.trim text) with
  | "bigquery" | "bq" => some .bigquery
  | "duckdb" => some .duckdb
  | "snowflake" => some .snowflake
  | "generic" | "ansi" => some .generic
  | _ => none

instance : ToString Dialect := ⟨name⟩

end Dialect

end QueryLineage
