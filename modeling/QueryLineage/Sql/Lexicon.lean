import QueryLineage.Dialect
import QueryLineage.Text.Alphabetic

/-!
# What dialects differ in

The characters of names, the marks and escapes of quotations, the words that cannot be aliases, and
the forms that only some dialects have.
-/

namespace QueryLineage.Sql.Lexicon

open Dialect

/-! ## Characters -/

/-- Whether a character starts a bare name. A parameter is a name that starts with an at sign. -/
def startsName (d : Dialect) (c : Char) : Bool :=
  match d with
  | .bigquery => c.isAlpha || c == '_' || c == '@'
  | .duckdb => Text.isAlphabetic c || c == '_'
  | .snowflake => c.isAlpha || c == '_'
  | .generic => Text.isAlphabetic c || c == '_' || c == '#' || c == '@'

/-- Whether a character goes on with a bare name. -/
def continuesName (d : Dialect) (c : Char) : Bool :=
  match d with
  | .bigquery => c.isAlphanum || c == '_'
  | .duckdb => Text.isAlphabetic c || c.isDigit || c == '$' || c == '_'
  | .snowflake => c.isAlphanum || c == '$' || c == '_'
  | .generic =>
    Text.isAlphabetic c || c.isDigit || c == '@' || c == '$' || c == '#' || c == '_'

def quotesNames (d : Dialect) (c : Char) : Bool :=
  match d with
  | .bigquery => c == '\x60'
  | _ => c == '\x60' || c == '\x22'

def quotesStrings (d : Dialect) (c : Char) : Bool :=
  c == '\'' || (c == '\x22' && !quotesNames d c)

/-- Whether a backslash in a string takes the next character with it. -/
def hasEscapes (d : Dialect) : Bool := d != .duckdb

/-- Whether a string may stand between three marks. -/
def hasTripleMarks (d : Dialect) : Bool := d == .bigquery

def nestsComments (d : Dialect) : Bool := d == .generic

/-- Whether these characters start a comment that ends with its line. -/
def startsLineComment (d : Dialect) : List Char → Bool
  | '-' :: '-' :: _ => true
  | '#' :: _ => d == .bigquery || d == .snowflake
  | '/' :: '/' :: _ => d == .snowflake
  | _ => false

/-- The letters that can stand directly before the marks of a string. -/
def stringLetters (d : Dialect) : List Char :=
  match d with
  | .bigquery | .generic => ['B', 'R', 'N', 'X']
  | _ => ['N', 'X']

/-! ## Reserved words -/

/-- The words that end a select list, so that they are no aliases without `AS`. -/
def columnAliasStops (d : Dialect) : List String :=
  match d with
  | .bigquery =>
    ["WITH", "SELECT", "WHERE", "GROUP", "HAVING", "ORDER", "LATERAL", "LIMIT", "FETCH", "UNION",
      "EXCEPT", "INTERSECT", "FROM", "INTO", "END"]
  | _ =>
    ["WITH", "EXPLAIN", "ANALYZE", "SELECT", "WHERE", "GROUP", "SORT", "HAVING", "ORDER", "TOP",
      "LATERAL", "VIEW", "LIMIT", "OFFSET", "FETCH", "UNION", "EXCEPT", "INTERSECT", "MINUS",
      "CLUSTER", "DISTRIBUTE", "RETURNING", "VALUES", "FROM", "INTO", "END"]

/-- The words that can follow a relation, so that they are no aliases without `AS`. -/
def tableAliasStops : List String :=
  ["WITH", "EXPLAIN", "ANALYZE", "SELECT", "WHERE", "GROUP", "SORT", "HAVING", "ORDER", "PIVOT",
    "UNPIVOT", "TOP", "LATERAL", "VIEW", "LIMIT", "OFFSET", "FETCH", "UNION", "EXCEPT",
    "INTERSECT", "MINUS", "ON", "JOIN", "INNER", "CROSS", "FULL", "LEFT", "RIGHT", "NATURAL",
    "USING", "CLUSTER", "DISTRIBUTE", "GLOBAL", "ANTI", "SEMI", "RETURNING", "ASOF",
    "MATCH_CONDITION", "OUTER", "SET", "QUALIFY", "WINDOW", "END", "FOR", "PARTITION", "PREWHERE",
    "SETTINGS", "FORMAT", "START", "CONNECT", "MATCH_RECOGNIZE", "SAMPLE", "TABLESAMPLE", "FROM",
    "OPEN"]

/-- The words that no relation starts with, so that they can follow the comma that ends a from
clause. -/
def relationStops : List String :=
  ["ALL", "ALTER", "AND", "ANY", "AS", "BETWEEN", "BY", "CHECK", "COLUMN", "CONNECT", "CREATE",
    "CROSS", "CURRENT", "DELETE", "DISTINCT", "DROP", "ELSE", "EXISTS", "FOLLOWING", "FOR", "FROM",
    "FULL", "GRANT", "GROUP", "HAVING", "ILIKE", "IN", "INCREMENT", "INNER", "INSERT", "INTERSECT",
    "INTO", "IS", "JOIN", "LEFT", "LIKE", "LIMIT", "MINUS", "NATURAL", "NOT", "NULL", "OF", "ON",
    "OR", "ORDER", "QUALIFY", "REGEXP", "REVOKE", "RIGHT", "RLIKE", "ROW", "ROWS", "SAMPLE",
    "SELECT", "SET", "SOME", "START", "TABLESAMPLE", "THEN", "TO", "TRIGGER", "UNION", "UNIQUE",
    "UPDATE", "USING", "VALUES", "WHEN", "WHENEVER", "WHERE", "WITH"]

/-- The words that are not taken for names where the expression they start is not well formed. -/
def unnameableWords (d : Dialect) : List String :=
  match d with
  | .snowflake => ["EXISTS", "STRUCT", "TRIM"]
  | _ => ["EXISTS", "INTERVAL", "STRUCT", "TRIM"]

/-! ## Forms that only some dialects have -/

def allowsTrailingCommas (d : Dialect) : Bool := d == .duckdb

def allowsTrailingFromComma (d : Dialect) : Bool := d == .snowflake

/-- Whether the names of tables may hold dashes, and dots between backticks. -/
def hasLooseTableNames (d : Dialect) : Bool := d == .bigquery

def hasUnnest (d : Dialect) : Bool := d == .bigquery || d == .generic

def hasStructs (d : Dialect) : Bool := d == .bigquery || d == .generic

/-- Whether a relation that nothing is joined to may stand in parentheses. -/
def allowsLoneParentheses (d : Dialect) : Bool := d == .snowflake || d == .generic

/-- Whether a join that follows a joined relation directly belongs to that relation. -/
def nestsJoins (d : Dialect) : Bool := d == .snowflake

def hasTimeTravel (d : Dialect) : Bool := d == .bigquery || d == .snowflake

/-- Whether an interval is any expression and has to name its unit. -/
def needsIntervalUnit (d : Dialect) : Bool := d == .bigquery

def hasAggregateFilters (d : Dialect) : Bool := d == .duckdb || d == .generic

def hasBracketTypes (d : Dialect) : Bool := d == .duckdb || d == .generic

def takesQueryArgument (d : Dialect) : Bool := d == .snowflake

/-- Whether a part of a date may be any name. -/
def hasOpenDateParts (d : Dialect) : Bool := d != .bigquery

def allowsEmptySelect (d : Dialect) : Bool := d == .generic

/-- Whether an argument may be named with `:=`. -/
def hasAssignedArguments (d : Dialect) : Bool := d == .duckdb || d == .generic

end QueryLineage.Sql.Lexicon
