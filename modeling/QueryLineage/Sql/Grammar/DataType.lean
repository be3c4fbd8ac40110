import QueryLineage.Sql.Grammar.Name

/-!
# Reading types

A type is kept as its text: a known one in capitals, another as it is written.
-/

namespace QueryLineage.Sql.Parser

/-- The known types of one word. -/
def plainTypes : List String :=
  ["BOOLEAN", "BOOL", "REAL", "FLOAT4", "FLOAT32", "FLOAT64", "FLOAT8", "HUGEINT", "UHUGEINT",
    "UBIGINT", "USMALLINT", "UTINYINT", "UINT8", "UINT16", "UINT32", "UINT64", "INT16", "INT32",
    "INT64", "INT128", "INT256", "UUID", "DATE", "DATE32", "TIMESTAMPTZ", "TIMETZ", "JSON",
    "JSONB", "BYTEA", "REGCLASS", "TIMESTAMP_NTZ", "TEXT", "TINYTEXT", "MEDIUMTEXT",
    "LONGTEXT", "TINYBLOB", "MEDIUMBLOB", "LONGBLOB"]

/-- The known types that may have a length. -/
def sizedTypes : List String :=
  ["FLOAT", "TINYINT", "INT2", "SMALLINT", "MEDIUMINT", "INT", "INT4", "INT8", "INTEGER",
    "BIGINT", "VARCHAR", "NVARCHAR", "CHAR", "CHARACTER", "CLOB", "BINARY", "VARBINARY", "BLOB",
    "BYTES", "STRING", "DATETIME", "TIMESTAMP", "TIME", "NUMERIC", "DECIMAL", "DEC",
    "BIGNUMERIC", "BIGDECIMAL", "DOUBLE"]

/-- Numbers between parentheses, if there are any. -/
def typeSize : Parser String := do
  let size ← maybe do
    let numbers ← inParentheses <| listOf false [] do
      match ← peek? with
      | some (.number text) => advance; return text
      | some (.word ⟨value, none⟩) =>
        if Text.upperAscii value = "MAX" then advance; return "MAX" else unexpected "literal int"
      | _ => unexpected "literal int"
    return "(" ++ Text.join "," numbers ++ ")"
  return size.getD ""

/-- What follows the name of some types. -/
def typeRest (name : String) : Parser String := do
  if name = "DOUBLE" then
    if ← acceptWord "PRECISION" then return " PRECISION"
  if name = "CHARACTER" || name = "CHAR" then
    if ← acceptWord "VARYING" then return " VARYING" ++ (← typeSize)
  let size ← typeSize
  if name = "TIMESTAMP" || name = "TIME" then
    if ← acceptWords ["WITH", "TIME", "ZONE"] then return size ++ " WITH TIME ZONE"
    if ← acceptWords ["WITHOUT", "TIME", "ZONE"] then return size ++ " WITHOUT TIME ZONE"
  return size

/-- Reads the bracket that closes the arguments of a type. Two of them may be one symbol. -/
def closeAngle : Parser Unit := do
  match ← get with
  | t :: rest =>
    if t.token = .symbol ">" then set rest
    else if t.token = .symbol ">>" then
      set ({ t with token := .symbol ">", offset := t.offset + 1, spaced := false } :: rest)
    else unexpected ">"
  | [] => unexpected ">"

/-- A field of a structured type, with its name or without. -/
def typeField (g : Grammar) : Parser String := do
  let named ← maybe do
    let name ← identifier
    return name.text ++ " " ++ (← g.dataType)
  match named with
  | some field => return field
  | none => g.dataType

/-- The fields of a structured type between angle brackets. -/
def typeFields (g : Grammar) : Parser String := do
  expect "<"
  let fields ← listOf false [] (typeField g)
  closeAngle
  return "<" ++ commaSeparated fields ++ ">"

def knownType (g : Grammar) : Parser String := do
  match ← wordAt? 0 with
  | some name =>
    if plainTypes.contains name then advance; return name
    else if sizedTypes.contains name then
      advance
      return name ++ (← typeRest name)
    else if name = "ARRAY" then
      advance
      expect "<"
      let item ← g.dataType
      closeAngle
      return "ARRAY<" ++ item ++ ">"
    else if name = "STRUCT" then
      advance
      return "STRUCT" ++ (← typeFields g)
    else unexpected "a data type name"
  | none => unexpected "a data type name"

/-- Brackets after a type, where there can be any. -/
def typeBrackets : Parser String := do
  unless Lexicon.hasBracketTypes (← read) do return ""
  let brackets ← many do
    unless ← accept "[" do return none
    let size ← match ← peek? with
      | some (.number text) => advance; pure text
      | _ => pure ""
    expect "]"
    return some ("[" ++ size ++ "]")
  return String.join brackets

/-- A type of a name of its own, with modifiers between parentheses or without. -/
def ownType : Parser String := do
  let name ← objectName false
  let modifiers ← maybe <| inParentheses <| listOf false [] do
    match ← peek? with
    | some (.number text) => advance; return text
    | some (.word name) => advance; return name.text
    | some (.string _ _ value) => advance; return value
    | _ => unexpected "type modifiers"
  match modifiers with
  | some texts => return nameText name ++ "(" ++ commaSeparated texts ++ ")"
  | none => return nameText name

def dataType (g : Grammar) : Parser String := do
  let base ← match ← maybe (knownType g) with
    | some text => pure text
    | none => ownType
  return base ++ (← typeBrackets)

end QueryLineage.Sql.Parser
