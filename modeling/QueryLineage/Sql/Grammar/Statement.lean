import QueryLineage.Sql.Grammar.Query

/-!
# Reading statements
-/

namespace QueryLineage.Sql.Parser

/-- Names between parentheses, if they come next. -/
def nameList : Parser String := do
  unless ← atSymbol "(" do return ""
  let names ← inParentheses (commaList identifier)
  return "(" ++ commaSeparated (names.map Ident.text) ++ ")"

/-- Whether a query comes next, perhaps in parentheses. -/
def atQuery : Parser Bool := do
  let words ← if ← atSymbol "(" then wordAt? 1 else wordAt? 0
  return words.any ["SELECT", "WITH"].contains

/-- A word as it is written in front of another, if it comes next. -/
def marker (word : String) : Parser String := do
  if ← acceptWord word then return word ++ " " else return ""

/-- `INSERT INTO t (a, b) query`, after its first word. -/
def insert (g : Grammar) : Parser Statement := do
  let into ← marker "INTO"
  let tableWord ← marker "TABLE"
  let name ← objectName false
  let columns ← if ← atQuery then pure "" else nameList
  let opening := "INSERT " ++ into ++ tableWord ++ nameText name ++ " "
    ++ (if columns.isEmpty then "" else columns ++ " ")
  if ← acceptWords ["DEFAULT", "VALUES"] then return .other [.text (opening ++ "DEFAULT VALUES")]
  return .other [.text opening, .query (← g.query)]

def columnDefinition (g : Grammar) : Parser String := do
  let name ← identifier
  let type ← g.dataType
  let null ← if ← acceptWords ["NOT", "NULL"] then pure " NOT NULL"
    else if ← acceptWord "NULL" then pure " NULL"
    else pure ""
  return name.text ++ " " ++ type ++ null

/-- `IF NOT EXISTS`, if it comes next. -/
def unlessPresent : Parser String := do
  if ← acceptWords ["IF", "NOT", "EXISTS"] then return "IF NOT EXISTS " else return ""

/-- `CREATE TABLE t AS query`, after the word for a table. -/
def createTable (g : Grammar) (opening : String) : Parser Statement := do
  let condition ← unlessPresent
  let name ← objectName true
  let columns ← if ← atSymbol "(" then
      let definitions ← inParentheses (listOf false [] (columnDefinition g))
      pure (" (" ++ commaSeparated definitions ++ ")")
    else pure ""
  let start := opening ++ "TABLE " ++ condition ++ nameText name
  if ← acceptWord "AS" then
    return .other [.text (start ++ columns ++ " AS "), .query (← g.query)]
  else return .other [.text (start ++ (if columns.isEmpty then " ()" else columns))]

/-- `CREATE VIEW v AS query`, after the word for a view. -/
def createView (g : Grammar) (opening : String) : Parser Statement := do
  let condition ← unlessPresent
  let name ← objectName true
  let columns ← nameList
  expectWord "AS"
  let start := opening ++ "VIEW " ++ condition ++ nameText name
    ++ (if columns.isEmpty then "" else " " ++ columns)
  return .other [.text (start ++ " AS "), .query (← g.query)]

/-- A table or view that is created, after the first word. -/
def create (g : Grammar) : Parser Statement := do
  let replace ← if ← acceptWords ["OR", "REPLACE"] then pure "OR REPLACE " else pure ""
  let temporary ← if (← acceptOneOf? ["TEMPORARY", "TEMP"]).isSome then pure "TEMPORARY "
    else pure ""
  let materialized ← marker "MATERIALIZED"
  if ← acceptWord "VIEW" then
    createView g ("CREATE " ++ replace ++ materialized ++ temporary)
  else if materialized.isEmpty && (← acceptWord "TABLE") then
    createTable g ("CREATE " ++ replace ++ temporary)
  else unexpected "an object type after CREATE"

def assignment (g : Grammar) : Parser (List Piece) := do
  let target ← objectName false
  expect "="
  return [.text (nameText target ++ " = "), .expr (← g.expr 0)]

/-- The pieces of an item of a from clause. -/
def fromItemPieces : FromItem → List Piece
  | .mk relation [] => [.relation relation]
  | item => [.relation (.joined item none)]

/-- A clause of one expression as pieces, if its word comes next. -/
def clausePieces (g : Grammar) (word : String) : Parser (List Piece) := do
  match ← clause? g word with
  | some e => return [.text (" " ++ word ++ " "), .expr e]
  | none => return []

/-- `UPDATE t SET a = e FROM u WHERE e`, after its first word. -/
def update (g : Grammar) : Parser Statement := do
  let target ← fromItem g
  expectWord "SET"
  let assignments ← commaList (assignment g)
  let sources ← if ← acceptWord "FROM" then
      pure (.text " FROM " :: separated ", " ((← fromItems g).map fromItemPieces))
    else pure []
  let condition ← clausePieces g "WHERE"
  return .other (.text "UPDATE " :: fromItemPieces target ++ .text " SET "
    :: separated ", " assignments ++ sources ++ condition)

/-- `DELETE FROM t WHERE e`, after its first word. -/
def delete (g : Grammar) : Parser Statement := do
  let loose := (← read) = .bigquery || (← read) = .generic
  let opening ← if ← acceptWord "FROM" then pure "DELETE FROM "
    else if loose then pure "DELETE "
    else unexpected "FROM"
  let targets ← commaList (fromItem g)
  let sources ← if ← acceptWord "USING" then
      pure (.text " USING " :: separated ", " ((← fromItems g).map fromItemPieces))
    else pure []
  let condition ← clausePieces g "WHERE"
  return .other (.text opening :: separated ", " (targets.map fromItemPieces) ++ sources
    ++ condition)

/-- `DROP TABLE t`, after its first word. -/
def drop : Parser Statement := do
  let materialized ← marker "MATERIALIZED"
  let kind ← expectOneOf ["TABLE", "VIEW", "INDEX", "SCHEMA", "DATABASE"]
  let condition ← if ← acceptWords ["IF", "EXISTS"] then pure "IF EXISTS " else pure ""
  let names ← commaList (objectName true)
  let extent := ((← acceptOneOf? ["CASCADE", "RESTRICT"]).map (" " ++ ·)).getD ""
  return .other [.text ("DROP " ++ materialized ++ kind ++ " " ++ condition
    ++ commaSeparated (names.map nameText) ++ extent)]

def statementPieces : Statement → List Piece
  | .query q => [.query q]
  | .other pieces => pieces

/-- `EXPLAIN statement`, or the name of a table instead of a statement, after its first word. -/
def explain (g : Grammar) (word : String) : Parser Statement := do
  let analyze ← marker "ANALYZE"
  let verbose ← marker "VERBOSE"
  let opening := word ++ " " ++ analyze ++ verbose
  match ← maybe g.statement with
  | some s => return .other (.text opening :: statementPieces s)
  | none =>
    let tableWord ← marker "TABLE"
    return .other [.text (opening ++ tableWord ++ nameText (← objectName true))]

def statement (g : Grammar) : Parser Statement := do
  match ← wordAt? 0 with
  | some "SELECT" | some "WITH" | some "VALUES" => return .query (← g.query)
  | some "EXPLAIN" => advance; explain g "EXPLAIN"
  | some "DESCRIBE" => advance; explain g "DESCRIBE"
  | some "INSERT" => advance; insert g
  | some "CREATE" => advance; create g
  | some "UPDATE" => advance; update g
  | some "DELETE" => advance; delete g
  | some "DROP" => advance; drop
  | _ => if ← atSymbol "(" then return .query (← g.query) else unexpected "an SQL statement"

end QueryLineage.Sql.Parser
