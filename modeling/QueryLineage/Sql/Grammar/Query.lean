import QueryLineage.Sql.Grammar.Relation

/-!
# Reading queries
-/

namespace QueryLineage.Sql.Parser

/-! ## Select lists -/

/-- Names after a word, between parentheses or one alone. -/
def wildcardNames (word : String) : Parser String := do
  unless ← acceptWord word do return ""
  if ← atSymbol "(" then
    let names ← inParentheses (commaList identifier)
    return " " ++ word ++ " (" ++ commaSeparated (names.map Ident.text) ++ ")"
  else return " " ++ word ++ " " ++ (← identifier).text

/-- The expressions that replace columns of a star. -/
def replacements (g : Grammar) : Parser (List Piece) := do
  unless ← acceptWord "REPLACE" do return []
  let items ← inParentheses <| commaList do
    let e ← g.expr 0
    let marked ← acceptWord "AS"
    return [.expr e, Piece.text ((if marked then " AS " else " ") ++ (← identifier).text)]
  return .text " REPLACE " :: parenthesized (separated ", " items)

def renamings : Parser String := do
  unless ← acceptWord "RENAME" do return ""
  let oneName : Parser String := do
    let old ← identifier
    expectWord "AS"
    return old.text ++ " AS " ++ (← identifier).text
  if ← atSymbol "(" then
    return " RENAME (" ++ commaSeparated (← inParentheses (commaList oneName)) ++ ")"
  else return " RENAME " ++ (← oneName)

/-- What limits a star. -/
def wildcardOptions (g : Grammar) : Parser (List Piece) := do
  let d ← read
  let excluded ← if d = .bigquery then pure "" else wildcardNames "EXCLUDE"
  let excepted ← if d = .bigquery || d = .generic then wildcardNames "EXCEPT" else pure ""
  let replaced ← replacements g
  let renamed ← if d = .snowflake || d = .generic then renamings else pure ""
  return .text (excluded ++ excepted) :: replaced ++ [.text renamed]

/-- An item of a select list. The bare word `FROM` is none. -/
def selectItem (g : Grammar) : Parser SelectItem := do
  match ← wildcard? with
  | some text => return .wildcard (.text text :: (← wildcardOptions g))
  | none =>
    let e ← g.expr 0
    if let .column ⟨value, none⟩ [] := e then
      if Text.eqIgnoringCase value "FROM" then unexpected "an expression"
    if (← atSymbol ".") && (← peekAt? 1) = some (.symbol "*") then
      advance
      advance
      return .wildcard (.expr e :: .text ".*" :: (← wildcardOptions g))
    match ← columnAlias with
    | some name => return .aliased e name
    | none => return .unnamed e

/-- Whether rows are kept once, and what that is decided by. -/
def distinct? (g : Grammar) : Parser (List Piece) := do
  match ← acceptOneOf? ["ALL", "DISTINCT"] with
  | some "ALL" =>
    if ← atWord "DISTINCT" then unexpected "one of ALL and DISTINCT"
    return [.text "ALL "]
  | some _ =>
    if ← atWord "ALL" then unexpected "one of ALL and DISTINCT"
    if ← acceptWord "ON" then
      let keys ← inParentheses do
        if ← atSymbol ")" then return [] else commaList (g.expr 0)
      return .text "DISTINCT ON " :: parenthesized (exprList keys) ++ [.text " "]
    else return [.text "DISTINCT "]
  | none => return []

/-- Whether rows become values or structures. -/
def rowShape : Parser String := do
  unless (← read) = .bigquery do return ""
  let shapes := [["DISTINCT", "AS", "VALUE"], ["DISTINCT", "AS", "STRUCT"], ["AS", "VALUE"],
    ["AS", "STRUCT"]]
  match ← shapes.findM? acceptWords with
  | some words => return Text.join " " words ++ " "
  | none =>
    if ← acceptWords ["ALL", "AS", "VALUE"] then return "AS VALUE "
    if ← acceptWords ["ALL", "AS", "STRUCT"] then return "AS STRUCT "
    return ""

/-- How many rows are taken, in front of the select list. -/
def top? (g : Grammar) : Parser (List Piece) := do
  unless ← acceptWord "TOP" do return []
  let amount ← if ← atSymbol "(" then
      pure (parenthesized [.expr (← inParentheses (g.expr 0))])
    else match ← peek? with
      | some (.number text) => advance; pure [.text text]
      | _ => unexpected "literal int"
  let percent ← if ← acceptWord "PERCENT" then pure " PERCENT" else pure ""
  let ties ← if ← acceptWords ["WITH", "TIES"] then pure " WITH TIES" else pure ""
  return .text "TOP " :: amount ++ [.text (percent ++ ties ++ " ")]

/-- The items of a select list. It may end in a comma. -/
def selectItems (g : Grammar) : Parser (List SelectItem) := do
  let d ← read
  if Lexicon.allowsEmptySelect d && (← atWord "FROM") then return []
  listOf true (Lexicon.columnAliasStops d) (selectItem g)

/-! ## Clauses -/

/-- Expressions between parentheses, or one alone. -/
def groupingSet (g : Grammar) (lone : Bool) : Parser (List Expr) := do
  if lone && !(← atSymbol "(") then return [← g.expr 0]
  inParentheses do
    if ← atSymbol ")" then return [] else commaList (g.expr 0)

/-- The pieces of a set of grouping expressions. -/
def groupingSetPieces (lone : Bool) (set : List Expr) : List Piece :=
  match lone, set with
  | true, [e] => [.expr e]
  | _, es => parenthesized (exprList es)

/-- A grouping expression, or several sets of them. -/
def grouping (g : Grammar) : Parser Expr := do
  let sets (name : String) (lone : Bool) : Parser Expr := do
    let found ← inParentheses (commaList (groupingSet g lone))
    return .form (.text (name ++ " (")
      :: separated ", " (found.map (groupingSetPieces lone)) ++ [.text ")"])
  if ← acceptWords ["GROUPING", "SETS"] then sets "GROUPING SETS" false
  else if ← acceptWord "CUBE" then sets "CUBE" true
  else if ← acceptWord "ROLLUP" then sets "ROLLUP" true
  else if (← atSymbol "(") && (← peekAt? 1) = some (.symbol ")") then
    advance
    advance
    return .form [.text "()"]
  else g.expr 0

/-- The grouping expressions of a select, and what else is written about grouping. -/
def groupBy (g : Grammar) : Parser (List Expr × String) := do
  unless ← acceptWords ["GROUP", "BY"] do return ([], "")
  let groups ← if ← acceptWord "ALL" then pure [] else commaList (grouping g)
  let opening := if groups.isEmpty then " GROUP BY ALL" else ""
  if (← read) = .generic then
    let modifiers ← many do
      unless ← acceptWord "WITH" do return none
      return some (" WITH " ++ (← expectOneOf ["ROLLUP", "CUBE", "TOTALS"]))
    return (groups, opening ++ String.join modifiers)
  return (groups, opening)

/-- A clause of one expression, if its word comes next. -/
def clause? (g : Grammar) (word : String) : Parser (Option Expr) := do
  if ← acceptWord word then return some (← g.expr 0) else return none

def windows? (g : Grammar) : Parser (List Piece) := do
  unless ← acceptWord "WINDOW" do return []
  let definitions ← commaList do
    let name ← identifier
    expectWord "AS"
    if ← atSymbol "(" then
      return .text (name.text ++ " AS ") :: parenthesized (← inParentheses (windowSpec g))
    else return [Piece.text (name.text ++ " AS " ++ (← identifier).text)]
  return .text " WINDOW " :: separated ", " definitions

/-- The predicate on the results of windows. -/
def qualify? (g : Grammar) : Parser (List Piece) := do
  match ← clause? g "QUALIFY" with
  | some e => return [.text " QUALIFY ", .expr e]
  | none => return []

/-- The clauses about windows, in either order. -/
def windowClauses (g : Grammar) : Parser (List Piece) := do
  if ← atWord "WINDOW" then
    let definitions ← windows? g
    return definitions ++ (← qualify? g)
  else
    let predicate ← qualify? g
    return predicate ++ (← windows? g)

def select (g : Grammar) : Parser Body := do
  expectWord "SELECT"
  let shape ← rowShape
  let distinct ← distinct? g
  let top ← top? g
  let items ← selectItems g
  let sources ← if ← acceptWord "FROM" then fromItems g else pure []
  let condition ← clause? g "WHERE"
  let (groups, afterGroups) ← groupBy g
  let having ← clause? g "HAVING"
  return .select (.text ("SELECT " ++ shape) :: distinct ++ top) items sources condition groups
    afterGroups having (← windowClauses g)

/-! ## Bodies -/

def values (g : Grammar) : Parser Body := do
  let rows ← commaList do
    let opening ← if ← acceptWord "ROW" then pure "ROW" else pure ""
    return Piece.text opening :: parenthesized (exprList (← inParentheses (commaList (g.expr 0))))
  return .other (.text "VALUES " :: separated ", " rows)

/-- A body without set operations. -/
def simpleBody (g : Grammar) : Parser Body := do
  if ← atWord "SELECT" then select g
  else if ← atSymbol "(" then return .query (← inParentheses g.query)
  else if ← acceptWord "VALUES" then values g
  else if ← acceptWord "TABLE" then
    return .other [.text ("TABLE " ++ nameText (← dottedName))]
  else unexpected "SELECT, VALUES, or a subquery in the query body"

/-- What is said about rows that occur twice, after a set operation. -/
def setQuantifier : Parser String := do
  let all := [["DISTINCT", "BY", "NAME"], ["BY", "NAME"], ["ALL", "BY", "NAME"], ["ALL"],
    ["DISTINCT"]]
  match ← all.findM? acceptWords with
  | some words => return " " ++ Text.join " " words
  | none => return ""

/-- Bodies joined by some set operations, from the left. -/
def setOperations (words : List String) (operand : Parser Body) : Parser Body := do
  steps (fun left => do
    match ← acceptOneOf? words with
    | some w =>
      let op := w ++ (← setQuantifier)
      return some (.setOperation left op (← operand))
    | none => return none) (← operand)

/-- A body. `INTERSECT` binds tighter than the other set operations. -/
def body (g : Grammar) : Parser Body :=
  setOperations ["UNION", "EXCEPT", "MINUS"] (setOperations ["INTERSECT"] (simpleBody g))

/-! ## Queries -/

def cte (g : Grammar) : Parser Cte := do
  let name ← identifier
  let columns ← if ← atWord "AS" then pure "" else columnNames g
  expectWord "AS"
  return .mk name columns "" (← inParentheses g.query)

/-- The order of the rows of a query. -/
def queryOrder (g : Grammar) : Parser (List Piece) := do
  if ← acceptWords ["ORDER", "BY", "ALL"] then return [.text " ORDER BY ALL"]
  return optionalPieces " " (← orderBy? g)

/-- How many rows are left out at the start. -/
def offset (g : Grammar) : Parser (List Piece) := do
  let amount ← g.expr 0
  let rows ← acceptOneOf? ["ROW", "ROWS"]
  return [.text " OFFSET ", .expr amount, .text ((rows.map (" " ++ ·)).getD "")]

/-- How many rows are taken, and how many left out before. -/
def queryLimit (g : Grammar) : Parser (List Piece) := do
  let early ← if ← acceptWord "OFFSET" then offset g else pure []
  let limit ← if ← acceptWord "LIMIT" then
      if ← acceptWord "ALL" then pure [] else pure [.text " LIMIT ", .expr (← g.expr 0)]
    else pure []
  let late ← if early.isEmpty && (← acceptWord "OFFSET") then offset g else pure []
  return limit ++ early ++ late

def fetch? : Parser (List Piece) := do
  unless ← acceptWord "FETCH" do return []
  let _ ← expectOneOf ["FIRST", "NEXT"]
  let amount ← if (← acceptOneOf? ["ROW", "ROWS"]).isSome then pure ""
    else
      let number ← value
      let percent ← if ← acceptWord "PERCENT" then pure " PERCENT" else pure ""
      let _ ← expectOneOf ["ROW", "ROWS"]
      pure (" " ++ number ++ percent)
  let extent ← if ← acceptWord "ONLY" then pure " ROWS ONLY"
    else
      expectWords ["WITH", "TIES"]
      pure " ROWS WITH TIES"
  return [.text (" FETCH FIRST" ++ amount ++ extent)]

def query (g : Grammar) : Parser Query := do
  let (opening, ctes) ← if ← acceptWord "WITH" then
      let recursive ← acceptWord "RECURSIVE"
      pure (if recursive then "WITH RECURSIVE " else "WITH ", ← commaList (cte g))
    else pure ("", [])
  let b ← body g
  let order ← queryOrder g
  let limit ← queryLimit g
  return .mk opening ctes b (order ++ limit ++ (← fetch?))

end QueryLineage.Sql.Parser
