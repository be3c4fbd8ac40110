import QueryLineage.Sql.Grammar.DataType
import QueryLineage.Sql.Grammar.Value

/-!
# Reading calls

A call has its arguments between parentheses, perhaps with words in front of them and clauses behind
them, and may be followed by what it aggregates over.
-/

namespace QueryLineage.Sql.Parser

/-! ## Order and windows -/

def orderKey (g : Grammar) : Parser (List Piece) := do
  let e ← g.expr 0
  let direction ← acceptOneOf? ["ASC", "DESC"]
  let nulls ← if ← acceptWords ["NULLS", "FIRST"] then pure " NULLS FIRST"
    else if ← acceptWords ["NULLS", "LAST"] then pure " NULLS LAST"
    else pure ""
  let directionText := match direction with
    | some w => " " ++ w
    | none => ""
  return [.expr e, .text (directionText ++ nulls)]

/-- The keys of an order after `ORDER BY`, if that comes next. -/
def orderBy? (g : Grammar) : Parser (Option (List Piece)) := do
  unless ← acceptWords ["ORDER", "BY"] do return none
  return some (.text "ORDER BY " :: separated ", " (← commaList (orderKey g)))

/-- One end of a window frame. -/
def frameBound (g : Grammar) : Parser (List Piece) := do
  if ← acceptWords ["CURRENT", "ROW"] then return [.text "CURRENT ROW"]
  let distance ← if ← acceptWord "UNBOUNDED" then pure [Piece.text "UNBOUNDED"]
    else pure [.expr (← g.expr 0)]
  return distance ++ [.text (" " ++ (← expectOneOf ["PRECEDING", "FOLLOWING"]))]

def frame (g : Grammar) : Parser (List Piece) := do
  let unit ← expectOneOf ["ROWS", "RANGE", "GROUPS"]
  if ← acceptWord "BETWEEN" then
    let first ← frameBound g
    expectWord "AND"
    let last ← frameBound g
    return .text (unit ++ " BETWEEN ") :: first ++ .text " AND " :: last
  else return .text (unit ++ " ") :: (← frameBound g)

/-- What a window says, between its parentheses. -/
def windowSpec (g : Grammar) : Parser (List Piece) := do
  let base ← do
    if ← atOneOf ["PARTITION", "ORDER", "ROWS", "RANGE", "GROUPS"] then pure []
    else match ← peek? with
      | some (.word name) => advance; pure [[Piece.text name.text]]
      | _ => pure []
  let partition ← if ← acceptWords ["PARTITION", "BY"] then
      pure [.text "PARTITION BY " :: exprList (← commaList (g.expr 0))]
    else pure []
  let order ← orderBy? g
  let rows ← if ← atSymbol ")" then pure [] else pure [← frame g]
  return separated " " (base ++ partition ++ order.toList ++ rows)

/-- What a call is computed over, after `OVER`. -/
def windowing? (g : Grammar) : Parser (List Piece) := do
  unless ← acceptWord "OVER" do return []
  if ← atSymbol "(" then
    return .text " OVER " :: parenthesized (← inParentheses (windowSpec g))
  else return [.text (" OVER " ++ (← identifier).text)]

/-! ## Arguments -/

/-- Reads one more part of a dotted name, or the star that ends it. -/
def starredStep (found : List Ident × Bool) : Parser (Option (List Ident × Bool)) := do
  if found.2 then return none
  unless ← accept "." do return none
  match ← peek? with
  | some (.word name) => advance; return some (found.1 ++ [name], false)
  | some (.string "" "'" value) => advance; return some (found.1 ++ [⟨value, some '\''⟩], false)
  | some (.symbol "*") => advance; return some (found.1, true)
  | _ => unexpected "an identifier or a '*' after '.'"

/-- The text of a name that ends in a star, after its first part. -/
def starredName? (first : Ident) : Parser (Option String) := do
  let found ← steps starredStep ([first], false)
  return if found.2 then some (nameText found.1 ++ ".*") else none

/-- A star, alone or after a dotted name; nothing read if there is none. -/
def wildcard? : Parser (Option String) := do
  match ← peek?, ← peekAt? 1 with
  | some (.symbol "*"), _ => advance; return some "*"
  | some (.word name), some (.symbol ".") => qualified name
  | some (.string "" "'" value), some (.symbol ".") => qualified ⟨value, some '\''⟩
  | _, _ => return none
where
  /-- A star after a dotted name; nothing read if the name ends otherwise. -/
  qualified (first : Ident) : Parser (Option String) := do
    let start ← get
    advance
    let found ← starredName? first
    if found.isNone then set start
    return found

def plainArgument (g : Grammar) : Parser Argument := do
  match ← wildcard? with
  | some text => return .other [.text text]
  | none => return .expr (← g.expr 0)

/-- The sign between the name of an argument and the argument, if it comes next. -/
def argumentSign? : Parser (Option String) := do
  if ← accept "=>" then return some "=>"
  if Lexicon.hasAssignedArguments (← read) then
    if ← accept ":=" then return some ":="
  return none

def argument (g : Grammar) : Parser Argument := do
  let named ← maybe do
    let name ← identifier
    match ← argumentSign? with
    | some sign => return name.text ++ " " ++ sign ++ " "
    | none => unexpected "an argument"
  match named with
  | some opening =>
    match ← plainArgument g with
    | .expr e => return .other [.text opening, .expr e]
    | .other pieces => return .other (.text opening :: pieces)
  | none => plainArgument g

/-- What is done with nulls, if that comes next. -/
def nulls? : Parser (Option String) := do
  if ← acceptWords ["IGNORE", "NULLS"] then return some "IGNORE NULLS"
  if ← acceptWords ["RESPECT", "NULLS"] then return some "RESPECT NULLS"
  return none

/-- The clauses behind the arguments of a call. -/
def argumentClauses (g : Grammar) : Parser (List (List Piece)) := do
  let nulls ← nulls?
  let order ← orderBy? g
  let limit ← if ← acceptWord "LIMIT" then pure [[.text "LIMIT ", .expr (← g.expr 0)]] else pure []
  let bound ← if ← acceptWord "HAVING" then
      let kind ← expectOneOf ["MIN", "MAX"]
      pure [[.text ("HAVING " ++ kind ++ " "), .expr (← g.expr 0)]]
    else pure []
  return (nulls.map fun text => [Piece.text text]).toList ++ order.toList ++ limit ++ bound

/-- The arguments of a call after the opening parenthesis: the words in front, the arguments, and
what stands before the closing parenthesis. -/
def arguments (g : Grammar) : Parser (String × List Argument × List Piece) := do
  if ← accept ")" then return ("(", [], [.text ")"])
  let which := match ← acceptOneOf? ["DISTINCT", "ALL"] with
    | some w => "(" ++ w ++ " "
    | none => "("
  let args ← commaList (argument g)
  let clauses ← argumentClauses g
  expect ")"
  return (which, args, clauses.flatMap (.text " " :: ·) ++ [.text ")"])

/-! ## Calls -/

/-- The order of the group that a call is computed over, if it comes next. -/
def groupOrder? (g : Grammar) : Parser (List Piece) := do
  unless ← acceptWords ["WITHIN", "GROUP"] do return []
  let order ← inParentheses do
    match ← orderBy? g with
    | some pieces => return pieces
    | none => unexpected "ORDER"
  return .text " WITHIN GROUP " :: parenthesized order

/-- The filter of a call, what it does with nulls, and its window. -/
def callRest (g : Grammar) : Parser (List Piece) := do
  let filter ← if Lexicon.hasAggregateFilters (← read) && (← acceptWord "FILTER") then
      let condition ← inParentheses do
        expectWord "WHERE"
        g.expr 0
      pure [.text " FILTER (WHERE ", .expr condition, .text ")"]
    else pure []
  let nulls ← nulls?
  let windowing ← windowing? g
  return filter ++ (nulls.map fun text => Piece.text (" " ++ text)).toList ++ windowing

/-- A call of a function, from its opening parenthesis on. -/
def call (g : Grammar) (name : ObjectName) : Parser Expr := do
  expect "("
  if Lexicon.takesQueryArgument (← read) && (← atOneOf ["SELECT", "WITH"]) then
    let q ← g.query
    expect ")"
    return .call name [.text "(", .query q] [] [.text ")"] [] []
  let (opening, args, closing) ← arguments g
  let groupOrder ← groupOrder? g
  return .call name [.text opening] args closing groupOrder (← callRest g)

end QueryLineage.Sql.Parser
