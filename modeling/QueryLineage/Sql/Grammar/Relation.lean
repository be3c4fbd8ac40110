import QueryLineage.Sql.Grammar.Expression

/-!
# Reading relations and joins
-/

namespace QueryLineage.Sql.Parser

/-! ## What follows a relation -/

/-- The time as of which a table is read. -/
def version? (g : Grammar) : Parser (List Piece) := do
  if Lexicon.hasTimeTravel (← read) then
    if ← acceptWords ["FOR", "SYSTEM_TIME", "AS", "OF"] then
      return [.text " FOR SYSTEM_TIME AS OF ", .expr (← g.expr 0)]
  return []

/-- How much of a relation is sampled. -/
def sampleSize (g : Grammar) : Parser (List Piece) := do
  let amount ← g.expr 0
  let unit ← acceptOneOf? ["ROWS", "PERCENT"]
  return [.expr amount, .text ((unit.map (" " ++ ·)).getD "")]

def sampleSeed : Parser String := do
  match ← acceptOneOf? ["REPEATABLE", "SEED"] with
  | some w => inParentheses do return " " ++ w ++ " (" ++ (← value) ++ ")"
  | none => return ""

/-- The sample that a relation is cut to. -/
def sample? (g : Grammar) : Parser (List Piece) := do
  match ← acceptOneOf? ["TABLESAMPLE", "SAMPLE"] with
  | none => return []
  | some w =>
    let method ← acceptOneOf? ["BERNOULLI", "ROW", "SYSTEM", "BLOCK"]
    let opening := " " ++ w ++ (method.map (" " ++ ·)).getD "" ++ " "
    let size ← if ← atSymbol "(" then
        pure (parenthesized (← inParentheses (sampleSize g)))
      else sampleSize g
    return .text opening :: size ++ [.text (← sampleSeed)]

/-! ## Turning rows and columns -/

def aliasedExpr (g : Grammar) (stops : List String) : Parser (List Piece) := do
  let e ← g.expr 0
  match ← aliasBut stops with
  | some (_, name) => return [.expr e, .text (" AS " ++ name.text)]
  | none => return [.expr e]

/-- What a pivot computes: a call, with an alias or without. -/
def pivotCall (g : Grammar) : Parser (List Piece) := do
  let name ← identifier
  let e ← call g [name]
  match ← aliasBut ["FOR"] with
  | some (_, name) => return [.expr e, .text (" AS " ++ name.text)]
  | none => return [.expr e]

/-- The column a pivot turns: one, or several between parentheses. -/
def pivotColumn (g : Grammar) : Parser (List Piece) := do
  if ← atSymbol "(" then
    let columns ← inParentheses (commaList (g.expr comparisonStrength))
    match columns with
    | [e] => return [.expr e]
    | es => return parenthesized (exprList es)
  else return [.expr (← g.expr comparisonStrength)]

/-- The values a pivot makes columns of. -/
def pivotValues (g : Grammar) : Parser (List Piece) := do
  if ← acceptWord "ANY" then
    match ← orderBy? g with
    | some order => return .text "ANY " :: order
    | none => return [.text "ANY"]
  if ← atOneOf ["SELECT", "WITH"] then return [.query (← g.query)]
  return separated ", " (← commaList (aliasedExpr g (Lexicon.columnAliasStops (← read))))

def aliasPiece (alternative : Option TableAlias) : Piece := .text (aliasText alternative)

def pivot (g : Grammar) (r : Relation) : Parser Relation := do
  expect "("
  let calls ← commaList (pivotCall g)
  expectWord "FOR"
  let column ← pivotColumn g
  expectWord "IN"
  let values ← inParentheses (pivotValues g)
  let default ← if ← acceptWords ["DEFAULT", "ON", "NULL"] then
      pure (.text " DEFAULT ON NULL " :: parenthesized [.expr (← inParentheses (g.expr 0))])
    else pure []
  expect ")"
  let alternative ← tableAlias g
  return .form (.relation r :: .text " PIVOT(" :: separated ", " calls ++ .text " FOR " :: column
    ++ .text " IN " :: parenthesized values ++ default ++ [.text ")", aliasPiece alternative])

def unpivot (g : Grammar) (r : Relation) : Parser Relation := do
  let nulls ← if ← acceptWords ["INCLUDE", "NULLS"] then pure " INCLUDE NULLS "
    else if ← acceptWords ["EXCLUDE", "NULLS"] then pure " EXCLUDE NULLS "
    else pure ""
  expect "("
  let measured ← g.expr 0
  expectWord "FOR"
  let name ← identifier
  expectWord "IN"
  let columns ← inParentheses
    (commaList (aliasedExpr g (Lexicon.columnAliasStops (← read))))
  expect ")"
  let alternative ← tableAlias g
  return .form (.relation r :: .text (" UNPIVOT" ++ nulls ++ "(") :: .expr measured
    :: .text (" FOR " ++ name.text ++ " IN ") :: parenthesized (separated ", " columns)
    ++ [.text ")", aliasPiece alternative])

/-- A relation with everything that turns it. -/
def turned (g : Grammar) (r : Relation) : Parser Relation :=
  steps (fun r => do
    match ← acceptOneOf? ["PIVOT", "UNPIVOT"] with
    | some "PIVOT" => return some (← pivot g r)
    | some _ => return some (← unpivot g r)
    | none => return none) r

/-! ## Relations -/

/-- A query as a relation, after its opening parenthesis. -/
def derived (g : Grammar) (opening : String) : Parser Relation := do
  let q ← g.query
  expect ")"
  let alternative ← tableAlias g
  return .derived opening q alternative (← sample? g)

/-- A relation with an alias given behind the parentheses around it. -/
def withOuterAlias (outer : Option TableAlias) : Relation → Parser Relation
  | .table name afterName alternative afterAlias => do
    return .table name afterName (← choose alternative) afterAlias
  | .derived opening q alternative afterAlias => do
    return .derived opening q (← choose alternative) afterAlias
  | .unnest items afterItems alternative afterAlias => do
    return .unnest items afterItems (← choose alternative) afterAlias
  | .joined item alternative => do return .joined item (← choose alternative)
  | .form pieces => return .form (pieces ++ [aliasPiece outer])
where
  /-- The one alias of two that is given. -/
  choose (inner : Option TableAlias) : Parser (Option TableAlias) := do
    if inner.isSome && outer.isSome then unexpected "one alias"
    return outer.or inner

/-- Joined relations in parentheses, after the opening one. -/
def joinedRelations (g : Grammar) : Parser Relation := do
  let item ← g.fromItem
  match item with
  | .mk relation joins =>
    let nested := match relation with
      | .joined .. => true
      | _ => false
    if !joins.isEmpty || nested then
      expect ")"
      return .joined item (← tableAlias g)
    if Lexicon.allowsLoneParentheses (← read) then
      expect ")"
      return ← withOuterAlias (← tableAlias g) relation
    unexpected "joined table"

/-- `UNNEST(e, e)`, with an alias, and an offset with its own. -/
def unnest (g : Grammar) : Parser Relation := do
  let items ← inParentheses (commaList (g.expr 0))
  let ordinal ← if ← acceptWords ["WITH", "ORDINALITY"] then pure " WITH ORDINALITY" else pure ""
  let alternative ← tableAlias g
  let offset ← if ← acceptWords ["WITH", "OFFSET"] then
      match ← columnAlias with
      | some name => pure (" WITH OFFSET " ++ name.text)
      | none => pure " WITH OFFSET"
    else pure ""
  return .unnest items ordinal alternative offset

def argumentPieces : Argument → List Piece
  | .expr e => [.expr e]
  | .other pieces => pieces

/-- Arguments between parentheses, behind the name of a table. -/
def tableArguments (g : Grammar) : Parser (List Piece) := do
  expect "("
  if ← accept ")" then return [.text "()"]
  let args ← commaList (argument g)
  expect ")"
  return parenthesized (separated ", " (args.map argumentPieces))

def table (g : Grammar) : Parser Relation := do
  let name ← objectName true
  let version ← version? g
  let args ← if ← atSymbol "(" then tableArguments g else pure []
  let alternative ← tableAlias g
  let sample ← sample? g
  turned g (.table name args alternative (version ++ sample))

/-- `LATERAL` and a query or a call, after its word. -/
def lateral (g : Grammar) : Parser Relation := do
  if ← accept "(" then return ← derived g "LATERAL "
  let name ← objectName false
  let args ← tableArguments g
  let alternative ← tableAlias g
  return .form (.text ("LATERAL " ++ nameText name) :: args ++ [aliasPiece alternative])

/-- A relation without joins. -/
def relation (g : Grammar) : Parser Relation := do
  if ← acceptWord "LATERAL" then lateral g
  else if ← acceptWord "TABLE" then
    let e ← inParentheses (g.expr 0)
    let alternative ← tableAlias g
    return .form [.text "TABLE(", .expr e, .text ")", aliasPiece alternative]
  else if ← accept "(" then
    match ← maybe (derived g "") with
    | some r => turned g r
    | none => joinedRelations g
  else if Lexicon.hasUnnest (← read) && (← acceptWord "UNNEST") then unnest g
  else table g

/-! ## Joins -/

/-- The word a join starts with, and how it is read on. -/
inductive JoinOpening
  | plain (op : JoinOperator)
  | named (name opening : String)

/-- The operator of a join whose first word is read already, `side` being that word. -/
def sidedOpening (side : String) (bare outer : JoinOperator) : Parser JoinOpening := do
  match ← expectOneOf ["OUTER", "SEMI", "ANTI", "JOIN"] with
  | "JOIN" => return .plain bare
  | "OUTER" => expectWord "JOIN"; return .plain outer
  | w => expectWord "JOIN"; return .named (side ++ w) (side ++ " " ++ w ++ " JOIN")

/-- The operator of a join that may be natural; nothing if no join comes next. -/
def joinOpening? : Parser (Option JoinOpening) := do
  match ← acceptOneOf? ["JOIN", "INNER", "LEFT", "RIGHT", "FULL", "SEMI", "ANTI"] with
  | some "JOIN" => return some (.plain .join)
  | some "INNER" => expectWord "JOIN"; return some (.plain .inner)
  | some "LEFT" => return some (← sidedOpening "LEFT" .left .leftOuter)
  | some "RIGHT" => return some (← sidedOpening "RIGHT" .right .rightOuter)
  | some "FULL" =>
    let _ ← acceptWord "OUTER"
    expectWord "JOIN"
    return some (.plain .full)
  | some w => expectWord "JOIN"; return some (.named w (w ++ " JOIN"))
  | none => return none

inductive Constraint
  | condition (e : Expr)
  | columns (names : List ObjectName)
  | natural
  | none

def constraint (g : Grammar) (natural : Bool) : Parser Constraint := do
  if natural then return .natural
  else if ← acceptWord "ON" then return .condition (← g.expr 0)
  else if ← acceptWord "USING" then
    return .columns (← inParentheses (commaList (objectName true)))
  else return .none

/-- The join of a relation under an operator and a condition. -/
def joinOf (opening : JoinOpening) (r : Relation) (c : Constraint) : Join :=
  match opening, c with
  | .plain op, .condition e => .conditioned op r e
  | .plain op, .columns names => .matching op r names
  | .plain op, .natural => .natural op r
  | .plain op, .none => .unconditional op r
  | .named name text, .condition e => .operator name text r [.text " ON ", .expr e]
  | .named name text, .columns names =>
    .operator name text r [.text (" USING(" ++ commaSeparated (names.map nameText) ++ ")")]
  | .named name text, .natural => .operator name ("NATURAL " ++ text) r []
  | .named name text, .none => .operator name text r []

/-- Whether a join comes next that belongs to the relation just read. -/
def atNestedJoin : Parser Bool := do
  if Lexicon.nestsJoins (← read) then atOneOf ["JOIN", "INNER", "LEFT", "RIGHT", "FULL"]
  else return false

/-- The relation of a join with the joins that belong to it, which `joins` reads. -/
def joinedRelation (g : Grammar) (joins : Parser (List Join)) : Parser Relation := do
  let r ← relation g
  if ← atNestedJoin then return .joined (.mk r (← joins)) .none
  else return r

/-- One join; `joins` reads those that belong to its relation. -/
def join? (g : Grammar) (joins : Parser (List Join)) : Parser (Option Join) := do
  if ← acceptWord "CROSS" then
    if ← acceptWord "JOIN" then return some (.unconditional .cross (← relation g))
    if ← acceptWord "APPLY" then
      return some (.operator "CROSSAPPLY" "CROSS APPLY" (← relation g) [])
    unexpected "JOIN or APPLY after CROSS"
  else if ← acceptWord "OUTER" then
    expectWord "APPLY"
    return some (.operator "OUTERAPPLY" "OUTER APPLY" (← relation g) [])
  else if ← acceptWord "ASOF" then
    expectWord "JOIN"
    let r ← relation g
    expectWord "MATCH_CONDITION"
    let match_ ← inParentheses (g.expr 0)
    let rest := [.text " MATCH_CONDITION ", .text "(", .expr match_, .text ")"]
    match joinOf (.named "ASOF" "ASOF JOIN") r (← constraint g false) with
    | .operator name opening r tail => return some (.operator name opening r (rest ++ tail))
    | other => return some other
  else
    let natural ← acceptWord "NATURAL"
    match ← joinOpening? with
    | some opening =>
      let r ← joinedRelation g joins
      return some (joinOf opening r (← constraint g natural))
    | none => if natural then unexpected "a join type after NATURAL" else return none

/-- The joins that come next, at most `fuel` deep in one another. -/
def joinsWithin (g : Grammar) : (fuel : Nat) → Parser (List Join)
  | 0 => return []
  | fuel + 1 => many (join? g (joinsWithin g fuel))

def joins (g : Grammar) : Parser (List Join) := do joinsWithin g (← get).length

/-- A relation and what is joined to it. -/
def fromItem (g : Grammar) : Parser FromItem := do
  let r ← relation g
  return .mk r (← joins g)

def fromItems (g : Grammar) : Parser (List FromItem) := do
  listOf (Lexicon.allowsTrailingFromComma (← read)) Lexicon.relationStops (fromItem g)

end QueryLineage.Sql.Parser
