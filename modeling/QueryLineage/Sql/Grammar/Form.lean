import QueryLineage.Sql.Grammar.Call

/-!
# Reading the forms that start with a word

Some words start a form of their own, such as `CASE` or `CAST`. Each function here reads one from
behind its word, and keeps it as pieces.
-/

namespace QueryLineage.Sql.Parser

/-- One branch of a case, after `WHEN`. -/
def branch (g : Grammar) : Parser (List Piece) := do
  let condition ← g.expr 0
  expectWord "THEN"
  let result ← g.expr 0
  return [.text " WHEN ", .expr condition, .text " THEN ", .expr result]

/-- `CASE operand WHEN … THEN … ELSE … END`. -/
def caseForm (g : Grammar) : Parser Expr := do
  let operand ← if ← atWord "WHEN" then pure [] else pure [.text " ", .expr (← g.expr 0)]
  expectWord "WHEN"
  let first ← branch g
  let later ← many do
    if ← acceptWord "WHEN" then return some (← branch g) else return none
  let otherwise ← if ← acceptWord "ELSE" then pure [.text " ELSE ", .expr (← g.expr 0)] else pure []
  expectWord "END"
  return .form (.text "CASE" :: operand ++ first ++ later.flatten ++ otherwise ++ [.text " END"])

/-- `CAST(e AS type)` under the name of its kind. -/
def castForm (g : Grammar) (name : String) : Parser Expr := do
  inParentheses do
    let e ← g.expr 0
    expectWord "AS"
    let type ← g.dataType
    let format ← if ← acceptWord "FORMAT" then
        let text ← value
        if ← acceptWords ["AT", "TIME", "ZONE"] then
          pure (" FORMAT " ++ text ++ " AT TIME ZONE " ++ (← value))
        else pure (" FORMAT " ++ text)
      else pure ""
    return .form [.text (name ++ "("), .expr e, .text (" AS " ++ type ++ format ++ ")")]

/-- `EXISTS (query)`, with what stands in front of it. -/
def existsForm (g : Grammar) (opening : String) : Parser Expr := do
  inParentheses do
    return .form [.text (opening ++ "EXISTS ("), .query (← g.query), .text ")"]

/-- `EXTRACT(part FROM e)`. -/
def extractForm (g : Grammar) : Parser Expr := do
  inParentheses do
    let part ← datePart
    if ← acceptWord "FROM" then
      return .form [.text ("EXTRACT(" ++ part ++ " FROM "), .expr (← g.expr 0), .text ")"]
    if Lexicon.hasOpenDateParts (← read) then
      if ← accept "," then
        return .form [.text ("EXTRACT(" ++ part ++ ", "), .expr (← g.expr 0), .text ")"]
    unexpected "'FROM' or ','"

/-- `CEIL(e)` and `FLOOR(e)`, to a part of a date or to a number of digits. -/
def roundingForm (g : Grammar) (name : String) : Parser Expr := do
  inParentheses do
    let e ← g.expr 0
    let target ← if ← acceptWord "TO" then pure (" TO " ++ (← datePart))
      else if ← accept "," then
        match ← peek? with
        | some (.number text) => advance; pure (", " ++ text)
        | _ => unexpected "a number"
      else pure ""
    return .form [.text (name ++ "("), .expr e, .text (target ++ ")")]

/-- `POSITION(e IN e)`. -/
def positionForm (g : Grammar) : Parser Expr := do
  inParentheses do
    let part ← g.expr 20
    expectWord "IN"
    let whole ← g.expr 0
    return .form [.text "POSITION(", .expr part, .text " IN ", .expr whole, .text ")"]

/-- `SUBSTRING(e FROM e FOR e)`, or with commas. -/
def substringForm (g : Grammar) (name : String) : Parser Expr := do
  inParentheses do
    let e ← g.expr 0
    let special ← accept ","
    let start ← if special || (← acceptWord "FROM") then
        pure [.text (if special then ", " else " FROM "), .expr (← g.expr 0)]
      else pure []
    let length ← if (← acceptWord "FOR") || (← accept ",") then
        pure [.text (if special then ", " else " FOR "), .expr (← g.expr 0)]
      else pure []
    return .form (.text (name ++ "(") :: .expr e :: start ++ length ++ [.text ")"])

/-- `OVERLAY(e PLACING e FROM e FOR e)`. -/
def overlayForm (g : Grammar) : Parser Expr := do
  inParentheses do
    let e ← g.expr 0
    expectWord "PLACING"
    let new ← g.expr 0
    expectWord "FROM"
    let start ← g.expr 0
    let length ← if ← acceptWord "FOR" then pure [.text " FOR ", .expr (← g.expr 0)] else pure []
    return .form ([.text "OVERLAY(", .expr e, .text " PLACING ", .expr new, .text " FROM ",
      .expr start] ++ length ++ [.text ")"])

/-- `TRIM(side e FROM e)`, or with the characters behind a comma. -/
def trimForm (g : Grammar) : Parser Expr := do
  inParentheses do
    let side ← acceptOneOf? ["BOTH", "LEADING", "TRAILING"]
    let opening := (side.map (· ++ " ")).getD ""
    let e ← g.expr 0
    if ← acceptWord "FROM" then return .trimming opening e (← g.expr 0)
    if ← accept "," then
      let characters ← commaList (g.expr 0)
      return .form (.text "TRIM(" :: .expr e :: .text ", " :: exprList characters ++ [.text ")"])
    return .form [.text ("TRIM(" ++ opening), .expr e, .text ")"]

/-- The digits of a unit of an interval, between parentheses, at most `count` numbers. -/
def precision (count : Nat) : Parser String := do
  let found ← maybe do
    let numbers ← inParentheses <| listOf false [] do
      match ← peek? with
      | some (.number text) => advance; return text
      | _ => unexpected "literal int"
    if count < numbers.length then unexpected ")"
    return " (" ++ commaSeparated numbers ++ ")"
  return found.getD ""

/-- The unit of an interval: one part of a date, or a range of two. -/
def intervalUnit : Parser String := do
  let leading ← datePart
  if leading = "SECOND" then return " " ++ leading ++ (← precision 2)
  let size ← precision 1
  if ← acceptWord "TO" then
    let last ← datePart
    let lastSize ← if last = "SECOND" then precision 1 else pure ""
    return " " ++ leading ++ size ++ " TO " ++ last ++ lastSize
  return " " ++ leading ++ size

/-- `INTERVAL e unit`, of an expression that `amount` reads. -/
def intervalForm (amount : Parser Expr) : Parser Expr := do
  let e ← amount
  if ← atOneOf intervalUnits then
    return .form [.text "INTERVAL ", .expr e, .text (← intervalUnit)]
  if Lexicon.needsIntervalUnit (← read) then
    unexpected "a unit after the literal value of an interval"
  return .form [.text "INTERVAL ", .expr e]

/-- `[e, e]` after its bracket, with the word in front of it or none. -/
def arrayForm (g : Grammar) (opening : String) : Parser Expr := do
  if ← accept "]" then return .form [.text (opening ++ "[]")]
  let items ← commaList (g.expr 0)
  expect "]"
  return .form (.text (opening ++ "[") :: exprList items ++ [.text "]"])

/-- `STRUCT(e AS name, e)`, with the types of its fields or without. -/
def structForm (g : Grammar) : Parser Expr := do
  let types ← if ← atSymbol "<" then typeFields g else pure ""
  inParentheses do
    let fields ← commaList do
      let e ← g.expr 0
      if types.isEmpty then
        if ← acceptWord "AS" then return [.expr e, .text (" AS " ++ (← identifier).text)]
      return [Piece.expr e]
    return .form (.text ("STRUCT" ++ types ++ "(") :: separated ", " fields ++ [.text ")"])

/-- `NOT e`, or `NOT EXISTS (query)`. -/
def notForm (g : Grammar) : Parser Expr := do
  if ← acceptWord "EXISTS" then existsForm g "NOT "
  else return .form [.text "NOT ", .expr (← g.expr 15)]

/-- A word for the current time, which is a call without arguments or with some. -/
def timeForm (g : Grammar) (name : Ident) : Parser Expr := do
  if ← accept "(" then
    let (opening, args, closing) ← arguments g
    return .call [name] [.text opening] args closing [] []
  else return .call [name] [] [] [] [] []

/-- `ARRAY(query)` after its word. -/
def arrayQueryForm (g : Grammar) (name : Ident) : Parser Expr := do
  inParentheses do
    return .call [name] [.text "(", .query (← g.query)] [] [.text ")"] [] []

/-- The parser of the form that a word starts, if it starts one here. -/
def formOf? (g : Grammar) (name : Ident) : Parser (Option (Parser Expr)) := do
  match Text.upperAscii name.value with
  | "TRUE" => return some (return .form [.text "true"])
  | "FALSE" => return some (return .form [.text "false"])
  | "NULL" => return some (return .form [.text "NULL"])
  | "CURRENT_TIMESTAMP" | "CURRENT_TIME" | "CURRENT_DATE" | "LOCALTIME" | "LOCALTIMESTAMP" =>
    return some (timeForm g name)
  | "CURRENT_CATALOG" | "CURRENT_USER" | "SESSION_USER" | "USER" =>
    return if (← read) = .generic then some (return .call [name] [] [] [] [] []) else none
  | "CASE" => return some (caseForm g)
  | "CAST" => return some (castForm g "CAST")
  | "TRY_CAST" => return some (castForm g "TRY_CAST")
  | "SAFE_CAST" => return some (castForm g "SAFE_CAST")
  | "EXISTS" => return some (existsForm g "")
  | "EXTRACT" => return some (extractForm g)
  | "CEIL" => return some (roundingForm g "CEIL")
  | "FLOOR" => return some (roundingForm g "FLOOR")
  | "POSITION" =>
    unless ← atSymbol "(" do return none
    return some do
      match ← maybe (positionForm g) with
      | some e => return e
      | none => call g [name]
  | "SUBSTR" => return some (substringForm g "SUBSTR")
  | "SUBSTRING" => return some (substringForm g "SUBSTRING")
  | "OVERLAY" => return some (overlayForm g)
  | "TRIM" => return some (trimForm g)
  | "INTERVAL" =>
    let whole := Lexicon.needsIntervalUnit (← read)
    return some (intervalForm (if whole then g.expr 0 else return (← g.operand).root))
  | "ARRAY" =>
    if ← atSymbol "[" then return some do advance; arrayForm g "ARRAY"
    if ← atSymbol "(" then return some (arrayQueryForm g name)
    return none
  | "NOT" => return some (notForm g)
  | "STRUCT" => return if Lexicon.hasStructs (← read) then some (structForm g) else none
  | _ => return none

end QueryLineage.Sql.Parser
