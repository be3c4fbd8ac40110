import QueryLineage.Sql.Grammar.Form

/-!
# Reading expressions

An operand is read first, then operators while they bind tighter than what stands before the
operand. Operators of one strength belong to the left.
-/

namespace QueryLineage.Sql.Parser

/-! ## Strengths -/

def comparisonStrength : Nat := 20

def patternStrength : Nat := 19

/-- How tight a symbol binds as an operator; nothing for one that is none. -/
def symbolStrength? (s : String) : Option Nat :=
  if ["=", "<", "<=", "<>", ">", ">=", "==", "<=>", ":="].contains s then
    some comparisonStrength
  else if ["->", "->>"].contains s then some 16
  else if ["|", "||"].contains s then some 21
  else if ["^", "<<", ">>"].contains s then some 22
  else if s = "&" then some 23
  else if ["+", "-"].contains s then some 30
  else if ["*", "/", "%"].contains s then some 40
  else if s = "::" then some 50
  else none

def patternWords : List String := ["LIKE", "ILIKE", "SIMILAR", "RLIKE", "REGEXP"]

/-- How tight a word binds as an operator, given the two words after it. -/
def wordStrength? (w : String) (next afterNext : Option String) : Option Nat :=
  if w = "OR" then some 5
  else if w = "AND" then some 10
  else if w = "XOR" then some 24
  else if w = "DIV" then some 40
  else if w = "IS" then some 17
  else if patternWords.contains w then some patternStrength
  else if ["IN", "BETWEEN", "OVERLAPS"].contains w then some comparisonStrength
  else if w = "AT" then if next = some "TIME" ∧ afterNext = some "ZONE" then some 41 else none
  else if w = "NOT" then
    match next with
    | some n =>
      if ["IN", "BETWEEN"].contains n then some comparisonStrength
      else if patternWords.contains n then some patternStrength
      else if n = "NULL" then some 17
      else none
    | none => none
  else none

/-- How tight what comes next binds; zero for what is no operator. -/
def nextStrength : Parser Nat := do
  match ← peek?, ← wordAt? 0 with
  | _, some w => return (wordStrength? w (← wordAt? 1) (← wordAt? 2)).getD 0
  | some (.symbol s), none => return (symbolStrength? s).getD 0
  | _, _ => return 0

/-! ## Operands -/

/-- What stands between parentheses after the opening one. -/
def afterParenthesis (g : Grammar) : Parser Expr := do
  if ← atOneOf ["SELECT", "WITH"] then
    let q ← g.query
    expect ")"
    return .subquery q
  let items ← commaList (g.expr 0)
  expect ")"
  match items with
  | [e] => return .nested e
  | es => return .form (parenthesized (exprList es))

/-- A signed operand. Two minus signs in a row stand apart. -/
def signed (g : Grammar) (sign : String) : Parser Expr := do
  let e ← g.expr 40
  let apart := sign = "-" && e.text.startsWith "-"
  return .form [.text (if apart then "- " else sign), .expr e]

/-- What a word stands for when it starts no form: the name of a function that is called, or a
column. -/
def named (g : Grammar) (name : Ident) : Parser Expr := do
  if ← atSymbol "(" then call g [name] else return .column name []

/-- What a word starts: a form, if there is one; else, or where the form is not well formed and the
word may be a name, what it names. -/
def wordOperand (g : Grammar) (name : Ident) : Parser Expr := do
  let form ← if name.quote.isNone then formOf? g name else pure none
  match form with
  | none => named g name
  | some p =>
    if (Lexicon.unnameableWords (← read)).contains (Text.upperAscii name.value) then p
    else p.orInstead (named g name)

/-- A constant with its type in front of it. -/
def typedConstant (g : Grammar) : Parser Expr := do
  let type ← knownType g
  let brackets ← typeBrackets
  return .form [.text (type ++ brackets ++ " " ++ (← value))]

def isConstantWord (name : Ident) : Bool :=
  name.quote.isNone && ["TRUE", "FALSE", "NULL"].contains (Text.upperAscii name.value)

def constant : Parser Operand := do return { root := .form [.text (← value)], isValue := true }

/-- An operand without accesses. -/
def primary (g : Grammar) : Parser Operand := do
  match ← peek? with
  | some (.word name) =>
    if name.quote.isNone then
      if let some e ← maybe (typedConstant g) then return { root := e }
    advance
    return { root := ← wordOperand g name, isValue := isConstantWord name }
  | some (.number _) | some (.string ..) => constant
  | some (.symbol "[") => advance; return { root := ← arrayForm g "" }
  | some (.symbol "(") => advance; return { root := ← afterParenthesis g }
  | some (.symbol "-") => advance; return { root := ← signed g "-" }
  | some (.symbol "+") => advance; return { root := ← signed g "+" }
  | some (.symbol s) =>
    if s = ":" || s = "@" || s.startsWith "?" || s.startsWith "$" then constant
    else unexpected "an expression"
  | none => unexpected "an expression"

/-! ## Accesses -/

/-- A place in an array, or a range of places, after the opening bracket. -/
def subscript (g : Grammar) : Parser (List Piece) := do
  let bound : Parser (List Piece) := do
    if (← atSymbol ":") || (← atSymbol "]") then return [] else return [.expr (← g.expr 0)]
  let first ← bound
  let later ← many do
    if ← accept ":" then return some (.text ":" :: (← bound)) else return none
  expect "]"
  if first.isEmpty && later.isEmpty then unexpected "an expression"
  return .text "[" :: first ++ later.flatten ++ [.text "]"]

/-- Whether an operand may follow a dot as it is. -/
def Operand.isField (o : Operand) : Bool :=
  !o.accesses.isEmpty || o.isValue ||
    match o.root with
    | .column .. | .call .. => true
    | _ => false

/-- What follows a dot: an operand with its own accesses, else any name. -/
def fields (g : Grammar) : Parser (List Access) := do
  if let some (.string "" "'" text) ← peek? then
    advance
    return [.field (.column ⟨text, some '\''⟩ [])]
  let found ← maybe do
    let o ← g.operand
    if Operand.isField o then return o else unexpected "an identifier or value"
  match found with
  | some o => return .field o.root :: o.accesses
  | none => return [.field (.column (← identifier) [])]

/-- The accesses that follow an operand. A dot before a star is none. -/
def accesses (g : Grammar) : Parser (List Access) := do
  let found ← many do
    if (← atSymbol ".") && (← peekAt? 1) != some (.symbol "*") then
      advance
      return some (← fields g)
    if ← accept "[" then return some [Access.subscript (← subscript g)]
    return none
  return found.flatten

def operand (g : Grammar) : Parser Operand := do
  let o ← primary g
  return { o with accesses := ← accesses g }

/-- The name that an access adds to a path. -/
def Access.name? : Access → Option Ident
  | .field (.column i []) => some i
  | _ => none

def accessPieces : List Access → List Piece
  | [] => []
  | .field e :: rest => .text "." :: .expr e :: accessPieces rest
  | .subscript pieces :: rest => pieces ++ accessPieces rest

/-- The expression that an operand is: names one after another are one path, and a path may be that
of a function. -/
def Operand.toExpr (o : Operand) : Expr :=
  match o.root, o.accesses with
  | e, [] => e
  | .column first [], accesses =>
    match accesses.mapM Access.name? with
    | some rest => .column first rest
    | none =>
      match accesses.dropLast.mapM Access.name?, accesses.getLast? with
      | some middle, some (.field (.call name opening args closing groupOrder rest)) =>
        .call (first :: middle ++ name) opening args closing groupOrder rest
      | _, _ => .form (.expr o.root :: accessPieces accesses)
  | e, accesses => .form (.expr e :: accessPieces accesses)

/-! ## Operators -/

def operatorOf (s : String) : Operator :=
  if s = "=" ∨ s = "==" then .equals else .other s

/-- The operators that can compare with any or all of several values. -/
def isComparison (s : String) : Bool := symbolStrength? s = some comparisonStrength

/-- The right side of a comparison with any or all of several values, after that word. -/
def quantified (g : Grammar) (left : Expr) (op : Operator) (word : String) (strength : Nat) :
    Parser Expr := do
  inParentheses do
    let opening := " " ++ op.text ++ " " ++ word
    if ← atOneOf ["SELECT", "WITH"] then
      return .form [.expr left, .text (opening ++ "("), .query (← g.query), .text ")"]
    else
      return .form [.expr left, .text (opening ++ "("), .expr (← g.expr strength), .text ")"]

def binary (g : Grammar) (left : Expr) (op : Operator) (strength : Nat) : Parser Expr := do
  return .binary left op (← g.expr strength)

def isForm (g : Grammar) (left : Expr) : Parser Expr := do
  let negated ← acceptWord "NOT"
  let opening := if negated then " IS NOT " else " IS "
  match ← acceptOneOf? ["NULL", "TRUE", "FALSE", "UNKNOWN"] with
  | some w => return .form [.expr left, .text (opening ++ w)]
  | none =>
    if ← acceptWords ["DISTINCT", "FROM"] then
      return .form [.expr left, .text (opening ++ "DISTINCT FROM "), .expr (← g.expr 0)]
    else unexpected "[NOT] NULL | TRUE | FALSE | DISTINCT | [form] NORMALIZED FROM after IS"

def inForm (g : Grammar) (left : Expr) (opening : String) : Parser Expr := do
  if ← acceptWord "UNNEST" then
    return .form ([.expr left, .text (opening ++ "IN UNNEST(")]
      ++ [.expr (← inParentheses (g.expr 0)), .text ")"])
  inParentheses do
    match ← maybe g.query with
    | some q => return .form [.expr left, .text (opening ++ "IN ("), .query q, .text ")"]
    | none =>
      let items ← commaList (g.expr 0)
      return .form (.expr left :: .text (opening ++ "IN (") :: exprList items ++ [.text ")"])

def betweenForm (g : Grammar) (left : Expr) (opening : String) : Parser Expr := do
  let low ← g.expr comparisonStrength
  expectWord "AND"
  let high ← g.expr comparisonStrength
  return .form [.expr left, .text (opening ++ "BETWEEN "), .expr low, .text " AND ", .expr high]

/-- The character that escapes others in a pattern, if it is given. -/
def escapeClause : Parser String := do
  if ← acceptWord "ESCAPE" then return " ESCAPE " ++ (← value) else return ""

/-- What follows a word that matches patterns. -/
def patternForm (g : Grammar) (left : Expr) (opening word : String) : Parser Expr := do
  let words ← match word with
    | "SIMILAR" => expectWord "TO"; pure "SIMILAR TO "
    | "LIKE" | "ILIKE" => pure (if ← acceptWord "ANY" then word ++ " ANY " else word ++ " ")
    | _ => pure (word ++ " ")
  let pattern ← g.expr patternStrength
  let escape ← if word = "RLIKE" ∨ word = "REGEXP" then pure "" else escapeClause
  return .form [.expr left, .text (opening ++ words), .expr pattern, .text escape]

/-- What follows a left side and `NOT`, or nothing, and then a word. -/
def membershipForm (g : Grammar) (left : Expr) : Parser Expr := do
  let negated ← acceptWord "NOT"
  let opening := if negated then " NOT " else " "
  if ← acceptWord "NULL" then return .form [.expr left, .text " IS NOT NULL"]
  if ← acceptWord "IN" then return ← inForm g left opening
  if ← acceptWord "BETWEEN" then return ← betweenForm g left opening
  match ← acceptOneOf? patternWords with
  | some w => patternForm g left opening w
  | none => unexpected "IN or BETWEEN after NOT"

def symbolOperation (g : Grammar) (left : Expr) (s : String) (strength : Nat) : Parser Expr := do
  advance
  if s = "::" then
    return .form [.expr left, .text ("::" ++ (← g.dataType))]
  if isComparison s then
    if let some w ← acceptOneOf? ["ANY", "ALL", "SOME"] then
      return ← quantified g left (operatorOf s) w strength
  binary g left (operatorOf s) strength

def wordOperation (g : Grammar) (left : Expr) (w : String) (strength : Nat) : Parser Expr := do
  match w with
  | "AND" => advance; binary g left .conjunction strength
  | "OR" | "XOR" | "DIV" | "OVERLAPS" => advance; binary g left (.other w) strength
  | "IS" => advance; isForm g left
  | "AT" =>
    modify (·.drop 3)
    return .form [.expr left, .text " AT TIME ZONE ", .expr (← g.expr strength)]
  | _ => membershipForm g left

/-- The operator that comes next, with what belongs to it, applied to a left side. -/
def operation (g : Grammar) (left : Expr) (strength : Nat) : Parser Expr := do
  match ← peek?, ← wordAt? 0 with
  | _, some w => wordOperation g left w strength
  | some (.symbol s), none => symbolOperation g left s strength
  | _, _ => unexpected "an operator"

/-- An expression whose operators bind tighter than a strength. -/
def expression (g : Grammar) (strength : Nat) : Parser Expr := do
  let first := Operand.toExpr (← operand g)
  steps (fun left => do
    let next ← nextStrength
    if next ≤ strength then return none else return some (← operation g left next)) first

end QueryLineage.Sql.Parser
