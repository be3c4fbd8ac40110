import QueryLineage.Sql.Token

/-!
# Reading tokens

A `Parser` takes tokens off the front of a list. Forms nest through a `Grammar`, the record of the
parsers for what lies inside another form, one level down; the levels are finite, so that reading
ends however deep a text nests.
-/

namespace QueryLineage.Sql

/-- Why tokens are no statement. -/
inductive SyntaxDefect
  /-- Something else should stand at a token, or at the end. -/
  | unexpected (wanted : String) (found : Option LocatedToken)
  /-- Forms nest deeper than is allowed. -/
  | tooDeep

/-- Reads something off the front of the tokens. -/
abbrev Parser := ReaderT Dialect (StateT (List LocatedToken) (Except SyntaxDefect))

/-- What follows a dot or stands in brackets after an operand. -/
inductive Access
  | field (e : Expr)
  | subscript (pieces : List Piece)

/-- An expression without operators, with the accesses that follow it. -/
structure Operand where
  root : Expr
  /-- Whether the root is a constant. -/
  isValue : Bool := false
  accesses : List Access := []

/-- The parsers for what lies one level further in. -/
structure Grammar where
  /-- An expression whose operators bind tighter than a strength. -/
  expr : Nat → Parser Expr
  operand : Parser Operand
  query : Parser Query
  statement : Parser Statement
  fromItem : Parser FromItem
  dataType : Parser String

namespace Parser

variable {α : Type}

/-! ## Single tokens -/

/-- Fails for what comes next. -/
def unexpected (wanted : String) : Parser α := do
  throw (.unexpected wanted (← get).head?)

/-- The token at a place further on, without reading it. -/
def peekAt? (place : Nat) : Parser (Option Token) := return (← get)[place]?.map (·.token)

/-- The next token, without reading it. -/
def peek? : Parser (Option Token) := peekAt? 0

/-- The word at a place further on in capitals, if it is bare. -/
def wordAt? (place : Nat) : Parser (Option String) := return (← peekAt? place).bind Token.keyword?

def advance : Parser Unit := modify List.tail

def atSymbol (s : String) : Parser Bool := return (← peek?) = some (.symbol s)

def atWord (w : String) : Parser Bool := return (← wordAt? 0) = some w

def atOneOf (ws : List String) : Parser Bool := return ((← wordAt? 0).any ws.contains)

/-- Reads a symbol if it comes next. -/
def accept (s : String) : Parser Bool := do
  if ← atSymbol s then advance; return true else return false

/-- Reads a word if it comes next. -/
def acceptWord (w : String) : Parser Bool := do
  if ← atWord w then advance; return true else return false

def atWords (ws : List String) : Parser Bool := do
  let next := (← get).take ws.length
  return next.map (·.token.keyword?) = ws.map some

/-- Reads some words if they come next, all of them. -/
def acceptWords (ws : List String) : Parser Bool := do
  if ← atWords ws then modify (·.drop ws.length); return true else return false

/-- Reads one of some words if one comes next. -/
def acceptOneOf? (ws : List String) : Parser (Option String) := do
  match ← wordAt? 0 with
  | some w => if ws.contains w then advance; return some w else return none
  | none => return none

def expect (s : String) : Parser Unit := do
  unless ← accept s do unexpected s

def expectWord (w : String) : Parser Unit := do
  unless ← acceptWord w do unexpected w

def expectWords (ws : List String) : Parser Unit := ws.forM expectWord

/-- Reads one of some words, which has to come next. -/
def expectOneOf (ws : List String) : Parser String := do
  match ← acceptOneOf? ws with
  | some w => return w
  | none => unexpected ("one of " ++ Text.join " or " ws)

/-! ## Trying and repeating -/

/-- What a parser reads; nothing, and nothing read, if it fails. Nesting too deep is no failure to
recover from. -/
def maybe (p : Parser α) : Parser (Option α) := fun d tokens =>
  match p d tokens with
  | .ok (a, rest) => .ok (some a, rest)
  | .error .tooDeep => .error .tooDeep
  | .error _ => .ok (none, tokens)

/-- What `p` reads, else what `q` reads instead; if both fail, the failure of `p`. -/
def orInstead (p q : Parser α) : Parser α := fun d tokens =>
  match p d tokens with
  | .ok r => .ok r
  | .error .tooDeep => .error .tooDeep
  | .error e =>
    match q d tokens with
    | .ok r => .ok r
    | .error .tooDeep => .error .tooDeep
    | .error _ => .error e

/-- Takes steps from `a` until one gives nothing, at most `fuel` of them. -/
def stepsFrom (step : α → Parser (Option α)) : (fuel : Nat) → α → Parser α
  | 0, a => return a
  | fuel + 1, a => do
    match ← step a with
    | some b => stepsFrom step fuel b
    | none => return a

/-- Takes steps from `a` until one gives nothing. Each step that gives something reads a token. -/
def steps (step : α → Parser (Option α)) (a : α) : Parser α := do
  stepsFrom step (← get).length a

/-- What a parser reads as often as it gives something. -/
def many (p : Parser (Option α)) : Parser (List α) :=
  steps (fun l => do return (← p).map fun a => l ++ [a]) []

/-- Whether a list ends after a comma here. -/
def atListEnd (stops : List String) : Parser Bool := do
  match ← peek? with
  | none => return true
  | some (.symbol s) => return [")", ";", "]", "\x7d"].contains s
  | some t => return t.keyword?.any stops.contains

/-- A list with commas between its items. `trailing` allows one more comma at the end. -/
def listOf (trailing : Bool) (stops : List String) (item : Parser α) : Parser (List α) := do
  let first ← item
  let later ← many do
    unless ← accept "," do return none
    if trailing then
      if ← atListEnd stops then return none
    return some (← item)
  return first :: later

def commaList (item : Parser α) : Parser (List α) := do
  let d ← read
  listOf (Lexicon.allowsTrailingCommas d) (Lexicon.columnAliasStops d) item

def inParentheses (p : Parser α) : Parser α := do
  expect "("
  let a ← p
  expect ")"
  return a

end Parser

/-! ## Pieces -/

/-- Pieces with a text between them. -/
def separated (separator : String) : List (List Piece) → List Piece
  | [] => []
  | [ps] => ps
  | ps :: rest => ps ++ .text separator :: separated separator rest

def exprList (es : List Expr) : List Piece := separated ", " (es.map fun e => [.expr e])

def parenthesized (ps : List Piece) : List Piece := .text "(" :: ps ++ [.text ")"]

/-- A text in front of a piece, if the piece is there. -/
def optionalPieces (opening : String) : Option (List Piece) → List Piece
  | some ps => .text opening :: ps
  | none => []

end QueryLineage.Sql
