import QueryLineage.Sql.Grammar.Statement

/-!
# Scripts

A script is a text of statements with semicolons between them. It is read as a whole: a defect in
any statement is a defect of the script. Forms nest at most fifty deep.
-/

namespace QueryLineage.Sql

/-- The parsers of forms that nest at most this deep. -/
def Grammar.ofDepth : Nat → Grammar
  | 0 => {
      expr := fun _ => throw .tooDeep
      operand := throw .tooDeep
      query := throw .tooDeep
      statement := throw .tooDeep
      fromItem := throw .tooDeep
      dataType := throw .tooDeep }
  | n + 1 =>
    let g := Grammar.ofDepth n
    { expr := Parser.expression g
      operand := Parser.operand g
      query := Parser.query g
      statement := Parser.statement g
      fromItem := Parser.fromItem g
      dataType := Parser.dataType g }

def maxDepth : Nat := 50

namespace Parser

/-- Passes over semicolons; tells whether there were any. -/
def acceptSemicolons : Parser Bool := do
  let found ← many do
    if ← accept ";" then return some () else return none
  return !found.isEmpty

/-- The statement after a semicolon, if there is one. The word `END` in its place ends a script. -/
def laterStatement? (g : Grammar) : Parser (Option Statement) := do
  let separate ← acceptSemicolons
  if (← peek?).isNone then return none
  else if separate then return some (← g.statement)
  else if ← atWord "END" then return none
  else unexpected "end of statement"

def script (g : Grammar) : Parser (List Statement) := do
  let _ ← acceptSemicolons
  if (← peek?).isNone then return []
  let first ← g.statement
  return first :: (← many (laterStatement? g))

end Parser

/-! ## Places in a text -/

/-- A place in a text; lines and columns count from one. -/
structure Position where
  line : Nat
  column : Nat
deriving DecidableEq

namespace Position

def start : Position := ⟨1, 1⟩

/-- The place after a character. -/
def step (p : Position) (c : Char) : Position :=
  if c = '\n' then ⟨p.line + 1, 1⟩ else ⟨p.line, p.column + 1⟩

/-- The place after the first characters of a text. -/
def ofOffset (text : String) (offset : Nat) : Position :=
  (text.toList.take offset).foldl step start

/-- The place as messages name it. -/
def text (p : Position) : String := s!" at Line: {p.line}, Column: {p.column}"

end Position

/-! ## Errors -/

inductive ScriptError
  /-- The text cannot be cut into tokens from here on. -/
  | unreadable (defect : ScanError) (place : Position)
  /-- Something else should stand where a token stands, or at the end. -/
  | unexpected (wanted : String) (found : Option (Token × Position))
  /-- Forms nest deeper than is allowed. -/
  | tooDeep
deriving DecidableEq

def ScriptError.message : ScriptError → String
  | .unreadable defect place => "sql parser error: " ++ defect.message ++ place.text
  | .unexpected wanted (some (token, place)) =>
    "sql parser error: Expected: " ++ wanted ++ ", found: " ++ token.text ++ place.text
  | .unexpected wanted none => "sql parser error: Expected: " ++ wanted ++ ", found: EOF"
  | .tooDeep => "sql parser error: recursion limit exceeded"

/-- The error a defect is in a text. -/
def SyntaxDefect.inText (text : String) : SyntaxDefect → ScriptError
  | .unexpected wanted found =>
    .unexpected wanted (found.map fun t => (t.token, Position.ofOffset text t.offset))
  | .tooDeep => .tooDeep

/-- The statements of a script. -/
def readScript (d : Dialect) (text : String) : Except ScriptError (List Statement) :=
  match Token.scan d text with
  | .error (offset, defect) => .error (.unreadable defect (Position.ofOffset text offset))
  | .ok tokens =>
    match Parser.script (Grammar.ofDepth maxDepth) d tokens with
    | .error defect => .error (defect.inText text)
    | .ok (statements, _) => .ok statements

end QueryLineage.Sql
