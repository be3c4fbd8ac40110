import QueryLineage.Json
import QueryLineage.Sql.Script
import QueryLineage.Text.Basic

/-!
# Errors of an analysis

Only the input can be at fault: the name of the dialect, a text without statements, or a text that
does not parse.
-/

namespace QueryLineage

inductive LineageError
  /-- The text does not parse. The line and column are those its message names, or zero. -/
  | parse (message : String) (line column : Nat)
  | emptySql
  | unknownDialect (name : String)
deriving DecidableEq

/-- The line and column that a message names: the first of each in it. A token that is quoted in the
message comes before the place of the token. -/
def placeNamedIn (message : String) : Option (Nat × Nat) := do
  let afterLine ← Text.after? "Line: ".toList message.toList
  let lineText := afterLine.takeWhile (· ≠ ',')
  if lineText.length = afterLine.length then none
  let line ← Text.count? (Text.trim (String.ofList lineText))
  let afterColumn ← Text.after? "Column: ".toList message.toList
  let column ← Text.count? (String.ofList (afterColumn.takeWhile Char.isDigit))
  return (line, column)

namespace LineageError

/-- The error that a defect of a script is. -/
def ofScript (e : Sql.ScriptError) : LineageError :=
  let (line, column) := (placeNamedIn e.message).getD (0, 0)
  .parse e.message line column

/-- The text of an error in logs. -/
def text : LineageError → String
  | .parse message line column =>
    s!"[S001] SQL parse error at line {line}, column {column}: " ++ message
  | .emptySql => "[S002] SQL is empty"
  | .unknownDialect name => "[S003] Unknown SQL dialect: " ++ name

/-- The text of an error for callers, who have the class of it apart. -/
def message : LineageError → String
  | .parse message _ _ => message
  | e => e.text

def className : LineageError → String
  | .parse .. => "ParseError"
  | .emptySql | .unknownDialect _ => "ValueError"

/-- The form in which callers get an error. -/
def payload (e : LineageError) : Json :=
  .obj [("type", .str e.className), ("message", .str e.message)]

end LineageError

end QueryLineage
