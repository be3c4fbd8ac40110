import QueryLineage.Sql.Grammar.Basic

/-!
# Reading names
-/

namespace QueryLineage.Sql.Parser

/-- A name: a bare or quoted word, or a string in its place. -/
def identifier : Parser Ident := do
  match ← peek? with
  | some (.word name) => advance; return name
  | some (.string "" "'" value) => advance; return ⟨value, some '\''⟩
  | some (.string "" "\"" value) => advance; return ⟨value, some '\x22'⟩
  | _ => unexpected "identifier"

def dottedName : Parser ObjectName := do
  let first ← identifier
  let later ← many do
    if ← accept "." then return some (← identifier) else return none
  return first :: later

/-- Whether the next token touches the one before it. -/
def atTouching : Parser Bool := return (← get).head?.any fun t => !t.spaced

/-- The text after a dash in a bare name. -/
def afterDash : Parser String := do
  match ← peek?, ← atTouching with
  | some (.word ⟨value, none⟩), true => advance; return value
  | some (.number text), true => advance; return text
  | _, _ => unexpected "continuation of hyphenated identifier"

/-- A name that may hold dashes if it is bare. A number in it that ends in a point, which belongs to
the dotted name around it, leaves out the point; the result tells whether there was one. -/
def dashedIdentifier : Parser (Ident × Bool) := do
  let name ← identifier
  if name.quote.isSome then return (name, false)
  let later ← many do
    if (← atSymbol "-") && (← atTouching) then
      advance
      return some ("-" ++ (← afterDash))
    else return none
  let text := String.join later
  if text.endsWith "." then
    return (⟨name.value ++ String.ofList text.toList.dropLast, none⟩, true)
  return (⟨name.value ++ text, none⟩, false)

/-- The parts of a dotted name that may hold dashes. -/
def dashedParts : Parser ObjectName := do
  let (first, pointed) ← dashedIdentifier
  let (parts, _) ← steps (fun (parts, pointed) => do
    if pointed || (← accept ".") then
      let (part, pointed) ← dashedIdentifier
      return some (parts ++ [part], pointed)
    else return none) ([first], pointed)
  return parts

/-- A name whose parts are split at the dots between their quotation marks. -/
def splitAtDots (name : ObjectName) : ObjectName :=
  name.flatMap fun i => (Text.split '.' i.value).map fun value => { i with value }

/-- The name of an object. Where names are loose its parts are split at dots, and that of a table
may hold dashes. -/
def objectName (dashes : Bool) : Parser ObjectName := do
  if Lexicon.hasLooseTableNames (← read) then
    return splitAtDots (← if dashes then dashedParts else dottedName)
  else dottedName

/-! ## Aliases -/

/-- An alias: any word after `AS`, else a word that is none of `stops`. A string stands for a name
in either place. The result tells whether `AS` is there. -/
def aliasBut (stops : List String) : Parser (Option (Bool × Ident)) := do
  let marked ← acceptWord "AS"
  let here (name : Ident) : Parser (Option (Bool × Ident)) := do
    advance
    return some (marked, name)
  match ← peek? with
  | some (.word name) =>
    if marked || name.quote.isSome || !stops.contains (Text.upperAscii name.value) then here name
    else return none
  | some (.string "" "'" value) => here ⟨value, some '\''⟩
  | some (.string "" "\"" value) => here ⟨value, some '\x22'⟩
  | _ => if marked then unexpected "an identifier after AS" else return none

def columnAlias : Parser (Option Ident) := do
  return (← aliasBut (Lexicon.columnAliasStops (← read))).map Prod.snd

/-- Names of columns between parentheses, each with a type or without. -/
def columnNames (g : Grammar) : Parser String := do
  unless ← atSymbol "(" do return ""
  let names ← inParentheses <| commaList do
    let name ← identifier
    match ← maybe g.dataType with
    | some type => return name.text ++ " " ++ type
    | none => return name.text
  return " (" ++ commaSeparated names ++ ")"

def tableAlias (g : Grammar) : Parser (Option TableAlias) := do
  match ← aliasBut Lexicon.tableAliasStops with
  | some (marked, name) => return some { marked, name, columns := ← columnNames g }
  | none => return none

end QueryLineage.Sql.Parser
