import QueryLineage.Sql.Grammar.Basic

/-!
# Reading constants
-/

namespace QueryLineage.Sql.Parser

/-- The text of a string. Quotation marks in a plain one are doubled. -/
def stringText (letter marks value : String) : String :=
  if letter.isEmpty && marks = "'" then quoted '\'' value
  else if letter.isEmpty && marks = "\"" then quoted '\x22' value
  else letter ++ marks ++ value ++ marks

/-- The name of a parameter after its sign. -/
def parameterName (sign : String) : Parser String := do
  match ← peekAt? 1 with
  | some (.word name) => advance; advance; return sign ++ name.value
  | some (.number text) => advance; advance; return sign ++ text
  | _ => advance; unexpected "placeholder"

/-- A number, a string, a truth value, `NULL` or a parameter. -/
def value : Parser String := do
  match ← peek? with
  | some (.number text) => advance; return text
  | some (.string letter marks text) => advance; return stringText letter marks text
  | some (.word ⟨text, some '\x22'⟩) => advance; return quoted '\x22' text
  | some (.word ⟨text, none⟩) =>
    match Text.upperAscii text with
    | "TRUE" => advance; return "true"
    | "FALSE" => advance; return "false"
    | "NULL" => advance; return "NULL"
    | _ => unexpected "a concrete value"
  | some (.symbol ":") => parameterName ":"
  | some (.symbol "@") => parameterName "@"
  | some (.symbol s) =>
    if s.startsWith "?" || s.startsWith "$" then advance; return s else unexpected "a value"
  | _ => unexpected "a value"

/-! ## Parts of dates -/

/-- The words for parts of dates that the language knows. -/
def knownDateParts : List String :=
  ["YEAR", "YEARS", "MONTH", "MONTHS", "WEEK", "WEEKS", "DAY", "DAYS", "DAYOFWEEK", "DAYOFYEAR",
    "DATE", "DATETIME", "HOUR", "HOURS", "MINUTE", "MINUTES", "SECOND", "SECONDS", "CENTURY",
    "DECADE", "DOW", "DOY", "EPOCH", "ISODOW", "ISOYEAR", "ISOWEEK", "JULIAN", "MICROSECOND",
    "MICROSECONDS", "MILLENIUM", "MILLENNIUM", "MILLISECOND", "MILLISECONDS", "NANOSECOND",
    "NANOSECONDS", "QUARTER", "TIME", "TIMEZONE", "TIMEZONE_ABBR", "TIMEZONE_HOUR",
    "TIMEZONE_MINUTE", "TIMEZONE_REGION"]

def intervalUnits : List String :=
  knownDateParts.filter fun w =>
    w ∉ ["DATE", "DATETIME", "DAYOFWEEK", "DAYOFYEAR", "ISOWEEK", "TIME", "TIMEZONE_ABBR",
      "TIMEZONE_REGION"]

def datePart : Parser String := do
  match ← peek?, ← wordAt? 0 with
  | _, some "WEEK" =>
    advance
    if ← accept "(" then
      match ← peek? with
      | some (.word day) =>
        advance
        expect ")"
        return "WEEK(" ++ day.text ++ ")"
      | _ => unexpected "identifier"
    else return "WEEK"
  | some (.word name), some w =>
    if knownDateParts.contains w then advance; return w
    else if Lexicon.hasOpenDateParts (← read) then advance; return name.text
    else unexpected "date/time field"
  | some (.string "" "'" text), _ =>
    if Lexicon.hasOpenDateParts (← read) then advance; return quoted '\'' text
    else unexpected "date/time field"
  | _, _ => unexpected "date/time field"

end QueryLineage.Sql.Parser
