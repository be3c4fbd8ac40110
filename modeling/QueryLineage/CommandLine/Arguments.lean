import QueryLineage.Text.Split

/-!
# Arguments

The words of a command line are read at two levels: options up to the name of a command, then the
options and operands of the command. Options about the whole run may stand at either level, and the
later level counts. An option is given once at a level: `--name value`, `--name=value`, `-n value`,
`-nvalue` or `-n=value`; flags of one letter can be put together. After `--` every word is an
operand.
-/

namespace QueryLineage.CommandLine

/-- What stops a command line from being run. -/
inductive Interruption
  /-- The words are no command line. -/
  | misuse
  /-- The version is asked for. -/
  | version
deriving DecidableEq

/-- An option that may be given. -/
structure OptionForm where
  long : String
  short : Option Char := none
  takesValue : Bool := true
  /-- Whether it names a file; the name of a file is not empty. -/
  namesFile : Bool := false

def globalForms : List OptionForm :=
  [{ long := "verbose", short := some 'v', takesValue := false },
   { long := "config", short := some 'c', namesFile := true },
   { long := "dialect", short := some 'd' },
   { long := "project" },
   { long := "dataset" }]

/-- The options in front of a command. -/
def frontForms : List OptionForm :=
  { long := "version", short := some 'V', takesValue := false } :: globalForms

def commandForms : List OptionForm :=
  { long := "sql" } :: { long := "output", short := some 'o' } :: globalForms

/-! ## Reading words -/

/-- What has been read at a level. -/
structure Reading where
  options : List (String × String) := []
  operands : List String := []
  /-- The option whose value comes next. -/
  pending : Option OptionForm := none
  /-- Whether every further word is an operand. -/
  escaped : Bool := false

namespace Reading

/-- Takes note of an option with its value; a flag has an empty one. -/
def give (r : Reading) (form : OptionForm) (value : String) : Except Interruption Reading :=
  if form.long = "version" then .error .version
  else if (r.options.lookup form.long).isSome || (form.namesFile && value.isEmpty) then
    .error .misuse
  else .ok { r with options := r.options ++ [(form.long, value)], pending := none }

/-- Reads an option with the value that is attached to it, if one is. -/
def option (r : Reading) (form : OptionForm) (attached : Option String) :
    Except Interruption Reading :=
  match form.takesValue, attached with
  | true, some value => r.give form value
  | true, none => .ok { r with pending := some form }
  | false, some _ => .error .misuse
  | false, none => r.give form ""

/-- Reads `name` or `name=value`, after two dashes. -/
def long (forms : List OptionForm) (r : Reading) (body : String) : Except Interruption Reading :=
  let (name, attached) := match Text.split '=' body with
    | name :: first :: rest => (name, some (Text.join "=" (first :: rest)))
    | _ => (body, none)
  match forms.find? (·.long = name) with
  | some form => r.option form attached
  | none => .error .misuse

/-- Reads letters after one dash: flags, and perhaps an option with its value at the end. -/
def letters (forms : List OptionForm) (r : Reading) : List Char → Except Interruption Reading
  | [] => .ok r
  | c :: cs =>
    match forms.find? (·.short = some c) with
    | none => .error .misuse
    | some form =>
      if form.takesValue then
        r.option form (match cs with
          | [] => none
          | '=' :: value => some (String.ofList value)
          | value => some (String.ofList value))
      else do letters forms (← r.give form "") cs

/-- Whether a word is an option or `--`. A single dash is neither. -/
def isDashed (word : String) : Bool := word.startsWith "-" && word != "-"

def step (forms : List OptionForm) (r : Reading) (word : String) : Except Interruption Reading :=
  if r.escaped then .ok { r with operands := r.operands ++ [word] }
  else match r.pending with
  | some form => if isDashed word then .error .misuse else r.give form word
  | none =>
    match word.toList with
    | ['-', '-'] => .ok { r with escaped := true }
    | '-' :: '-' :: body => r.long forms (String.ofList body)
    | '-' :: c :: cs => r.letters forms (c :: cs)
    | _ => .ok { r with operands := r.operands ++ [word] }

/-- Reads all words of a level. -/
def all (forms : List OptionForm) (words : List String) : Except Interruption Reading := do
  let r ← words.foldlM (step forms) {}
  if r.pending.isSome then throw .misuse
  return r

/-- Reads words up to the first operand, which is the name of a command. -/
def upToCommand (forms : List OptionForm) (r : Reading) :
    List String → Except Interruption (Reading × String × List String)
  | [] => .error .misuse
  | word :: words =>
    if r.escaped then .error .misuse
    else if r.pending.isNone && !isDashed word then .ok (r, word, words)
    else do upToCommand forms (← r.step forms word) words

def value? (r : Reading) (name : String) : Option String := r.options.lookup name

end Reading

/-! ## Invocations -/

structure GlobalOptions where
  verbose : Bool := false
  config : Option String := none
  dialect : Option String := none
  project : Option String := none
  dataset : Option String := none
deriving DecidableEq

/-- Where the text of the statement comes from. -/
inductive SqlInput
  | file (path : String)
  | inline (sql : String)
  | standardInput
deriving DecidableEq

inductive ReportFormat
  | json | dot | table
deriving DecidableEq

inductive ListFormat
  | text | json
deriving DecidableEq

inductive Command
  /-- The whole report. -/
  | lineage (format : ReportFormat)
  /-- The tables that are read. -/
  | sources (format : ListFormat)
  /-- The common table expressions. -/
  | ctes (format : ListFormat)
deriving DecidableEq

/-- A command line that can be run. -/
structure Invocation where
  options : GlobalOptions
  input : SqlInput
  command : Command
deriving DecidableEq

def ReportFormat.ofName? : String → Option ReportFormat
  | "json" => some .json
  | "dot" => some .dot
  | "table" => some .table
  | _ => none

def ListFormat.ofName? : String → Option ListFormat
  | "text" => some .text
  | "json" => some .json
  | _ => none

/-- The command of a name, in the format that is asked for. -/
def Command.ofName? (name : String) (format : Option String) : Option Command :=
  match name with
  | "lineage" => ((format.map ReportFormat.ofName?).getD (some .json)).map .lineage
  | "sources" => ((format.map ListFormat.ofName?).getD (some .text)).map .sources
  | "ctes" => ((format.map ListFormat.ofName?).getD (some .text)).map .ctes
  | _ => none

/-- The options of two levels together. -/
def GlobalOptions.ofLevels (front command : Reading) : GlobalOptions :=
  let value (name : String) := (command.value? name).or (front.value? name)
  { verbose := (value "verbose").isSome
    config := value "config"
    dialect := value "dialect"
    project := value "project"
    dataset := value "dataset" }

/-- Where the text comes from: a file or an option, but not both. -/
def SqlInput.ofReading? (r : Reading) : Option SqlInput :=
  match r.operands, r.value? "sql" with
  | [], some sql => some (.inline sql)
  | [], none => some .standardInput
  | [path], none => if path.isEmpty then none else some (.file path)
  | _, _ => none

/-- The invocation that words stand for. -/
def Invocation.ofWords (words : List String) : Except Interruption Invocation := do
  let (front, name, rest) ← Reading.upToCommand frontForms {} words
  let r ← Reading.all commandForms rest
  let some command := Command.ofName? name (r.value? "output") | throw .misuse
  let some input := SqlInput.ofReading? r | throw .misuse
  return { options := GlobalOptions.ofLevels front r, input, command }

end QueryLineage.CommandLine
