import QueryLineage.Analysis
import QueryLineage.CommandLine.Arguments
import QueryLineage.Config.File
import QueryLineage.Json.Printer
import QueryLineage.Metadata.CatalogFile
import QueryLineage.Metadata.Provider
import QueryLineage.Report.CteListing
import QueryLineage.Report.Summary

/-!
# The command line

A run reads a configuration, then the catalog it names, then the text of a statement, and writes
what is asked for. It sees the world through a `Host` alone.
-/

namespace QueryLineage.CommandLine

/-- What a run needs from the world. -/
structure Host (m : Type → Type) where
  fileAt : String → m FileText
  standardInput : m FileText
  /-- The text of the present time. -/
  now : m String
  /-- The configuration that the environment names. -/
  configPath : Option String := none

inductive Failure
  /-- The words are no command line. -/
  | misuse
  | config (context : String) (error : ConfigError)
  | catalog (path : String) (error : CatalogError)
  | sqlFile (path : String) (reason : FileError)
  | standardInput (reason : FileError)
  /-- The input cannot be analysed. -/
  | lineage (error : LineageError)
deriving DecidableEq

/-- What a failure says, the outermost circumstance first. -/
def Failure.message : Failure → String
  | .misuse => "usage: strata [OPTIONS] <lineage|sources|ctes> [FILE | --sql SQL] [-o FORMAT]"
  | .config context error => "Error: " ++ context ++ ": " ++ error.message
  | .catalog path error => s!"Error: Failed to load catalog {path}: {error.message}"
  | .sqlFile path reason => s!"Error: Failed to read SQL file {path}: {reason.message}"
  | .standardInput reason => "Error: Failed to read SQL from stdin: " ++ reason.message
  | .lineage error => error.payload.compact

/-- Whether the words or the statement are at fault, rather than a file. -/
def Failure.isInput : Failure → Bool
  | .misuse | .lineage _ => true
  | _ => false

/-- What a run comes to: what it writes and what is to be said beside it, or why it failed. -/
structure Result where
  output : Except Failure String
  notices : List Notice := []

/-- How a run ends: 0 for success, 2 for bad input, 1 for any other failure. -/
def Result.exitCode (r : Result) : Nat :=
  match r.output with
  | .ok _ => 0
  | .error failure => if failure.isInput then 2 else 1

def versionText : String := "strata 0.1.0\n"

/-! ## What a run starts from -/

/-- The configuration of a run with the overrides of its command line, which are not validated. -/
def Config.overridden (c : Config) (o : GlobalOptions) : Config :=
  { c with
    defaultProject := o.project.or c.defaultProject
    defaultDataset := o.dataset.or c.defaultDataset }

variable {m : Type → Type} [Monad m]

/-- The configuration of a run, and the directory that its paths start from. -/
def loadConfig (h : Host m) (o : GlobalOptions) : m (Except Failure (Config × String)) := do
  match o.config.or h.configPath with
  | some path =>
    let result := Config.ofFile path (← h.fileAt path)
    return (result.mapError (Failure.config ("Failed to load config " ++ path))).map
      (·, (Path.parent? path).getD ".")
  | none =>
    match Config.fileAmong? (← Config.filesIn h.fileAt ".") with
    | some (path, text) =>
      let result := Config.ofFile path text
      return (result.mapError (Failure.config "Failed to load project config")).map (·, ".")
    | none => return .ok ({}, ".")

/-- The catalog that a configuration names, if it names one. -/
def loadCatalog (h : Host m) (c : Config) (dir : String) :
    m (Except Failure (Option Catalog)) := do
  match c.catalogPath? dir with
  | some path =>
    let result := Catalog.ofFile path (← h.fileAt path)
    return (result.mapError (Failure.catalog path)).map some
  | none => return .ok none

def readSql (h : Host m) : SqlInput → m (Except Failure String)
  | .inline sql => return .ok sql
  | .file path => return (← h.fileAt path).mapError (Failure.sqlFile path)
  | .standardInput => return (← h.standardInput).mapError Failure.standardInput

/-! ## Running -/

/-- Asks a catalog through a cache. -/
def cachedCatalog (c : Catalog) : Provider (MetadataCache × Unit) :=
  MetadataCache.inFrontOf (Provider.ofAnswers c.answer)

def jsonLine (v : Json) : String := v.render ++ "\n"

def writeReport (r : LineageReport) : ReportFormat → String
  | .json => jsonLine r.toJson
  | .dot => r.graph.toDot
  | .table => r.summary

def writeSources (r : LineageReport) : ListFormat → String
  | .text => Text.lines r.sourceNames
  | .json => jsonLine (Json.strings r.sourceNames)

def writeCtes (ctes : ResolvedCtes) : ListFormat → String
  | .text => CteRow.listing ctes.rows
  | .json => jsonLine (.arr (ctes.rows.map CteRow.toJson))

/-- What a command writes about a request, with the notices. -/
def Command.perform (o : LineageOptions) (catalog : Option Catalog) (now : String)
    (r : LineageRequest) (c : Command) : Except LineageError (String × List Notice) :=
  let report : Except LineageError (LineageReport × List Notice) :=
    ((r.report o (catalog.map cachedCatalog) now).run ([], ())).1
  match c with
  | .lineage format => report.map fun (found, notices) => (writeReport found format, notices)
  | .sources format => report.map fun (found, notices) => (writeSources found format, notices)
  | .ctes format => (r.ctes o).map fun (found, notices) => (writeCtes found format, notices)

/-- What an invocation starts from: the configuration, the catalog and the text, in this order. -/
def Invocation.load (h : Host m) (i : Invocation) :
    ExceptT Failure m (Config × Option Catalog × String) := do
  let (config, dir) ← ExceptT.mk (loadConfig h i.options)
  let config := Config.overridden config i.options
  let catalog ← ExceptT.mk (loadCatalog h config dir)
  let sql ← ExceptT.mk (readSql h i.input)
  return (config, catalog, sql)

def Invocation.run (h : Host m) (i : Invocation) : m Result := do
  match ← (i.load h).run with
  | .error failure => return { output := .error failure }
  | .ok (config, catalog, sql) =>
    let request := { sql, dialect := i.options.dialect.getD config.dialect.name }
    match i.command.perform (.ofConfig config) catalog (← h.now) request with
    | .ok (output, notices) => return { output := .ok output, notices }
    | .error e => return { output := .error (.lineage e) }

/-- Runs the command line that words stand for. -/
def run (h : Host m) (words : List String) : m Result := do
  match Invocation.ofWords words with
  | .ok i => i.run h
  | .error .version => return { output := .ok versionText }
  | .error .misuse => return { output := .error .misuse }

end QueryLineage.CommandLine
