import QueryLineage.CommandLine
import QueryLineage.Timestamp
import Std.Time.DateTime.Timestamp

/-!
# The program

Gives the command line its files, its standard input and the time, and writes what a run comes to.
-/

namespace QueryLineage

def textOfBytes (bytes : ByteArray) : FileText :=
  match String.fromUTF8? bytes with
  | some text => .ok text
  | none => .error .notText

/-- Why a file could not be read. -/
def fileErrorOf : IO.Error → FileError
  | .inappropriateType .. => .directory
  | _ => .missing

def textOfFile (path : String) : IO FileText := do
  try return textOfBytes (← IO.FS.readBinFile path)
  catch e => return .error (fileErrorOf e)

def readStandardInput : IO FileText := do
  return textOfBytes (← (← IO.getStdin).readBinToEnd)

def presentTime : IO String := do
  return Timestamp.text (← Std.Time.Timestamp.now).toSecondsSinceUnixEpoch.val

end QueryLineage

open QueryLineage in
def main (args : List String) : IO UInt32 := do
  let host : CommandLine.Host IO := {
    fileAt := textOfFile
    standardInput := readStandardInput
    now := presentTime
    configPath := ← IO.getEnv "STRATA_CONFIG" }
  let result ← CommandLine.run host args
  for notice in result.notices do
    IO.eprintln (" WARN " ++ notice.text)
  match result.output with
  | .ok text => IO.print text
  | .error failure => IO.eprintln failure.message
  return result.exitCode.toUInt32
