import QueryLineage.Text.Split

/-!
# Files

What reading a file gives, and the few rules on paths that are needed to find one file from another.
-/

namespace QueryLineage

inductive FileError
  | missing
  | directory
  | notText
deriving DecidableEq

def FileError.message : FileError → String
  | .missing => "No such file or directory (os error 2)"
  | .directory => "Is a directory (os error 21)"
  | .notText => "stream did not contain valid UTF-8"

/-- The text of a file, or why there is none. -/
abbrev FileText := Except FileError String

/-- Whether something is there, readable or not. -/
def FileText.isPresent : FileText → Bool
  | .error .missing => false
  | _ => true

namespace Path

def isAbsolute (path : String) : Bool := path.startsWith "/"

/-- A path below a directory; an absolute path stays as it is. -/
def under (dir path : String) : String :=
  if isAbsolute path || dir.isEmpty then path
  else if dir.endsWith "/" then dir ++ path
  else dir ++ "/" ++ path

/-- Drops, from the reversed path, slashes and single dots between slashes. -/
def dropSlashes : List Char → List Char
  | '/' :: rest => if rest.isEmpty then ['/'] else dropSlashes rest
  | '.' :: '/' :: rest => dropSlashes ('/' :: rest)
  | cs => cs

/-- The directory a path lies in: what is left without its last part. -/
def parent? (path : String) : Option String :=
  match dropSlashes path.toList.reverse with
  | [] | ['/'] => none
  | cs => some (String.ofList (dropSlashes (cs.dropWhile (· != '/'))).reverse)

end Path

end QueryLineage
