import QueryLineage.Files
import QueryLineage.Metadata.Catalog
import QueryLineage.Yaml.Document

/-!
# Catalog files

A catalog is read from a YAML text, and only a valid one is taken.
-/

namespace QueryLineage

inductive CatalogError
  | missing (path : String)
  | unreadable (path : String) (reason : FileError)
  /-- The text is no YAML, or has not the shape of a catalog. -/
  | malformed
  | invalid (entry : Catalog.InvalidEntry)
deriving DecidableEq

def CatalogError.message : CatalogError → String
  | .missing path => "[M001] Catalog file not found: " ++ path
  | .unreadable path reason => s!"[M002] Failed to read catalog '{path}': {reason.message}"
  | .malformed => "[M003] Catalog parse error"
  | .invalid entry => entry.message

namespace Catalog

def ofText (text : String) : Except CatalogError Catalog := do
  let some c := Yaml.parse? text >>= ofYaml | throw .malformed
  c.validate.mapError .invalid
  return c

def ofFile (path : String) : FileText → Except CatalogError Catalog
  | .ok text => ofText text
  | .error .missing => .error (.missing path)
  | .error reason => .error (.unreadable path reason)

end Catalog

end QueryLineage
