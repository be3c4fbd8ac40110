/-!
# JSON values

The value type that results are written in and requests are read from. Numbers are whole; an object
keeps its members in the order they were given.
-/

namespace QueryLineage

inductive Json
  | null
  | bool (b : Bool)
  | int (n : Int)
  | str (s : String)
  | arr (items : List Json)
  | obj (members : List (String × Json))
deriving Inhabited

namespace Json

def nat (n : Nat) : Json := .int n

def strings (l : List String) : Json := .arr (l.map .str)

/-- `null` for nothing. -/
def ofOption {α : Type} (f : α → Json) : Option α → Json
  | some a => f a
  | none => .null

/-- A text, or `null`. -/
def text? : Option String → Json := ofOption .str

/-- A member that is left out when there is nothing to write. -/
def member? {α : Type} (name : String) (f : α → Json) : Option α → List (String × Json)
  | some a => [(name, f a)]
  | none => []

end Json

end QueryLineage
