import QueryLineage.Text.Basic

/-!
# Aggregations

An expression is an aggregation when one call of `AVG`, `SUM`, `COUNT`, `MIN` or `MAX` spans all of
it. Letter case does not matter, and the long s counts as an s.
-/

namespace QueryLineage

inductive AggregateFunction
  | avg | sum | count | min | max
deriving DecidableEq

namespace AggregateFunction

def name : AggregateFunction → String
  | .avg => "AVG"
  | .sum => "SUM"
  | .count => "COUNT"
  | .min => "MIN"
  | .max => "MAX"

def all : List AggregateFunction := [.avg, .sum, .count, .min, .max]

/-- The capital form of a letter of these names. -/
def capital (c : Char) : Char := if c = '\u017f' then 'S' else c.toUpper

/-- The rest of a text that starts with a name, in any case. -/
def afterName? (f : AggregateFunction) (cs : List Char) : Option (List Char) :=
  let n := f.name.toList.length
  if (cs.take n).map capital = f.name.toList then some (cs.drop n) else none

end AggregateFunction

/-! ## Balanced parentheses -/

/-- What is open at a place in a text. -/
structure Nesting where
  depth : Nat := 0
  /-- The mark of the quotation the place lies in. -/
  quoted : Option Char := none
deriving DecidableEq

/-- Reads one character; nothing if it closes a parenthesis that was not opened. What stands in a
quotation does not count. -/
def Nesting.step (n : Nesting) (c : Char) : Option Nesting :=
  match n.quoted with
  | some mark => some (if c = mark then { n with quoted := none } else n)
  | none =>
    if c = '\'' ∨ c = '\x22' ∨ c = '\x60' then some { n with quoted := some c }
    else if c = '(' then some { n with depth := n.depth + 1 }
    else if c = ')' then
      match n.depth with
      | d + 1 => some { n with depth := d }
      | 0 => none
    else some n

/-- Whether every parenthesis is closed, and none before it was opened. -/
def isBalanced (cs : List Char) : Bool := (cs.foldlM Nesting.step {}).any (·.depth = 0)

/-! ## Detection -/

structure Aggregation where
  function : AggregateFunction
  args : String
deriving DecidableEq

namespace Aggregation

def label (a : Aggregation) : String := a.function.name ++ "(" ++ a.args ++ ")"

def nodeId (a : Aggregation) : String := "agg:" ++ a.label

/-- The characters between an opening parenthesis that starts a text and a closing one that ends
it, blanks around them aside. -/
def inParentheses? (cs : List Char) : Option (List Char) :=
  match cs.dropWhile Text.isBlank with
  | '(' :: inner =>
    match inner.reverse.dropWhile Text.isBlank with
    | ')' :: reversed => some reversed.reverse
    | _ => none
  | _ => none

def ofText? (text : String) : Option Aggregation := do
  let start := text.toList.dropWhile Text.isBlank
  let (function, rest) ← AggregateFunction.all.findSome? fun f => (f.afterName? start).map (f, ·)
  let args ← inParentheses? rest
  if isBalanced args then some ⟨function, Text.trim (String.ofList args)⟩ else none

end Aggregation

end QueryLineage
