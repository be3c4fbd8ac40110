/-!
# Characters, blanks and counts

Classes of characters, the two ways in which a text is compared up to something (the case of ASCII
letters, the blanks at its ends), and the counts that are written in it.
-/

namespace QueryLineage.Text

/-! ## Letter case of ASCII letters

Keywords, catalog names and aliases are compared ignoring the case of `A` to `Z` alone. -/

/-- The text with `A` to `Z` made small. -/
def lowerAscii (s : String) : String := String.ofList (s.toList.map Char.toLower)

def upperAscii (s : String) : String := String.ofList (s.toList.map Char.toUpper)

def eqIgnoringCase (a b : String) : Bool := lowerAscii a == lowerAscii b

/-! ## Blanks -/

/-- A character of the Unicode property White_Space. -/
def isBlank (c : Char) : Bool :=
  let n := c.toNat
  (9 ≤ n && n ≤ 13) || n == 0x20 || n == 0x85 || n == 0xA0 || n == 0x1680
    || (0x2000 ≤ n && n ≤ 0x200A) || n == 0x2028 || n == 0x2029 || n == 0x202F || n == 0x205F
    || n == 0x3000

/-- The characters without those at either end that satisfy `p`. -/
def stripBoth (p : Char → Bool) (cs : List Char) : List Char :=
  ((cs.dropWhile p).reverse.dropWhile p).reverse

def trim (s : String) : String := String.ofList (stripBoth isBlank s.toList)

/-- A text of blanks alone, the empty text included. -/
def isBlankText (s : String) : Bool := s.toList.all isBlank

/-! ## Ranges of code points

A Unicode property is a list of ranges, both ends included. All tables are those of Unicode 16. -/

def inRanges (ranges : List (Nat × Nat)) (n : Nat) : Bool :=
  ranges.any fun r => r.1 ≤ n && n ≤ r.2

/-! ## Counts

A count is a whole number of 64 bits in decimal digits, after at most one plus sign. -/

def maxCount : Nat := 0xFFFFFFFFFFFFFFFF

/-- The value of digits read after those worth `acc`; nothing if one is no decimal digit. -/
def digitsValue (acc : Nat) : List Char → Option Nat
  | [] => some acc
  | c :: cs => if c.isDigit then digitsValue (acc * 10 + (c.toNat - '0'.toNat)) cs else none

/-- The value of a nonempty run of digits. -/
def decimal? : List Char → Option Nat
  | [] => none
  | cs => digitsValue 0 cs

def count? (s : String) : Option Nat := do
  let n ← match s.toList with
    | '+' :: cs => decimal? cs
    | cs => decimal? cs
  if n ≤ maxCount then some n else none

end QueryLineage.Text
