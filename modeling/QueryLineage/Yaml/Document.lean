import QueryLineage.Text.Split
import QueryLineage.Yaml

/-!
# YAML documents

Reads the text of one document: block mappings and sequences by indentation, flow collections, plain
and quoted scalars, comments, and an optional start line. Anchors, tags, block scalars and explicit
keys are refused, as is a second document.

The reader moves a cursor over lines. Its functions recurse on a bound that is the length of the
text, since each of them moves the cursor on.
-/

namespace QueryLineage.Yaml

/-- A place in a text: the column, what is left of its line, and the lines below. -/
structure Cursor where
  column : Nat
  here : List Char
  below : List (List Char)

namespace Cursor

/-- The place `n` characters on in the same line. -/
def forward (c : Cursor) (n : Nat) : Cursor :=
  { c with column := c.column + n, here := c.here.drop n }

/-- The place where `rest` is left of the line. -/
def leaving (c : Cursor) (rest : List Char) : Cursor := c.forward (c.here.length - rest.length)

def nextLine? (c : Cursor) : Option Cursor :=
  match c.below with
  | line :: below => some ⟨0, line, below⟩
  | [] => none

def size (c : Cursor) : Nat :=
  c.below.foldl (fun n line => n + line.length + 1) c.here.length

end Cursor

def isSpace (c : Char) : Bool := c == ' ' || c == '\t'

/-- A bracket or comma of a flow collection. -/
def isFlowMark (c : Char) : Bool := ",[]\x7b\x7d".toList.contains c

/-- A character no plain scalar starts with, whatever follows it. -/
def isReserved (c : Char) : Bool := ",[]\x7b\x7d#&*!|>'\"%@`".toList.contains c

/-- Whether a mark of one character stands alone: a blank or the end of the line follows. -/
def standsAlone : List Char → Bool
  | [] => true
  | c :: _ => isSpace c

/-- Moves over blanks, comments and line ends. A comment starts a line or follows a blank. In a
block no tab may stand in front of a line's content. -/
def skip (flow : Bool) : Nat → Bool → Cursor → Option Cursor
  | 0, _, _ => none
  | fuel + 1, spaced, c =>
    match c.here with
    | [] =>
      match c.nextLine? with
      | none => some c
      | some next =>
        let indent := next.here.takeWhile isSpace
        let content := next.here.dropWhile isSpace
        if !flow && indent.contains '\t' && !content.isEmpty && content.head? != some '#' then none
        else skip flow fuel true next
    | d :: _ =>
      if isSpace d then skip flow fuel true (c.forward 1)
      else if d == '#' && spaced then skip flow fuel true ⟨c.column, [], c.below⟩
      else some c

/-- Moves to the next content after something other than a blank. -/
def toContent (flow : Bool) (c : Cursor) : Option Cursor :=
  skip flow (2 * c.size + 2) false c

/-- Whether only blanks and a comment are left of a line. -/
def isLineEnd (spaced : Bool) : List Char → Bool
  | [] => true
  | d :: rest => if isSpace d then isLineEnd true rest else d == '#' && spaced

/-! ## Scalars -/

/-- Joins the parts of a scalar over several lines: one line end is a space, more are one fewer. -/
def foldLines (before : List Char) (blankLines : Nat) (after : List Char) : List Char :=
  before ++ (if blankLines = 0 then [' '] else List.replicate blankLines '\n') ++ after

def trimEnd (cs : List Char) : List Char := (cs.reverse.dropWhile isSpace).reverse

/-- Whether a colon in front of these characters ends a key. -/
def endsKey (flow : Bool) : List Char → Bool
  | [] => true
  | d :: _ => isSpace d || (flow && (isFlowMark d || d == '?'))

/-- Whether a plain scalar may end in front of these characters. A colon has to stand alone. -/
def endsPlain : List Char → Bool
  | ':' :: rest => standsAlone rest
  | _ => true

/-- Splits a line where a plain scalar ends. -/
def plainRun (flow : Bool) : List Char → List Char × List Char
  | [] => ([], [])
  | d :: rest =>
    if d == ':' && endsKey flow rest then ([], d :: rest)
    else if flow && isFlowMark d then ([], d :: rest)
    else if isSpace d && rest.head? == some '#' then ([], d :: rest)
    else
      let (run, left) := plainRun flow rest
      (d :: run, left)

def startsPlain (flow : Bool) : List Char → Bool
  | [] => false
  | d :: rest =>
    if d == '-' || d == '?' then
      !standsAlone rest && !(flow && (rest.head?.map isFlowMark).getD false)
    else if d == ':' then !standsAlone rest && !flow
    else !isReserved d

/-- The line a plain scalar goes on in: how many blank lines come first, and its place, if it is
indented enough and starts no comment. -/
def continuation? (flow : Bool) (minColumn : Nat) : Nat → Nat → Cursor → Option (Nat × Cursor)
  | 0, _, _ => none
  | fuel + 1, blanks, c => do
    let next ← c.nextLine?
    let indent := (next.here.takeWhile isSpace).length
    let next := next.forward indent
    match next.here with
    | [] => continuation? flow minColumn fuel (blanks + 1) next
    | '#' :: _ => none
    | _ => if flow || minColumn ≤ indent then some (blanks, next) else none

/-- Reads on a plain scalar whose first lines are `text`. Nothing if a later line turns out to be a
key. -/
def plainLines (flow : Bool) (minColumn : Nat) : Nat → List Char → Cursor →
    Option (List Char × Cursor)
  | 0, _, _ => none
  | fuel + 1, text, c =>
    if !c.here.isEmpty then some (text, c)
    else match continuation? flow minColumn (c.below.length + 1) 0 c with
      | none => some (text, c)
      | some (blanks, next) =>
        let (run, left) := plainRun flow next.here
        if run.isEmpty then some (text, c)
        else if !endsPlain left || (left.head? == some ':' && !flow) then none
        else
          let text := foldLines text blanks (trimEnd run)
          plainLines flow minColumn fuel text (next.leaving left)

/-- Reads a plain scalar in full. -/
def plainScalar (flow : Bool) (minColumn : Nat) (c : Cursor) : Option (Yaml × Cursor) := do
  if !startsPlain flow c.here then none
  let (run, left) := plainRun flow c.here
  if !endsPlain left then none
  let after := c.leaving left
  let blankTail := left.all isSpace
  let after := if blankTail then after.forward left.length else after
  let (text, after) ← plainLines flow minColumn (c.below.length + 1) (trimEnd run) after
  return (.scalar true (String.ofList text), after)

def hexChar? (digits : List Char) : Option Char := do
  let value ← digits.foldlM (fun acc d => do
    let v ← if d.isDigit then some (d.toNat - '0'.toNat)
      else if 'a' ≤ d ∧ d ≤ 'f' then some (d.toNat - 'a'.toNat + 10)
      else if 'A' ≤ d ∧ d ≤ 'F' then some (d.toNat - 'A'.toNat + 10)
      else none
    return acc * 16 + v) 0
  if h : value.isValidChar then some (Char.ofNatAux value h) else none

/-- The character after a backslash, and how many hexadecimal digits follow it. -/
def escape? : Char → Option (Char ⊕ Nat)
  | '0' => some (.inl '\x00')
  | 'a' => some (.inl '\x07')
  | 'b' => some (.inl '\x08')
  | 't' => some (.inl '\t')
  | '\t' => some (.inl '\t')
  | 'n' => some (.inl '\n')
  | 'v' => some (.inl '\x0b')
  | 'f' => some (.inl '\x0c')
  | 'r' => some (.inl '\r')
  | 'e' => some (.inl '\x1b')
  | ' ' => some (.inl ' ')
  | '"' => some (.inl '"')
  | '/' => some (.inl '/')
  | '\\' => some (.inl '\\')
  | 'N' => some (.inl '\u0085')
  | '_' => some (.inl '\u00a0')
  | 'L' => some (.inl '\u2028')
  | 'P' => some (.inl '\u2029')
  | 'x' => some (.inr 2)
  | 'u' => some (.inr 4)
  | 'U' => some (.inr 8)
  | _ => none

/-- How the part of a quoted scalar in one line ends. -/
inductive QuotedEnd
  | closed (rest : List Char)
  | lineEnd
  | escapedLineEnd

/-- Reads a quoted scalar to its closing mark or the end of the line. Blanks in front of a line end
count only if they are escaped, so the number of characters to keep goes along. -/
def quotedRun (mark : Char) : Nat → List Char → List Char → Option (List Char × QuotedEnd)
  | 0, _, _ => none
  | fuel + 1, text, cs =>
    match cs with
    | [] => some (text, .lineEnd)
    | '\\' :: rest =>
      if mark == '\'' then quotedRun mark fuel (text ++ ['\\']) rest
      else match rest with
        | [] => some (text, .escapedLineEnd)
        | d :: rest =>
          match escape? d with
          | some (.inl e) => quotedRun mark fuel (text ++ [e]) rest
          | some (.inr n) => do
            if rest.length < n then none
            quotedRun mark fuel (text ++ [← hexChar? (rest.take n)]) (rest.drop n)
          | none => none
    | '\'' :: '\'' :: rest =>
      if mark == '\'' then quotedRun mark fuel (text ++ ['\'']) rest
      else quotedRun mark fuel (text ++ ['\'']) ('\'' :: rest)
    | d :: rest =>
      if d == mark then some (text, .closed rest)
      else if isSpace d && rest.all isSpace then some (text, .lineEnd)
      else quotedRun mark fuel (text ++ [d]) rest

/-- Reads the lines of a quoted scalar; `blanks` empty lines came before this one, if it is not the
first. -/
def quotedLines (mark : Char) : Nat → List Char → Option Nat → Cursor → Option (List Char × Cursor)
  | 0, _, _, _ => none
  | fuel + 1, text, blanks, c => do
    let c := if blanks.isSome then c.forward (c.here.takeWhile isSpace).length else c
    let joined := match blanks with
      | some n => foldLines text n []
      | none => text
    let next := c.nextLine?
    match ← quotedRun mark (c.here.length + 1) [] c.here with
    | (run, .closed rest) => some (joined ++ run, c.leaving rest)
    | (run, .lineEnd) =>
      if run.isEmpty && blanks.isSome then
        quotedLines mark fuel text (blanks.map (· + 1)) (← next)
      else quotedLines mark fuel (joined ++ run) (some 0) (← next)
    | (run, .escapedLineEnd) =>
      let next ← next
      quotedLines mark fuel (joined ++ run) none (next.forward (next.here.takeWhile isSpace).length)

/-- Reads a quoted scalar from its opening mark. -/
def quotedScalar (mark : Char) (c : Cursor) : Option (Yaml × Cursor) := do
  let (text, after) ← quotedLines mark (c.below.length + 1) [] none (c.forward 1)
  return (.scalar false (String.ofList text), after)

/-! ## Flow collections -/

mutual

/-- Reads a node inside a flow collection, or a flow collection itself. -/
def flowNode : Nat → Cursor → Option (Yaml × Cursor)
  | 0, _ => none
  | fuel + 1, c => do
    match c.here with
    | '\x7b' :: _ => flowMapping fuel [] (← toContent true (c.forward 1))
    | '[' :: _ => flowSequence fuel [] (← toContent true (c.forward 1))
    | '"' :: _ => quotedScalar '"' c
    | '\'' :: _ => quotedScalar '\'' c
    | _ => plainScalar true 0 c

/-- Reads the rest of a flow mapping after the entries so far, the latest first. -/
def flowMapping : Nat → List (Yaml × Yaml) → Cursor → Option (Yaml × Cursor)
  | 0, _, _ => none
  | fuel + 1, entries, c => do
    match c.here with
    | '\x7d' :: _ => return (.mapping entries.reverse, c.forward 1)
    | _ =>
      let (key, value, c) ← flowEntry fuel c
      match c.here with
      | ',' :: _ => flowMapping fuel ((key, value) :: entries) (← toContent true (c.forward 1))
      | '\x7d' :: _ => return (.mapping ((key, value) :: entries).reverse, c.forward 1)
      | _ => none

/-- Reads a key and its value, which may be missing. -/
def flowEntry : Nat → Cursor → Option (Yaml × Yaml × Cursor)
  | 0, _ => none
  | fuel + 1, c => do
    let (key, c) ← match c.here with
      | ':' :: _ => some (Yaml.missing, c)
      | _ => flowNode fuel c
    let c ← toContent true c
    match c.here with
    | ':' :: _ =>
      let c ← toContent true (c.forward 1)
      match c.here with
      | ',' :: _ | '\x7d' :: _ | ']' :: _ => return (key, .missing, c)
      | _ =>
        let (value, c) ← flowNode fuel c
        return (key, value, ← toContent true c)
    | _ => return (key, .missing, c)

/-- Reads the rest of a flow sequence after the items so far, the latest first. An item with a colon
is a mapping of one entry. -/
def flowSequence : Nat → List Yaml → Cursor → Option (Yaml × Cursor)
  | 0, _, _ => none
  | fuel + 1, items, c => do
    match c.here with
    | ']' :: _ => return (.sequence items.reverse, c.forward 1)
    | _ =>
      let (item, c) ← flowNode fuel c
      let c ← toContent true c
      let (item, c) ← match c.here with
        | ':' :: _ => do
          let c ← toContent true (c.forward 1)
          match c.here with
          | ',' :: _ | ']' :: _ => pure (Yaml.mapping [(item, .missing)], c)
          | _ => do
            let (value, c) ← flowNode fuel c
            pure (Yaml.mapping [(item, value)], ← toContent true c)
        | _ => pure (item, c)
      match c.here with
      | ',' :: _ => flowSequence fuel (item :: items) (← toContent true (c.forward 1))
      | ']' :: _ => return (.sequence (item :: items).reverse, c.forward 1)
      | _ => none

end

/-! ## Block collections -/

/-- Whether a dash here starts an item of a block sequence. -/
def startsItem : List Char → Bool
  | '-' :: rest => standsAlone rest
  | _ => false

/-- Reads a scalar or flow collection that starts here and is followed by nothing else in its line.
A plain scalar goes on in lines indented to `minColumn`. -/
def inlineNode (minColumn : Nat) (c : Cursor) : Option (Yaml × Cursor) := do
  let (node, after) ← match c.here with
    | '\x7b' :: _ | '[' :: _ => flowNode (2 * c.size + 2) c
    | '"' :: _ => quotedScalar '"' c
    | '\'' :: _ => quotedScalar '\'' c
    | _ => plainScalar false minColumn c
  if isLineEnd false after.here then some (node, after) else none

/-- The key that starts here and the place behind its colon, if this line has one. -/
def blockKey? (c : Cursor) : Option (Yaml × Cursor) := do
  let (key, after) ← match c.here with
    | '"' :: _ => quotedScalar '"' c
    | '\'' :: _ => quotedScalar '\'' c
    | _ =>
      if startsPlain false c.here then
        let (run, left) := plainRun false c.here
        some (Yaml.scalar true (String.ofList (trimEnd run)), c.leaving left)
      else none
  if after.below.length != c.below.length then none
  let after := after.forward (after.here.takeWhile isSpace).length
  match after.here with
  | ':' :: rest => if endsKey false rest then some (key, after.forward 1) else none
  | _ => none

mutual

/-- Reads the node that starts at this content; its lines are indented to `minColumn`. -/
def blockNode : Nat → Nat → Cursor → Option (Yaml × Cursor)
  | 0, _, _ => none
  | fuel + 1, minColumn, c =>
    if startsItem c.here then blockSequence fuel c.column [] c
    else match blockKey? c with
      | some _ => blockMapping fuel c.column [] c
      | none => inlineNode minColumn c

/-- Reads the items of a block sequence from this column on. -/
def blockSequence : Nat → Nat → List Yaml → Cursor → Option (Yaml × Cursor)
  | 0, _, _, _ => none
  | fuel + 1, column, items, c => do
    let c := c.forward 1
    let (item, c) ←
      if isLineEnd true c.here then do
        let next ← toContent false c
        if column < next.column && !next.here.isEmpty then blockNode fuel (column + 1) next
        else some (Yaml.missing, c)
      else blockNode fuel (column + 1) (← toContent false c)
    let next ← toContent false c
    if next.here.isEmpty || next.column < column then
      return (.sequence (item :: items).reverse, c)
    else if next.column == column && startsItem next.here then
      blockSequence fuel column (item :: items) next
    else if next.column == column then return (.sequence (item :: items).reverse, c)
    else none

/-- Reads the entries of a block mapping from this column on. -/
def blockMapping : Nat → Nat → List (Yaml × Yaml) → Cursor → Option (Yaml × Cursor)
  | 0, _, _, _ => none
  | fuel + 1, column, entries, c => do
    let (key, c) ← blockKey? c
    let (value, c) ←
      if isLineEnd true c.here then do
        let next ← toContent false c
        if next.here.isEmpty then some (Yaml.missing, c)
        else if column < next.column then blockNode fuel (column + 1) next
        else if next.column == column && startsItem next.here then blockNode fuel column next
        else some (Yaml.missing, c)
      else inlineNode (column + 1) (← toContent false c)
    let next ← toContent false c
    if next.here.isEmpty || next.column < column then
      return (.mapping ((key, value) :: entries).reverse, c)
    else if next.column == column then blockMapping fuel column ((key, value) :: entries) next
    else none

end

/-! ## Documents -/

def isLineBreak (c : Char) : Bool :=
  ['\n', '\r', '\x85', '\u2028', '\u2029'].contains c

/-- A character that may stand in a document. -/
def isPrintable (c : Char) : Bool :=
  c == '\t' || isLineBreak c || (' ' ≤ c && c ≤ '~') || ('\xa0' ≤ c && c ≤ '\ufffd')
    || '\ufffd'.toNat + 2 < c.toNat

/-- The lines of a text; a carriage return and a line feed end one line together. -/
def linesOf : List Char → List (List Char)
  | [] => [[]]
  | '\r' :: '\n' :: cs => [] :: linesOf cs
  | c :: cs =>
    if isLineBreak c then [] :: linesOf cs
    else match linesOf cs with
      | line :: rest => (c :: line) :: rest
      | [] => [[c]]

/-- A text with a blank in place of the mark of byte order that it may start with. -/
def blankMark : List Char → List Char
  | '\ufeff' :: cs => ' ' :: cs
  | cs => cs

/-- Whether a line is this marker, alone or with something after a blank. -/
def isMarker (marker line : List Char) : Bool :=
  marker.isPrefixOf line && standsAlone (line.drop marker.length)

/-- Whether a line holds nothing but a comment. -/
def isEmptyLine (line : List Char) : Bool := isLineEnd true line

/-- The lines of a document's body, if nothing but comments follows where it ends. -/
def body? (lines : List (List Char)) : Option (List (List Char)) :=
  let isEnd := fun line => isMarker ['-', '-', '-'] line || isMarker ['.', '.', '.'] line
  match lines.dropWhile (!isEnd ·) with
  | [] => some lines
  | line :: rest =>
    if isMarker ['.', '.', '.'] line && rest.all isEmptyLine then some (lines.takeWhile (!isEnd ·))
    else none

/-- The node of a text that holds one document; an empty text is a missing node. -/
def parse? (text : String) : Option Yaml := do
  unless text.toList.all isPrintable do none
  let lines := (linesOf (blankMark text.toList)).dropWhile isEmptyLine
  let (startLine, lines) := match lines with
    | line :: rest => if isMarker ['-', '-', '-'] line then (line.drop 3, rest) else ([], lines)
    | [] => ([], [])
  let lines ← body? lines
  let isInline := !isEmptyLine startLine
  let start ← toContent false ⟨if isInline then 3 else 0, startLine, lines⟩
  if start.here.isEmpty then return .missing
  let (node, after) ←
    if isInline then inlineNode 0 start else blockNode (2 * start.size + 8) 0 start
  let rest ← toContent false after
  if rest.here.isEmpty then some node else none

end QueryLineage.Yaml
