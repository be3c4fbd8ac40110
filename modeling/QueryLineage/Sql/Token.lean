import QueryLineage.Sql.Lexicon
import QueryLineage.Sql.Printer
import QueryLineage.Text.Basic

/-!
# Tokens

A text is cut into words, numbers, strings and symbols; blanks and comments vanish. Each token knows
where it starts and whether it touches the one before.
-/

namespace QueryLineage.Sql

inductive Token
  | word (name : Ident)
  | number (text : String)
  /-- A string: the letter before its marks, the marks, and what stands between them. -/
  | string (letter marks value : String)
  | symbol (text : String)
deriving DecidableEq

structure LocatedToken where
  token : Token
  /-- How many characters stand before it. -/
  offset : Nat
  /-- Whether a blank or a comment stands directly before it. -/
  spaced : Bool
deriving DecidableEq

/-- Why a text cannot be cut into tokens. -/
inductive ScanError
  | unterminatedString
  | unterminatedName (mark : Char)
  | unterminatedComment
  | strayUnderscore
deriving DecidableEq

def ScanError.message : ScanError → String
  | .unterminatedString => "Unterminated string literal"
  | .unterminatedName mark =>
    "Expected close delimiter '" ++ String.singleton mark ++ "' before EOF."
  | .unterminatedComment => "Unexpected EOF while in a multi-line comment"
  | .strayUnderscore => "Unexpected character '_'"

namespace Token

/-- The token as it is shown in messages. -/
def text : Token → String
  | .word name =>
    match name.quote with
    | some mark => String.ofList (mark :: name.value.toList ++ [mark])
    | none => name.value
  | .number text => text
  | .string letter marks value => letter ++ marks ++ value ++ marks
  | .symbol text => text

/-- The word in capitals, if it is bare. -/
def keyword? : Token → Option String
  | .word ⟨value, none⟩ => some (Text.upperAscii value)
  | _ => none

/-! ## Strings -/

/-- The character that a backslash and a character stand for. -/
def unescape : Char → Char
  | '0' => '\x00'
  | 'a' => '\x07'
  | 'b' => '\x08'
  | 'f' => '\x0c'
  | 'n' => '\n'
  | 'r' => '\r'
  | 't' => '\t'
  | 'Z' => '\x1a'
  | c => c

/-- Puts a character in front of what was read. -/
def prepend (c : Char) (r : Option (List Char × List Char)) : Option (List Char × List Char) :=
  r.map fun (value, rest) => (c :: value, rest)

/-- What stands before the closing mark, and what after it. A doubled mark stands for one. -/
def upToMark (escapes : Bool) (mark : Char) : List Char → Option (List Char × List Char)
  | [] => none
  | [c] => if c = mark then some ([], []) else none
  | c :: d :: cs =>
    if c = mark then
      if d = mark then prepend c (upToMark escapes mark cs) else some ([], d :: cs)
    else if c = '\\' ∧ escapes then prepend (unescape d) (upToMark escapes mark cs)
    else prepend c (upToMark escapes mark (d :: cs))

/-- What stands before three closing marks, and what after them. -/
def upToThreeMarks (escapes : Bool) (mark : Char) : List Char → Option (List Char × List Char)
  | c :: d :: e :: cs =>
    if c = mark ∧ d = mark ∧ e = mark then some ([], cs)
    else if c = '\\' ∧ escapes then prepend (unescape d) (upToThreeMarks escapes mark (e :: cs))
    else prepend c (upToThreeMarks escapes mark (d :: e :: cs))
  | _ => none

/-- A string after its opening mark. -/
def scanString (triple escapes : Bool) (letter : String) (mark : Char) (cs : List Char) :
    Except ScanError (Token × List Char) :=
  let one (r : Option (List Char × List Char)) (marks : String) :=
    match r with
    | some (value, rest) => .ok (.string letter marks (String.ofList value), rest)
    | none => .error .unterminatedString
  let single := String.singleton mark
  match triple, cs with
  | true, c :: d :: rest =>
    if c = mark then
      if d = mark then one (upToThreeMarks escapes mark rest) (single ++ single ++ single)
      else .ok (.string letter single "", d :: rest)
    else one (upToMark escapes mark cs) single
  | _, _ => one (upToMark escapes mark cs) single

/-! ## Numbers -/

/-- An exponent, if there is one, and what follows. -/
def exponent (cs : List Char) : List Char × List Char :=
  let digitsAfter (opening rest : List Char) : List Char × List Char :=
    match rest.takeWhile Char.isDigit with
    | [] => ([], cs)
    | digits => (opening ++ digits, rest.dropWhile Char.isDigit)
  match cs with
  | e :: rest =>
    if e = 'e' ∨ e = 'E' then
      match rest with
      | sign :: rest' =>
        if sign = '+' ∨ sign = '-' then digitsAfter [e, sign] rest' else digitsAfter [e] rest
      | [] => ([], cs)
    else ([], cs)
  | [] => ([], cs)

/-- The point of a number and the digits after it. -/
def fraction : List Char → List Char × List Char
  | '.' :: rest => ('.' :: rest.takeWhile Char.isDigit, rest.dropWhile Char.isDigit)
  | cs => ([], cs)

def isHexDigit (c : Char) : Bool :=
  c.isDigit || ('a' ≤ c && c ≤ 'f') || ('A' ≤ c && c ≤ 'F')

/-- A number, the bytes of hexadecimal digits, or a point that stands alone. -/
def scanNumber (cs : List Char) : Token × List Char :=
  let whole := cs.takeWhile Char.isDigit
  match whole, cs.dropWhile Char.isDigit with
  | ['0'], 'x' :: rest =>
    (.string "X" "'" (String.ofList (rest.takeWhile isHexDigit)), rest.dropWhile isHexDigit)
  | _, rest =>
  let (part, rest) := fraction rest
  if whole ++ part = ['.'] then (.symbol ".", rest)
  else
    let (power, rest) := exponent rest
    let (long, rest) := match rest with
      | 'L' :: rest' => (['L'], rest')
      | _ => ([], rest)
    (.number (String.ofList (whole ++ part ++ power ++ long)), rest)

/-! ## Symbols -/

/-- The symbols of more than one character, a longer one before those it starts with. -/
def longSymbols : List String :=
  ["->>", "<=>", "->", "=>", "==", "!=", "<=", "<>", "<<", ">=", ">>", "||", "::", ":=", "&&"]

/-- A symbol that a text starts with. The two spellings of inequality are one symbol. -/
def scanSymbol (c : Char) (cs : List Char) : Token × List Char :=
  match longSymbols.find? fun s => s.toList.isPrefixOf (c :: cs) with
  | some s => (.symbol (if s = "!=" then "<>" else s), (c :: cs).drop s.toList.length)
  | none => (.symbol (String.singleton c), cs)

/-! ## Comments -/

/-- What follows a comment, `depth` comments deep. -/
def afterComment (nests : Bool) (depth : Nat) : List Char → Option (List Char)
  | '*' :: '/' :: cs =>
    match depth with
    | d + 1 => afterComment nests d cs
    | 0 => some cs
  | '/' :: '*' :: cs =>
    if nests then afterComment nests (depth + 1) cs else afterComment nests depth ('*' :: cs)
  | _ :: cs => afterComment nests depth cs
  | [] => none

/-! ## Cutting up a text -/

/-- What a text starts with: something to skip, or a token. -/
inductive Piece
  | skipped (rest : List Char)
  | token (t : Token) (rest : List Char)

def Piece.ofToken (r : Token × List Char) : Piece := .token r.1 r.2

def scanName (d : Dialect) (c : Char) (cs : List Char) : Piece :=
  .token (.word ⟨String.ofList (c :: cs.takeWhile (Lexicon.continuesName d)), none⟩)
    (cs.dropWhile (Lexicon.continuesName d))

/-- The first piece of a text; `afterWord` tells whether a word stands before it. -/
def scanPiece (d : Dialect) (afterWord : Bool) (c : Char) (cs : List Char) :
    Except ScanError Piece :=
  if Text.isBlank c then .ok (.skipped cs)
  else if Lexicon.startsLineComment d (c :: cs) then .ok (.skipped (cs.dropWhile (· ≠ '\n')))
  else match c, cs with
  | '/', '*' :: rest =>
    match afterComment (Lexicon.nestsComments d) 0 rest with
    | some rest => .ok (.skipped rest)
    | none => .error .unterminatedComment
  | _, mark :: rest =>
    if c.toUpper ∈ Lexicon.stringLetters d ∧
        (mark = '\'' ∨ (mark = '\x22' ∧ (c.toUpper = 'B' ∨ c.toUpper = 'R'))) then
      (scanString (Lexicon.hasTripleMarks d) (Lexicon.hasEscapes d && c.toUpper != 'R')
        (String.singleton c.toUpper) mark rest).map Piece.ofToken
    else if c = '.' ∧ mark = '_' then
      if afterWord then .ok (.token (.symbol ".") cs) else .error .strayUnderscore
    else scanPlain c cs
  | _, [] => scanPlain c cs
where
  /-- A piece that its first character tells. -/
  scanPlain (c : Char) (cs : List Char) : Except ScanError Piece :=
    if Lexicon.startsName d c then .ok (scanName d c cs)
    else if Lexicon.quotesNames d c then
      match upToMark false c cs with
      | some (value, rest) => .ok (.token (.word ⟨String.ofList value, some c⟩) rest)
      | none => .error (.unterminatedName c)
    else if Lexicon.quotesStrings d c then
      (scanString (Lexicon.hasTripleMarks d) (Lexicon.hasEscapes d) "" c cs).map Piece.ofToken
    else if c.isDigit || c == '.' then .ok (Piece.ofToken (scanNumber (c :: cs)))
    else if c = '?' ∨ c = '$' then
      .ok (.token (.symbol (String.ofList (c :: cs.takeWhile Char.isAlphanum)))
        (cs.dropWhile Char.isAlphanum))
    else .ok (Piece.ofToken (scanSymbol c cs))

/-- The tokens of a text of which `total` characters were there at first, in at most `fuel`
pieces. -/
def scanFrom (d : Dialect) (total : Nat) (spaced afterWord : Bool) :
    (fuel : Nat) → List Char → Except (Nat × ScanError) (List LocatedToken)
  | 0, _ => .ok []
  | _ + 1, [] => .ok []
  | fuel + 1, c :: cs =>
    match scanPiece d afterWord c cs with
    | .error e => .error (total - (cs.length + 1), e)
    | .ok (.skipped rest) => scanFrom d total true false fuel rest
    | .ok (.token t rest) => do
      let isWord := match t with
        | .word _ => true
        | _ => false
      let later ← scanFrom d total false isWord fuel rest
      return ⟨t, total - (cs.length + 1), spaced⟩ :: later

/-- The tokens of a text, or where and why it has none. -/
def scan (d : Dialect) (s : String) : Except (Nat × ScanError) (List LocatedToken) :=
  let cs := s.toList
  scanFrom d cs.length true false cs.length cs

end Token

end QueryLineage.Sql
