import NullGuard.Token.Kind

/-!
# Pieces of text

A text is cut from left to right into pieces: blanks, comments, the stretches that become tokens,
and what cannot be read. Each piece is the longest that its first character opens, and no character
is left out, so the pieces of a text put together are the text.
-/

namespace NullGuard

namespace Text

/-- The characters between tokens. -/
def isBlank (c : Char) : Bool :=
  c = ' ' || c = '\t' || c = '\r' || c = '\n' || c = '\x0c'

/-- The letters of the Latin and of the Russian alphabet. -/
def isLetter (c : Char) : Bool :=
  c.isAlpha || ('а' ≤ c && c ≤ 'я') || ('А' ≤ c && c ≤ 'Я') || c = 'ё' || c = 'Ё'

/-- The characters that a word can start with. -/
def isWordStart (c : Char) : Bool := isLetter c || c = '_'

/-- The characters that a word can go on with. -/
def isWordPart (c : Char) : Bool := isWordStart c || c.isDigit

def size : List Char → Nat
  | [] => 0
  | c :: cs => c.utf8Size + size cs

end Text

/-- What a piece of text is. -/
inductive PieceKind where
  | blank
  | comment
  | word
  | number
  | string
  | parameter
  | symbol (kind : TokenKind)
  /-- A string without its closing quote. -/
  | unclosed
  /-- A character that opens no piece. -/
  | invalid
deriving DecidableEq

/-- A piece of text with its characters. -/
structure Piece where
  kind : PieceKind
  text : List Char
deriving DecidableEq

namespace Piece

/-- The decimal places after the digits of a number: a dot with a digit behind it, and the digits
that follow. -/
def decimals : List Char → List Char
  | '.' :: d :: cs => if d.isDigit then '.' :: d :: cs.takeWhile Char.isDigit else []
  | _ => []

/-- A number that starts with the digit `c`. -/
def number (c : Char) (cs : List Char) : Piece :=
  ⟨.number, c :: cs.takeWhile Char.isDigit ++ decimals (cs.dropWhile Char.isDigit)⟩

/-- The rest of a string up to its closing quote. A doubled quote is part of the string. -/
def stringRest? : List Char → Option (List Char)
  | [] => none
  | '"' :: '"' :: cs => (stringRest? cs).map fun rest => '"' :: '"' :: rest
  | '"' :: _ => some ['"']
  | c :: cs => (stringRest? cs).map (c :: ·)

/-- A string that starts with the quote `c`. Without a closing quote it takes all of the text. -/
def string (c : Char) (cs : List Char) : Piece :=
  match stringRest? cs with
  | some rest => ⟨.string, c :: rest⟩
  | none => ⟨.unclosed, c :: cs⟩

/-- A parameter that starts with the sign `c`, which is invalid without a name. -/
def parameter (c : Char) : List Char → Piece
  | d :: cs =>
    if Text.isWordStart d then ⟨.parameter, c :: d :: cs.takeWhile Text.isWordPart⟩
    else ⟨.invalid, [c]⟩
  | [] => ⟨.invalid, [c]⟩

/-- The operators and punctuation marks. One that starts another stands behind it. -/
def symbols : List (List Char × TokenKind) :=
  [(['<', '>'], .notEq), (['<', '='], .ltEq), (['>', '='], .gtEq), (['+'], .plus), (['-'], .minus),
    (['*'], .star), (['/'], .slash), (['='], .eq), (['<'], .lt), (['>'], .gt), (['('], .lparen),
    ([')'], .rparen), ([','], .comma), (['.'], .dot), ([';'], .semicolon)]

/-- A comment, an operator, a punctuation mark, or else a single character that cannot be read. A
comment goes up to the end of its line. -/
def symbol (text : List Char) : Piece :=
  if ['/', '/'].isPrefixOf text then ⟨.comment, text.takeWhile (· ≠ '\n')⟩
  else
    match symbols.find? (·.1.isPrefixOf text) with
    | some (spelling, kind) => ⟨.symbol kind, spelling⟩
    | none => ⟨.invalid, text.take 1⟩

/-- The piece that a text starts with. -/
def first (c : Char) (cs : List Char) : Piece :=
  if Text.isBlank c then ⟨.blank, c :: cs.takeWhile Text.isBlank⟩
  else if Text.isWordStart c then ⟨.word, c :: cs.takeWhile Text.isWordPart⟩
  else if c.isDigit then number c cs
  else if c = '"' then string c cs
  else if c = '&' then parameter c cs
  else symbol (c :: cs)

/-- The pieces of a text, at most as many as given. -/
def cutAtMost : Nat → List Char → List Piece
  | 0, _ => []
  | _, [] => []
  | count + 1, c :: cs =>
    let piece := first c cs
    piece :: cutAtMost count ((c :: cs).drop piece.text.length)

/-- The pieces of a text. A text has no more pieces than characters. -/
def cut (text : List Char) : List Piece := cutAtMost text.length text

def size (piece : Piece) : Nat := Text.size piece.text

/-- The token kind of a piece that is a token. A word is a keyword if it spells one. -/
def tokenKind? (piece : Piece) : Option TokenKind :=
  match piece.kind with
  | .word =>
    match Keyword.lookup (String.ofList piece.text) with
    | some word => some (.keyword word)
    | none => some .identifier
  | .number => some .number
  | .string => some .string
  | .parameter => some .parameter
  | .symbol kind => some kind
  | .blank | .comment | .unclosed | .invalid => none

end Piece

end NullGuard
