import NullGuard.Token.Basic

/-!
# Cursors

A cursor stands on a token of a list that ends with an end token. It moves forward only, and stays
where it is on the last token.
-/

namespace NullGuard

/-- A place in a list of tokens. -/
structure Cursor where
  /-- How many tokens lie before the cursor. -/
  position : Nat
  current : Token
  following : List Token
deriving DecidableEq

/-- The tokens, with an end token behind them unless the last is one already. -/
def Token.closed (tokens : List Token) : List Token :=
  match tokens.getLast? with
  | none => [.eof 0]
  | some last => if last.kind = .eof then tokens else tokens ++ [.eof last.span.stop]

namespace Cursor

/-- The cursor on the first of the closed tokens. -/
def ofTokens (tokens : List Token) : Cursor :=
  match Token.closed tokens with
  | [] => ⟨0, .eof 0, []⟩
  | first :: rest => ⟨0, first, rest⟩

/-- The tokens from the cursor on. -/
def rest (c : Cursor) : List Token := c.current :: c.following

def kind (c : Cursor) : TokenKind := c.current.kind

/-- The kind of the token `n` places ahead; behind the last token is the end. -/
def kindAhead (c : Cursor) (n : Nat) : TokenKind :=
  match c.rest[n]? with
  | some token => token.kind
  | none => .eof

def nextKind (c : Cursor) : TokenKind := c.kindAhead 1

/-- Moves to the next token, if there is one. -/
def advance (c : Cursor) : Cursor :=
  match c.following with
  | [] => c
  | next :: later => ⟨c.position + 1, next, later⟩

/-- Moves to a place by the tokens ahead of the current one: on from `position` while the current
kind does not end a statement. -/
def skipFrom (position : Nat) (current : Token) : List Token → Cursor
  | [] => ⟨position, current, []⟩
  | next :: later =>
    if current.kind.endsStatement then ⟨position, current, next :: later⟩
    else skipFrom (position + 1) next later

def skipStatement (c : Cursor) : Cursor := skipFrom c.position c.current c.following

def isAt (c : Cursor) (kind : TokenKind) : Bool := c.kind = kind

def isAtAny (c : Cursor) (kinds : List TokenKind) : Bool := kinds.contains c.kind

/-- Whether the current token is a name that spells a contextual word. -/
def isAtWord (c : Cursor) (word : ContextWord) : Bool := c.current.spells word

def isAtEnd (c : Cursor) : Bool := c.isAt .eof

end Cursor

end NullGuard
