import NullGuard.Span
import NullGuard.Token.Kind

namespace NullGuard

/-- A token: its kind, where it stands, and its text. -/
structure Token where
  kind : TokenKind
  span : Span
  text : String
deriving DecidableEq

namespace Token

/-- The token that ends a text of `size` bytes. -/
def eof (size : Nat) : Token := ⟨.eof, .point size, ""⟩

/-- Whether the token is a name that spells a contextual word. -/
def spells (token : Token) (word : ContextWord) : Bool :=
  token.kind = .identifier && ContextWord.lookup token.text = some word

end Token

end NullGuard
