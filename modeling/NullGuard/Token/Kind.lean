import NullGuard.Token.Keyword

namespace NullGuard

/-- The kind of a token. -/
inductive TokenKind where
  | keyword (word : Keyword)
  | identifier
  | number
  | string
  | parameter
  | plus
  | minus
  | star
  | slash
  | eq
  | notEq
  | lt
  | gt
  | ltEq
  | gtEq
  | lparen
  | rparen
  | comma
  | dot
  | semicolon
  /-- The end of the text. -/
  | eof
deriving DecidableEq

namespace TokenKind

/-- How the kind is named in messages. -/
def display : TokenKind → String
  | keyword word => word.english
  | identifier => "identifier"
  | number => "number"
  | string => "string"
  | parameter => "parameter"
  | plus => "+"
  | minus => "-"
  | star => "*"
  | slash => "/"
  | eq => "="
  | notEq => "<>"
  | lt => "<"
  | gt => ">"
  | ltEq => "<="
  | gtEq => ">="
  | lparen => "("
  | rparen => ")"
  | comma => ","
  | dot => "."
  | semicolon => ";"
  | eof => "<EOF>"

def isKeyword : TokenKind → Bool
  | keyword _ => true
  | _ => false

/-- Whether a token of this kind is a value by itself. -/
def isLiteral : TokenKind → Bool
  | number | string => true
  | keyword .true_ | keyword .false_ | keyword .null | keyword .undefined => true
  | _ => false

/-- Whether the kind compares two operands. -/
def isComparison : TokenKind → Bool
  | eq | notEq | lt | gt | ltEq | gtEq => true
  | _ => false

/-- Whether a join can begin with the kind. -/
def startsJoin : TokenKind → Bool
  | keyword .join | keyword .inner | keyword .left | keyword .right | keyword .full => true
  | _ => false

/-- Whether the kind can be a name after a dot, where keywords are names too. -/
def isName : TokenKind → Bool
  | identifier | keyword _ => true
  | _ => false

/-- Whether a statement ends before a token of this kind. -/
def endsStatement : TokenKind → Bool
  | semicolon | eof => true
  | _ => false

end TokenKind

end NullGuard
