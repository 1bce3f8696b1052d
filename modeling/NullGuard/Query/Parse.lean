import NullGuard.Diagnostic
import NullGuard.Query.Phrase
import NullGuard.Token.Cursor

/-!
# Reading phrases

A reader moves a cursor over tokens and gives a phrase, or fails on the token that it could not go
on with. The choices of the grammar are made by the tokens ahead, so a failure is final.
-/

namespace NullGuard

/-- What the grammar asks for. -/
inductive Expected where
  | token (kind : TokenKind)
  | rowCount
  | aliasName
  | temporaryTableName
  | source
  | argumentEnd
  | name
  | typeName
  | typeLength
  | typePrecision
  | expression
  | statementEnd
deriving DecidableEq

namespace Expected

/-- What is asked for, in words. -/
def display : Expected → String
  | token (.keyword word) => word.english
  | token kind => "`" ++ kind.display ++ "`"
  | rowCount => "row count"
  | aliasName => "alias name"
  | temporaryTableName => "temporary table name"
  | source => "table, subquery or parameter"
  | argumentEnd => "`,` or `)`"
  | name => "name"
  | typeName => "type name"
  | typeLength => "type length"
  | typePrecision => "type precision"
  | expression => "expression"
  | statementEnd => "`;` or end of input"

/-- The code of the diagnostic when it is missing. -/
def code : Expected → String
  | statementEnd => "P002"
  | expression => "P003"
  | _ => "P001"

end Expected

def Cursor.errorHere (c : Cursor) (message code : String) : Diagnostic :=
  .errorAt c.current.span "here" message code

/-- What was missing, and where. -/
structure Failure where
  expected : Expected
  place : Cursor

namespace Failure

def message (f : Failure) : String :=
  "expected " ++ f.expected.display ++ ", found " ++ f.place.kind.display

def diagnostic (f : Failure) : Diagnostic := f.place.errorHere f.message f.expected.code

end Failure

/-- A reader of tokens. -/
abbrev Parse := StateT Cursor (Except Failure)

namespace Parse

variable {α : Type}

def refuse (expected : Expected) : Parse α := fun c => .error ⟨expected, c⟩

/-- Takes the current token if the cursor is right for it. The last token is the end of the list and
is never taken. -/
def takeIf (wanted : Cursor → Bool) : Parse (Option Token) := fun c =>
  match c.following with
  | [] => .ok (none, c)
  | next :: later =>
    if wanted c then .ok (some c.current, ⟨c.position + 1, next, later⟩) else .ok (none, c)

/-- Takes the current token if the cursor is right for it, and else fails for want of something. -/
def require (wanted : Cursor → Bool) (expected : Expected) : Parse Phrase := do
  match ← takeIf wanted with
  | some token => return .leaf token
  | none => refuse expected

def expectAs (kind : TokenKind) (expected : Expected) : Parse Phrase :=
  require (·.isAt kind) expected

/-- Takes a token of the given kind, and else fails for want of it. -/
def expect (kind : TokenKind) : Parse Phrase := expectAs kind (.token kind)

def keyword (word : Keyword) : Parse Phrase := expect (.keyword word)

/-- Takes the current token if the cursor is right for it. -/
def optional (wanted : Cursor → Bool) : Parse (List Phrase) := do
  return (← takeIf wanted).toList.map .leaf

/-- Reads what a token leads in, if the cursor is right for the token. -/
def optionalLed (lead : Cursor → Bool) (item : Token → Parse (List Phrase)) :
    Parse (List Phrase) := do
  match ← takeIf lead with
  | some mark => item mark
  | none => return []

/-- Reads what tokens lead in while the cursor is right for one, at most one for each of the given
tokens. -/
def manyLedWithin (lead : Cursor → Bool) (item : Token → Parse α) : List Token → Parse (List α)
  | [] => return []
  | _ :: ahead => do
    match ← takeIf lead with
    | some mark =>
      let first ← item mark
      let more ← manyLedWithin lead item ahead
      return first :: more
    | none => return []

/-- Reads what tokens lead in while the cursor is right for one. Each takes a token at least, so the
tokens ahead bound their number. -/
def manyLed (lead : Cursor → Bool) (item : Token → Parse α) : Parse (List α) := do
  manyLedWithin lead item (← get).following

/-- Reads items while a token of the given kind comes before the next. -/
def manyBehind (kind : TokenKind) (item : Parse (List Phrase)) : Parse (List Phrase) := do
  let groups ← manyLed (·.isAt kind) fun mark => do
    let phrases ← item
    return .leaf mark :: phrases
  return groups.flatten

/-- A reader of one phrase as a reader of parts. -/
def one (item : Parse Phrase) : Parse (List Phrase) := do return [← item]

def commaSeparated (item : Parse (List Phrase)) : Parse (List Phrase) := do
  let first ← item
  let more ← manyBehind .comma item
  return first ++ more

/-- A name after a dot. -/
def name : Parse Phrase := require (·.kind.isName) .name

/-- The names behind dots that go on a path. -/
def path : Parse (List Phrase) := manyBehind .dot (one name)

end Parse

end NullGuard
