import NullGuard.Diagnostic
import NullGuard.Token.Basic
import NullGuard.Token.Piece

namespace NullGuard

/-- A piece with the bytes that it takes in the text. -/
structure Placed where
  span : Span
  piece : Piece

namespace Placed

def token? (placed : Placed) : Option Token :=
  placed.piece.tokenKind?.map fun kind => ⟨kind, placed.span, String.ofList placed.piece.text⟩

/-- What is wrong with a piece that cannot be read. -/
def diagnostic? (placed : Placed) : Option Diagnostic :=
  match placed.piece.kind with
  | .unclosed =>
    some (.errorAt placed.span "string starts here" "unclosed string literal" "S002")
  | .invalid =>
    let text := String.ofList placed.piece.text
    some (.errorAt placed.span "here" ("invalid character '" ++ text ++ "'") "S001")
  | _ => none

end Placed

/-- The pieces placed one behind the other from an offset on. -/
def Piece.place : Nat → List Piece → List Placed
  | _, [] => []
  | offset, piece :: pieces =>
    ⟨⟨offset, offset + piece.size⟩, piece⟩ :: place (offset + piece.size) pieces

def placedPieces (text : List Char) : List Placed := Piece.place 0 (Piece.cut text)

/-- The tokens of a text, ended by a token for its end, and its unreadable pieces. -/
structure Scan where
  tokens : List Token
  diagnostics : List Diagnostic

def scan (source : String) : Scan :=
  let pieces := placedPieces source.toList
  { tokens := pieces.filterMap Placed.token? ++ [.eof source.utf8ByteSize]
    diagnostics := pieces.filterMap Placed.diagnostic? }

end NullGuard
