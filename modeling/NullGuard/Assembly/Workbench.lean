import NullGuard.Query.Parse

/-!
# Assembling trees

Readers that make the nodes of a tree as they go: a terminal when a token is taken, and an inner node
when all its children are there. What a reader has made is still there when it fails.
-/

namespace NullGuard

/-- A place in the tokens, and the nodes made so far. -/
structure Workbench where
  cursor : Cursor
  builder : Builder

namespace Workbench

/-- Makes a terminal of the current token and moves on. -/
def bump (bench : Workbench) : NodeId × Workbench :=
  let (id, builder) := bench.builder.token bench.cursor.current
  (id, ⟨bench.cursor.advance, builder⟩)

def node (bench : Workbench) (kind : NodeKind) (children : List NodeId) : NodeId × Workbench :=
  let (id, builder) := bench.builder.node kind children
  (id, { bench with builder := builder })

end Workbench

/-- A reader that makes nodes. -/
abbrev Assemble := ExceptT Failure (StateM Workbench)

namespace Assemble

variable {α : Type}

def here : Assemble Cursor := do return (← get).cursor

def bump : Assemble NodeId := modifyGet Workbench.bump

def node (kind : NodeKind) (children : List NodeId) : Assemble NodeId :=
  modifyGet (·.node kind children)

def refuse (expected : Expected) : Assemble α := do throw ⟨expected, ← here⟩

def require (wanted : Cursor → Bool) (expected : Expected) : Assemble NodeId := do
  if wanted (← here) then bump else refuse expected

def expectAs (kind : TokenKind) (expected : Expected) : Assemble NodeId :=
  require (·.isAt kind) expected

def expect (kind : TokenKind) : Assemble NodeId := expectAs kind (.token kind)

def keyword (word : Keyword) : Assemble NodeId := expect (.keyword word)

/-- Reads something if the cursor is right for it. -/
def readIf (wanted : Cursor → Bool) (item : Assemble (List NodeId)) : Assemble (List NodeId) := do
  if wanted (← here) then item else return []

def eat (wanted : Cursor → Bool) : Assemble (List NodeId) := readIf wanted do return [← bump]

/-- Reads rounds while the cursor is right for one, at most one for each of the given tokens. -/
def readWhileWithin (lead : Cursor → Bool) (round : Assemble (List NodeId)) :
    List Token → Assemble (List NodeId)
  | [] => return []
  | _ :: ahead => readIf lead do
    let made ← round
    let more ← readWhileWithin lead round ahead
    return made ++ more

/-- Reads rounds while the cursor is right for one. Each takes a token at least, so the tokens ahead
bound their number. -/
def readWhile (lead : Cursor → Bool) (round : Assemble (List NodeId)) : Assemble (List NodeId) := do
  readWhileWithin lead round (← here).following

def readBehind (kind : TokenKind) (item : Assemble (List NodeId)) : Assemble (List NodeId) :=
  readWhile (·.isAt kind) do
    let mark ← bump
    let made ← item
    return mark :: made

def one (item : Assemble NodeId) : Assemble (List NodeId) := do return [← item]

def commaSeparated (item : Assemble (List NodeId)) : Assemble (List NodeId) := do
  let first ← item
  let more ← readBehind .comma item
  return first ++ more

def name : Assemble NodeId := require (·.kind.isName) .name

def path : Assemble (List NodeId) := readBehind .dot (one name)

end Assemble

end NullGuard
