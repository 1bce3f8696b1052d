import NullGuard.Query.Statement
import NullGuard.Token.Scan

/-!
# Packages

A package is statements with semicolons between them. A statement that cannot be read is left out as
a whole, and what stands behind a statement up to the next semicolon is left out too; each is told
in a diagnostic.
-/

namespace NullGuard

/-- A part of a package, as it was read. -/
inductive Part where
  | separator (semicolon : Phrase)
  | statement (phrase : Phrase)
  /-- A statement with `skipped` tokens behind it that do not belong to it. -/
  | truncated (phrase : Phrase) (failure : Failure) (skipped : Nat)
  /-- A statement that could not be read, with `skipped` tokens left from the failure on. -/
  | rejected (failure : Failure) (skipped : Nat)

namespace Part

/-- What the package keeps of a part. -/
def phrase? : Part → Option Phrase
  | separator phrase | statement phrase | truncated phrase _ _ => some phrase
  | rejected _ _ => none

/-- What went wrong in a part. -/
def failure? : Part → Option Failure
  | truncated _ failure _ | rejected failure _ => some failure
  | separator _ | statement _ => none

/-- How many tokens were skipped to get to the end of a part that went wrong. -/
def skipped? : Part → Option Nat
  | truncated _ _ skipped | rejected _ skipped => some skipped
  | separator _ | statement _ => none

def isStatement : Part → Bool
  | statement _ | truncated _ _ _ => true
  | separator _ | rejected _ _ => false

def package (parts : List Part) : Phrase := .node .package (parts.filterMap phrase?)

/-- The statement at the cursor, and where it ends. -/
def next (c : Cursor) : Part × Cursor :=
  match Parse.statement c with
  | .ok (phrase, after) =>
    if after.kind.endsStatement then (statement phrase, after)
    else
      let stop := after.skipStatement
      (truncated phrase ⟨.statementEnd, after⟩ (stop.position - after.position), stop)
  | .error failure =>
    let stop := failure.place.skipStatement
    (rejected failure (stop.position - failure.place.position), stop)

/-- The parts from the cursor on, at most one for each of the given tokens. -/
def allWithin : List Token → Cursor → List Part
  | [], _ => []
  | _ :: ahead, c =>
    if c.isAt .semicolon then
      separator (.leaf c.current) :: allWithin ahead c.advance
    else if c.isAtEnd then
      []
    else
      let (part, stop) := next c
      part :: allWithin ahead stop

/-- The parts from the cursor on. Each takes a token at least. -/
def all (c : Cursor) : List Part := allWithin c.rest c

end Part

/-- What was read of a text: its tree, if any statement was read or nothing was wrong, and what was
wrong. -/
structure Parsed where
  tree : Option Tree
  diagnostics : List Diagnostic
  /-- How many tokens were skipped behind each failure. -/
  skips : List Nat

namespace Parsed

def hasErrors (parsed : Parsed) : Bool := parsed.diagnostics.any Diagnostic.isError

def shapeDiagnostic (error : ShapeError) : Diagnostic where
  severity := .error
  message := "malformed syntax tree: " ++ error.message
  code := some "P000"

/-- Puts together what was read, behind the diagnostics of the scan. -/
def ofFinished (scanned : List Diagnostic) (failures : List Failure) (skips : List Nat)
    (hasStatement : Bool) (finished : Except ShapeError Tree) : Parsed :=
  let shape := match finished with
    | .ok _ => []
    | .error error => [shapeDiagnostic error]
  let diagnostics := scanned ++ failures.map Failure.diagnostic ++ shape
  let failed := diagnostics.any Diagnostic.isError && !hasStatement
  { tree := if failed then none else finished.toOption
    diagnostics := diagnostics
    skips := skips }

/-- Puts the parts of a package together, behind the diagnostics of its scan. -/
def ofParts (scanned : List Diagnostic) (parts : List Part) : Parsed :=
  let (root, builder) := ({} : Builder).lay (Part.package parts)
  ofFinished scanned (parts.filterMap Part.failure?) (parts.filterMap Part.skipped?)
    (parts.any Part.isStatement) (builder.finish root)

end Parsed

/-- Reads tokens, behind the diagnostics of their scan. -/
def parseTokens (scanned : List Diagnostic) (tokens : List Token) : Parsed :=
  .ofParts scanned (Part.all (.ofTokens tokens))

def parse (source : String) : Parsed :=
  let scanned := scan source
  parseTokens scanned.diagnostics scanned.tokens

end NullGuard
