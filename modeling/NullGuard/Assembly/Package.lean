import NullGuard.Assembly.Statement
import NullGuard.Query.Package

namespace NullGuard

/-- What was read of a package so far. -/
structure Assembly where
  children : List NodeId := []
  statements : Nat := 0
  failures : List Failure := []
  skips : List Nat := []

namespace Assembly

def recover (a : Assembly) (failure : Failure) (bench : Workbench) : Assembly × Workbench :=
  let stop := bench.cursor.skipStatement
  ({ a with
      failures := a.failures ++ [failure]
      skips := a.skips ++ [stop.position - bench.cursor.position] },
    { bench with cursor := stop })

/-- Reads a statement, or takes back what was made of it. -/
def addStatement (a : Assembly) (bench : Workbench) : Assembly × Workbench :=
  let mark := bench.builder.checkpoint
  match Assemble.wholeStatement bench with
  | (.ok statement, bench) =>
    let a := { a with children := a.children ++ [statement], statements := a.statements + 1 }
    if bench.cursor.kind.endsStatement then (a, bench)
    else a.recover ⟨.statementEnd, bench.cursor⟩ bench
  | (.error failure, bench) =>
    a.recover failure { bench with builder := bench.builder.rollback mark }

/-- Reads semicolons and statements up to the end, at most one for each of the given tokens. -/
def addAllWithin : List Token → Assembly → Workbench → Assembly × Workbench
  | [], a, bench => (a, bench)
  | _ :: ahead, a, bench =>
    if bench.cursor.isAt .semicolon then
      let (semicolon, bench) := bench.bump
      addAllWithin ahead { a with children := a.children ++ [semicolon] } bench
    else if bench.cursor.isAtEnd then
      (a, bench)
    else
      let (a, bench) := a.addStatement bench
      addAllWithin ahead a bench

def ofTokens (tokens : List Token) : Assembly × Workbench :=
  let cursor := Cursor.ofTokens tokens
  addAllWithin cursor.rest {} ⟨cursor, {}⟩

/-- The root of the package that the tokens are read as, and the builder that it was made with. -/
def package (tokens : List Token) : NodeId × Builder :=
  let (a, bench) := ofTokens tokens
  bench.builder.node .package a.children

end Assembly

/-- Reads tokens with one builder, behind the diagnostics of their scan. -/
def assembleTokens (scanned : List Diagnostic) (tokens : List Token) : Parsed :=
  let (a, _) := Assembly.ofTokens tokens
  let (root, builder) := Assembly.package tokens
  .ofFinished scanned a.failures a.skips (a.statements ≠ 0) (builder.finish root)

end NullGuard
