import NullGuard.Join.Check
import NullGuard.Query.Package
import NullGuard.Tree.Walk

namespace NullGuard

/-- What was found in a tree. -/
structure LintReport where
  findings : List Diagnostic := []
  /-- The misplaced join that ended the analysis. -/
  error : Option MisplacedJoin := none
  events : List Event := []

namespace LintReport

def isClean (report : LintReport) : Bool := report.findings.isEmpty && report.error.isNone

/-- The findings as reports, and the error behind them. -/
def reports (report : LintReport) (source : Source) : List Report :=
  report.findings.map (Report.ofDiagnostic source) ++ report.error.toList.map MisplacedJoin.report

end LintReport

namespace Tree

/-- Checks the joins that a walk meets. -/
def joinVisitor (tree : Tree) (config : Config) : Visitor LintReport
  | .join, join, report =>
    match tree.reviewJoin config join with
    | .ok review =>
      .descend { report with
        findings := report.findings ++ (tree.reviewFinding? config join review).toList
        events := report.events ++ review.events }
    | .error error =>
      .stop { report with error := some error, events := report.events ++ [.aborted error] }
  | _, _, report => .descend report

def lint (tree : Tree) (config : Config) : LintReport :=
  match tree.walk (tree.joinVisitor config) {} with
  | .ok report => report
  | .error report => report

end Tree

/-- What came out of linting a text. -/
structure LintOutcome where
  parsed : Parsed
  report : LintReport

namespace LintOutcome

/-- All that can be told of the reading and of the analysis. -/
def events (outcome : LintOutcome) : List Event :=
  outcome.parsed.skips.map .recovered ++ outcome.report.events

/-- What was wrong with the text, what was found in it, and the error that ended the analysis. -/
def reports (outcome : LintOutcome) (source : Source) : List Report :=
  outcome.parsed.diagnostics.map (Report.ofDiagnostic source) ++ outcome.report.reports source

/-- What was found, on one line. -/
def summary (outcome : LintOutcome) : String :=
  if outcome.parsed.diagnostics.isEmpty && outcome.report.isClean then
    "no problems found"
  else
    toString outcome.report.findings.length ++ " outer join(s) with unguarded fields"

end LintOutcome

def lint (config : Config) (source : String) : LintOutcome :=
  let parsed := parse source
  ⟨parsed, (parsed.tree.map (·.lint config)).getD {}⟩

/-- A query with two unguarded fields and a guarded one. -/
def sampleQuery : String :=
  "SELECT T1.Goods, T2.Price, ISNULL(T2.Stock, 0) AS Stock\n" ++
  "FROM Catalog.Goods AS T1\n" ++
  "    LEFT JOIN InformationRegister.Prices AS T2\n" ++
  "    ON T1.Ref = T2.Goods\n" ++
  "WHERE T2.Price > 100"

end NullGuard
