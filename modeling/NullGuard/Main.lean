import NullGuard.Lint

namespace NullGuard

/-- A report on lines of its own. -/
def Report.lines (report : Report) : List String :=
  let code := (report.code.map (· ++ ": ")).getD ""
  let marks := report.marks.map fun mark =>
    "  at " ++ toString mark.offset ++ "+" ++ toString mark.length ++ ": " ++ mark.message
  let remarks := report.remarks.map ("  note: " ++ ·)
  let help := report.help.toList.map ("  help: " ++ ·)
  (code ++ report.message) :: marks ++ remarks ++ help

end NullGuard

open NullGuard in
def main (args : List String) : IO Unit := do
  let text := args.head?.getD sampleQuery
  let outcome := lint {} text
  for report in outcome.reports { content := text } do
    for line in report.lines do
      IO.eprintln line
  IO.println outcome.summary
