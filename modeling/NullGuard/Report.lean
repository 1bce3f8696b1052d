import NullGuard.Diagnostic

namespace NullGuard

/-- A text under an optional name. -/
structure Source where
  content : String
  name : Option String := none

def Source.size (source : Source) : Nat := source.content.utf8ByteSize

/-- A label as it is drawn: where it starts and how many bytes it takes. -/
structure Mark where
  primary : Bool
  offset : Nat
  length : Nat
  message : String
deriving DecidableEq

/-- What is shown of one problem. -/
structure Report where
  message : String
  severity : Option Severity
  code : Option String
  help : Option String
  marks : List Mark
  remarks : List String
  file : Option String

namespace Report

/-- A label cut to a text of `size` bytes. -/
def markOf (size : Nat) (label : Label) : Mark :=
  let span := label.span.clamp size
  ⟨label.role = .primary, span.start, span.length, label.message⟩

/-- The report of a diagnostic. The summary of its rule follows its notes. -/
def ofDiagnostic (source : Source) (d : Diagnostic) : Report where
  message := d.message
  severity := some d.severity
  code := d.code
  help := d.help
  marks := d.labels.map (markOf source.size)
  remarks := d.notes ++ (d.rule.map Rule.summary).toList
  file := source.name

end Report

end NullGuard
