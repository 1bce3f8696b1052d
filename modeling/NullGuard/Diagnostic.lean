import NullGuard.Rule
import NullGuard.Span

/-!
# Diagnostics

A diagnostic is a message with labelled places in the text. A finding of a rule carries the rule;
its secondary labels are the places that are part of the finding.
-/

namespace NullGuard

/-- Whether a label is the anchor of its diagnostic or a related place. -/
inductive LabelRole where
  | primary
  | secondary
deriving DecidableEq

/-- A place in the text with a remark. -/
structure Label where
  role : LabelRole
  span : Span
  message : String
deriving DecidableEq

/-- A message about a text. -/
structure Diagnostic where
  severity : Severity
  message : String
  labels : List Label := []
  help : Option String := none
  notes : List String := []
  code : Option String := none
  rule : Option Rule := none
deriving DecidableEq

namespace Diagnostic

/-- A finding of a rule, which gives it severity and code. -/
def ofRule (rule : Rule) (message : String) : Diagnostic where
  severity := rule.impact.severity
  message := message
  code := some rule.code
  rule := some rule

/-- An error with one primary label. -/
def errorAt (span : Span) (remark message code : String) : Diagnostic where
  severity := .error
  message := message
  labels := [⟨.primary, span, remark⟩]
  code := some code

def addLabel (d : Diagnostic) (label : Label) : Diagnostic :=
  { d with labels := d.labels ++ [label] }

def addNote (d : Diagnostic) (note : String) : Diagnostic :=
  { d with notes := d.notes ++ [note] }

/-- The anchor of the diagnostic: its first primary label. -/
def anchor (d : Diagnostic) : Option Span :=
  (d.labels.find? (·.role = .primary)).map Label.span

/-- The related places in the order they were added. -/
def related (d : Diagnostic) : List Label :=
  d.labels.filter (·.role = .secondary)

def isError (d : Diagnostic) : Bool := d.severity = .error

end Diagnostic

end NullGuard
