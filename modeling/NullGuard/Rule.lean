namespace NullGuard

/-- How a diagnostic is shown. -/
inductive Severity where
  | error
  | warning
  | note
deriving DecidableEq

def Severity.display : Severity → String
  | error => "error"
  | warning => "warning"
  | note => "note"

/-- What kind of problem a rule reports. -/
inductive RuleKind where
  | error
  | codeSmell
  | vulnerability
  | securityHotspot
deriving DecidableEq

def RuleKind.display : RuleKind → String
  | error => "Error"
  | codeSmell => "CodeSmell"
  | vulnerability => "Vulnerability"
  | securityHotspot => "SecurityHotspot"

/-- How much a finding matters. -/
inductive Impact where
  | info
  | minor
  | major
  | critical
  | blocker
deriving DecidableEq

namespace Impact

def display : Impact → String
  | info => "info"
  | minor => "minor"
  | major => "major"
  | critical => "critical"
  | blocker => "blocker"

/-- The place of an impact in the order from least to most. -/
def rank : Impact → Nat
  | info => 0
  | minor => 1
  | major => 2
  | critical => 3
  | blocker => 4

instance : Ord Impact := ⟨fun a b => compare a.rank b.rank⟩

/-- How a finding of this impact is shown. -/
def severity : Impact → Severity
  | critical | blocker => .error
  | major | minor => .warning
  | info => .note

end Impact

/-- What a rule is about. -/
inductive Tag where
  | sql
  | suspicious
  | unpredictable
  | performance
  | badPractice
  | standard
deriving DecidableEq

def Tag.display : Tag → String
  | sql => "sql"
  | suspicious => "suspicious"
  | unpredictable => "unpredictable"
  | performance => "performance"
  | badPractice => "badpractice"
  | standard => "standard"

/-- The classification of a rule. -/
structure Rule where
  code : String
  kind : RuleKind
  impact : Impact
  /-- Estimated effort to mend one finding. -/
  minutes : Nat
  tags : List Tag
deriving DecidableEq

namespace Rule

def hasTag (rule : Rule) (tag : Tag) : Bool := rule.tags.contains tag

/-- The classification on one line. -/
def summary (rule : Rule) : String :=
  rule.code ++ ": " ++ rule.kind.display ++ ", " ++ rule.impact.display ++ " severity, ~" ++
    toString rule.minutes ++ " min to fix [" ++ ", ".intercalate (rule.tags.map Tag.display) ++ "]"

/-- Fields of an outer-joined source are used without `ISNULL`. -/
def unguardedJoinFields : Rule where
  code := "FieldsFromJoinsWithoutIsNull"
  kind := .error
  impact := .critical
  minutes := 2
  tags := [.sql, .suspicious, .unpredictable]

end Rule

end NullGuard
