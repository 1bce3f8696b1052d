import NullGuard.Tree.Kind

namespace NullGuard

/-- Where references are looked for. -/
inductive Region where
  /-- The select list. -/
  | select
  /-- The condition of `WHERE`. -/
  | filter
  /-- The condition of another join. -/
  | join
deriving DecidableEq

namespace Region

/-- The kind of the expressions in the region. -/
def statementKind : Region → NodeKind
  | select => .selectStatement
  | filter => .whereStatement
  | join => .joinStatement

/-- The kind of the nodes that the search for a guard does not go beyond. -/
def rootKind : Region → NodeKind
  | select => .selectedField
  | filter => .whereClause
  | join => .join

/-- Whether the search for a guard looks at nodes of a kind. -/
def isBoundary (region : Region) (kind : NodeKind) : Bool :=
  kind = region.statementKind || kind = region.rootKind

def display : Region → String
  | select => "Select"
  | filter => "Where"
  | join => "Join"

end Region

end NullGuard
