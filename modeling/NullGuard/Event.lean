import NullGuard.Join.Nullable
import NullGuard.Join.Region
import NullGuard.Text.Quoted

namespace NullGuard

/-- How much an event matters. -/
inductive Level where
  | trace
  | debug
  | warn
deriving DecidableEq

/-- A step of an analysis. -/
inductive Event where
  /-- Tokens were skipped to the end of a statement. -/
  | recovered (skipped : Nat)
  /-- A join is checked. -/
  | checkingJoin (join : NodeId) (kind : Option JoinKind) (aliases : List String)
  /-- An alias cannot be used anywhere. -/
  | joinOutsideQuery (name : String)
  /-- A call of `ISNULL` is passed over. -/
  | guardPassed (statement : NodeId)
  /-- A reference is inside a call of `ISNULL`. -/
  | guarded (column : NodeId)
  /-- A reference is not inside a call of `ISNULL`. -/
  | unguarded (column : NodeId) (region : Region)
  /-- A misplaced join ends the analysis. -/
  | aborted (error : MisplacedJoin)
deriving DecidableEq

namespace Event

def level : Event → Level
  | recovered _ | checkingJoin _ _ _ => .debug
  | joinOutsideQuery _ | guardPassed _ | guarded _ | unguarded _ _ => .trace
  | aborted _ => .warn

def message : Event → String
  | recovered _ => "recovered at statement boundary"
  | checkingJoin _ _ _ => "checking join"
  | joinOutsideQuery _ => "join outside any query"
  | guardPassed _ => "guarded statement pruned"
  | guarded _ => "reference is guarded"
  | unguarded _ _ => "unguarded reference"
  | aborted _ => "analysis aborted"

/-- How the kind of a join is named in events, if the node is a join. -/
def joinKindField : Option JoinKind → String
  | none => "None"
  | some .inner => "Some(Inner)"
  | some .left => "Some(Left)"
  | some .right => "Some(Right)"
  | some .full => "Some(Full)"

/-- What the event is about, by name. -/
def fields : Event → List (String × String)
  | recovered skipped => [("skipped", toString skipped)]
  | checkingJoin join kind aliases =>
    [("join", join.display), ("kind", joinKindField kind), ("aliases", Text.quotedList aliases)]
  | joinOutsideQuery name => [("alias", name)]
  | guardPassed statement => [("statement", statement.display)]
  | guarded column => [("column", column.display)]
  | unguarded column region => [("column", column.display), ("scan", region.display)]
  | aborted error => [("join", error.join.display), ("error", error.message)]

end Event

end NullGuard
