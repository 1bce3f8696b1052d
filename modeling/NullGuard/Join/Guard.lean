import NullGuard.Join.Region
import NullGuard.Tree.Basic

/-!
# Guards

Which column references of a region are to be checked, found from the top down, and whether one is
inside a call of `ISNULL`, found from the bottom up.
-/

namespace NullGuard

/-- What a search from the top down meets. -/
inductive Sight where
  /-- A column that is an operand by itself. -/
  | candidate (column : NodeId)
  /-- A call of `ISNULL`; the search goes past it. -/
  | guard (statement : NodeId)
deriving DecidableEq

namespace Sight

def column? : Sight → Option NodeId
  | candidate column => some column
  | guard _ => none

def guard? : Sight → Option NodeId
  | candidate _ => none
  | guard statement => some statement

end Sight

namespace Tree

/-- The column that is the operand of an expression. -/
def operandColumn? (tree : Tree) (statement : NodeId) : Option NodeId :=
  (tree.childOfKind? statement .statement).bind (tree.childOfKind? · .column)

/-- What there is to see below a node down to a depth. -/
def surveyTo (tree : Tree) (region : Region) : Nat → NodeId → List Sight
  | 0, _ => []
  | depth + 1, id => (tree.children id).flatMap fun child =>
    if tree.kind child = region.statementKind then
      if tree.isGuardCall child then [.guard child]
      else
        (tree.operandColumn? child).toList.map .candidate ++ surveyTo tree region depth child
    else
      surveyTo tree region depth child

def survey (tree : Tree) (region : Region) (root : NodeId) : List Sight :=
  tree.surveyTo region tree.size root

/-- The columns below a node that are operands of the region's expressions, without those in calls
of `ISNULL`. -/
def candidates (tree : Tree) (region : Region) (root : NodeId) : List NodeId :=
  (tree.survey region root).filterMap Sight.column?

/-- The calls of `ISNULL` that the search for candidates goes past. -/
def guardsPassed (tree : Tree) (region : Region) (root : NodeId) : List NodeId :=
  (tree.survey region root).filterMap Sight.guard?

/-- Whether a guard comes first among nodes given from the bottom up. The search ends at the root of
the region and at an expression without children. -/
def guardedAlong (tree : Tree) (region : Region) : List NodeId → Bool
  | [] => false
  | id :: above =>
    if region.isBoundary (tree.kind id) then
      if tree.kind id = region.rootKind || (tree.children id).isEmpty then false
      else if tree.isGuardCall id then true
      else guardedAlong tree region above
    else
      guardedAlong tree region above

/-- Whether a node is in a call of `ISNULL` of the region. -/
def isGuarded (tree : Tree) (region : Region) (id : NodeId) : Bool :=
  tree.guardedAlong region (id :: tree.ancestors id)

end Tree

end NullGuard
