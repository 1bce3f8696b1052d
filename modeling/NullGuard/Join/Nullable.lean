import NullGuard.Report
import NullGuard.Tree.Basic

/-!
# Nullable aliases

An outer join fills the columns of a source with NULL when no row matches: `LEFT` those of the
source it brings in, `RIGHT` those of the source it hangs off, `FULL` both.
-/

namespace NullGuard

/-- A join that makes the source it hangs off nullable, and does not hang off a source. -/
structure MisplacedJoin where
  join : NodeId
  kind : JoinKind
  /-- The kind of the node that the join hangs off. -/
  parent : Option NodeKind
  span : Span
deriving DecidableEq

namespace MisplacedJoin

def message (e : MisplacedJoin) : String :=
  e.kind.display ++ " join " ++ e.join.display ++ " is not attached to a data source (parent: " ++
    (e.parent.map NodeKind.display).getD "none" ++ ")"

/-- The report of the error. Its mark is not cut to the text. -/
def report (e : MisplacedJoin) : Report where
  message := e.message
  severity := none
  code := some "lint::structural_mismatch"
  help := some "the outer side of a join is the data source it hangs off"
  marks := [⟨false, e.span.start, e.span.length, "this join"⟩]
  remarks := []
  file := none

end MisplacedJoin

namespace Tree

/-- The alias of the source that a join brings in. -/
def joinedAlias? (tree : Tree) (join : NodeId) : Option String :=
  (tree.childOfKind? join .dataSource).bind tree.sourceAlias?

/-- The alias of the source that a join hangs off. -/
def outerAlias? (tree : Tree) (join : NodeId) (kind : JoinKind) :
    Except MisplacedJoin (Option String) :=
  let parentKind := (tree.parent join).map tree.kind
  match tree.parent join with
  | some parent =>
    if tree.kind parent = .dataSource then .ok (tree.sourceAlias? parent)
    else .error ⟨join, kind, parentKind, (tree.span join).ordered⟩
  | none => .error ⟨join, kind, parentKind, (tree.span join).ordered⟩

/-- The aliases whose columns a join makes nullable, the outer one first. A source without an alias
gives none, and neither does a node that is not a join. -/
def nullableAliases (tree : Tree) (join : NodeId) : Except MisplacedJoin (List String) :=
  match tree.joinKind? join with
  | none | some .inner => .ok []
  | some .left => .ok (tree.joinedAlias? join).toList
  | some .right => do return (← tree.outerAlias? join .right).toList
  | some .full => do
    return (← tree.outerAlias? join .full).toList ++ (tree.joinedAlias? join).toList

end Tree

end NullGuard
