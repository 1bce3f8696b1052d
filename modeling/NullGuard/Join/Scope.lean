import NullGuard.Tree.Basic

namespace NullGuard.Tree

def enclosingQuery? (tree : Tree) (id : NodeId) : Option NodeId :=
  (tree.ancestors id).find? fun ancestor => (tree.kind ancestor).isQuery

/-- The other joins that hang off the source of a join. -/
def siblingJoins (tree : Tree) (join : NodeId) : List NodeId :=
  match (tree.ancestors join).find? (tree.kind · = .dataSource) with
  | none => []
  | some source => (tree.childrenOfKind source .join).filter (· ≠ join)

def selectList? (tree : Tree) (query : NodeId) : Option NodeId :=
  tree.childOfKind? query .selectList

/-- The condition of the first `WHERE` clause of a query that is not empty. -/
def whereExpression? (tree : Tree) (query : NodeId) : Option NodeId := do
  let clause ← (tree.childrenOfKind query .whereClause).find? fun clause =>
    !(tree.children clause).isEmpty
  tree.childOfKind? clause .whereExpression

def joinExpression? (tree : Tree) (join : NodeId) : Option NodeId :=
  tree.childOfKind? join .joinExpression

end NullGuard.Tree
