import NullGuard.Span
import NullGuard.Tree.Kind

/-!
# Trees

A tree is a numbered list of nodes. Each node names its parent and its children, and a node is
known by its number. Nothing is assumed of these links here: on a tree that is not well formed a
walk goes no deeper than the tree has nodes, and an unknown number stands for a node without links.
-/

namespace NullGuard

/-- The number of a node. -/
abbrev NodeId := Nat

/-- How a node is named in messages. -/
def NodeId.display (id : NodeId) : String := "#" ++ toString id

/-- A node: a terminal with the text of its token, or an inner node with its children. -/
structure Node where
  kind : NodeKind
  span : Span := .zero
  parent : Option NodeId := none
  children : List NodeId := []
  text : String := ""
deriving DecidableEq

instance : Inhabited Node := ⟨{ kind := .package }⟩

/-- Nodes with one of them as the root. -/
structure Tree where
  nodes : Array Node
  root : NodeId
deriving DecidableEq

namespace Tree

def size (tree : Tree) : Nat := tree.nodes.size

def node (tree : Tree) (id : NodeId) : Node := tree.nodes[id]?.getD default

def kind (tree : Tree) (id : NodeId) : NodeKind := (tree.node id).kind

/-- The bytes that a node takes in the text. -/
def span (tree : Tree) (id : NodeId) : Span := (tree.node id).span

/-- The parent of a node; the root has none. -/
def parent (tree : Tree) (id : NodeId) : Option NodeId := (tree.node id).parent

/-- The children of a node from left to right. -/
def children (tree : Tree) (id : NodeId) : List NodeId := (tree.node id).children

def firstChild? (tree : Tree) (id : NodeId) : Option NodeId := (tree.children id).head?

/-- The children of one kind from left to right. -/
def childrenOfKind (tree : Tree) (id : NodeId) (kind : NodeKind) : List NodeId :=
  (tree.children id).filter (tree.kind · = kind)

/-- The first child of one kind. -/
def childOfKind? (tree : Tree) (id : NodeId) (kind : NodeKind) : Option NodeId :=
  (tree.children id).find? (tree.kind · = kind)

/-- The nearest ancestors of a node, at most as many as given. -/
def ancestorsAtMost (tree : Tree) : Nat → NodeId → List NodeId
  | 0, _ => []
  | count + 1, id =>
    match tree.parent id with
    | none => []
    | some parent => parent :: ancestorsAtMost tree count parent

/-- The ancestors of a node, nearest first, without the node itself. -/
def ancestors (tree : Tree) (id : NodeId) : List NodeId := tree.ancestorsAtMost tree.size id

/-- The descendants of a node down to a depth. -/
def descendantsTo (tree : Tree) : Nat → NodeId → List NodeId
  | 0, _ => []
  | depth + 1, id => (tree.children id).flatMap fun child => child :: descendantsTo tree depth child

/-- The descendants of a node without the node itself, each before its own descendants. -/
def descendants (tree : Tree) (id : NodeId) : List NodeId := tree.descendantsTo tree.size id

/-- The nodes of one kind in the order of the text. -/
def nodesOfKind (tree : Tree) (kind : NodeKind) : List NodeId :=
  (tree.root :: tree.descendants tree.root).filter (tree.kind · = kind)

/-- The token kind of a terminal. -/
def tokenKind? (tree : Tree) (id : NodeId) : Option TokenKind := (tree.kind id).token?

def tokenText? (tree : Tree) (id : NodeId) : Option String :=
  (tree.tokenKind? id).map fun _ => (tree.node id).text

/-- The texts of all terminals from a node on down, without anything between them. -/
def text (tree : Tree) (id : NodeId) : String :=
  String.join ((id :: tree.descendants id).filterMap tree.tokenText?)

/-- Whether a node is headed by `ISNULL`. -/
def isGuardCall (tree : Tree) (id : NodeId) : Bool :=
  (tree.firstChild? id).bind tree.tokenKind? = some (.keyword .isNull)

/-- Whether a keyword stands among the children of a node. -/
def hasKeyword (tree : Tree) (id : NodeId) (word : Keyword) : Bool :=
  (tree.children id).any (tree.kind · = .terminal (.keyword word))

/-- The kind of a join; other nodes have none. `LEFT` comes before `RIGHT`, and `RIGHT` before
`FULL`; a join with none of them is an inner one. -/
def joinKind? (tree : Tree) (join : NodeId) : Option JoinKind :=
  if tree.kind join = .join then
    if tree.hasKeyword join .left then some .left
    else if tree.hasKeyword join .right then some .right
    else if tree.hasKeyword join .full then some .full
    else some .inner
  else
    none

/-- The alias that a data source binds: the last name in its first alias. -/
def sourceAlias? (tree : Tree) (source : NodeId) : Option String := do
  let clause ← tree.childOfKind? source .aliasClause
  let name ← (tree.children clause).reverse.find? (tree.kind · = .terminal .identifier)
  tree.tokenText? name

/-- The alias that qualifies a column. A column without a dot has none. -/
def tableAlias? (tree : Tree) (column : NodeId) : Option String :=
  match tree.children column with
  | qualifier :: _ :: _ :: _ => tree.tokenText? qualifier
  | _ => none

/-- The field that a column names. -/
def columnName? (tree : Tree) (column : NodeId) : Option String :=
  match tree.children column with
  | _ :: _ :: name :: _ => tree.tokenText? name
  | name :: _ => tree.tokenText? name
  | [] => none

end Tree

end NullGuard
