import NullGuard.Token.Basic
import NullGuard.Tree.Basic

/-!
# Building trees

A builder holds the nodes made so far. Children are made before their parent, which links them. What
goes wrong with the shape is kept until the tree is finished, so that making a node never fails, and
making nodes can be undone back to a checkpoint.
-/

namespace NullGuard

/-- Why nodes are not a tree. -/
inductive ShapeError where
  /-- A node has two parents. -/
  | shared (id : NodeId)
  /-- A node is named that was not made. -/
  | unknown (id : NodeId)
  /-- A node other than the root has no parent. -/
  | detached (id : NodeId)
  /-- The root has a parent. -/
  | rootHasParent (id : NodeId)
deriving DecidableEq

namespace ShapeError

/-- The node that the error is about. -/
def node : ShapeError → NodeId
  | shared id | unknown id | detached id | rootHasParent id => id

def message : ShapeError → String
  | shared id => "node " ++ id.display ++ " was attached to more than one parent"
  | unknown id => "node " ++ id.display ++ " was referenced but never created by this builder"
  | detached id => "node " ++ id.display ++ " has no parent and is not the root"
  | rootHasParent id => "root node " ++ id.display ++ " is attached to a parent"

/-- The code of the error in reports. -/
def code : ShapeError → String
  | shared _ => "syntax::shared_node"
  | unknown _ => "syntax::unknown_node"
  | detached _ => "syntax::detached_node"
  | rootHasParent _ => "syntax::root_has_parent"

end ShapeError

/-- The nodes made so far and the problems met so far. -/
structure Builder where
  nodes : Array Node := #[]
  problems : List ShapeError := []
deriving DecidableEq

/-- How far a builder had come. -/
structure Checkpoint where
  nodes : Nat
  problems : Nat
deriving DecidableEq

namespace Builder

/-- Adds a node under the next number. -/
def push (b : Builder) (node : Node) : NodeId × Builder :=
  (b.nodes.size, { b with nodes := b.nodes.push node })

def terminal (b : Builder) (kind : TokenKind) (span : Span) (text : String) : NodeId × Builder :=
  b.push { kind := .terminal kind, span := span, text := text }

def token (b : Builder) (token : Token) : NodeId × Builder :=
  b.terminal token.kind token.span token.text

def report (b : Builder) (problem : ShapeError) : Builder :=
  { b with problems := b.problems ++ [problem] }

/-- Links a child to its parent, and widens the span of the parent's children by the child's. A
child that is unknown or has a parent is a problem and changes nothing else. -/
def adopt (parent : NodeId) (state : Builder × Option Span) (child : NodeId) :
    Builder × Option Span :=
  let (b, span) := state
  match b.nodes[child]? with
  | none => (b.report (.unknown child), span)
  | some node =>
    match node.parent with
    | some _ => (b.report (.shared child), span)
    | none =>
      ({ b with nodes := b.nodes.setIfInBounds child { node with parent := some parent } },
        some ((span.map (·.cover node.span)).getD node.span))

/-- Adds an inner node. It spans its children; without any it is empty at offset zero. -/
def node (b : Builder) (kind : NodeKind) (children : List NodeId) : NodeId × Builder :=
  let (b, span) := children.foldl (adopt b.nodes.size) (b, none)
  b.push { kind := kind, span := span.getD .zero, children := children }

def checkpoint (b : Builder) : Checkpoint := ⟨b.nodes.size, b.problems.length⟩

/-- A node without a parent among the nodes from `bound` on. -/
def release (bound : Nat) (node : Node) : Node :=
  match node.parent with
  | some parent => if bound ≤ parent then { node with parent := none } else node
  | none => node

/-- Drops what was made since a checkpoint. Older nodes that a dropped node had adopted have no
parent again. -/
def rollback (b : Builder) (c : Checkpoint) : Builder where
  nodes := (b.nodes.take c.nodes).map (release c.nodes)
  problems := b.problems.take c.problems

/-- The first node other than the root that has no parent. -/
def firstDetached? (b : Builder) (root : NodeId) : Option NodeId :=
  (List.range b.nodes.size).find? fun id =>
    id ≠ root && (b.nodes[id]?.bind Node.parent).isNone

/-- The tree with the given root, if all nodes made are one tree. -/
def finish (b : Builder) (root : NodeId) : Except ShapeError Tree :=
  match b.problems with
  | problem :: _ => .error problem
  | [] =>
    match b.nodes[root]? with
    | none => .error (.unknown root)
    | some node =>
      if node.parent.isSome then .error (.rootHasParent root)
      else
        match b.firstDetached? root with
        | some id => .error (.detached id)
        | none => .ok ⟨b.nodes, root⟩

end Builder

end NullGuard
