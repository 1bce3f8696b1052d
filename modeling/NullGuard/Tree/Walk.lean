import NullGuard.Tree.Basic

/-!
# Walks

A walk meets the nodes of a tree from the root on down, each before its children. What meets them
has a hook for every node and for queries, joins and columns; it carries a state along and says
after each hook how to go on.
-/

namespace NullGuard

/-- What a walk announces at a node. -/
inductive Hook where
  /-- Any node, before its own hook. -/
  | node
  | query
  | join
  | column
deriving DecidableEq

/-- The hook of a kind of nodes. -/
def NodeKind.hook? : NodeKind → Option Hook
  | query | temporaryTableQuery => some .query
  | join => some .join
  | column => some .column
  | _ => none

/-- How a walk goes on after a hook. -/
inductive Step (σ : Type) where
  /-- On to the children. -/
  | descend (state : σ)
  /-- Past the node and all below it. -/
  | skip (state : σ)
  /-- Not at all. -/
  | stop (state : σ)

/-- What meets the nodes of a walk. -/
abbrev Visitor (σ : Type) := Hook → NodeId → σ → Step σ

namespace Tree

variable {σ : Type}

/-- The walk from a node down to a depth. A walk that was stopped ends with the state as an
error. -/
def walkTo (tree : Tree) (visit : Visitor σ) : Nat → NodeId → σ → Except σ σ
  | 0, _, state => .ok state
  | depth + 1, id, state =>
    match visit .node id state with
    | .stop state => .error state
    | .skip state => .ok state
    | .descend state =>
      match (tree.kind id).hook? with
      | none => (tree.children id).foldlM (fun s child => walkTo tree visit depth child s) state
      | some hook =>
        match visit hook id state with
        | .stop state => .error state
        | .skip state => .ok state
        | .descend state =>
          (tree.children id).foldlM (fun s child => walkTo tree visit depth child s) state

def walk (tree : Tree) (visit : Visitor σ) (state : σ) : Except σ σ :=
  tree.walkTo visit tree.size tree.root state

end Tree

end NullGuard
