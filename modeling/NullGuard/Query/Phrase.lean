import NullGuard.Tree.Builder

/-!
# Phrases

A phrase is what the grammar reads: a token, or a construct with its parts from left to right. Laid
out in a builder, its parts get their numbers before the phrase itself.
-/

namespace NullGuard

/-- A token, or a construct with its parts. -/
inductive Phrase where
  | leaf (token : Token)
  | node (kind : NodeKind) (parts : List Phrase)

mutual

/-- Lays a phrase out as nodes. -/
def Builder.lay (b : Builder) : Phrase → NodeId × Builder
  | .leaf token => b.token token
  | .node kind parts =>
    let (children, b) := b.layAll parts
    b.node kind children

/-- Lays phrases out one behind the other. -/
def Builder.layAll (b : Builder) : List Phrase → List NodeId × Builder
  | [] => ([], b)
  | phrase :: phrases =>
    let (id, b) := b.lay phrase
    let (ids, b) := b.layAll phrases
    (id :: ids, b)

end

end NullGuard
