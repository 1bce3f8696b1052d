import NullGuard.Proofs.Passage
import NullGuard.Proofs.TreeLinks

/-!
# The layout of a phrase

Laying a phrase out adds the nodes of its parts from left to right and then its own node, so that the
numbers of the nodes can be told from the phrase alone. `lay_eq` says which nodes are added; the
links are read off them, and a builder that laid out one phrase always finishes with a tree.
-/

namespace NullGuard

lemma exists_left_of_forall₂ {α β : Type*} {R : α → β → Prop} {as : List α} {bs : List β}
    (h : List.Forall₂ R as bs) : ∀ b ∈ bs, ∃ a ∈ as, R a b := by
  induction h with
  | nil => simp
  | cons hab _ ih =>
    refine List.forall_mem_cons.mpr ⟨⟨_, List.mem_cons_self, hab⟩, fun b hb => ?_⟩
    obtain ⟨a, ha, hab⟩ := ih b hb
    exact ⟨a, List.mem_cons_of_mem _ ha, hab⟩

lemma exists_right_of_forall₂ {α β : Type*} {R : α → β → Prop} {as : List α} {bs : List β}
    (h : List.Forall₂ R as bs) : ∀ a ∈ as, ∃ b ∈ bs, R a b :=
  exists_left_of_forall₂ h.flip

lemma map_eq_map_iff_forall₂ {α β γ : Type*} {f : α → γ} {g : β → γ} {as : List α} {bs : List β} :
    as.map f = bs.map g ↔ List.Forall₂ (fun a b => f a = g b) as bs := by
  rw [← List.forall₂_eq_eq_eq, List.forall₂_map_left_iff, List.forall₂_map_right_iff]

namespace Phrase

mutual

/-- The number of nodes below the node of a phrase. -/
def inside : Phrase → Nat
  | .leaf _ => 0
  | .node _ parts => sizeAll parts

def sizeAll : List Phrase → Nat
  | [] => 0
  | phrase :: phrases => phrase.inside + 1 + sizeAll phrases

end

def size (phrase : Phrase) : Nat := phrase.inside + 1

/-- The span of children, widened by one more child. -/
def widen (span : Option Span) (child : Span) : Option Span :=
  some ((span.map (·.cover child)).getD child)

mutual

def span : Phrase → Span
  | .leaf token => token.span
  | .node _ parts => (spanAll none parts).getD .zero

/-- A span of children, widened by all of the given phrases. -/
def spanAll (span : Option Span) : List Phrase → Option Span
  | [] => span
  | phrase :: phrases => spanAll (widen span phrase.span) phrases

end

/-- The numbers that phrases get when the next free one is `base`. -/
def numbers (base : Nat) : List Phrase → List NodeId
  | [] => []
  | phrase :: phrases => (base + phrase.inside) :: numbers (base + phrase.size) phrases

/-- The node of a phrase itself. -/
def top (base : Nat) (parent : Option NodeId) : Phrase → Node
  | .leaf token =>
    { kind := .terminal token.kind, span := token.span, parent := parent, text := token.text }
  | .node kind parts =>
    { kind := kind, span := (Phrase.node kind parts).span, parent := parent,
      children := numbers base parts }

mutual

def nodesBelow (base : Nat) : Phrase → List Node
  | .leaf _ => []
  | .node _ parts => layoutAll base (some (base + sizeAll parts)) parts

def layoutAll (base : Nat) (parent : Option NodeId) : List Phrase → List Node
  | [] => []
  | phrase :: phrases =>
    phrase.nodesBelow base ++ phrase.top base parent :: layoutAll (base + phrase.size) parent phrases

end

def layout (base : Nat) (parent : Option NodeId) (phrase : Phrase) : List Node :=
  phrase.nodesBelow base ++ [phrase.top base parent]

lemma sizeAll_cons (phrase : Phrase) (phrases : List Phrase) :
    sizeAll (phrase :: phrases) = phrase.size + sizeAll phrases := rfl

lemma layoutAll_cons (base : Nat) (parent : Option NodeId) (phrase : Phrase)
    (phrases : List Phrase) : layoutAll base parent (phrase :: phrases) =
      phrase.layout base parent ++ layoutAll (base + phrase.size) parent phrases := by
  simp only [layoutAll, layout, List.append_assoc, List.singleton_append]

mutual

lemma length_nodesBelow (base : Nat) (phrase : Phrase) :
    (phrase.nodesBelow base).length = phrase.inside := by
  cases phrase with
  | leaf token => rfl
  | node kind parts => exact length_layoutAll _ _ parts

lemma length_layoutAll (base : Nat) (parent : Option NodeId) (phrases : List Phrase) :
    (layoutAll base parent phrases).length = sizeAll phrases := by
  cases phrases with
  | nil => rfl
  | cons phrase phrases =>
    rw [layoutAll, List.length_append, List.length_cons, length_nodesBelow base phrase,
      length_layoutAll _ _ phrases, sizeAll]
    omega

end

lemma length_layout (base : Nat) (parent : Option NodeId) (phrase : Phrase) :
    (phrase.layout base parent).length = phrase.size := by
  rw [layout, List.length_append, length_nodesBelow, List.length_singleton, size]

end Phrase

namespace Builder

open Phrase

lemma adopt_eq {parent child : NodeId} {b : Builder} {span : Option Span} {node : Node}
    (hnode : b.nodes[child]? = some node) (hparent : node.parent = none) :
    adopt parent (b, span) child =
      ({ b with nodes := b.nodes.setIfInBounds child { node with parent := some parent } },
        widen span node.span) := by
  simp only [adopt, hnode, hparent, widen]

lemma top_none_parent (base : Nat) (phrase : Phrase) : (phrase.top base none).parent = none := by
  cases phrase <;> rfl

lemma top_with_parent (base : Nat) (parent : NodeId) (phrase : Phrase) :
    { phrase.top base none with parent := some parent } = phrase.top base (some parent) := by
  cases phrase <;> rfl

lemma top_span (base : Nat) (parent : Option NodeId) (phrase : Phrase) :
    (phrase.top base parent).span = phrase.span := by
  cases phrase <;> rfl

/-- Adopting the phrases that were laid out behind some nodes gives them their parent and covers
their spans. -/
lemma foldl_adopt (parent : NodeId) (problems : List ShapeError) (before : List Node)
    (phrases : List Phrase) (span : Option Span) :
    (numbers before.length phrases).foldl (adopt parent)
        (⟨(before ++ layoutAll before.length none phrases).toArray, problems⟩, span) =
      (⟨(before ++ layoutAll before.length (some parent) phrases).toArray, problems⟩,
        spanAll span phrases) := by
  induction phrases generalizing before span with
  | nil => rfl
  | cons phrase phrases ih =>
    have hlength : (before ++ phrase.layout before.length (some parent)).length =
        before.length + phrase.size := by
      rw [List.length_append, length_layout]
    have hnode : (before ++ layoutAll before.length none (phrase :: phrases)).toArray[
        before.length + phrase.inside]? = some (phrase.top before.length none) := by
      have hindex : before.length + phrase.inside =
          (before ++ phrase.nodesBelow before.length).length := by
        rw [List.length_append, length_nodesBelow]
      rw [layoutAll, ← List.append_assoc, List.getElem?_toArray, hindex,
        List.getElem?_append_right (Nat.le_refl _)]
      simp
    have hset : (before ++ layoutAll before.length none (phrase :: phrases)).set
        (before.length + phrase.inside) (phrase.top before.length (some parent)) =
        before ++ phrase.layout before.length (some parent) ++
          layoutAll (before.length + phrase.size) none phrases := by
      have hindex : before.length + phrase.inside =
          (before ++ phrase.nodesBelow before.length).length := by
        rw [List.length_append, length_nodesBelow]
      rw [layoutAll, ← List.append_assoc, hindex, List.set_append_right _ _ (Nat.le_refl _)]
      simp [layout]
    have hrest := ih (before ++ phrase.layout before.length (some parent))
      (widen span phrase.span)
    rw [hlength] at hrest
    rw [numbers, List.foldl_cons, adopt_eq hnode (top_none_parent _ _), top_with_parent, top_span]
    simp only [List.setIfInBounds_toArray, hset]
    rw [hrest, layoutAll_cons, List.append_assoc, spanAll]

mutual

/-- What laying out a phrase adds to a builder. -/
lemma lay_eq (b : Builder) (phrase : Phrase) :
    b.lay phrase = (b.nodes.size + phrase.inside,
      ⟨b.nodes ++ (phrase.layout b.nodes.size none).toArray, b.problems⟩) := by
  cases phrase with
  | leaf token => simp [lay, Builder.token, terminal, push, inside, layout, nodesBelow, top]
  | node kind parts =>
    have hadopt := foldl_adopt (b.nodes.size + sizeAll parts) b.problems b.nodes.toList parts none
    have hnodes : ∀ nodes : List Node, b.nodes ++ nodes.toArray = (b.nodes.toList ++ nodes).toArray :=
      fun nodes => by simp
    have hsize : ∀ parent, (b.nodes.toList ++ layoutAll b.nodes.size parent parts).toArray.size =
        b.nodes.size + sizeAll parts := by
      intro parent
      rw [List.size_toArray, List.length_append, Array.length_toList, length_layoutAll]
    rw [Array.length_toList] at hadopt
    rw [lay, layAll_eq b parts]
    simp only [Builder.node, hnodes, hsize, hadopt, push, inside, layout, nodesBelow, top, span,
      List.push_toArray, List.append_assoc]

/-- What laying out phrases one behind the other adds to a builder. -/
lemma layAll_eq (b : Builder) (phrases : List Phrase) :
    b.layAll phrases = (numbers b.nodes.size phrases,
      ⟨b.nodes ++ (layoutAll b.nodes.size none phrases).toArray, b.problems⟩) := by
  cases phrases with
  | nil => simp [layAll, numbers, layoutAll]
  | cons phrase phrases =>
    rw [layAll, lay_eq b phrase]
    simp only
    rw [layAll_eq _ phrases]
    simp only [Array.size_append, List.size_toArray, length_layout, numbers, layoutAll_cons,
      Array.append_assoc, List.append_toArray]

end

end Builder

/-- The nodes of a phrase lie in a list of nodes from a number on. -/
def Phrase.Lies (nodes : List Node) (base : Nat) (parent : Option NodeId) (p : Phrase) : Prop :=
  ∃ before after, nodes = before ++ p.layout base parent ++ after ∧ before.length = base

def Phrase.LieAll (nodes : List Node) (base : Nat) (parent : Option NodeId) (ps : List Phrase) :
    Prop :=
  ∃ before after, nodes = before ++ Phrase.layoutAll base parent ps ++ after ∧ before.length = base

namespace Phrase

variable {nodes : List Node} {base : Nat} {parent : Option NodeId} {p : Phrase} {ps : List Phrase}

lemma Lies.top (h : p.Lies nodes base parent) :
    nodes[base + p.inside]? = some (p.top base parent) := by
  obtain ⟨before, after, rfl, rfl⟩ := h
  have hindex : before.length + p.inside = (before ++ p.nodesBelow before.length).length := by
    rw [List.length_append, length_nodesBelow]
  rw [layout, ← List.append_assoc, List.append_assoc, hindex,
    List.getElem?_append_right (Nat.le_refl _)]
  simp

lemma Lies.parts {kind : NodeKind} (h : (Phrase.node kind ps).Lies nodes base parent) :
    LieAll nodes base (some (base + sizeAll ps)) ps := by
  obtain ⟨before, after, rfl, rfl⟩ := h
  exact ⟨before, [(Phrase.node kind ps).top before.length parent] ++ after,
    by simp [layout, nodesBelow], rfl⟩

lemma LieAll.head (h : LieAll nodes base parent (p :: ps)) : p.Lies nodes base parent := by
  obtain ⟨before, after, rfl, rfl⟩ := h
  exact ⟨before, layoutAll (before.length + p.size) parent ps ++ after,
    by simp [layoutAll_cons], rfl⟩

lemma LieAll.tail (h : LieAll nodes base parent (p :: ps)) :
    LieAll nodes (base + p.size) parent ps := by
  obtain ⟨before, after, rfl, rfl⟩ := h
  exact ⟨before ++ p.layout before.length parent, after, by simp [layoutAll_cons],
    by simp [length_layout]⟩

/-- A phrase is part of another, or the other itself. -/
inductive Has : Phrase → Phrase → Prop where
  | refl (p : Phrase) : Has p p
  | part {kind : NodeKind} {parts : List Phrase} {p q : Phrase} (hp : p ∈ parts) (h : Has p q) :
      Has (.node kind parts) q

lemma Has.trans {p q r : Phrase} (h : p.Has q) (h' : q.Has r) : p.Has r := by
  induction h with
  | refl => exact h'
  | part hp _ ih => exact .part hp (ih h')

/-- The tokens of a part stand together among those of the phrase. -/
lemma Has.isInfix_tokens {p q : Phrase} (h : p.Has q) : q.tokens <:+: p.tokens := by
  induction h with
  | refl p => exact List.infix_rfl
  | @part kind parts p q hp _ ih =>
    obtain ⟨before, after, rfl⟩ := List.append_of_mem hp
    refine ih.trans ⟨tokensAll before, tokensAll after, ?_⟩
    rw [tokens_node, tokensAll_append, tokensAll_cons, List.append_assoc]

/-- Phrases that lie one behind the other: each has its number, and the numbers rise. -/
lemma LieAll.mem {number : Nat} (h : LieAll nodes base parent ps)
    (hn : number ∈ numbers base ps) :
    ∃ p ∈ ps, ∃ base', p.Lies nodes base' parent ∧ number = base' + p.inside ∧
      base ≤ base' ∧ number < base + sizeAll ps := by
  induction ps generalizing base with
  | nil => cases hn
  | cons p ps ih =>
    rw [numbers, List.mem_cons] at hn
    rw [sizeAll_cons]
    rcases hn with rfl | hn
    · refine ⟨p, by simp, base, h.head, rfl, Nat.le_refl _, ?_⟩
      rw [size]
      omega
    · obtain ⟨q, hq, base', hlies, hnumber, hle, hlt⟩ := ih h.tail hn
      exact ⟨q, List.mem_cons_of_mem _ hq, base', hlies, hnumber, by omega, by omega⟩

lemma nodup_numbers (base : Nat) (ps : List Phrase) :
    (∀ number ∈ numbers base ps, base ≤ number) ∧ (numbers base ps).Nodup := by
  induction ps generalizing base with
  | nil => simp [numbers]
  | cons p ps ih =>
    obtain ⟨hle, hnodup⟩ := ih (base + p.size)
    rw [numbers]
    constructor
    · intro number hn
      rcases List.mem_cons.mp hn with rfl | hn
      · omega
      · have := hle number hn
        omega
    · refine List.nodup_cons.mpr ⟨fun hn => ?_, hnodup⟩
      have := hle _ hn
      rw [size] at this
      omega

/-- A number is that of a phrase, with a link to a parent that lies there. -/
def Linked (nodes : List Node) (id : NodeId) (parent : Option NodeId) : Prop :=
  ∃ kind parts base' parent', (Phrase.node kind parts).Lies nodes base' parent' ∧
    parent = some (base' + sizeAll parts) ∧ id ∈ numbers base' parts

mutual

/-- Every number from the base on up to the phrase's own is that of a phrase in it, and all but the
last have their parent there. -/
lemma Lies.cover (p : Phrase) {base : Nat} {parent : Option NodeId} (h : p.Lies nodes base parent)
    {id : Nat} (hlow : base ≤ id) (hhigh : id ≤ base + p.inside) :
    ∃ q base' parent', p.Has q ∧ q.Lies nodes base' parent' ∧ id = base' + q.inside ∧
      (id = base + p.inside ∧ parent' = parent ∨ Linked nodes id parent') := by
  cases p with
  | leaf token =>
    have hid : id = base := by
      rw [inside] at hhigh
      omega
    exact ⟨.leaf token, base, parent, .refl _, h, hid, .inl ⟨hid, rfl⟩⟩
  | node kind parts =>
    by_cases hid : id = base + sizeAll parts
    · exact ⟨.node kind parts, base, parent, .refl _, h, hid, .inl ⟨hid, rfl⟩⟩
    · rw [inside] at hhigh
      obtain ⟨p, hp, q, base', parent', hq, hlies, hnumber, hparent⟩ :=
        LieAll.cover parts h.parts hlow (by omega)
      refine ⟨q, base', parent', .part hp hq, hlies, hnumber, .inr ?_⟩
      rcases hparent with ⟨hmem, rfl⟩ | hlinked
      · exact ⟨kind, parts, base, parent, h, rfl, hmem⟩
      · exact hlinked

lemma LieAll.cover (ps : List Phrase) {base : Nat} {parent : Option NodeId}
    (h : LieAll nodes base parent ps) {id : Nat} (hlow : base ≤ id)
    (hhigh : id < base + sizeAll ps) :
    ∃ p ∈ ps, ∃ q base' parent', p.Has q ∧ q.Lies nodes base' parent' ∧ id = base' + q.inside ∧
      (id ∈ numbers base ps ∧ parent' = parent ∨ Linked nodes id parent') := by
  cases ps with
  | nil =>
    rw [sizeAll] at hhigh
    omega
  | cons p ps =>
    rw [sizeAll_cons, size] at hhigh
    by_cases hid : id ≤ base + p.inside
    · obtain ⟨q, base', parent', hq, hlies, hnumber, hparent⟩ := Lies.cover p h.head hlow hid
      refine ⟨p, by simp, q, base', parent', hq, hlies, hnumber, ?_⟩
      refine hparent.imp_left fun ⟨htop, hp⟩ => ⟨?_, hp⟩
      rw [htop, numbers]
      exact List.mem_cons_self
    · have htail := h.tail
      rw [size] at htail
      have hlow' : base + (p.inside + 1) ≤ id := by omega
      obtain ⟨r, hr, q, base', parent', hq, hlies, hnumber, hparent⟩ :=
        LieAll.cover ps htail hlow' (by omega)
      refine ⟨r, List.mem_cons_of_mem _ hr, q, base', parent', hq, hlies, hnumber, ?_⟩
      refine hparent.imp_left fun ⟨hmem, hp⟩ => ⟨?_, hp⟩
      rw [numbers]
      exact List.mem_cons_of_mem _ hmem

end

/-- The tree that a phrase is laid out as. -/
def toTree (p : Phrase) : Tree := ⟨(p.layout 0 none).toArray, p.inside⟩

lemma size_toTree (p : Phrase) : p.toTree.size = p.size := by
  rw [Tree.size, toTree, List.size_toArray, length_layout]

lemma lies_toTree (p : Phrase) : p.Lies p.toTree.nodes.toList 0 none :=
  ⟨[], [], by simp [toTree], rfl⟩

@[simp]
lemma top_parent (base : Nat) (parent : Option NodeId) (p : Phrase) :
    (p.top base parent).parent = parent := by
  cases p <;> rfl

@[simp]
lemma top_kind (base : Nat) (parent : Option NodeId) (p : Phrase) :
    (p.top base parent).kind = p.kind := by
  cases p <;> rfl

lemma Lies.node_eq {tree : Tree} (h : p.Lies tree.nodes.toList base parent) :
    tree.node (base + p.inside) = p.top base parent := by
  have htop := h.top
  rw [Array.getElem?_toList] at htop
  rw [Tree.node, htop]
  rfl

/-- The children of a node that is laid out are its parts. -/
lemma Lies.children_eq {tree : Tree} {kind : NodeKind}
    (h : (Phrase.node kind ps).Lies tree.nodes.toList base parent) :
    tree.children (base + sizeAll ps) = numbers base ps := by
  have hnode : tree.node (base + sizeAll ps) = _ := h.node_eq
  rw [Tree.children, hnode]
  rfl

lemma exists_lies_toTree (p : Phrase) {id : Nat} (h : id < p.toTree.size) :
    ∃ q base parent, p.Has q ∧ q.Lies p.toTree.nodes.toList base parent ∧ id = base + q.inside ∧
      (id = p.inside ∧ parent = none ∨ Linked p.toTree.nodes.toList id parent) := by
  rw [size_toTree, size] at h
  have hcover := Lies.cover p p.lies_toTree (Nat.zero_le id) (by omega)
  rwa [Nat.zero_add] at hcover

lemma toTree_child (p : Phrase) {id child : Nat} (h : child ∈ p.toTree.children id) :
    child < id ∧ p.toTree.parent child = some id := by
  obtain ⟨q, base, parent, _, hlies, rfl, _⟩ := p.exists_lies_toTree (Tree.lt_size_of_child h)
  cases q with
  | leaf token =>
    rw [Tree.children, hlies.node_eq] at h
    cases h
  | node kind parts =>
    rw [inside, hlies.children_eq] at h
    obtain ⟨r, _, base', hlies', rfl, _, hlt⟩ := hlies.parts.mem h
    refine ⟨hlt, ?_⟩
    rw [Tree.parent, hlies'.node_eq, top_parent]
    rfl

/-- A node is the last one, or a child of its parent. -/
lemma toTree_parent (p : Phrase) {id : Nat} (h : id < p.toTree.size) :
    id = p.inside ∧ p.toTree.parent id = none ∨
      ∃ parent, p.toTree.parent id = some parent ∧ id ∈ p.toTree.children parent := by
  obtain ⟨q, base, parent, _, hlies, rfl, hparent⟩ := p.exists_lies_toTree h
  rw [Tree.parent, hlies.node_eq, top_parent]
  refine hparent.imp id ?_
  rintro ⟨kind, parts, base', parent', hlies', rfl, hmem⟩
  refine ⟨_, rfl, ?_⟩
  rwa [hlies'.children_eq]

lemma nodup_children_toTree (p : Phrase) (id : NodeId) : (p.toTree.children id).Nodup := by
  by_cases hid : id < p.toTree.size
  · obtain ⟨q, base, parent, _, hlies, rfl, _⟩ := p.exists_lies_toTree hid
    rw [Tree.children, hlies.node_eq]
    cases q with
    | leaf token => exact List.nodup_nil
    | node kind parts => exact (nodup_numbers base parts).2
  · rw [Tree.children_of_size_le (Nat.le_of_not_lt hid)]
    exact List.nodup_nil

/-- The links of a tree that a phrase is laid out as are right. -/
theorem toTree_wellFormed (p : Phrase) : p.toTree.WellFormed where
  child_lt h := (p.toTree_child h).1
  parent_of_child h := (p.toTree_child h).2
  child_of_parent {parent child} hp := by
    rcases p.toTree_parent (Tree.lt_size_of_parent hp) with ⟨_, hnone⟩ | ⟨parent', hp', hmem⟩
    · rw [hnone] at hp
      cases hp
    · rw [hp] at hp'
      cases hp'
      exact hmem
  nodup_children := p.nodup_children_toTree
  root_lt := by
    change p.inside < p.toTree.size
    rw [size_toTree, size]
    omega
  parent_root := by
    have htop : p.toTree.node p.inside = p.top 0 none := by
      simpa using p.lies_toTree.node_eq
    change (p.toTree.node p.inside).parent = none
    rw [htop, top_parent]
  parent_of_ne_root id hid hne := by
    rcases p.toTree_parent hid with ⟨htop, _⟩ | ⟨parent, hp, _⟩
    · exact absurd htop hne
    · rw [hp]
      rfl

end Phrase

/-- A builder that laid out a phrase, and nothing else, finishes with the tree of the phrase. -/
theorem Builder.finish_lay (p : Phrase) :
    (({} : Builder).lay p).2.finish (({} : Builder).lay p).1 = .ok p.toTree := by
  have hlay := Builder.lay_eq {} p
  simp only [List.size_toArray, List.length_nil, Nat.zero_add, Array.empty_append] at hlay
  have hwf := p.toTree_wellFormed
  have hroot : (p.layout 0 none).toArray[p.inside]? = some (p.top 0 none) := by
    simpa [Phrase.toTree] using p.lies_toTree.top
  have hdetached : Builder.firstDetached? ⟨(p.layout 0 none).toArray, []⟩ p.inside = none := by
    rw [firstDetached?, List.find?_eq_none]
    intro id hid
    have hlt : id < p.toTree.size := List.mem_range.mp hid
    by_cases hne : id = p.inside
    · simp [hne]
    · have hsome := hwf.parent_of_ne_root id hlt hne
      have hnode : (p.layout 0 none).toArray[id]? = some (p.toTree.node id) := by
        rw [Tree.node, Array.getElem?_eq_getElem hlt]
        exact Array.getElem?_eq_getElem hlt
      rw [Tree.parent] at hsome
      simp only [hnode, Option.bind_some, Bool.and_eq_true, not_and]
      intro _
      simpa [Option.isSome_iff_ne_none] using hsome
  rw [hlay]
  simp only [finish, hroot, Phrase.top_parent, Option.isSome_none, Bool.false_eq_true, if_false,
    hdetached]
  rfl

namespace Tree

variable {tree : Tree} {id : Nat} {p : Phrase}

/-- The node is that of the phrase, and all below it are those of its parts. -/
def Shows (tree : Tree) (id : NodeId) (p : Phrase) : Prop :=
  ∃ base parent, p.Lies tree.nodes.toList base parent ∧ id = base + p.inside

lemma Shows.kind_eq (h : tree.Shows id p) : tree.kind id = p.kind := by
  obtain ⟨base, parent, hlies, rfl⟩ := h
  rw [Tree.kind, hlies.node_eq, Phrase.top_kind]

lemma Shows.span_eq (h : tree.Shows id p) : tree.span id = p.span := by
  obtain ⟨base, parent, hlies, rfl⟩ := h
  rw [Tree.span, hlies.node_eq, Builder.top_span]

lemma Shows.leaf {token : Token} (h : tree.Shows id (.leaf token)) :
    tree.children id = [] ∧ (tree.node id).text = token.text := by
  obtain ⟨base, parent, hlies, hid⟩ := h
  rw [Tree.children, hid, hlies.node_eq]
  exact ⟨rfl, rfl⟩

/-- The children of a node show the parts of its phrase, in order. -/
lemma Shows.parts {kind : NodeKind} {parts : List Phrase} (h : tree.Shows id (.node kind parts)) :
    List.Forall₂ tree.Shows (tree.children id) parts := by
  obtain ⟨base, parent, hlies, rfl⟩ := h
  rw [Phrase.inside, hlies.children_eq]
  have hparts := hlies.parts
  generalize some (base + Phrase.sizeAll parts) = parent' at hparts
  clear hlies
  induction parts generalizing base with
  | nil => exact .nil
  | cons p parts ih => exact .cons ⟨base, parent', hparts.head, rfl⟩ (ih _ hparts.tail)

lemma Shows.exists_part {kind : NodeKind} {parts : List Phrase} {child : Nat}
    (h : tree.Shows id (.node kind parts)) (hchild : child ∈ tree.children id) :
    ∃ q ∈ parts, tree.Shows child q :=
  exists_right_of_forall₂ h.parts child hchild

lemma shows_toTree (p : Phrase) : p.toTree.Shows p.toTree.root p :=
  ⟨0, none, p.lies_toTree, by simp [Phrase.toTree]⟩

lemma exists_shows_toTree (p : Phrase) (h : id < p.toTree.size) :
    ∃ q, p.Has q ∧ p.toTree.Shows id q := by
  obtain ⟨q, base, parent, hq, hlies, hid, _⟩ := p.exists_lies_toTree h
  exact ⟨q, hq, base, parent, hlies, hid⟩

end Tree

end NullGuard
