import Mathlib.Data.List.Perm.Basic
import NullGuard.Proofs.TreeShape

/-!
# The numbering of trees

The nodes of a tree that is read are numbered in the order in which they are complete: all that is
below a node comes right before it. `Tree.postorder` lists nodes in that order. What the layout of a
phrase says of its parts carries the numbering from the parts of a node to the node.
-/

namespace NullGuard

namespace Form

/-- Whether there is a token in each node that is made in the form. -/
def solid : Form → Bool
  | token _ | empty | call _ => true
  | seq first second | either first second | extended _ first second =>
    first.solid && second.solid
  | many item => item.solid
  | node _ parts => parts.filled && parts.solid
  | chain _ _ operand | led _ _ operand => operand.solid

end Form

lemma Construct.solid_form (construct : Construct) : construct.form.solid = true := by
  cases construct with
  | expression context => cases context <;> rfl
  | statement => rfl
  | source => rfl

namespace Phrase

/-- All constructs in the phrase have a part. -/
def Solid (p : Phrase) : Prop := ∀ kind parts, p.Has (.node kind parts) → parts ≠ []

lemma solid_leaf (token : Token) : (Phrase.leaf token).Solid := by
  intro kind parts hhas
  exact absurd hhas not_leaf_has_node

lemma solid_node {kind : NodeKind} {parts : List Phrase} :
    (Phrase.node kind parts).Solid ↔ parts ≠ [] ∧ ∀ p ∈ parts, p.Solid := by
  constructor
  · intro h
    constructor
    · exact h _ _ (.refl _)
    · intro p hp k qs hhas
      exact h k qs (.part hp hhas)
  · rintro ⟨hne, hparts⟩ k qs hhas
    cases hhas with
    | refl => exact hne
    | part hp hhas => exact hparts _ hp k qs hhas

lemma solid_chained {kind : NodeKind} {start : Phrase} {pairs : List (Token × Phrase)}
    (hstart : start.Solid) (hpairs : ∀ pair ∈ pairs, pair.2.Solid) :
    (chained kind start pairs).Solid := by
  induction pairs generalizing start with
  | nil => exact hstart
  | cons pair pairs ih =>
    have hpair := hpairs pair List.mem_cons_self
    apply ih
    · apply solid_node.mpr
      simp [hstart, hpair, solid_leaf]
    · intro other hother
      exact hpairs other (List.mem_cons_of_mem _ hother)

lemma solid_behind {kind : NodeKind} {operators : List Token} {inmost : Phrase}
    (h : inmost.Solid) : (behind kind operators inmost).Solid := by
  induction operators with
  | nil => exact h
  | cons operator operators ih =>
    have hparts : ∀ p ∈ [Phrase.leaf operator, behind kind operators inmost], p.Solid := by
      simp [solid_leaf, ih]
    exact solid_node.mpr ⟨by simp, hparts⟩

end Phrase

/-- All constructs in what a form of the grammar builds have a part. -/
lemma Builds.solid {form : Form} {ps : List Phrase} (h : Builds form ps)
    (hform : form.solid = true) : ∀ p ∈ ps, p.Solid := by
  induction h with
  | token _ => simpa using Phrase.solid_leaf _
  | empty => simp
  | seq _ _ iha ihb =>
    simp only [Form.solid, Bool.and_eq_true] at hform
    exact List.forall_mem_append.mpr ⟨iha hform.1, ihb hform.2⟩
  | first _ ih =>
    simp only [Form.solid, Bool.and_eq_true] at hform
    exact ih hform.1
  | second _ ih =>
    simp only [Form.solid, Bool.and_eq_true] at hform
    exact ih hform.2
  | many groups _ ih =>
    intro p hp
    obtain ⟨group, hgroup, hp⟩ := List.mem_flatten.mp hp
    exact ih group hgroup hform p hp
  | node h ih =>
    simp only [Form.solid, Bool.and_eq_true] at hform
    simp only [List.mem_singleton, forall_eq]
    apply Phrase.solid_node.mpr
    constructor
    · rintro rfl
      exact h.tokensAll_ne_nil hform.1 rfl
    · exact ih hform.2
  | chain start pairs _ _ _ ihstart ihright =>
    simp only [List.mem_singleton, forall_eq]
    apply Phrase.solid_chained
    · exact ihstart hform start List.mem_cons_self
    · intro pair hpair
      exact ihright pair hpair hform pair.2 List.mem_cons_self
  | led operators inmost _ _ ih =>
    simp only [List.mem_singleton, forall_eq]
    exact Phrase.solid_behind (ih hform inmost List.mem_cons_self)
  | plain _ _ ih _ =>
    simp only [Form.solid, Bool.and_eq_true] at hform
    exact ih hform.1
  | extended _ _ hne ih ihmore =>
    simp only [Form.solid, Bool.and_eq_true] at hform
    simp only [List.mem_singleton, forall_eq]
    apply Phrase.solid_node.mpr
    constructor
    · simp [hne]
    · exact List.forall_mem_append.mpr ⟨ih hform.1, ihmore hform.2⟩
  | call _ ih => exact ih (Construct.solid_form _)

lemma Part.Built.solid {part : Part} (h : part.Built) {p : Phrase} (hp : part.phrase? = some p) :
    p.Solid := by
  rcases h p hp with ⟨token, _, rfl⟩ | hbuilds
  · exact Phrase.solid_leaf token
  · exact hbuilds.solid rfl p List.mem_cons_self

namespace Tree

def postorderTo (tree : Tree) : Nat → NodeId → List NodeId
  | 0, id => [id]
  | depth + 1, id => (tree.children id).flatMap (postorderTo tree depth) ++ [id]

/-- The nodes from a node on down, each behind all that is below it. -/
def postorder (tree : Tree) (id : NodeId) : List NodeId := tree.postorderTo tree.size id

variable {tree : Tree}

lemma WellFormed.postorder_eq (h : tree.WellFormed) (id : Nat) :
    tree.postorder id = (tree.children id).flatMap tree.postorder ++ [id] := by
  by_cases hid : id < tree.size
  · have hstep : ∀ n m id,
        (∀ child ∈ tree.children id, tree.postorderTo n child = tree.postorderTo m child) →
        tree.postorderTo (n + 1) id = tree.postorderTo (m + 1) id := by
      intro n m id hchildren
      simp only [postorderTo, List.flatMap_congr hchildren]
    rw [postorder, h.at_size hstep hid]
    rfl
  · have hnil := children_of_size_le (Nat.le_of_not_lt hid)
    rw [postorder, hnil]
    cases tree.size with
    | zero => rfl
    | succ n => simp only [postorderTo, hnil, List.flatMap_nil]

/-- Nodes are met from the bottom up as often as from the top down. -/
lemma WellFormed.perm_postorder (h : tree.WellFormed) (id : Nat) :
    (id :: tree.descendants id).Perm (tree.postorder id) := by
  induction id using Nat.strongRecOn with
  | ind id ih =>
    have hbelow : (tree.descendants id).Perm ((tree.children id).flatMap tree.postorder) := by
      rw [h.descendants_eq id]
      apply List.Perm.flatMap_left
      intro child hchild
      exact ih child (h.child_lt hchild)
    rw [h.postorder_eq id]
    exact (hbelow.cons id).trans (List.perm_append_singleton id _).symm

end Tree

namespace Phrase

variable {tree : Tree}

mutual

/-- The nodes of a phrase are numbered from its base on, each behind all that is below it. -/
lemma Lies.postorder_eq (hwf : tree.WellFormed) (p : Phrase) {base : Nat} {parent : Option NodeId}
    (h : p.Lies tree.nodes.toList base parent) :
    tree.postorder (base + p.inside) = List.range' base p.size := by
  have hbelow : (tree.children (base + p.inside)).flatMap tree.postorder =
      List.range' base p.inside := by
    cases p with
    | leaf token =>
      rw [Tree.children, h.node_eq]
      rfl
    | node kind parts =>
      rw [inside, h.children_eq]
      exact LieAll.flatMap_postorder hwf parts h.parts
  rw [hwf.postorder_eq, hbelow, size, List.range'_1_concat]

lemma LieAll.flatMap_postorder (hwf : tree.WellFormed) (ps : List Phrase) {base : Nat}
    {parent : Option NodeId} (h : LieAll tree.nodes.toList base parent ps) :
    (numbers base ps).flatMap tree.postorder = List.range' base (sizeAll ps) := by
  cases ps with
  | nil => rfl
  | cons p ps =>
    rw [numbers, List.flatMap_cons, Lies.postorder_eq hwf p h.head,
      LieAll.flatMap_postorder hwf ps h.tail, sizeAll_cons, List.range'_append_1]

end

end Phrase

namespace NodeKind

lemma allows_package (kind : NodeKind) : kind.allows package = false := by
  cases kind <;> simp [allows, isBoundaryStatement]

end NodeKind

namespace Tree

def subtreeSize (tree : Tree) (id : NodeId) : Nat := (id :: tree.descendants id).length

/-- A tree whose links are right and whose numbers say where its nodes are: all below a node is
numbered right before it, and the package is the last node of all. -/
structure Numbered (tree : Tree) : Prop where
  root_last : tree.root + 1 = tree.size
  package_iff : ∀ id < tree.size, tree.kind id = .package ↔ id = tree.root
  parentless_iff : ∀ id < tree.size, tree.parent id = none ↔ id = tree.root
  child_iff : ∀ id child, child ∈ tree.children id ↔ tree.parent child = some id
  nodup_children : ∀ id, (tree.children id).Nodup
  children_ne_nil : ∀ id < tree.size, id ≠ tree.root → (tree.kind id).token? = none →
    tree.children id ≠ []
  subtree : ∀ id < tree.size, tree.subtreeSize id ≤ id + 1 ∧ (id :: tree.descendants id).Perm
    (List.range' (id + 1 - tree.subtreeSize id) (tree.subtreeSize id))
  postorder_root : tree.postorder tree.root = List.range tree.size

variable {tree : Tree}

/-- Only the root of a tree that is read is a package. -/
lemma Shaped.package_iff (h : tree.Shaped) {id : Nat} (hid : id < tree.size) :
    tree.kind id = .package ↔ id = tree.root := by
  constructor
  · intro hkind
    by_contra hne
    obtain ⟨parent, hparent⟩ := Option.isSome_iff_exists.mp (h.parent_of_ne_root id hid hne)
    have hallows := h.allows (h.child_of_parent hparent)
    rw [hkind, NodeKind.allows_package] at hallows
    cases hallows
  · rintro rfl
    exact h.kind_root

end Tree

/-- The tree of a package is numbered from the bottom up. -/
theorem Part.numbered_package {parts : List Part} (h : ∀ part ∈ parts, part.Built) :
    (package parts).toTree.Numbered := by
  have hshaped := shaped_package h
  have hwf := (package parts).toTree_wellFormed
  have hsize := (package parts).size_toTree
  have hlies := (package parts).lies_toTree
  refine ⟨?_, fun id => hshaped.package_iff, ?_, ?_, hwf.nodup_children, ?_, ?_, ?_⟩
  · exact hsize.symm
  · intro id hid
    constructor
    · intro hnone
      by_contra hne
      have hsome := hwf.parent_of_ne_root id hid hne
      rw [hnone] at hsome
      cases hsome
    · rintro rfl
      exact hwf.parent_root
  · intro id child
    exact ⟨hwf.parent_of_child, hwf.child_of_parent⟩
  · intro id hid hne hkind
    obtain ⟨q, hhas, hshows⟩ := Tree.exists_shows_toTree _ hid
    cases q with
    | leaf token =>
      rw [hshows.kind_eq] at hkind
      cases hkind
    | node kind qs =>
      -- the node is not the package, so it is in one of the parts, where no construct is empty
      have hother : NodeKind.package ≠ kind := by
        rintro rfl
        exact hne ((hshaped.package_iff hid).mp hshows.kind_eq)
      obtain ⟨p, hp, hhas⟩ := Phrase.has_node_of_ne hother hhas
      obtain ⟨part, hpart, hphrase⟩ := List.mem_filterMap.mp hp
      have hqs : qs ≠ [] := (h part hpart).solid hphrase kind qs hhas
      have hlength := hshows.length_children
      intro hnil
      rw [hnil] at hlength
      exact hqs (List.length_eq_zero_iff.mp hlength.symm)
  · intro id hid
    obtain ⟨q, base, parent, _, hq, rfl, _⟩ := (package parts).exists_lies_toTree hid
    have hperm := hwf.perm_postorder (base + q.inside)
    rw [Phrase.Lies.postorder_eq hwf q hq] at hperm
    have hlength : Tree.subtreeSize _ (base + q.inside) = q.inside + 1 :=
      hperm.length_eq.trans List.length_range'
    have hbase : base + q.inside + 1 - (q.inside + 1) = base := by omega
    rw [hlength, hbase]
    exact ⟨by omega, hperm⟩
  · have horder := Phrase.Lies.postorder_eq hwf _ hlies
    rw [Nat.zero_add] at horder
    rw [hsize, List.range_eq_range']
    exact horder

end NullGuard
