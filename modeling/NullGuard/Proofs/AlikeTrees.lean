import NullGuard.Proofs.PackageLockstep
import NullGuard.Proofs.Repair
import NullGuard.Proofs.Replay
import NullGuard.Proofs.TreeEmbedding

namespace NullGuard

/-- What a relation between tokens keeps if trees can be told apart by texts and spans alone. -/
structure Token.Carries (R : Token → Token → Prop) (same : String → String → Prop)
    (moved : Span → Span → Prop) : Prop where
  kind_eq : ∀ {a b}, R a b → a.kind = b.kind
  text : ∀ {a b}, R a b → a.kind = .identifier → same a.text b.text
  span : ∀ {a b}, R a b → moved a.span b.span
  cover : ∀ {s s' t t' : Span}, moved s s' → moved t t' → moved (s.cover t) (s'.cover t')

/-- Nodes that are alike: the same links under new numbers, and texts and spans that go together. -/
structure Node.Alike (f : NodeId → NodeId) (same : String → String → Prop)
    (moved : Span → Span → Prop) (x y : Node) : Prop where
  kind_eq : y.kind = x.kind
  parent_eq : y.parent = x.parent.map f
  children_eq : y.children = x.children.map f
  text : x.kind = .terminal .identifier → x.children = [] → same x.text y.text
  span : moved x.span y.span

namespace Phrase

variable {R : Token → Token → Prop} {same : String → String → Prop} {moved : Span → Span → Prop}
  {f : NodeId → NodeId}

mutual

lemma Alike.inside_eq {p q : Phrase} (h : p.Alike R q) : q.inside = p.inside := by
  cases h with
  | leaf _ => rfl
  | node hparts => exact Alike.sizeAll_eq hparts

lemma Alike.sizeAll_eq {ps qs : List Phrase} (h : List.Forall₂ (Alike R) ps qs) :
    sizeAll qs = sizeAll ps := by
  cases h with
  | nil => rfl
  | cons hfirst hrest =>
    rw [sizeAll_cons, sizeAll_cons, Alike.sizeAll_eq hrest, size, size, Alike.inside_eq hfirst]

end

lemma Alike.numbers_eq {ps qs : List Phrase} (h : List.Forall₂ (Alike R) ps qs) {base moves : Nat}
    (hf : ∀ i, base ≤ i → i < base + sizeAll ps → f i = i + moves) :
    numbers (base + moves) qs = (numbers base ps).map f := by
  induction h generalizing base with
  | nil => rfl
  | @cons p q ps qs hfirst _ ih =>
    rw [sizeAll_cons, size] at hf
    have hfirst' : base + moves + q.inside = f (base + p.inside) := by
      rw [hf _ (by omega) (by omega), hfirst.inside_eq, Nat.add_right_comm]
    have hrest : base + moves + q.size = base + p.size + moves := by
      rw [size, size, hfirst.inside_eq, Nat.add_right_comm]
    rw [numbers, numbers, List.map_cons, hfirst', hrest, ih]
    intro i hi hlt
    rw [size] at hi hlt
    exact hf i (by omega) (by omega)

mutual

lemma Alike.span_rel (hR : Token.Carries R same moved) {p q : Phrase} (h : p.Alike R q)
    (hp : p.Solid) : moved p.span q.span := by
  cases h with
  | leaf htoken => exact hR.span htoken
  | @node kind ps qs hparts =>
    obtain ⟨hne, hsolid⟩ := solid_node.mp hp
    cases hparts with
    | nil => exact absurd rfl hne
    | @cons p q ps qs hfirst hrest =>
      have hstart := Alike.span_rel hR hfirst (hsolid p List.mem_cons_self)
      obtain ⟨t, t', ht, ht', hmoved⟩ := Alike.spanAll_rel hR hrest
        (fun r hr => hsolid r (List.mem_cons_of_mem _ hr)) hstart
      simp only [span, spanAll, widen, Option.map_none, Option.getD_none, ht, ht', Option.getD_some]
      exact hmoved

lemma Alike.spanAll_rel (hR : Token.Carries R same moved) {ps qs : List Phrase}
    (h : List.Forall₂ (Alike R) ps qs) (hps : ∀ p ∈ ps, p.Solid) {s s' : Span} (hs : moved s s') :
    ∃ t t', spanAll (some s) ps = some t ∧ spanAll (some s') qs = some t' ∧ moved t t' := by
  cases h with
  | nil => exact ⟨s, s', rfl, rfl, hs⟩
  | @cons p q ps qs hfirst hrest =>
    have hnext := hR.cover hs (Alike.span_rel hR hfirst (hps p List.mem_cons_self))
    exact Alike.spanAll_rel hR hrest (fun r hr => hps r (List.mem_cons_of_mem _ hr)) hnext

end

lemma Alike.kind_eq (hR : Token.Carries R same moved) {p q : Phrase} (h : p.Alike R q) :
    q.kind = p.kind := by
  cases h with
  | leaf htoken => rw [kind_leaf, kind_leaf, hR.kind_eq htoken]
  | node _ => rfl

lemma Alike.top_alike (hR : Token.Carries R same moved) {p q : Phrase} (h : p.Alike R q)
    (hp : p.Solid) {base moves : Nat} {parent : Option NodeId}
    (hf : ∀ i, base ≤ i → i < base + p.inside → f i = i + moves) :
    Node.Alike f same moved (p.top base parent) (q.top (base + moves) (parent.map f)) where
  kind_eq := by rw [top_kind, top_kind, h.kind_eq hR]
  parent_eq := by rw [top_parent, top_parent]
  children_eq := by
    cases h with
    | leaf _ => rfl
    | node hparts => exact Alike.numbers_eq hparts hf
  text := by
    intro hkind hchildren
    cases h with
    | leaf htoken => exact hR.text htoken (by simpa [top] using hkind)
    | node hparts =>
      cases hparts with
      | nil => exact absurd rfl (solid_node.mp hp).1
      | cons => simp [top, numbers] at hchildren
  span := by
    rw [Builder.top_span, Builder.top_span]
    exact h.span_rel hR hp

mutual

/-- The nodes of alike phrases are alike, under numbers that are moved. -/
lemma Alike.nodesBelow_alike (hR : Token.Carries R same moved) {p q : Phrase} (h : p.Alike R q)
    (hp : p.Solid) {base moves : Nat}
    (hf : ∀ i, base ≤ i → i ≤ base + p.inside → f i = i + moves) :
    List.Forall₂ (Node.Alike f same moved) (p.nodesBelow base) (q.nodesBelow (base + moves)) := by
  cases h with
  | leaf _ => exact .nil
  | @node kind ps qs hparts =>
    have hbelow := Alike.layoutAll_alike hR hparts (solid_node.mp hp).2 (some (base + sizeAll ps))
      fun i hi hlt => hf i hi (Nat.le_of_lt hlt)
    have hroot : f (base + sizeAll ps) = base + moves + sizeAll qs := by
      rw [hf (base + sizeAll ps) (Nat.le_add_right _ _) (Nat.le_refl _), Nat.add_right_comm,
        Alike.sizeAll_eq hparts]
    rw [Option.map_some, hroot] at hbelow
    exact hbelow

lemma Alike.layoutAll_alike (hR : Token.Carries R same moved) {ps qs : List Phrase}
    (h : List.Forall₂ (Alike R) ps qs) (hps : ∀ p ∈ ps, p.Solid) {base moves : Nat}
    (parent : Option NodeId) (hf : ∀ i, base ≤ i → i < base + sizeAll ps → f i = i + moves) :
    List.Forall₂ (Node.Alike f same moved) (layoutAll base parent ps)
      (layoutAll (base + moves) (parent.map f) qs) := by
  cases h with
  | nil => exact .nil
  | @cons p q ps qs hfirst hrest =>
    rw [sizeAll_cons, size] at hf
    have hsolid := hps p List.mem_cons_self
    have hsize : base + moves + q.size = base + p.size + moves := by
      rw [size, size, hfirst.inside_eq, Nat.add_right_comm]
    rw [layoutAll, layoutAll, hsize]
    refine List.rel_append ?_ (.cons ?_ ?_)
    · exact Alike.nodesBelow_alike hR hfirst hsolid fun i hi hle => hf i hi (by omega)
    · exact hfirst.top_alike hR hsolid fun i hi hlt => hf i hi (by omega)
    · refine Alike.layoutAll_alike hR hrest (fun r hr => hps r (List.mem_cons_of_mem _ hr)) parent ?_
      intro i hi hlt
      rw [size] at hi hlt
      exact hf i (by omega) (by omega)

end

lemma layoutAll_append (base : Nat) (parent : Option NodeId) (ps qs : List Phrase) :
    layoutAll base parent (ps ++ qs) =
      layoutAll base parent ps ++ layoutAll (base + sizeAll ps) parent qs := by
  induction ps generalizing base with
  | nil => rfl
  | cons p ps ih =>
    rw [List.cons_append, layoutAll_cons, ih, layoutAll_cons, sizeAll_cons, List.append_assoc,
      Nat.add_assoc]

lemma numbers_append (base : Nat) (ps qs : List Phrase) :
    numbers base (ps ++ qs) = numbers base ps ++ numbers (base + sizeAll ps) qs := by
  induction ps generalizing base with
  | nil => rfl
  | cons p ps ih =>
    rw [List.cons_append, numbers, ih, numbers, sizeAll_cons, List.cons_append, Nat.add_assoc]

lemma sizeAll_append (ps qs : List Phrase) : sizeAll (ps ++ qs) = sizeAll ps + sizeAll qs := by
  induction ps with
  | nil => exact (Nat.zero_add _).symm
  | cons p ps ih => rw [List.cons_append, sizeAll_cons, ih, sizeAll_cons, Nat.add_assoc]

lemma LieAll.append {nodes : List Node} {base : Nat} {parent : Option NodeId} {ps qs : List Phrase}
    (h : LieAll nodes base parent (ps ++ qs)) :
    LieAll nodes base parent ps ∧ LieAll nodes (base + sizeAll ps) parent qs := by
  obtain ⟨before, after, rfl, rfl⟩ := h
  rw [layoutAll_append]
  constructor
  · exact ⟨before, layoutAll (before.length + sizeAll ps) parent qs ++ after,
      by simp only [List.append_assoc], rfl⟩
  · exact ⟨before ++ layoutAll before.length parent ps, after, by simp only [List.append_assoc],
      by rw [List.length_append, length_layoutAll]⟩

/-- Where the nodes of a package are found in a tree in which its phrases lie `moves` numbers further
on, below the node `parent`. -/
def relocate (ps : List Phrase) (moves parent : Nat) (id : NodeId) : NodeId :=
  if id = sizeAll ps then parent else id + moves

section Relocated

variable {ps qs : List Phrase} {moves parent : Nat}

lemma relocate_root (ps : List Phrase) (moves parent : Nat) :
    relocate ps moves parent (sizeAll ps) = parent := if_pos rfl

lemma relocate_of_lt {id : Nat} (h : id < sizeAll ps) : relocate ps moves parent id = id + moves :=
  if_neg (Nat.ne_of_lt h)

lemma relocate_injective (hparent : sizeAll ps + moves ≤ parent) {a b : Nat} (ha : a ≤ sizeAll ps)
    (hb : b ≤ sizeAll ps) (h : relocate ps moves parent a = relocate ps moves parent b) :
    a = b := by
  have hother {i : Nat} (hi : i < sizeAll ps) :
      relocate ps moves parent i < relocate ps moves parent (sizeAll ps) := by
    rw [relocate_of_lt hi, relocate_root]
    exact (by omega : i + moves < parent)
  rcases Nat.lt_or_eq_of_le ha with ha | ha <;> rcases Nat.lt_or_eq_of_le hb with hb | hb
  · rw [relocate_of_lt ha, relocate_of_lt hb] at h
    exact Nat.add_right_cancel h
  · have hlt := hother ha
    rw [h, hb] at hlt
    exact absurd hlt (Nat.lt_irrefl _)
  · have hlt := hother hb
    rw [← h, ha] at hlt
    exact absurd hlt (Nat.lt_irrefl _)
  · rw [ha, hb]

lemma LieAll.getElem?_layoutAll {tree : Tree} {base : Nat} {parent : Option NodeId}
    (h : LieAll tree.nodes.toList base parent ps) {i : Nat} (hi : i < sizeAll ps) :
    (layoutAll base parent ps)[i]? = some (tree.node (i + base)) := by
  obtain ⟨before, after, hnodes, rfl⟩ := h
  rw [← length_layoutAll before.length parent] at hi
  have hnode : tree.nodes[i + before.length]? = some (layoutAll before.length parent ps)[i] := by
    rw [← Array.getElem?_toList, hnodes, List.append_assoc,
      List.getElem?_append_right (Nat.le_add_left _ _), Nat.add_sub_cancel,
      List.getElem?_append_left hi, List.getElem?_eq_getElem hi]
  rw [Tree.node, hnode, List.getElem?_eq_getElem hi, Option.getD_some]

lemma children_package (ps : List Phrase) :
    (Phrase.node .package ps).toTree.children (sizeAll ps) = numbers 0 ps := by
  simpa using (Phrase.node .package ps).lies_toTree.children_eq

/-- The phrases of a package lie below its root. -/
lemma lieAll_package (ps : List Phrase) :
    LieAll (Phrase.node .package ps).toTree.nodes.toList 0 (some (sizeAll ps)) ps := by
  simpa using (Phrase.node .package ps).lies_toTree.parts

/-- The nodes of a package are alike where alike phrases lie in another tree. -/
lemma Alike.node_alike (hR : Token.Carries R same moved) (h : List.Forall₂ (Alike R) ps qs)
    (hps : ∀ p ∈ ps, p.Solid) {tree : Tree} (hqs : LieAll tree.nodes.toList moves (some parent) qs)
    {id : Nat} (hid : id < sizeAll ps) :
    Node.Alike (relocate ps moves parent) same moved ((Phrase.node .package ps).toTree.node id)
      (tree.node (relocate ps moves parent id)) := by
  have hmoves (i : Nat) (_ : 0 ≤ i) (hi : i < 0 + sizeAll ps) :
      relocate ps moves parent i = i + moves := relocate_of_lt (by omega)
  have hnodes := Alike.layoutAll_alike hR h hps (some (sizeAll ps)) hmoves
  rw [Option.map_some, relocate_root, Nat.zero_add] at hnodes
  have hleft := (lieAll_package ps).getElem?_layoutAll hid
  obtain ⟨node, hnode, halike⟩ := forall₂_getElem? hnodes hleft
  have hright := hqs.getElem?_layoutAll (by rwa [Alike.sizeAll_eq h] : id < _)
  rw [hnode] at hright
  rw [relocate_of_lt hid, ← Option.some.inj hright]
  exact halike

end Relocated

end Phrase

lemma Builds.column_head {parts : List Phrase} (h : Builds .column [.node .column parts]) :
    ∃ (token : Token) (rest : List Phrase), token.kind = .identifier ∧
      parts = .leaf token :: rest := by
  obtain ⟨_, hparts, heq⟩ := builds_node.mp h
  obtain ⟨_, _, hfirst, _, rfl⟩ := builds_append.mp hparts
  obtain ⟨token, hkind, rfl⟩ := builds_tok.mp hfirst
  obtain ⟨_, rfl⟩ := Phrase.node.inj (List.singleton_inj.mp heq)
  exact ⟨token, _, hkind, rfl⟩

namespace Arranged

variable {ps qs before behind : List Phrase}

lemma built (h : Arranged ps) : ∀ part ∈ ps.map Part.statement, part.Built := by
  induction h with
  | nil => simp
  | separator hkind _ ih =>
    rw [List.map_cons, List.forall_mem_cons]
    refine ⟨?_, ih⟩
    rintro p ⟨⟩
    exact .inl ⟨_, hkind, rfl⟩
  | statement hp _ _ ih =>
    rw [List.map_cons, List.forall_mem_cons]
    refine ⟨?_, ih⟩
    rintro p ⟨⟩
    exact .inr hp

lemma package_statements (ps : List Phrase) :
    Part.package (ps.map .statement) = .node .package ps := by
  rw [Part.package, List.filterMap_map]
  exact congrArg _ (List.filterMap_some)

lemma shaped (h : Arranged ps) : (Phrase.node .package ps).toTree.Shaped :=
  package_statements ps ▸ Part.shaped_package h.built

lemma solid (h : Arranged ps) : ∀ p ∈ ps, p.Solid := by
  intro p hp
  exact (h.built (.statement p) (List.mem_map_of_mem hp)).solid rfl

/-- A column begins with a name. -/
lemma kind_qualifier (h : Arranged ps) {c q : Nat}
    (hc : (Phrase.node .package ps).toTree.kind c = .column)
    (hq : ((Phrase.node .package ps).toTree.children c).head? = some q) :
    (Phrase.node .package ps).toTree.kind q = .terminal .identifier := by
  have hlt : c < (Phrase.node .package ps).toTree.size := Tree.lt_size_of_kind (by simp [hc])
  obtain ⟨shown, hhas, hshows⟩ := Tree.exists_shows_toTree _ hlt
  cases shown with
  | leaf token =>
    rw [hshows.leaf.1] at hq
    cases hq
  | node kind parts =>
    obtain rfl : kind = .column := hshows.kind_eq.symm.trans hc
    obtain ⟨p, hp, hhas⟩ := Phrase.has_node_of_ne (by simp) hhas
    obtain ⟨token, rest, hkind, rfl⟩ := (h.columnsBuilt p hp parts hhas).column_head
    have hparts := hshows.parts
    generalize (Phrase.node .package ps).toTree.children c = children at hq hparts
    cases hparts with
    | cons hfirst _ =>
      obtain rfl := Option.some.inj hq
      rw [hfirst.kind_eq, Phrase.kind_leaf, hkind]

/-- A package lies in any tree in which alike phrases lie one behind the other. -/
theorem embeds {R : Token → Token → Prop} {same : String → String → Prop}
    {moved : Span → Span → Prop} (hR : Token.Carries R same moved)
    (hsame : ∀ {a b a' b' : String}, same a a' → same b b' →
      Text.sameIgnoringCase a b = Text.sameIgnoringCase a' b')
    (hps : Arranged ps) (h : List.Forall₂ (Phrase.Alike R) ps qs) {tree : Tree} (htree : tree.Shaped)
    {moves parent : Nat} (hqs : Phrase.LieAll tree.nodes.toList moves (some parent) qs)
    (hparent : Phrase.sizeAll ps + moves ≤ parent) :
    (Phrase.node .package ps).toTree.Embeds (Phrase.relocate ps moves parent) same tree ∧
      ∀ id, (Phrase.node .package ps).toTree.kind id ≠ .package →
        moved ((Phrase.node .package ps).toTree.span id)
          (tree.span (Phrase.relocate ps moves parent id)) := by
  have hshaped := hps.shaped
  have hlt {id : Nat} (hid : (Phrase.node .package ps).toTree.kind id ≠ .package) :
      id < Phrase.sizeAll ps := by
    have hsize := Tree.lt_size_of_kind hid
    have hne : id ≠ Phrase.sizeAll ps := mt (hshaped.package_iff hsize).mpr hid
    rw [Phrase.size_toTree, Phrase.size, Phrase.inside] at hsize
    omega
  have hnode {id : Nat} (hid : (Phrase.node .package ps).toTree.kind id ≠ .package) :=
    Phrase.Alike.node_alike hR h hps.solid hqs (hlt hid)
  refine ⟨⟨hshaped, htree, ?_, fun hid => (hnode hid).kind_eq,
    fun hid => (hnode hid).parent_eq, fun hid => (hnode hid).children_eq, ?_, hps.kind_qualifier,
    hsame⟩, fun id hid => (hnode hid).span⟩
  · intro a b ha hb
    rw [Phrase.size_toTree, Phrase.size, Phrase.inside] at ha hb
    exact Phrase.relocate_injective hparent (by omega) (by omega)
  · intro id hid
    apply (hnode (by simp [hid])).text hid
    rw [List.eq_nil_iff_forall_not_mem]
    intro child hchild
    have htoken := hshaped.token?_eq_none hchild
    rw [hid] at htoken
    cases htoken

end Arranged

end NullGuard
