import NullGuard.Proofs.JoinPlaces
import NullGuard.Proofs.NodeSpans
import NullGuard.Proofs.TreeOrder

namespace NullGuard

namespace Tree

/-- The children of a node take some bytes each, one behind the other and inside of the node. -/
structure Spread (tree : Tree) : Prop where
  filled : ∀ {id child : NodeId}, child ∈ tree.children id →
    (tree.span child).start < (tree.span child).stop
  within : ∀ {id child : NodeId}, child ∈ tree.children id →
    (tree.span child).Within (tree.span id)
  apart : ∀ id, (tree.children id).Pairwise fun a b => (tree.span a).stop ≤ (tree.span b).start

variable {tree : Tree} {id join a b c d : Nat}

namespace Spread

lemma filled_of_mem_ancestors (h : tree.Spread) (hwf : tree.WellFormed)
    (ha : a ∈ tree.ancestors d) : (tree.span d).start < (tree.span d).stop := by
  obtain ⟨parent, hp⟩ := exists_parent_of_mem_ancestors ha
  exact h.filled (hwf.child_of_parent hp)

/-- A node lies inside of all nodes above it. -/
lemma within_of_mem_ancestors (h : tree.Spread) (hwf : tree.WellFormed)
    (ha : a ∈ tree.ancestors d) : (tree.span d).Within (tree.span a) := by
  induction d using hwf.induction_up with
  | step d ih =>
    obtain ⟨parent, hp⟩ := exists_parent_of_mem_ancestors ha
    have hwithin := h.within (hwf.child_of_parent hp)
    rw [hwf.ancestors_of_parent hp] at ha
    rcases List.mem_cons.mp ha with rfl | ha
    · exact hwithin
    · obtain ⟨hstart, hstop⟩ := ih parent hp ha
      exact ⟨Nat.le_trans hstart hwithin.1, Nat.le_trans hwithin.2 hstop⟩

/-- Of two nodes below a node, the one that is met first is above the other one, or stops before the
other one starts. -/
lemma pairwise_descendants (h : tree.Spread) (hwf : tree.WellFormed) (id : Nat) :
    (tree.descendants id).Pairwise fun a b =>
      a ∈ tree.ancestors b ∨ (tree.span a).stop ≤ (tree.span b).start := by
  induction id using Nat.strongRecOn with
  | ind id ih =>
    have hinside (child d : Nat) (hd : d ∈ child :: tree.descendants child) :
        (tree.span d).Within (tree.span child) := by
      rcases List.mem_cons.mp hd with rfl | hd
      · exact ⟨Nat.le_refl _, Nat.le_refl _⟩
      · exact h.within_of_mem_ancestors hwf (hwf.mem_descendants_iff.mp hd)
    rw [hwf.descendants_eq id, List.pairwise_flatMap]
    refine ⟨fun child hchild => List.pairwise_cons.mpr ⟨fun d hd => ?_, ih child (hwf.child_lt hchild)⟩,
      (h.apart id).imp fun {first second} hapart a ha b hb => .inr ?_⟩
    · exact .inl (hwf.mem_descendants_iff.mp hd)
    · exact Nat.le_trans (hinside first a ha).2 (Nat.le_trans hapart (hinside second b hb).1)

end Spread

/-- Towards a node that is not a terminal, the way down goes through a child that is none. -/
lemma Shaped.exists_child_towards (h : tree.Shaped) (ha : a ∈ tree.ancestors d)
    (hd : (tree.kind d).token? = none) : ∃ child ∈ tree.children a,
      (tree.kind child).token? = none ∧ (child = d ∨ child ∈ tree.ancestors d) := by
  obtain ⟨below, above, hs⟩ := List.append_of_mem ha
  rcases below.eq_nil_or_concat with rfl | ⟨below, b, rfl⟩
  · exact ⟨d, h.mem_children_of_ancestors hs, hd, .inl rfl⟩
  · have hb : b ∈ tree.ancestors d := by simp [hs]
    rw [List.concat_eq_append, List.append_assoc, List.singleton_append] at hs
    obtain ⟨_, hbelow⟩ := h.exists_child_of_mem_ancestors hb
    exact ⟨b, h.mem_children_of_ancestors (h.ancestors_split hs), h.token?_eq_none hbelow, .inr hb⟩

/-- There is no column inside of a column. -/
lemma Shaped.not_mem_ancestors_of_column (h : tree.Shaped) (ha : tree.kind a = .column)
    (hb : tree.kind b = .column) : a ∉ tree.ancestors b := by
  intro hmem
  obtain ⟨child, hchild, hnone, _⟩ := h.exists_child_towards hmem (by rw [hb]; rfl)
  have hallows := h.allows hchild
  rw [ha] at hallows
  cases hkind : tree.kind child <;> simp [hkind, NodeKind.allows, NodeKind.token?] at hallows hnone

end Tree

namespace Part

variable {parts : List Part} {id : Nat}

/-- A join starts with a word. -/
lemma exists_join_word (h : ∀ part ∈ parts, part.Built)
    (hj : (package parts).toTree.kind id = .join) : ∃ word rest,
      (package parts).toTree.children id = word :: rest ∧
      ((package parts).toTree.kind word).token? ≠ none := by
  obtain ⟨qs, hhas, hshows⟩ := exists_shows hj (by simp) rfl
  obtain ⟨words, _, _, _, hwords, _, rfl⟩ :=
    builds_join (package_has_node (by simp) Construct.only_join h hhas)
  obtain ⟨hne, htokens, _⟩ := builds_joinWords_tokens hwords
  obtain ⟨p, words, rfl⟩ := List.exists_cons_of_ne_nil hne
  obtain ⟨word, rest, hchildren, hword, _⟩ := List.map_eq_cons_iff.mp hshows.map_kind
  exact ⟨word, rest, hchildren, hword ▸ htokens p List.mem_cons_self⟩

end Part

namespace Parsed

variable {source : String} {tree : Tree}

lemma spread_of_tree (h : (parse source).tree = some tree) : tree.Spread := by
  have hwf := (shaped_of_tree h).toWellFormed
  have hchild {id child : Nat} (hc : child ∈ tree.children id) :
      (tree.span child).start < (tree.span child).stop ∧
        (tree.span child).Within (tree.span id) := by
    have hp := hwf.parent_of_child hc
    have hroot : child ≠ tree.root := by
      rintro rfl
      rw [hwf.parent_root] at hp
      cases hp
    obtain ⟨parent, _, hparent, _, _, _, hfilled, hwithin⟩ :=
      exists_reach h (Tree.lt_size_of_parent hp) hroot
    obtain rfl := Option.some.inj (hp.symm.trans hparent)
    exact ⟨hfilled, hwithin⟩
  refine ⟨fun hc => (hchild hc).1, fun hc => (hchild hc).2, ?_⟩
  obtain ⟨ps, rfl, _, hsolid, hsub, _⟩ := exists_kept h
  exact Tree.pairwise_children hsolid ((Text.inOrder_tokens source.toList).of_sublist hsub)

/-- A join starts before the joins inside of it. -/
lemma start_lt_of_joins (h : (parse source).tree = some tree) {outer inner : Nat}
    (houter : tree.kind outer = .join) (hinner : tree.kind inner = .join)
    (hmem : outer ∈ tree.ancestors inner) : (tree.span outer).start < (tree.span inner).start := by
  have hshaped := shaped_of_tree h
  have hspread := spread_of_tree h
  obtain ⟨word, rest, hchildren, hword⟩ : ∃ word rest, tree.children outer = word :: rest ∧
      (tree.kind word).token? ≠ none := by
    rw [eq_toTree_of_tree h] at houter ⊢
    exact Part.exists_join_word (Part.all_built _) houter
  obtain ⟨child, hchild, hnone, hbelow⟩ :=
    hshaped.exists_child_towards hmem (by rw [hinner]; rfl)
  have hmem : word ∈ tree.children outer := by simp [hchildren]
  have hlater : child ∈ rest := by
    rw [hchildren] at hchild
    rcases List.mem_cons.mp hchild with rfl | hchild
    · exact absurd hnone hword
    · exact hchild
  have hapart := hspread.apart outer
  rw [hchildren] at hapart
  have hinside : (tree.span child).start ≤ (tree.span inner).start := by
    rcases hbelow with rfl | hbelow
    · exact Nat.le_refl _
    · exact (hspread.within_of_mem_ancestors hshaped.toWellFormed hbelow).1
  calc (tree.span outer).start
    _ ≤ (tree.span word).start := (hspread.within hmem).1
    _ < (tree.span word).stop := hspread.filled hmem
    _ ≤ (tree.span child).start := (List.pairwise_cons.mp hapart).1 child hlater
    _ ≤ (tree.span inner).start := hinside

/-- Joins are met in the order of their starts. -/
lemma pairwise_joins (h : (parse source).tree = some tree) :
    (tree.descendants tree.root).Pairwise fun a b => tree.kind a = .join → tree.kind b = .join →
      (tree.span a).start < (tree.span b).start := by
  have hwf := (shaped_of_tree h).toWellFormed
  have hspread := spread_of_tree h
  refine (hspread.pairwise_descendants hwf tree.root).imp_of_mem fun {a b} ha _ hab hja hjb => ?_
  rcases hab with habove | hapart
  · exact start_lt_of_joins h hja hjb habove
  · have hfilled := hspread.filled_of_mem_ancestors hwf (hwf.mem_descendants_iff.mp ha)
    exact Nat.lt_of_lt_of_le hfilled hapart

end Parsed

end NullGuard
