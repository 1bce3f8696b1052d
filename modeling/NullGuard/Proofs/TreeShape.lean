import NullGuard.Proofs.PackageTree

/-!
# The shape of trees that are read

What the grammar says of phrases, said of the nodes of a tree: which kinds of nodes hang off which,
which children are the only ones of their kind, and that a join has one side at most. All trees that
are read have this shape, and all that is proved of the check of joins rests on it alone.
-/

namespace NullGuard

/-- The words that make a join an outer one. -/
def Keyword.sides : List Keyword := [.left, .right, .full]

namespace Tree

/-- A tree whose nodes hang off each other as the grammar says. -/
structure Shaped (tree : Tree) : Prop extends tree.WellFormed where
  kind_root : tree.kind tree.root = .package
  allows : ∀ {id child : NodeId}, child ∈ tree.children id →
    (tree.kind id).allows (tree.kind child) = true
  token?_eq_none : ∀ {id child : NodeId}, child ∈ tree.children id → (tree.kind id).token? = none
  once : ∀ {id : NodeId} {kind : NodeKind}, kind ∈ (tree.kind id).once →
    (tree.childrenOfKind id kind).length ≤ 1
  single : ∀ {id : NodeId}, tree.kind id = .statement → (tree.children id).length = 1
  alone : ∀ {id child : NodeId}, child ∈ tree.children id → tree.kind child = .statement →
    (tree.children id).length = 1
  side : ∀ {id : NodeId}, tree.kind id = .join → ∀ v ∈ Keyword.sides, ∀ w ∈ Keyword.sides,
    tree.hasKeyword id v = true → tree.hasKeyword id w = true → v = w

variable {tree : Tree} {id child : Nat} {kind : NodeKind} {parts : List Phrase}

/-- The kinds of the children of a node are those of the parts of its phrase. -/
lemma Shows.map_kind (h : tree.Shows id (.node kind parts)) :
    (tree.children id).map tree.kind = parts.map Phrase.kind := by
  have hparts := h.parts
  generalize tree.children id = ids at hparts
  clear h
  induction hparts with
  | nil => rfl
  | cons hp _ ih => rw [List.map_cons, List.map_cons, hp.kind_eq, ih]

lemma Shows.length_children (h : tree.Shows id (.node kind parts)) :
    (tree.children id).length = parts.length := h.parts.length_eq

lemma Shows.length_childrenOfKind (h : tree.Shows id (.node kind parts)) (k : NodeKind) :
    (tree.childrenOfKind id k).length = parts.countP (·.kind = k) := by
  have hcount : ((tree.children id).map tree.kind).countP (· = k) =
      (parts.map Phrase.kind).countP (· = k) := by rw [h.map_kind]
  rw [childrenOfKind, ← List.countP_eq_length_filter]
  simpa only [List.countP_map, Function.comp_def] using hcount

lemma hasKeyword_iff (word : Keyword) :
    tree.hasKeyword id word = true ↔
      NodeKind.terminal (.keyword word) ∈ (tree.children id).map tree.kind := by
  simp [hasKeyword]

end Tree

lemma builds_joinSide {ps : List Phrase} (h : Builds .joinSide ps) :
    ∃ (side : Keyword) (token : Token), token.kind = .keyword side ∧ ps = [.leaf token] := by
  simp only [Form.joinSide, builds_or, builds_word] at h
  rcases h with ((h | h) | h) | h <;> exact ⟨_, h⟩

lemma builds_joinWords {words : List Phrase} (h : Builds .joinWords words) :
    ∃ side : Keyword, ∀ k ∈ words.map Phrase.kind, k = .terminal (.keyword side) ∨
      k = .terminal (.keyword .outer) ∨ k = .terminal (.keyword .join) := by
  simp only [Form.joinWords, builds_or, builds_append, builds_word, builds_opt] at h
  rcases h with ⟨join, hjoin, rfl⟩ | ⟨_, _, ⟨_, _, hside, houter, rfl⟩, ⟨join, hjoin, rfl⟩, rfl⟩
  · exact ⟨.join, by simp [hjoin]⟩
  · obtain ⟨side, token, hkind, rfl⟩ := builds_joinSide hside
    rcases houter with rfl | ⟨outer, houter, rfl⟩
    · exact ⟨side, by simp [hjoin, hkind]⟩
    · exact ⟨side, by simp [hjoin, hkind, houter]⟩

/-- What a join is made of. -/
lemma builds_join {parts : List Phrase} (h : Builds .join [.node .join parts]) :
    ∃ words on condition sourceParts, Builds .joinWords words ∧ on.kind = .keyword .on ∧
      parts = words ++ [.node .dataSource sourceParts, .leaf on, .node .joinExpression condition] := by
  simp only [Form.join, builds_node, List.cons.injEq, Phrase.node.injEq, true_and, and_true] at h
  obtain ⟨_, hparts, rfl⟩ := h
  obtain ⟨_, _, hfront, hcondition, rfl⟩ := builds_append.mp hparts
  obtain ⟨_, _, hhead, hon, rfl⟩ := builds_append.mp hfront
  obtain ⟨words, source, hwords, hsource, rfl⟩ := builds_append.mp hhead
  obtain ⟨condition, _, rfl⟩ := builds_node.mp hcondition
  obtain ⟨on, honkind, rfl⟩ := builds_word.mp hon
  obtain ⟨sourceParts, _, rfl⟩ := builds_node.mp (builds_call.mp hsource)
  exact ⟨words, on, condition, sourceParts, hwords, honkind, by simp⟩

/-- A join names one side at most. -/
lemma Builds.join_side {parts : List Phrase} (h : Builds .join [.node .join parts]) :
    ∃ side : Keyword, ∀ w ∈ Keyword.sides,
      NodeKind.terminal (.keyword w) ∈ parts.map Phrase.kind → w = side := by
  obtain ⟨words, on, condition, sourceParts, hwords, honkind, rfl⟩ := builds_join h
  obtain ⟨side, hside⟩ := builds_joinWords hwords
  have hother : ∀ w ∈ Keyword.sides, w ≠ .outer ∧ w ≠ .join ∧ w ≠ .on := by decide
  refine ⟨side, fun w hw hmem => ?_⟩
  obtain ⟨houter, hjoin, hne⟩ := hother w hw
  have hwords : NodeKind.terminal (.keyword w) ∈ words.map Phrase.kind := by
    simpa [honkind, hne] using hmem
  simpa [houter, hjoin] using hside _ hwords

namespace Part

/-- An inner node of the tree of a package, other than its root, shows a construct of its kind. -/
lemma exists_shows {parts : List Part} {id : Nat} {kind : NodeKind}
    (hk : (package parts).toTree.kind id = kind) (hne : kind ≠ .package)
    (hnone : kind.token? = none) :
    ∃ qs, (package parts).Has (.node kind qs) ∧ (package parts).toTree.Shows id (.node kind qs) := by
  obtain ⟨q, hhas, hshows⟩ := Tree.exists_shows_toTree _ (Tree.lt_size_of_kind (hk ▸ hne))
  cases q with
  | leaf token =>
    rw [← hk, hshows.kind_eq] at hnone
    cases hnone
  | node k qs =>
    obtain rfl : k = kind := hshows.kind_eq.symm.trans hk
    exact ⟨qs, hhas, hshows⟩

/-- A construct of a package is of a phrase that is built. -/
lemma exists_builds {kind : NodeKind} (hne : kind ≠ .package) {parts : List Part}
    (h : ∀ part ∈ parts, part.Built) {qs : List Phrase}
    (hhas : (package parts).Has (.node kind qs)) :
    ∃ p, Builds (.call .statement) [p] ∧ p.Has (.node kind qs) := by
  obtain ⟨p, hp, hhas⟩ := Phrase.has_node_of_ne (Ne.symm hne) hhas
  obtain ⟨part, hpart, hphrase⟩ := List.mem_filterMap.mp hp
  rcases h part hpart p hphrase with ⟨token, _, rfl⟩ | hbuilds
  · exact absurd hhas Phrase.not_leaf_has_node
  · exact ⟨p, hbuilds, hhas⟩

/-- A construct of a package is built by the only form that makes constructs of its kind. -/
lemma package_has_node {kind : NodeKind} {maker : Form} (hne : kind ≠ .package)
    (honly : ∀ construct : Construct, Form.Only kind maker construct.form) {parts : List Part}
    (h : ∀ part ∈ parts, part.Built) {qs : List Phrase}
    (hhas : (package parts).Has (.node kind qs)) : Builds maker [.node kind qs] := by
  obtain ⟨p, hbuilds, hhas⟩ := exists_builds hne h hhas
  exact hbuilds.has_node honly trivial p (by simp) hhas

/-- The tree of a package has the shape of the grammar. -/
theorem shaped_package {parts : List Part} (h : ∀ part ∈ parts, part.Built) :
    (package parts).toTree.Shaped := by
  have hregular := package_regular h
  generalize htree : (package parts).toTree = tree
  have hwf : tree.WellFormed := htree ▸ (package parts).toTree_wellFormed
  have hnode {id : Nat} (hid : id < tree.size) : (∃ token : Token, tree.Shows id (.leaf token)) ∨
      ∃ kind qs, (package parts).Has (.node kind qs) ∧ tree.Shows id (.node kind qs) ∧
        Regular kind qs := by
    subst htree
    obtain ⟨q, hhas, hshows⟩ := Tree.exists_shows_toTree _ hid
    cases q with
    | leaf token => exact .inl ⟨token, hshows⟩
    | node kind qs => exact .inr ⟨kind, qs, hhas, hshows, hregular kind qs hhas⟩
  have hchild {id child : Nat} (hc : child ∈ tree.children id) :
      ∃ kind qs, tree.Shows id (.node kind qs) ∧ Regular kind qs ∧
        ∃ q ∈ qs, q.kind = tree.kind child := by
    rcases hnode (Tree.lt_size_of_child hc) with ⟨token, hleaf⟩ | ⟨kind, qs, _, hshows, hreg⟩
    · rw [hleaf.leaf.1] at hc
      cases hc
    · have hmem : tree.kind child ∈ qs.map Phrase.kind :=
        hshows.map_kind ▸ List.mem_map_of_mem hc
      exact ⟨kind, qs, hshows, hreg, List.mem_map.mp hmem⟩
  have hkind {id : Nat} {kind : NodeKind} (hk : tree.kind id = kind) (hne : kind ≠ .package)
      (hnone : kind.token? = none) :
      ∃ qs, (package parts).Has (.node kind qs) ∧ tree.Shows id (.node kind qs) ∧
        Regular kind qs := by
    subst htree
    obtain ⟨qs, hhas, hshows⟩ := exists_shows hk hne hnone
    exact ⟨qs, hhas, hshows, hregular kind qs hhas⟩
  refine ⟨hwf, ?_, ?_, ?_, ?_, ?_, ?_, ?_⟩
  · rw [← htree]
    exact (Tree.shows_toTree (package parts)).kind_eq
  · intro id child hc
    obtain ⟨kind, qs, hshows, hreg, q, hq, hqkind⟩ := hchild hc
    rw [hshows.kind_eq, ← hqkind]
    exact hreg.allows q hq
  · intro id child hc
    obtain ⟨kind, qs, hshows, hreg, _⟩ := hchild hc
    rw [hshows.kind_eq]
    exact hreg.token?_eq_none
  · intro id k honce
    have hne : tree.kind id ≠ .package := by
      intro hk
      rw [hk] at honce
      cases honce
    rcases hnode (Tree.lt_size_of_kind hne) with ⟨token, hleaf⟩ | ⟨kind, qs, _, hshows, hreg⟩
    · rw [hleaf.kind_eq] at honce
      cases honce
    · rw [hshows.kind_eq] at honce
      rw [hshows.length_childrenOfKind]
      exact hreg.once k honce
  · intro id hk
    obtain ⟨qs, _, hshows, hreg⟩ := hkind hk (by simp) rfl
    rw [hshows.length_children, hreg.single rfl]
  · intro id child hc hk
    obtain ⟨kind, qs, hshows, hreg, q, hq, hqkind⟩ := hchild hc
    rw [hshows.length_children, hreg.alone q hq (hqkind.trans hk)]
  · intro id hk v hv w hw hasv hasw
    obtain ⟨qs, hhas, hshows, _⟩ := hkind hk (by simp) rfl
    obtain ⟨side, hside⟩ := (package_has_node (by simp) Construct.only_join h hhas).join_side
    rw [Tree.hasKeyword_iff, hshows.map_kind] at hasv hasw
    rw [hside v hv hasv, hside w hw hasw]

end Part

namespace Tree

variable {tree : Tree} {id : Nat}

/-- All but the package hang off another node. -/
lemma Shaped.exists_parent (h : tree.Shaped) (hk : tree.kind id ≠ .package) :
    ∃ parent, tree.parent id = some parent ∧ id ∈ tree.children parent ∧
      (tree.kind parent).allows (tree.kind id) = true := by
  have hne : id ≠ tree.root := by
    rintro rfl
    exact hk h.kind_root
  obtain ⟨parent, hp⟩ :=
    Option.isSome_iff_exists.mp (h.parent_of_ne_root id (lt_size_of_kind hk) hne)
  exact ⟨parent, hp, h.child_of_parent hp, h.allows (h.child_of_parent hp)⟩

end Tree

/-- All trees that are read have the shape of the grammar. -/
lemma Parsed.shaped_of_tree {scanned : List Diagnostic} {tokens : List Token} {tree : Tree}
    (h : (parseTokens scanned tokens).tree = some tree) : tree.Shaped := by
  rw [eq_toTree_of_tree h]
  exact Part.shaped_package (Part.all_built _)

end NullGuard
