import NullGuard.Proofs.TreeEmbedding

namespace NullGuard

namespace Tree

/-- The join and the columns that a finding about a node is about, if there is one. -/
def flagged? (tree : Tree) (config : Config) (id : NodeId) : Option (NodeId × List NodeId) :=
  if tree.kind id = .join then
    match tree.reviewJoin config id with
    | .ok review => if review.columns.isEmpty then none else some (id, review.columns)
    | .error _ => none
  else none

/-- The joins that are reported, each with its columns, in the order of the text. -/
def flaggedJoins (tree : Tree) (config : Config) : List (NodeId × List NodeId) :=
  (tree.root :: tree.descendants tree.root).filterMap (tree.flagged? config)

/-- A finding is about a join and about the columns that the check of the join kept. -/
def Tells (tree : Tree) (config : Config) (flagged : NodeId × List NodeId) (finding : Diagnostic) :
    Prop :=
  tree.kind flagged.1 = .join ∧ ∃ review, tree.reviewJoin config flagged.1 = .ok review ∧
    review.columns = flagged.2 ∧
    finding = tree.finding config flagged.1 review.aliases review.columns

variable {tree tree' : Tree} {f : NodeId → NodeId} {same : String → String → Prop}
  {config : Config} {id : Nat}

lemma flagged?_of_review {review : JoinReview} (hj : tree.kind id = .join)
    (h : tree.reviewJoin config id = .ok review) :
    tree.flagged? config id =
      if review.columns.isEmpty then none else some (id, review.columns) := by
  rw [flagged?, if_pos hj, h]

lemma found?_of_review {review : JoinReview} (hj : tree.kind id = .join)
    (h : tree.reviewJoin config id = .ok review) :
    tree.found? config id = tree.reviewFinding? config id review := by
  rw [found?, if_pos hj, checkJoin, h]
  rfl

lemma flagged?_rel_found? (tree : Tree) (config : Config) (id : Nat) :
    Option.Rel (tree.Tells config) (tree.flagged? config id) (tree.found? config id) := by
  by_cases hj : tree.kind id = .join
  · cases hreview : tree.reviewJoin config id with
    | ok review =>
      rw [flagged?_of_review hj hreview, found?_of_review hj hreview, reviewFinding?]
      split
      · exact .none
      · exact .some ⟨hj, review, hreview, rfl, rfl⟩
    | error error =>
      rw [flagged?, found?, if_pos hj, if_pos hj, checkJoin, hreview]
      exact .none
  · rw [flagged?, found?, if_neg hj, if_neg hj]
    exact .none

/-- The findings of a tree are those about its reported joins, one for each. -/
theorem Shaped.forall₂_tells (h : tree.Shaped) (config : Config) :
    List.Forall₂ (tree.Tells config) (tree.flaggedJoins config) (tree.lint config).findings := by
  rw [(h.lint_eq config).2, flaggedJoins]
  refine List.rel_filterMap (R := Eq) (fun id id' hid => ?_) (List.forall₂_refl _)
  subst hid
  exact tree.flagged?_rel_found? config id

/-- A finding is about a join of a query and about all columns that are flagged for it, each of them
once; there is one at least. -/
lemma Shaped.of_found? (h : tree.Shaped) {join : Nat} {finding : Diagnostic}
    (hfound : tree.found? config join = some finding) :
    ∃ query review, tree.kind join = .join ∧ tree.Nearest NodeKind.isQuery join query ∧
      tree.reviewJoin config join = .ok review ∧ review.columns ≠ [] ∧ review.columns.Nodup ∧
      (∀ c, c ∈ review.columns ↔ tree.Flagged config join query c) ∧
      finding = tree.finding config join review.aliases review.columns := by
  have hj : tree.kind join = .join := by
    by_contra hne
    rw [found?, if_neg hne] at hfound
    cases hfound
  obtain ⟨query, hq⟩ := h.exists_query hj
  obtain ⟨review, hreview, hnodup, hcolumns⟩ := h.exists_review config hj hq
  rw [found?_of_review hj hreview, reviewFinding?] at hfound
  split at hfound
  case isTrue => cases hfound
  case isFalse hne =>
    rw [List.isEmpty_iff] at hne
    exact ⟨query, review, hj, hq, hreview, hne, hnodup, hcolumns, (Option.some.inj hfound).symm⟩

namespace Embeds

lemma descendants_map (h : tree.Embeds f same tree') (hid : tree.kind id ≠ .package) :
    tree'.descendants (f id) = (tree.descendants id).map f := by
  induction id using Nat.strongRecOn with
  | ind id ih =>
    rw [h.shaped'.descendants_eq, h.shaped.descendants_eq, h.children_eq hid, List.flatMap_map,
      List.map_flatMap]
    apply List.flatMap_congr
    intro child hchild
    rw [ih child (h.shaped.child_lt hchild) (h.shaped.kind_child_ne hchild), List.map_cons]

lemma flagged?_map (h : tree.Embeds f same tree') (hid : tree.kind id ≠ .package) :
    tree'.flagged? config (f id) = (tree.flagged? config id).map (Prod.map f (List.map f)) := by
  have hkind := h.kind_eq hid
  by_cases hj : tree.kind id = .join
  · obtain ⟨review, review', hreview, hreview', hcolumns, _⟩ := h.reviewJoin_map config hj
    rw [flagged?_of_review hj hreview, flagged?_of_review (hkind.trans hj) hreview', hcolumns]
    cases review.columns <;> rfl
  · rw [flagged?, flagged?, if_neg hj, hkind, if_neg hj, Option.map_none]

end Embeds

end Tree

/-- What is found in a text is found at a join of its tree. -/
lemma exists_found? {config : Config} {source : String} {finding : Diagnostic}
    (h : finding ∈ (lint config source).report.findings) :
    ∃ tree join, (parse source).tree = some tree ∧ tree.found? config join = some finding := by
  unfold lint at h
  cases htree : (parse source).tree with
  | none => simp [htree] at h
  | some tree =>
    have hfinding : finding ∈ (tree.lint config).findings := by simpa [htree] using h
    rw [((Parsed.shaped_of_tree htree).lint_eq config).2] at hfinding
    obtain ⟨join, _, hfound⟩ := List.mem_filterMap.mp hfinding
    exact ⟨tree, join, rfl, hfound⟩

end NullGuard
