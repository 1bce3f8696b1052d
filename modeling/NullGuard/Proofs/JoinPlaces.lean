import NullGuard.Proofs.LintWalk

namespace NullGuard

/-- Whether the kind is a word for the side of a join, that of an inner join included. -/
def NodeKind.isJoinSide : NodeKind → Bool
  | terminal (.keyword .inner) | terminal (.keyword .left) | terminal (.keyword .right)
  | terminal (.keyword .full) => true
  | _ => false

/-- A join with all around it that its check looks for. -/
structure Tree.InPlace (tree : Tree) (join : NodeId) : Prop where
  /-- It hangs off a source. -/
  source : ∃ source, tree.parent join = some source ∧ join ∈ tree.children source ∧
    tree.kind source = .dataSource
  /-- It brings in one source. -/
  joined : (tree.childrenOfKind join .dataSource).length = 1
  /-- It has one condition. -/
  condition : (tree.childrenOfKind join .joinExpression).length = 1
  /-- The query that its aliases can be used in has one select list. -/
  query : ∃ query ∈ tree.ancestors join, (tree.kind query).isQuery = true ∧
    tree.enclosingQuery? join = some query ∧ (tree.childrenOfKind query .selectList).length = 1
  /-- It names one side at most. -/
  side : (tree.children join).countP (fun child => (tree.kind child).isJoinSide) ≤ 1

section Parts

variable {parts words : List Phrase}

/-- The words of a join are tokens, one at least, and one of them at most is a side. -/
lemma builds_joinWords_tokens (h : Builds .joinWords words) :
    words ≠ [] ∧ (∀ p ∈ words, p.kind.token? ≠ none) ∧ words.countP (·.kind.isJoinSide) ≤ 1 := by
  have hzero {token : Token} {word : Keyword} (h : token.kind = .keyword word)
      (hword : (NodeKind.terminal (.keyword word)).isJoinSide = false) :
      [Phrase.leaf token].countP (·.kind.isJoinSide) = 0 := by
    simp only [List.countP_singleton, Phrase.kind_leaf, h, hword, Bool.false_eq_true, if_false]
  simp only [Form.joinWords, builds_or, builds_append, builds_word, builds_opt] at h
  rcases h with ⟨join, hjoin, rfl⟩ | ⟨_, _, ⟨_, _, hside, houter, rfl⟩, ⟨join, hjoin, rfl⟩, rfl⟩
  · exact ⟨by simp, by simp [NodeKind.token?], List.countP_le_length⟩
  · obtain ⟨side, token, _, rfl⟩ := builds_joinSide hside
    have hone : [Phrase.leaf token].countP (·.kind.isJoinSide) ≤ 1 := List.countP_le_length
    rw [List.countP_append, List.countP_append, hzero hjoin rfl]
    rcases houter with rfl | ⟨outer, houter, rfl⟩
    · exact ⟨by simp, by simp [NodeKind.token?], hone⟩
    · rw [hzero houter rfl]
      exact ⟨by simp, by simp [NodeKind.token?], hone⟩

lemma Builds.join_counts (h : Builds .join [.node .join parts]) :
    parts.countP (·.kind = .dataSource) = 1 ∧ parts.countP (·.kind = .joinExpression) = 1 ∧
      parts.countP (·.kind.isJoinSide) ≤ 1 := by
  obtain ⟨words, on, condition, sourceParts, hwords, honkind, rfl⟩ := builds_join h
  obtain ⟨_, htokens, hside⟩ := builds_joinWords_tokens hwords
  have hnone (kind : NodeKind) (hkind : kind.token? = none) : words.countP (·.kind = kind) = 0 := by
    rw [List.countP_eq_zero]
    intro p hp heq
    rw [decide_eq_true_eq] at heq
    exact htokens p hp (heq ▸ hkind)
  simp only [List.countP_append, hnone .dataSource rfl, hnone .joinExpression rfl]
  simpa [honkind, NodeKind.isJoinSide] using hside

/-- There is a select list in every query, whatever its other clauses are. -/
lemma Builds.exists_selectList {into : Form} (h : Builds (.clauses into) parts) :
    ∃ p ∈ parts, p.kind = .selectList := by
  simp only [Form.clauses, builds_append] at h
  obtain ⟨_, _, ⟨_, _, ⟨_, _, ⟨_, _, ⟨_, _, ⟨_, _, ⟨front, list, _, hlist, rfl⟩, _, rfl⟩, _, rfl⟩, _,
    rfl⟩, _, rfl⟩, _, rfl⟩, _, rfl⟩ := h
  obtain ⟨fields, _, rfl⟩ := builds_node.mp hlist
  exact ⟨.node .selectList fields, by simp, rfl⟩

end Parts

lemma Construct.only_query (construct : Construct) :
    Form.Only .query (.node .query (.clauses .empty)) construct.form := by
  cases construct with
  | expression context => exact Form.only_of_avoids (by cases context <;> rfl)
  | statement =>
    have hquery : Form.Only .query (.node .query (.clauses .empty)) Form.query :=
      ⟨⟨fun _ => rfl, Form.only_of_avoids rfl⟩, Form.only_of_avoids rfl⟩
    exact ⟨by simp, hquery, Form.only_of_avoids rfl, Form.only_of_avoids rfl, hquery⟩
  | source => exact Form.only_of_avoids rfl

lemma Construct.only_temporaryTableQuery (construct : Construct) :
    Form.Only .temporaryTableQuery (.node .temporaryTableQuery (.clauses .temporaryTable))
      construct.form := by
  cases construct with
  | expression context => exact Form.only_of_avoids (by cases context <;> rfl)
  | statement =>
    have hquery : Form.Only .temporaryTableQuery
        (.node .temporaryTableQuery (.clauses .temporaryTable)) Form.query :=
      ⟨Form.only_of_avoids rfl, fun _ => rfl, Form.only_of_avoids rfl⟩
    exact ⟨by simp, hquery, Form.only_of_avoids rfl, Form.only_of_avoids rfl, hquery⟩
  | source => exact Form.only_of_avoids rfl

namespace Part

variable {parts : List Part} {id : Nat}

/-- The select list of a query is the only one. -/
lemma length_selectLists (h : ∀ part ∈ parts, part.Built)
    (hq : ((package parts).toTree.kind id).isQuery = true) :
    ((package parts).toTree.childrenOfKind id .selectList).length = 1 := by
  have hone {kind : NodeKind} {into : Form} (hkind : (package parts).toTree.kind id = kind)
      (hne : kind ≠ .package) (hnone : kind.token? = none) (honce : .selectList ∈ kind.once)
      (honly : ∀ construct : Construct, Form.Only kind (.node kind (.clauses into)) construct.form) :
      ((package parts).toTree.childrenOfKind id .selectList).length = 1 := by
    obtain ⟨qs, hhas, hshows⟩ := exists_shows hkind hne hnone
    obtain ⟨_, hqs, heq⟩ := builds_node.mp (package_has_node hne honly h hhas)
    obtain rfl := (Phrase.node.inj (List.singleton_inj.mp heq)).2
    obtain ⟨p, hp, hselect⟩ := hqs.exists_selectList
    have hpos : 0 < qs.countP (·.kind = .selectList) :=
      List.countP_pos_iff.mpr ⟨p, hp, by simpa using hselect⟩
    have hle := (shaped_package h).once (hkind ▸ honce)
    rw [hshows.length_childrenOfKind] at hle ⊢
    omega
  cases hkind : (package parts).toTree.kind id with
  | query => exact hone hkind (by simp) rfl (by simp [NodeKind.once]) Construct.only_query
  | temporaryTableQuery =>
    exact hone hkind (by simp) rfl (by simp [NodeKind.once]) Construct.only_temporaryTableQuery
  | _ => simp [hkind, NodeKind.isQuery] at hq

/-- All joins of a package are in place. -/
theorem inPlace_package (h : ∀ part ∈ parts, part.Built)
    (hj : (package parts).toTree.kind id = .join) : (package parts).toTree.InPlace id := by
  have hshaped := shaped_package h
  obtain ⟨qs, hhas, hshows⟩ := exists_shows hj (by simp) rfl
  obtain ⟨hsource, hcondition, hside⟩ :=
    (package_has_node (by simp) Construct.only_join h hhas).join_counts
  obtain ⟨source, hparent, hkind⟩ := hshaped.exists_source hj
  obtain ⟨query, hnearest⟩ := hshaped.exists_query hj
  have hsplit := hnearest
  obtain ⟨below, above, hancestors, hquery, _⟩ := hsplit
  refine ⟨⟨source, hparent, hshaped.child_of_parent hparent, hkind⟩, ?_, ?_,
    ⟨query, by simp [hancestors], hquery, Tree.enclosingQuery?_eq_some_iff.mpr hnearest,
      length_selectLists h hquery⟩, ?_⟩
  · rw [hshows.length_childrenOfKind, hsource]
  · rw [hshows.length_childrenOfKind, hcondition]
  · have hsides : ((package parts).toTree.children id).countP
          (fun child => ((package parts).toTree.kind child).isJoinSide) =
        (qs.map Phrase.kind).countP NodeKind.isJoinSide := by
      rw [← hshows.map_kind, List.countP_map]
      rfl
    rw [hsides, List.countP_map]
    exact hside

end Part

/-- The lint of a text always comes to its end, since all joins of all trees that are read are in
place. -/
theorem lint_completes :
    (∀ (config : Config) (source : String), (lint config source).report.error = none) ∧
      ∀ (scanned : List Diagnostic) (tokens : List Token) (tree : Tree),
        (parseTokens scanned tokens).tree = some tree →
          (∀ config, (tree.lint config).error = none) ∧
          ∀ join, tree.kind join = .join → tree.InPlace join := by
  have htree (scanned : List Diagnostic) (tokens : List Token) (tree : Tree)
      (h : (parseTokens scanned tokens).tree = some tree) :
      (∀ config, (tree.lint config).error = none) ∧
        ∀ join, tree.kind join = .join → tree.InPlace join := by
    refine ⟨fun config => ((Parsed.shaped_of_tree h).lint_eq config).1, fun join hj => ?_⟩
    rw [Parsed.eq_toTree_of_tree h] at hj ⊢
    exact Part.inPlace_package (Part.all_built _) hj
  refine ⟨fun config source => ?_, htree⟩
  unfold lint
  cases hparsed : (parse source).tree with
  | none => simp [hparsed]
  | some tree => simpa [hparsed] using (htree _ _ tree hparsed).1 config

/-- A text that is not read to its end, with a union, brackets and a query inside of another. -/
def brokenJoinText : String :=
  "SELECT 1 UNION SELECT (SELECT 2 FROM (t a FULL JOIN u ON 1)) ) ; SELECT"

theorem lint_completes_brokenJoinText : ∃ tree, (parse brokenJoinText).tree = some tree ∧
    (parse brokenJoinText).hasErrors = true ∧ tree.kind 32 = .join ∧ tree.InPlace 32 ∧
    (lint {} brokenJoinText).report.error = none := by
  have hread : ((parse brokenJoinText).hasErrors &&
      (parse brokenJoinText).tree.any fun tree => tree.kind 32 = .join) = true := by
    decide +kernel
  rw [Bool.and_eq_true, Option.any_eq_true] at hread
  obtain ⟨herrors, tree, htree, hj⟩ := hread
  rw [decide_eq_true_eq] at hj
  obtain ⟨hlint, htrees⟩ := lint_completes
  exact ⟨tree, htree, herrors, hj, (htrees _ _ tree htree).2 32 hj, hlint {} _⟩

end NullGuard
