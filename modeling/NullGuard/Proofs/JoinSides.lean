import NullGuard.Proofs.ScanChoice
import NullGuard.Proofs.TurnedTrees

/-!
# The sides of a join

What is met for an alias of a join does not depend on the sides of joins. A side says for which
aliases of its own join the check looks, so it changes what is found for no other join, and a full
join is checked as a left one and a right one together.
-/

namespace NullGuard

namespace Tree

section Faced

variable (tree : Tree) (id : NodeId)

lemma childOfKind?_faced (kind : NodeKind) (h : kind.isJoinSide = false) :
    tree.faced.childOfKind? id kind = tree.childOfKind? id kind := by
  simp [childOfKind?, NodeKind.face_eq_iff h]

lemma childrenOfKind_faced (kind : NodeKind) (h : kind.isJoinSide = false) :
    tree.faced.childrenOfKind id kind = tree.childrenOfKind id kind := by
  simp [childrenOfKind, NodeKind.face_eq_iff h]

@[simp]
lemma isGuardCall_faced : tree.faced.isGuardCall id = tree.isGuardCall id := by
  unfold isGuardCall firstChild?
  rw [children_faced, decide_eq_decide]
  have hkind (kind : TokenKind) : kind.face = .keyword .isNull ↔ kind = .keyword .isNull :=
    TokenKind.face_eq_iff rfl
  cases (tree.children id).head? with
  | none => simp
  | some child => simp [hkind]

@[simp]
lemma tokenText?_faced : tree.faced.tokenText? id = tree.tokenText? id := by
  simp only [tokenText?, tokenKind?_faced, node_faced, Option.map_map]
  rfl

@[simp]
lemma tableAlias?_faced : tree.faced.tableAlias? id = tree.tableAlias? id := by
  simp only [tableAlias?, children_faced, tokenText?_faced]

@[simp]
lemma sourceAlias?_faced : tree.faced.sourceAlias? id = tree.sourceAlias? id := by
  have hname (kind : NodeKind) : kind.face = .terminal .identifier ↔ kind = .terminal .identifier :=
    NodeKind.face_eq_iff rfl
  simp only [sourceAlias?, childOfKind?_faced _ _ .aliasClause rfl, children_faced, kind_faced,
    hname, tokenText?_faced]

@[simp]
lemma joinedAlias?_faced : tree.faced.joinedAlias? id = tree.joinedAlias? id := by
  have hsource : tree.faced.sourceAlias? = tree.sourceAlias? := funext tree.sourceAlias?_faced
  rw [joinedAlias?, childOfKind?_faced _ _ .dataSource rfl, hsource, joinedAlias?]

variable (region : Region)

@[simp]
lemma survey_faced : tree.faced.survey region id = tree.survey region id := by
  have hkind (id : NodeId) : (tree.kind id).face = region.statementKind ↔
      tree.kind id = region.statementKind := NodeKind.face_eq_iff (by cases region <;> rfl)
  have hwithin (depth : Nat) (id : NodeId) :
      tree.faced.surveyTo region depth id = tree.surveyTo region depth id := by
    induction depth generalizing id with
    | zero => rfl
    | succ depth ih =>
      simp only [surveyTo, children_faced, kind_faced, hkind, isGuardCall_faced, operandColumn?,
        childOfKind?_faced _ _ .statement rfl, childOfKind?_faced _ _ .column rfl, ih]
  rw [survey, hwithin, size_faced, survey]

@[simp]
lemma isGuarded_faced : tree.faced.isGuarded region id = tree.isGuarded region id := by
  have hstatement (kind : NodeKind) :
      kind.face = region.statementKind ↔ kind = region.statementKind :=
    NodeKind.face_eq_iff (by cases region <;> rfl)
  have hroot (kind : NodeKind) : kind.face = region.rootKind ↔ kind = region.rootKind :=
    NodeKind.face_eq_iff (by cases region <;> rfl)
  have hboundary (kind : NodeKind) : region.isBoundary kind.face = region.isBoundary kind := by
    simp only [Region.isBoundary, hstatement, hroot]
  have hwithin (ids : List NodeId) :
      tree.faced.guardedAlong region ids = tree.guardedAlong region ids := by
    induction ids with
    | nil => rfl
    | cons id ids ih =>
      simp only [guardedAlong, kind_faced, hboundary, hroot, children_faced, isGuardCall_faced, ih]
  rw [isGuarded, hwithin, ancestors_faced, isGuarded]

@[simp]
lemma references_faced (name : String) :
    tree.faced.references name region id = tree.references name region id := by
  have hreference (column : NodeId) : tree.faced.reference? name region column =
      tree.reference? name region column := by
    simp only [reference?, tableAlias?_faced, isGuarded_faced]
  simp only [references, guardsPassed, candidates, survey_faced, funext hreference]

lemma enclosingQuery?_faced : tree.faced.enclosingQuery? id = tree.enclosingQuery? id := by
  have hquery (kind : NodeKind) : kind.face.isQuery = kind.isQuery := by cases kind <;> rfl
  simp only [enclosingQuery?, ancestors_faced, kind_faced, hquery]

lemma regions_faced (config : Config) (join query : NodeId) :
    tree.faced.regions config join query = tree.regions config join query := by
  have hsource (kind : NodeKind) : kind.face = .dataSource ↔ kind = .dataSource :=
    NodeKind.face_eq_iff rfl
  have hcondition : tree.faced.joinExpression? = tree.joinExpression? :=
    funext fun join => tree.childOfKind?_faced join .joinExpression rfl
  simp only [regions, selectList?, whereExpression?, siblingJoins, hcondition, ancestors_faced,
    kind_faced, hsource, children_faced, childOfKind?_faced _ _ .selectList rfl,
    childOfKind?_faced _ _ .whereExpression rfl, childrenOfKind_faced _ _ .whereClause rfl,
    childrenOfKind_faced _ _ .join rfl]

/-- What is met for an alias does not depend on the sides of joins. -/
lemma aliasTrail_faced (config : Config) (join : NodeId) :
    tree.faced.aliasTrail config join = tree.aliasTrail config join := by
  funext name
  simp only [aliasTrail, enclosingQuery?_faced, regions_faced, references_faced]

end Faced

section Turned

variable {tree : Tree} {join other word : NodeId}

/-- What does not depend on the sides of joins does not change with one of them. -/
lemma turn_eq {β : Type} (f : Tree → β) (hf : ∀ tree, f tree.faced = f tree)
    (h : (tree.kind word).isJoinSide = true) (side : JoinKind) :
    f (tree.turn word side) = f tree := by
  rw [← hf, faced_turn h, hf]

lemma metColumns_turn (h : (tree.kind word).isJoinSide = true) (side : JoinKind) (join : NodeId)
    (names : List String) (config : Config) :
    (tree.turn word side).metColumns join names config = tree.metColumns join names config := by
  rw [metColumns, turn_eq (·.aliasTrail config join) (aliasTrail_faced · config join) h side,
    metColumns]

/-- The side of a join is the one that it is given. -/
lemma InPlace.joinKind?_turn (h : tree.InPlace join) (hj : tree.kind join = .join)
    (hword : word ∈ tree.children join) (hside : (tree.kind word).isJoinSide = true)
    (side : JoinKind) : (tree.turn word side).joinKind? join = some side := by
  have honly {child : NodeId} (hchild : child ∈ tree.children join)
      (hkind : (tree.kind child).isJoinSide = true) : word = child := by
    have hone := h.side
    have hmem : word ∈ (tree.children join).filter fun child => (tree.kind child).isJoinSide :=
      List.mem_filter.mpr ⟨hword, hside⟩
    have hmem' : child ∈ (tree.children join).filter fun child => (tree.kind child).isJoinSide :=
      List.mem_filter.mpr ⟨hchild, hkind⟩
    rw [List.countP_eq_length_filter] at hone
    rcases hlist : (tree.children join).filter fun child => (tree.kind child).isJoinSide with
      _ | ⟨d, _ | _⟩ <;> simp_all
  have hchildren := turn_eq (·.children join) (children_faced · join) hside side
  have hhas (keyword : Keyword)
      (hkeyword : (NodeKind.terminal (.keyword keyword)).isJoinSide = true) :
      (tree.turn word side).hasKeyword join keyword = decide (side.word = keyword) := by
    rw [Bool.eq_iff_iff, hasKeyword, List.any_eq_true, hchildren, decide_eq_true_iff]
    constructor
    · rintro ⟨child, hchild, hkind⟩
      rw [decide_eq_true_iff, kind_turn hside] at hkind
      split at hkind
      · cases hkind
        rfl
      case isFalse hne => exact absurd (honly hchild (hkind ▸ hkeyword)) hne
    · rintro rfl
      exact ⟨word, hword, by rw [kind_turn hside, if_pos rfl, decide_eq_true_iff]⟩
  have hne : word ≠ join := by
    rintro rfl
    rw [hj] at hside
    cases hside
  rw [joinKind?, kind_turn hside, if_neg hne, if_pos hj, hhas .left rfl, hhas .right rfl,
    hhas .full rfl]
  cases side <;> rfl

section Other

variable (h : tree.Shaped) (hword : word ∈ tree.children join)
  (hside : (tree.kind word).isJoinSide = true) (side : JoinKind)
include h hword hside

lemma Shaped.joinKind?_turn_of_ne (hother : other ≠ join) :
    (tree.turn word side).joinKind? other = tree.joinKind? other := by
  have hjoin : (tree.turn word side).kind other = .join ↔ tree.kind other = .join := by
    have hface : ((tree.turn word side).kind other).face = (tree.kind other).face := by
      rw [← kind_faced, faced_turn hside, kind_faced]
    rw [← NodeKind.face_eq_iff rfl, hface, NodeKind.face_eq_iff rfl]
  have hhas (keyword : Keyword) :
      (tree.turn word side).hasKeyword other keyword = tree.hasKeyword other keyword := by
    rw [Bool.eq_iff_iff, hasKeyword, hasKeyword, List.any_eq_true, List.any_eq_true,
      turn_eq (·.children other) (children_faced · other) hside side]
    refine exists_congr fun child => and_congr_right fun hchild => ?_
    rw [kind_turn hside, if_neg]
    rintro rfl
    exact hother (Option.some.inj ((h.parent_of_child hchild).symm.trans (h.parent_of_child hword)))
  simp only [joinKind?, hjoin, hhas]

lemma Shaped.nullableAliases_turn_of_ne (hother : other ≠ join) :
    (tree.turn word side).nullableAliases other = tree.nullableAliases other := by
  have hparent := turn_eq (·.parent other) (parent_faced · other) hside side
  have hspan := turn_eq (·.span other) (span_faced · other) hside side
  have hjoined := turn_eq (·.joinedAlias? other) (joinedAlias?_faced · other) hside side
  have houter (kind : JoinKind) :
      (tree.turn word side).outerAlias? other kind = tree.outerAlias? other kind := by
    simp only [outerAlias?, hparent, hspan]
    cases hat : tree.parent other with
    | none => rfl
    | some parent =>
      have hsource := turn_eq (·.sourceAlias? parent) (sourceAlias?_faced · parent) hside side
      have hne : word ≠ parent := by
        rintro rfl
        have htoken := NodeKind.isSome_of_isJoinSide hside
        rw [h.token?_eq_none (h.child_of_parent hat)] at htoken
        cases htoken
      simp only [Option.map_some, kind_turn hside, if_neg hne, hsource]
  simp only [nullableAliases, h.joinKind?_turn_of_ne hword hside side hother, houter, hjoined]

/-- No other node is checked differently. -/
lemma Shaped.checkJoin_turn_of_ne (hother : other ≠ join) (config : Config) :
    (tree.turn word side).checkJoin config other = tree.checkJoin config other := by
  have hkind := h.joinKind?_turn_of_ne hword hside side hother
  have htrail := turn_eq (·.aliasTrail config other) (aliasTrail_faced · config other) hside side
  have hspan (id : NodeId) := turn_eq (·.span id) (span_faced · id) hside side
  have hfinding : (tree.turn word side).reviewFinding? config other =
      tree.reviewFinding? config other := by
    funext review
    simp only [reviewFinding?, finding, hkind, hspan]
  simp only [checkJoin, reviewJoin, h.nullableAliases_turn_of_ne hword hside side hother, htrail,
    hkind, hfinding]

end Other

/-- The aliases that a join makes nullable, by its side. -/
lemma Shaped.exists_aliases_turn (h : tree.Shaped) (hplace : tree.InPlace join)
    (hj : tree.kind join = .join) (hword : word ∈ tree.children join)
    (hside : (tree.kind word).isJoinSide = true) : ∃ outer joined : List String,
      (tree.turn word .inner).nullableAliases join = .ok [] ∧
      (tree.turn word .left).nullableAliases join = .ok joined ∧
      (tree.turn word .right).nullableAliases join = .ok outer ∧
      (tree.turn word .full).nullableAliases join = .ok (outer ++ joined) := by
  obtain ⟨source, hsource, hkind⟩ := h.exists_source hj
  have hne : word ≠ source := by
    rintro rfl
    rw [hkind] at hside
    cases hside
  have houter (side kind : JoinKind) :
      (tree.turn word side).outerAlias? join kind = .ok (tree.sourceAlias? source) := by
    have hparent := turn_eq (·.parent join) (parent_faced · join) hside side
    have halias := turn_eq (·.sourceAlias? source) (sourceAlias?_faced · source) hside side
    simp [outerAlias?, hparent, hsource, kind_turn hside, hne, hkind, halias]
  have hjoined (side : JoinKind) :=
    turn_eq (·.joinedAlias? join) (joinedAlias?_faced · join) hside side
  refine ⟨(tree.sourceAlias? source).toList, (tree.joinedAlias? join).toList, ?_, ?_, ?_, ?_⟩ <;>
    simp only [nullableAliases, hplace.joinKind?_turn hj hword hside, houter, hjoined] <;> rfl

end Turned

end Tree

/-- A full join is a left one and a right one together. The word for the side of a join comes from
the token at one place. With the word for another side in this place the same tree is read, but for
the kind of that terminal, and the same is wrong. No other node is checked differently. Of the join
itself, no columns are reported if it is an inner one, and if it is a full one, those that are
reported if it is a left one and those that are reported if it is a right one. -/
theorem full_join_reports_both_sides (scanned : List Diagnostic) (tokens : List Token) (tree : Tree)
    (htree : (parseTokens scanned tokens).tree = some tree) (join word : NodeId)
    (hj : tree.kind join = .join) (hword : word ∈ tree.children join)
    (hside : (tree.kind word).isJoinSide = true) :
    ∃ place, (∀ other, tree.terminalOf? tokens other = some word ↔ other = place) ∧
      tokens[place]? = tree.token? word ∧
      (∀ side,
        (parseTokens scanned (Token.turn tokens place side)).tree = some (tree.turn word side) ∧
        (parseTokens scanned (Token.turn tokens place side)).diagnostics =
          (parseTokens scanned tokens).diagnostics ∧
        (tree.turn word side).joinKind? join = some side ∧
        ∀ config other, other ≠ join →
          (tree.turn word side).checkJoin config other = tree.checkJoin config other) ∧
      ∀ config, ∃ left right full : List NodeId,
        (tree.turn word .left).reported config join = .ok left ∧
        (tree.turn word .right).reported config join = .ok right ∧
        (tree.turn word .full).reported config join = .ok full ∧
        (∀ c, c ∈ full ↔ c ∈ left ∨ c ∈ right) ∧
        (tree.turn word .inner).reported config join = .ok [] ∧
        (tree.turn word .inner).checkJoin config join = .ok none := by
  have h := Parsed.shaped_of_tree htree
  have hinPlace : tree.InPlace join := by
    rw [Parsed.eq_toTree_of_tree htree] at hj ⊢
    exact Part.inPlace_package (Part.all_built _) hj
  obtain ⟨place, hplace, hunique⟩ :=
    Parsed.existsUnique_place htree (NodeKind.isSome_of_isJoinSide hside)
  have htoken : tokens[place]? = tree.token? word := by
    obtain ⟨before, token, after, rfl, rfl, -, -, htoken, -⟩ :=
      Parsed.exists_of_terminalOf? htree hplace
    simp [htoken]
  refine ⟨place, fun other => ⟨hunique other, fun hother => hother ▸ hplace⟩, htoken, ?_, ?_⟩
  · intro side
    obtain ⟨hread, hdiagnostics⟩ := parseTokens_turn htree hplace hside side
    exact ⟨hread, hdiagnostics, hinPlace.joinKind?_turn hj hword hside side,
      fun config other hother => h.checkJoin_turn_of_ne hword hside side hother config⟩
  · intro config
    obtain ⟨outer, joined, hinner, hleft, hright, hfull⟩ :=
      h.exists_aliases_turn hinPlace hj hword hside
    have hmet (side : JoinKind) (names : List String) :=
      Tree.metColumns_turn hside side join names config
    refine ⟨tree.metColumns join joined config, tree.metColumns join outer config,
      tree.metColumns join (outer ++ joined) config, ?_, ?_, ?_, ?_, ?_, ?_⟩
    · rw [Tree.reported_eq hleft, hmet]
    · rw [Tree.reported_eq hright, hmet]
    · rw [Tree.reported_eq hfull, hmet]
    · intro c
      simp only [Tree.mem_metColumns_iff, List.mem_append]
      grind
    · rw [Tree.reported_eq hinner]
      rfl
    · obtain ⟨events, hreview⟩ := Tree.reviewJoin_eq hinner config
      rw [Tree.checkJoin, hreview]
      rfl

/-- The tokens of `x; SELECT a.y, b.z FROM t a INNER JOIN u b ON 1`, in which the first statement
fails. -/
def sidedTokens : List Token :=
  [⟨.identifier, ⟨0, 1⟩, "x"⟩, ⟨.semicolon, ⟨1, 2⟩, ";"⟩, ⟨.keyword .select, ⟨3, 9⟩, "SELECT"⟩,
    ⟨.identifier, ⟨10, 11⟩, "a"⟩, ⟨.dot, ⟨11, 12⟩, "."⟩, ⟨.identifier, ⟨12, 13⟩, "y"⟩,
    ⟨.comma, ⟨13, 14⟩, ","⟩, ⟨.identifier, ⟨15, 16⟩, "b"⟩, ⟨.dot, ⟨16, 17⟩, "."⟩,
    ⟨.identifier, ⟨17, 18⟩, "z"⟩, ⟨.keyword .from_, ⟨19, 23⟩, "FROM"⟩,
    ⟨.identifier, ⟨24, 25⟩, "t"⟩, ⟨.identifier, ⟨26, 27⟩, "a"⟩,
    ⟨.keyword .inner, ⟨28, 33⟩, "INNER"⟩, ⟨.keyword .join, ⟨34, 38⟩, "JOIN"⟩,
    ⟨.identifier, ⟨39, 40⟩, "u"⟩, ⟨.identifier, ⟨41, 42⟩, "b"⟩, ⟨.keyword .on, ⟨43, 45⟩, "ON"⟩,
    ⟨.number, ⟨46, 47⟩, "1"⟩]

theorem full_join_reports_both_sides_sidedTokens : ∃ tree,
    (parseTokens [] sidedTokens).tree = some tree ∧ tree.kind 35 = .join ∧ 23 ∈ tree.children 35 ∧
    tree.terminalOf? sidedTokens 13 = some 23 ∧
    (∀ side, (parseTokens [] (Token.turn sidedTokens 13 side)).tree = some (tree.turn 23 side)) ∧
    (tree.turn 23 .left).reported {} 35 = .ok [13] ∧
    (tree.turn 23 .right).reported {} 35 = .ok [5] ∧
    ∃ full, (tree.turn 23 .full).reported {} 35 = .ok full ∧ 5 ∈ full ∧ 13 ∈ full := by
  have hread : (parseTokens [] sidedTokens).tree.isSome = true := by decide +kernel
  have hchecked : ((parseTokens [] sidedTokens).tree.all fun tree =>
      decide (tree.kind 35 = .join) && decide (23 ∈ tree.children 35) &&
        (tree.kind 23).isJoinSide && decide (tree.terminalOf? sidedTokens 13 = some 23) &&
        decide (((tree.turn 23 .left).reported {} 35).toOption = some [13]) &&
        decide (((tree.turn 23 .right).reported {} 35).toOption = some [5])) = true := by
    decide +kernel
  obtain ⟨tree, htree⟩ := Option.isSome_iff_exists.mp hread
  simp only [htree, Option.all_some, Bool.and_eq_true, decide_eq_true_eq] at hchecked
  obtain ⟨⟨⟨⟨⟨hj, hword⟩, hside⟩, hplace⟩, hleft⟩, hright⟩ := hchecked
  obtain ⟨place, hplaces, _, hturned, hreported⟩ :=
    full_join_reports_both_sides [] sidedTokens tree htree 35 23 hj hword hside
  obtain rfl := (hplaces 13).mp hplace
  obtain ⟨left, right, full, hleft', hright', hfull, hboth, _⟩ := hreported {}
  rw [hleft'] at hleft
  rw [hright'] at hright
  obtain rfl : left = [13] := Option.some.inj hleft
  obtain rfl : right = [5] := Option.some.inj hright
  exact ⟨tree, htree, hj, hword, hplace, fun side => (hturned side).1, hleft', hright', full, hfull,
    (hboth 5).mpr (by simp), (hboth 13).mpr (by simp)⟩

end NullGuard
