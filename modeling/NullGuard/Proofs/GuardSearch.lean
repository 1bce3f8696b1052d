import NullGuard.Proofs.LintOrder
import NullGuard.Proofs.NestedQueries

namespace NullGuard

namespace Tree

variable {tree : Tree} {region : Region} {id root c : Nat} {below above : List NodeId}

section Upwards

/-- The search for a guard finds one that comes before the root kind of its region. -/
lemma guardedAlong_eq_true {nodes rest : List NodeId} {guard : NodeId}
    (hnodes : ∀ b ∈ nodes ++ [guard], tree.kind b ≠ region.rootKind)
    (hchildren : ∀ b ∈ nodes ++ [guard], tree.kind b = region.statementKind → tree.children b ≠ [])
    (hkind : tree.kind guard = region.statementKind) (hguard : tree.isGuardCall guard = true) :
    tree.guardedAlong region (nodes ++ guard :: rest) = true := by
  induction nodes with
  | nil =>
    exact guardedAlong_cons_iff.mpr
      ⟨hnodes guard (by simp), hchildren guard (by simp), .inl (isGuard_iff.mpr ⟨hkind, hguard⟩)⟩
  | cons b nodes ih =>
    have hrest := ih (fun x hx => hnodes x (List.mem_cons_of_mem b hx))
      (fun x hx => hchildren x (List.mem_cons_of_mem b hx))
    exact guardedAlong_cons_iff.mpr ⟨hnodes b (by simp), hchildren b (by simp), .inr hrest⟩

/-- Above a node at which the search for a guard ends is a query, and no expression before it. -/
lemma Shaped.exists_query_of_rootKind (h : tree.Shaped) (hid : tree.kind id = region.rootKind) :
    ∃ below query above, tree.ancestors id = below ++ query :: above ∧
      (tree.kind query).isQuery = true ∧
      ∀ b ∈ below, (tree.kind b).isQuery = false ∧ (tree.kind b).isBoundaryStatement = false := by
  cases region with
  | select =>
    obtain ⟨list, hp, _, hallows⟩ := h.exists_parent (by rw [hid]; simp [Region.rootKind])
    rw [hid] at hallows
    have hlist : tree.kind list = .selectList := NodeKind.eq_selectList_of_allows hallows
    obtain ⟨query, above, hs, hquery⟩ := h.ancestors_of_clause (by rw [hlist]; rfl)
    refine ⟨[list], query, above, by rw [h.ancestors_of_parent hp, hs]; rfl, hquery, ?_⟩
    simp [hlist, NodeKind.isQuery, NodeKind.isBoundaryStatement]
  | filter =>
    obtain ⟨query, above, hs, hquery⟩ := h.ancestors_of_clause (by rw [hid]; rfl)
    exact ⟨[], query, above, hs, hquery, by simp⟩
  | join =>
    obtain ⟨below, query, above, hs, hquery, hbelow⟩ :=
      h.exists_query_above (by rw [hid]; rfl : (tree.kind id).isInFrom = true)
    refine ⟨below, query, above, hs, hquery, fun b hb => ?_⟩
    have hin := hbelow b hb
    refine ⟨NodeKind.isQuery_of_isInFrom hin, ?_⟩
    revert hin
    cases tree.kind b <;> simp [NodeKind.isInFrom, NodeKind.isBoundaryStatement]

/-- A guard with a node at which the search for it ends below it is outside of the query of that
node. -/
lemma Shaped.exists_query_between (h : tree.Shaped) (hid : tree.kind id = region.rootKind)
    {guard : Nat} (hguard : (tree.kind guard).isBoundaryStatement = true)
    (hs : tree.ancestors id = below ++ guard :: above) :
    ∃ b ∈ below, (tree.kind b).isQuery = true := by
  obtain ⟨path, query, above', hs', hquery, hpath⟩ := h.exists_query_of_rootKind hid
  have hplain (b : NodeId) (hb : (tree.kind b).isBoundaryStatement = true) :
      (tree.kind b).isQuery = false :=
    (NodeKind.plain_of_isInExpression (NodeKind.isInExpression_of_isBoundaryStatement hb)).2.2.1
  by_contra hnone
  simp only [not_exists, not_and, Bool.not_eq_true] at hnone
  obtain ⟨b, hb, hboundary⟩ := (exists_split_iff (fun b => (tree.kind b).isBoundaryStatement) hquery
    (fun b hb => (hpath b hb).1) hplain).mp ⟨below, guard, above, hs'.symm.trans hs, hguard, hnone⟩
  simp [(hpath b hb).2] at hboundary

/-- In the clause of its own query, the candidates are the columns that are not guarded. -/
lemma Shaped.mem_candidates_iff_isGuarded (h : tree.Shaped) (hsteady : tree.Steady)
    (hroot : tree.kind root = region.startKind) (hc : tree.kind c = .column)
    (hs : tree.ancestors c = below ++ root :: above)
    (hbelow : ∀ b ∈ below, (tree.kind b).isQuery = false) :
    c ∈ tree.candidates region root ↔ tree.isGuarded region c = false := by
  rw [h.mem_candidates_iff_exposed hroot]
  refine ⟨h.isGuarded_of_exposed hroot, fun hfree => ?_⟩
  rw [h.exposed_iff_readIn hsteady]
  refine ⟨hc, ⟨below, root, above, hs, hroot, hbelow⟩, below, above, hs, fun guard hmem hkind => ?_⟩
  by_contra hguard
  rw [Bool.not_eq_false] at hguard
  obtain ⟨nodes, rest, rfl⟩ := List.append_of_mem hmem
  rw [List.append_assoc, List.cons_append] at hs
  have hnot : tree.kind c ≠ region.rootKind ∧ tree.kind c ≠ region.statementKind := by
    rw [hc]
    cases region <;> simp [Region.rootKind, Region.statementKind]
  have hboundary : (tree.kind guard).isBoundaryStatement = true := by
    rw [hkind]
    exact region.isBoundaryStatement_statementKind
  have habove : ∀ b ∈ nodes ++ [guard], b ∈ tree.ancestors c := by
    intro b hb
    rw [hs]
    simp only [List.mem_append, List.mem_singleton] at hb
    rcases hb with hb | rfl <;> simp [*]
  have hends : ∀ b ∈ nodes ++ [guard], tree.kind b ≠ region.rootKind := by
    intro b hb hend
    rcases List.mem_append.mp hb with hb | hb
    · -- the search would end inside of a query that is below the guard
      obtain ⟨first, second, rfl⟩ := List.append_of_mem hb
      have hsplit : tree.ancestors c =
          first ++ b :: (second ++ guard :: (rest ++ root :: above)) := by
        rw [hs]
        simp
      obtain ⟨query, hmem, hquery⟩ :=
        h.exists_query_between hend hboundary (h.ancestors_split hsplit)
      simp [hbelow query (by simp [hmem])] at hquery
    · obtain rfl := List.mem_singleton.mp hb
      rw [hend] at hboundary
      cases region <;> cases hboundary
  have hlong : tree.isGuarded region c = true := by
    rw [isGuarded, hs, ← List.cons_append]
    refine guardedAlong_eq_true (List.forall_mem_cons.mpr ⟨hnot.1, hends⟩)
      (List.forall_mem_cons.mpr ⟨fun hk => absurd hk hnot.2, fun b hb _ => ?_⟩) hkind hguard
    obtain ⟨child, hchild⟩ := h.exists_child_of_mem_ancestors (habove b hb)
    exact List.ne_nil_of_mem hchild
  rw [hlong] at hfree
  cases hfree

end Upwards

section Events

variable {config : Config} {join query : Nat} {event : Event}

lemma kind_of_childOfKind? {kind : NodeKind} (h : tree.childOfKind? id kind = some c) :
    tree.kind c = kind := by
  simpa using List.find?_some h

/-- The check looks into regions from the nodes that they start from. -/
lemma kind_of_mem_regions (h : (region, root) ∈ tree.regions config join query) :
    tree.kind root = region.startKind := by
  simp only [regions, List.mem_append, List.mem_map, Prod.mk.injEq, mem_ite_nil,
    Option.mem_toList, List.mem_filterMap] at h
  rcases h with (⟨_, ⟨_, hroot⟩, rfl, rfl⟩ | ⟨_, ⟨_, hroot⟩, rfl, rfl⟩) |
    ⟨_, ⟨_, _, hroot⟩, rfl, rfl⟩
  · exact kind_of_childOfKind? hroot
  · obtain ⟨_, _, hroot⟩ := Option.bind_eq_some_iff.mp hroot
    exact kind_of_childOfKind? hroot
  · exact kind_of_childOfKind? hroot

/-- A guarded reference is a candidate that is guarded. -/
lemma guarded_mem_references {name : String}
    (h : Event.guarded c ∈ tree.references name region root) :
    c ∈ tree.candidates region root ∧ tree.isGuarded region c = true := by
  rcases List.mem_append.mp h with h | h
  · obtain ⟨_, _, hevent⟩ := List.mem_map.mp h
    cases hevent
  · obtain ⟨column, hmem, hsome⟩ := List.mem_filterMap.mp h
    unfold reference? at hsome
    split at hsome
    · cases hsome
    · split at hsome
      · split at hsome
        case isTrue hguarded =>
          cases hsome
          exact ⟨hmem, hguarded⟩
        case isFalse => cases hsome
      · cases hsome

/-- What is told of the check of a join was met in the regions of an alias, or is about the join. -/
lemma exists_name_of_mem_told (h : event ∈ tree.told config join) (hjoin : event.join? = none) :
    ∃ name, event ∈ tree.aliasTrail config join name := by
  unfold told reviewJoin at h
  cases hnames : tree.nullableAliases join with
  | error error =>
    rw [hnames] at h
    obtain rfl := List.mem_singleton.mp h
    cases hjoin
  | ok names =>
    rw [hnames] at h
    rcases List.mem_cons.mp h with rfl | h
    · cases hjoin
    · obtain hmem | hmem := Trail.mem_events_foldl h
      · cases hmem
      · obtain ⟨name, _, htrail⟩ := List.mem_flatMap.mp hmem
        exact ⟨name, htrail⟩

/-- What linting tells is told of joins. -/
lemma WellFormed.exists_join_of_mem_events (h : tree.WellFormed)
    (hevent : event ∈ (tree.lint config).events) (hjoin : event.join? = none) :
    ∃ join, event ∈ tree.told config join := by
  have hkind (join : NodeId) (hmem : join ∈ tree.nodesOfKind .join) : tree.kind join = .join := by
    simpa using (List.mem_filter.mp hmem).2
  rw [h.lint_eq_foldlM, foldlM_checkNext _ hkind, List.nil_append] at hevent
  rcases List.mem_append.mp hevent with hevent | hevent
  · obtain ⟨join, _, htold⟩ := List.mem_flatMap.mp hevent
    exact ⟨join, htold⟩
  · obtain ⟨_, _, rfl⟩ := List.mem_map.mp hevent
    cases hjoin

/-- Linting never tells of a guarded reference. -/
lemma Shaped.guarded_not_mem_events (h : tree.Shaped) (config : Config) (c : NodeId) :
    Event.guarded c ∉ (tree.lint config).events := by
  intro hevent
  obtain ⟨join, htold⟩ := h.exists_join_of_mem_events hevent rfl
  obtain ⟨name, htrail⟩ := exists_name_of_mem_told htold rfl
  unfold aliasTrail at htrail
  split at htrail
  · cases List.mem_singleton.mp htrail
  · obtain ⟨⟨region, root⟩, hregion, hreference⟩ := List.mem_flatMap.mp htrail
    obtain ⟨hcandidate, hguarded⟩ := guarded_mem_references hreference
    have hroot := kind_of_mem_regions hregion
    have hfree := h.isGuarded_of_exposed hroot ((h.mem_candidates_iff_exposed hroot).mp hcandidate)
    simp [hfree] at hguarded

end Events

end Tree

/-- The two searches for guards agree in trees that are read. The regions that the check of a join
looks into start from nodes of their kind, and below all such nodes no candidate is guarded. In the
clause of its own query, a column that is not guarded is a candidate. Linting a text never tells of
a guarded reference. -/
theorem guard_searches_agree :
    (∀ scanned tokens tree, (parseTokens scanned tokens).tree = some tree →
      (∀ config join query region root, (region, root) ∈ tree.regions config join query →
        tree.kind root = region.startKind) ∧
      ∀ region root, tree.kind root = region.startKind →
        (∀ c ∈ tree.candidates region root, tree.isGuarded region c = false) ∧
        ∀ c below above, tree.kind c = .column → tree.ancestors c = below ++ root :: above →
          (∀ b ∈ below, (tree.kind b).isQuery = false) →
          (c ∈ tree.candidates region root ↔ tree.isGuarded region c = false)) ∧
    ∀ config source c, Event.guarded c ∉ (lint config source).events := by
  constructor
  · intro scanned tokens tree htree
    have h := Parsed.shaped_of_tree htree
    refine ⟨fun config join query region root hmem => Tree.kind_of_mem_regions hmem, ?_⟩
    intro region root hroot
    refine ⟨fun c hc => ?_, fun c below above hkind hs hbelow => ?_⟩
    · exact h.isGuarded_of_exposed hroot ((h.mem_candidates_iff_exposed hroot).mp hc)
    · exact h.mem_candidates_iff_isGuarded (Parsed.steady_of_tree htree) hroot hkind hs hbelow
  · intro config source c hevent
    rcases List.mem_append.mp hevent with hevent | hevent
    · obtain ⟨_, _, hskip⟩ := List.mem_map.mp hevent
      cases hskip
    · unfold lint at hevent
      cases htree : (parse source).tree with
      | none => simp [htree] at hevent
      | some tree =>
        have h := Parsed.shaped_of_tree htree
        exact h.guarded_not_mem_events config c (by simpa [htree] using hevent)

/-- `SELECT ISNULL(b.x, 0), b.y FROM t LEFT JOIN u b ON 1`, with one guarded reference. -/
def guardedTokens : List Token :=
  [⟨.keyword .select, ⟨0, 6⟩, "SELECT"⟩, ⟨.keyword .isNull, ⟨7, 13⟩, "ISNULL"⟩,
    ⟨.lparen, ⟨13, 14⟩, "("⟩, ⟨.identifier, ⟨14, 15⟩, "b"⟩, ⟨.dot, ⟨15, 16⟩, "."⟩,
    ⟨.identifier, ⟨16, 17⟩, "x"⟩, ⟨.comma, ⟨17, 18⟩, ","⟩, ⟨.number, ⟨19, 20⟩, "0"⟩,
    ⟨.rparen, ⟨20, 21⟩, ")"⟩, ⟨.comma, ⟨21, 22⟩, ","⟩, ⟨.identifier, ⟨23, 24⟩, "b"⟩,
    ⟨.dot, ⟨24, 25⟩, "."⟩, ⟨.identifier, ⟨25, 26⟩, "y"⟩, ⟨.keyword .from_, ⟨27, 31⟩, "FROM"⟩,
    ⟨.identifier, ⟨32, 33⟩, "t"⟩, ⟨.keyword .left, ⟨34, 38⟩, "LEFT"⟩,
    ⟨.keyword .join, ⟨39, 43⟩, "JOIN"⟩, ⟨.identifier, ⟨44, 45⟩, "u"⟩,
    ⟨.identifier, ⟨46, 47⟩, "b"⟩, ⟨.keyword .on, ⟨48, 50⟩, "ON"⟩, ⟨.number, ⟨51, 52⟩, "1"⟩]

theorem guard_searches_agree_guarded : ∃ tree, (parseTokens [] guardedTokens).tree = some tree ∧
    (Region.select, 24) ∈ tree.regions {} 40 43 ∧ tree.candidates .select 24 = [20] ∧
    tree.kind 24 = .selectList ∧ tree.isGuarded .select 20 = false ∧
    tree.isGuarded .select 6 = true ∧ 6 ∉ tree.candidates .select 24 := by
  have hchecked : ((parseTokens [] guardedTokens).tree.map fun tree =>
      decide (tree.regions {} 40 43 = [(.select, 24)]) &&
        decide (tree.candidates .select 24 = [20]) && tree.isGuarded .select 6 &&
        decide (tree.kind 6 = .column) && decide (tree.ancestors 6 = [7, 8, 14, 15, 24, 43, 44]) &&
        [7, 8, 14, 15].all fun b => !(tree.kind b).isQuery) = some true := by
    decide +kernel
  obtain ⟨tree, htree, hchecked⟩ := Option.map_eq_some_iff.mp hchecked
  simp only [Bool.and_eq_true, decide_eq_true_eq] at hchecked
  obtain ⟨⟨⟨⟨⟨hregions, hcandidates⟩, hguarded⟩, hkind⟩, hancestors⟩, hplain⟩ := hchecked
  have hregion : (Region.select, 24) ∈ tree.regions {} 40 43 := by rw [hregions]; simp
  have hbelow : ∀ b ∈ [7, 8, 14, 15], (tree.kind b).isQuery = false := by simpa using hplain
  obtain ⟨hstart, hagree⟩ := guard_searches_agree.1 [] guardedTokens tree htree
  have hroot := hstart {} 40 43 .select 24 hregion
  refine ⟨tree, htree, hregion, hcandidates, hroot, ?_, hguarded, ?_⟩
  · exact (hagree .select 24 hroot).1 20 (by rw [hcandidates]; simp)
  · rw [(hagree .select 24 hroot).2 6 _ _ hkind hancestors hbelow, hguarded]
    simp

end NullGuard
