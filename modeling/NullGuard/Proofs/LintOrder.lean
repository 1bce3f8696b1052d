import NullGuard.Proofs.FinishedTrees
import NullGuard.Proofs.LintWalk

namespace NullGuard

/-- The join that is looked at, if the event tells of one. -/
def Event.join? : Event → Option NodeId
  | checkingJoin join _ _ => some join
  | aborted error => some error.join
  | recovered _ | joinOutsideQuery _ | guardPassed _ | guarded _ | unguarded _ _ => none

/-- Nothing is told that was not met. -/
lemma Trail.mem_events_foldl {events : List Event} {trail : Trail} {event : Event}
    (h : event ∈ (events.foldl add trail).events) : event ∈ trail.events ∨ event ∈ events := by
  induction events generalizing trail with
  | nil => exact .inl h
  | cons next events ih =>
    rcases ih h with hmem | hmem
    · have hadd : event ∈ trail.events ∨ event = next := by
        unfold add at hmem
        split at hmem
        · split at hmem
          · exact .inl hmem
          · simpa using hmem
        · simpa using hmem
      rcases hadd with hmem | rfl
      · exact .inl hmem
      · exact .inr List.mem_cons_self
    · exact .inr (List.mem_cons_of_mem _ hmem)

namespace Tree

variable {tree : Tree} {config : Config} {join : NodeId}

/-- Looking for an alias, no other join is looked at. -/
lemma join?_of_mem_aliasTrail {name : String} {event : Event}
    (h : event ∈ tree.aliasTrail config join name) : event.join? = none := by
  unfold aliasTrail at h
  split at h
  · rw [List.mem_singleton.mp h]
    rfl
  · obtain ⟨⟨region, root⟩, _, hevent⟩ := List.mem_flatMap.mp h
    rcases List.mem_append.mp hevent with hguard | hreference
    · obtain ⟨_, _, rfl⟩ := List.mem_map.mp hguard
      rfl
    · obtain ⟨column, _, hsome⟩ := List.mem_filterMap.mp hreference
      unfold reference? at hsome
      split at hsome
      · cases hsome
      · split at hsome
        · split at hsome <;> (cases hsome; rfl)
        · cases hsome

/-- The check of a join looks at this one only. -/
lemma filterMap_told (tree : Tree) (config : Config) (join : NodeId)
    (h : (tree.checkJoin config join).isOk = true) :
    (tree.told config join).filterMap Event.join? = [join] := by
  cases hnames : tree.nullableAliases join with
  | error error =>
    have hcheck : tree.checkJoin config join = .error error := by
      rw [checkJoin, reviewJoin, hnames]
      rfl
    rw [hcheck] at h
    cases h
  | ok names =>
    let trail := (names.flatMap (tree.aliasTrail config join)).foldl Trail.add {}
    have htold : tree.told config join =
        .checkingJoin join (tree.joinKind? join) names :: trail.events := by
      rw [told, reviewJoin, hnames]
      rfl
    have htrail : trail.events.filterMap Event.join? = [] := by
      rw [List.filterMap_eq_nil_iff]
      intro event hevent
      obtain hmem | hmem := Trail.mem_events_foldl hevent
      · cases hmem
      · obtain ⟨name, _, htrail⟩ := List.mem_flatMap.mp hmem
        exact join?_of_mem_aliasTrail htrail
    rw [htold, List.filterMap_cons, htrail]
    rfl

/-- The error about a misplaced join names it. -/
lemma join_of_outerAlias? {kind : JoinKind} {error : MisplacedJoin}
    (h : tree.outerAlias? join kind = .error error) : error.join = join := by
  unfold outerAlias? at h
  dsimp only at h
  split at h
  · split at h
    · cases h
    · cases h
      rfl
  · cases h
    rfl

lemma join_of_nullableAliases {error : MisplacedJoin}
    (h : tree.nullableAliases join = .error error) : error.join = join := by
  -- only the alias that the join hangs off can fail, and with it what is made of it
  have hbind {kind : JoinKind} (more : Option String → List String)
      (h : (do return more (← tree.outerAlias? join kind)) = Except.error error) :
      error.join = join := by
    cases houter : tree.outerAlias? join kind with
    | ok name =>
      rw [houter] at h
      cases h
    | error other =>
      rw [houter] at h
      cases h
      exact join_of_outerAlias? houter
  unfold nullableAliases at h
  split at h
  · cases h
  · cases h
  · cases h
  · exact hbind Option.toList h
  · exact hbind (·.toList ++ (tree.joinedAlias? join).toList) h

lemma join_of_misplaced {error : MisplacedJoin} (h : tree.misplaced? config join = some error) :
    error.join = join := by
  unfold misplaced? checkJoin reviewJoin at h
  cases hnames : tree.nullableAliases join with
  | ok names =>
    rw [hnames] at h
    cases h
  | error other =>
    rw [hnames] at h
    cases h
    exact join_of_nullableAliases hnames

/-- The joins that are looked at come first: those that are well placed, and one that is not. -/
lemma looked_isPrefix (joins : List NodeId) :
    joins.takeWhile (fun join => (tree.checkJoin config join).isOk) ++
      (joins.findSome? (tree.misplaced? config)).toList.map MisplacedJoin.join <+: joins := by
  induction joins with
  | nil => exact List.prefix_rfl
  | cons join joins ih =>
    cases hcheck : tree.checkJoin config join with
    | ok finding? =>
      have hplaced : tree.misplaced? config join = none := by rw [misplaced?, hcheck]
      rw [List.takeWhile_cons_of_pos (by rw [hcheck]; rfl), List.findSome?_cons_of_isNone,
        List.cons_append, List.prefix_cons_inj]
      · exact ih
      · rw [hplaced]
        rfl
    | error error =>
      have hmisplaced : tree.misplaced? config join = some error := by rw [misplaced?, hcheck]
      rw [List.takeWhile_cons_of_neg (by rw [hcheck]; simp [Except.isOk, Except.toBool]),
        List.findSome?_cons, hmisplaced]
      simp [join_of_misplaced hmisplaced]

/-- Linting a well formed tree checks its joins in the order of the text, each of them once. It
finds what the checks find up to the first join that is misplaced; this one is the error, and none
behind it is looked at. -/
theorem lint_checks_in_order (h : tree.WellFormed) (config : Config) :
    let joins := tree.nodesOfKind .join
    let checked := joins.takeWhile fun join => (tree.checkJoin config join).isOk
    let error := joins.findSome? (tree.misplaced? config)
    let looked := checked ++ error.toList.map MisplacedJoin.join
    joins.Nodup ∧ (∀ id, id ∈ joins ↔ id < tree.size ∧ tree.kind id = .join) ∧
      (tree.lint config).findings = checked.filterMap (tree.found? config) ∧
      (tree.lint config).error = error ∧
      (tree.lint config).events = checked.flatMap (tree.told config) ++ error.toList.map .aborted ∧
      (tree.lint config).events.filterMap Event.join? = looked ∧ looked <+: joins := by
  intro joins checked error looked
  have hmem (id : NodeId) : id ∈ joins ↔ id < tree.size ∧ tree.kind id = .join := by
    simp only [joins, nodesOfKind, List.mem_filter, decide_eq_true_eq]
    constructor
    · rintro ⟨_, hkind⟩
      exact ⟨lt_size_of_kind (by rw [hkind]; decide), hkind⟩
    · rintro ⟨hlt, hkind⟩
      exact ⟨h.mem_descendants_root hlt, hkind⟩
  have hnodup : joins.Nodup := (h.nodup_descendants tree.root).filter _
  have hlint := h.lint_eq_foldlM config
  rw [foldlM_checkNext _ fun join hjoin => ((hmem join).mp hjoin).2, List.nil_append,
    List.nil_append] at hlint
  have hlooked : (tree.lint config).events.filterMap Event.join? = looked := by
    have htold : checked.flatMap (fun join => (tree.told config join).filterMap Event.join?) =
        checked.flatMap fun join => [join] := by
      refine List.flatMap_congr fun join hjoin => filterMap_told tree config join ?_
      exact List.mem_takeWhile_imp (p := fun join => (tree.checkJoin config join).isOk) hjoin
    rw [hlint, List.filterMap_append, List.filterMap_flatMap, htold, List.flatMap_singleton',
      List.filterMap_map]
    exact congrArg (checked ++ ·) (congrFun List.filterMap_eq_map error.toList)
  rw [hlint] at hlooked ⊢
  exact ⟨hnodup, hmem, rfl, rfl, rfl, hlooked, looked_isPrefix joins⟩

end Tree

/-- The calls for `T2.A` selected from what is joined as `T2`, where the first node is `base`. -/
def Making.joined (base : Nat) : List Making :=
  [.terminal .identifier ⟨base, base + 2⟩ "T2", .terminal .dot ⟨base + 2, base + 3⟩ ".",
    .terminal .identifier ⟨base + 3, base + 4⟩ "A", .node .column [base, base + 1, base + 2],
    .node .statement [base + 3], .node .selectStatement [base + 4], .node .selectedField [base + 5],
    .node .selectList [base + 6], .terminal (.keyword .left) ⟨base + 8, base + 9⟩ "LEFT",
    .terminal .identifier ⟨base + 9, base + 10⟩ "T2", .node .aliasClause [base + 9],
    .node .dataSource [base + 10], .node .join [base + 8, base + 11], .node .dataSource [base + 12],
    .node .dataSources [base + 13], .node .query [base + 7, base + 14]]

/-- Of three joins the second is misplaced: there is a finding about the first one, and none about
the third. -/
theorem lint_checks_in_order_misplaced : ∃ tree : Tree, tree.WellFormed ∧
    tree.nodesOfKind .join = [12, 17, 31] ∧ (tree.checkJoin {} 31).toOption.join.isSome = true ∧
    (tree.lint {}).findings.map (·.labels.map Label.span) = [[⟨8, 10⟩, ⟨0, 4⟩]] ∧
    (tree.lint {}).error.map MisplacedJoin.join = some 17 ∧
    (tree.lint {}).events.filterMap Event.join? = [12, 17] := by
  let makings := Making.joined 0 ++ [.terminal (.keyword .right) ⟨16, 17⟩ "RIGHT", .node .join [16],
    .node .whereClause [17]] ++ Making.joined 19 ++ [.node .package [15, 18, 34]]
  let tree : Tree := ⟨(({} : Builder).makeAll makings).nodes, 35⟩
  have hfinish : (({} : Builder).makeAll makings).finish 35 = .ok tree := by decide +kernel
  have hwf : tree.WellFormed := (Builder.mirrors_makeAll makings).wellFormed hfinish
  obtain ⟨_, _, hfindings, herror, _, hlooked, _⟩ := Tree.lint_checks_in_order hwf {}
  refine ⟨tree, hwf, by decide +kernel, by decide +kernel, ?_, ?_, ?_⟩
  · rw [hfindings]
    decide +kernel
  · rw [herror]
    decide +kernel
  · rw [hlooked]
    decide +kernel

end NullGuard
