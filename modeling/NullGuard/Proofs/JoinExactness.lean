import NullGuard.Proofs.ExposedColumns

/-!
# The check of a join is exact

Which columns a join makes suspicious is said here by the places of nodes alone: an alias that the
join makes nullable, a region of the query around it, and a column that is exposed there. The check
of the join labels exactly these columns, each of them once.
-/

namespace NullGuard

namespace Tree

/-- An alias whose columns a join makes nullable. -/
inductive NullableAlias (tree : Tree) (join : NodeId) (name : String) : Prop where
  /-- The source that the join brings in, by `LEFT` or `FULL`. -/
  | joined {source : NodeId}
      (hword : tree.hasKeyword join .left = true ∨ tree.hasKeyword join .full = true)
      (hsource : source ∈ tree.children join) (hkind : tree.kind source = .dataSource)
      (hname : tree.sourceAlias? source = some name)
  /-- The source that the join hangs off, by `RIGHT` or `FULL`. -/
  | outer {source : NodeId}
      (hword : tree.hasKeyword join .right = true ∨ tree.hasKeyword join .full = true)
      (hsource : tree.parent join = some source) (hkind : tree.kind source = .dataSource)
      (hname : tree.sourceAlias? source = some name)

/-- The nodes below which columns are looked for, for a join of a query. -/
inductive ScanRoot (tree : Tree) (config : Config) (join query : NodeId) : Region → NodeId → Prop where
  | select {root : NodeId} (h : config.selectList = true) (hroot : root ∈ tree.children query)
      (hkind : tree.kind root = .selectList) : ScanRoot tree config join query .select root
  | filter {clause root : NodeId} (h : config.whereClause = true)
      (hclause : clause ∈ tree.children query) (hkind : tree.kind clause = .whereClause)
      (hroot : root ∈ tree.children clause) (hkind' : tree.kind root = .whereExpression) :
      ScanRoot tree config join query .filter root
  | join {source other root : NodeId} (h : config.siblingJoins = true)
      (hsource : tree.parent join = some source) (hkind : tree.kind source = .dataSource)
      (hother : other ∈ tree.children source) (hkind' : tree.kind other = .join)
      (hne : other ≠ join) (hroot : root ∈ tree.children other)
      (hkind'' : tree.kind root = .joinExpression) : ScanRoot tree config join query .join root

/-- A column that names a nullable alias of a join and is exposed in a region of its query. -/
structure Flagged (tree : Tree) (config : Config) (join query c : NodeId) : Prop where
  nullable : ∃ table name, tree.tableAlias? c = some table ∧ tree.NullableAlias join name ∧
    Text.sameIgnoringCase table name = true
  exposed : ∃ region root, tree.ScanRoot config join query region root ∧
    tree.Exposed region root c

variable {tree : Tree} {config : Config} {join query id c : Nat}

section Parts

lemma Shaped.childrenOfKind_eq (h : tree.Shaped) {kind : NodeKind} (hk : kind ∈ (tree.kind id).once)
    (hc : c ∈ tree.children id) (hkind : tree.kind c = kind) : tree.childrenOfKind id kind = [c] := by
  have hone := h.once hk
  have hmem : c ∈ tree.childrenOfKind id kind := List.mem_filter.mpr ⟨hc, by simpa using hkind⟩
  rcases hlist : tree.childrenOfKind id kind with _ | ⟨d, _ | _⟩ <;> simp_all

/-- The child of a kind, where there is one at most. -/
lemma Shaped.childOfKind?_iff (h : tree.Shaped) {kind : NodeKind} (hk : kind ∈ (tree.kind id).once) :
    tree.childOfKind? id kind = some c ↔ c ∈ tree.children id ∧ tree.kind c = kind := by
  constructor
  · intro hc
    exact ⟨List.mem_of_find?_eq_some hc, by simpa using List.find?_some hc⟩
  · rintro ⟨hc, hkind⟩
    have hlist := h.childrenOfKind_eq hk hc hkind
    rw [childrenOfKind] at hlist
    rw [childOfKind?, ← List.head?_filter, hlist, List.head?_cons]

/-- Going up from a join or a source leads to a query, past joins and sources alone. -/
lemma Shaped.exists_query_above (h : tree.Shaped) (hid : (tree.kind id).isInFrom = true) :
    ∃ below query above, tree.ancestors id = below ++ query :: above ∧
      (tree.kind query).isQuery = true ∧ ∀ b ∈ below, (tree.kind b).isInFrom = true := by
  revert hid
  induction id using h.induction_up with
  | step id ih =>
    intro hid
    have hne : tree.kind id ≠ .package := by
      intro hk
      simp [hk, NodeKind.isInFrom] at hid
    obtain ⟨parent, hp, _, hallows⟩ := h.exists_parent hne
    rw [h.ancestors_of_parent hp]
    rcases NodeKind.isQuery_or_isInFrom_of_allows hid hallows with hquery | hin
    · exact ⟨[], parent, _, rfl, hquery, by simp⟩
    · obtain ⟨below, query, above, hs, hquery, hbelow⟩ := ih parent hp hin
      refine ⟨parent :: below, query, above, by rw [hs, List.cons_append], hquery, ?_⟩
      exact List.forall_mem_cons.mpr ⟨hin, hbelow⟩

lemma enclosingQuery?_eq_some_iff :
    tree.enclosingQuery? id = some query ↔ tree.Nearest NodeKind.isQuery id query :=
  nearest_iff.symm

/-- Every join is in a query. -/
lemma Shaped.exists_query (h : tree.Shaped) (hj : tree.kind join = .join) :
    ∃ query, tree.Nearest NodeKind.isQuery join query := by
  obtain ⟨below, query, above, hs, hquery, hbelow⟩ :=
    h.exists_query_above (by rw [hj]; rfl : (tree.kind join).isInFrom = _)
  exact ⟨query, below, above, hs, hquery, fun b hb => NodeKind.isQuery_of_isInFrom (hbelow b hb)⟩

/-- Every join hangs off a source. -/
lemma Shaped.exists_source (h : tree.Shaped) (hj : tree.kind join = .join) :
    ∃ source, tree.parent join = some source ∧ tree.kind source = .dataSource := by
  obtain ⟨source, hp, _, hallows⟩ := h.exists_parent (by rw [hj]; simp : tree.kind join ≠ .package)
  rw [hj] at hallows
  exact ⟨source, hp, NodeKind.eq_dataSource_of_allows hallows⟩

end Parts

section Aliases

lemma Shaped.joinedAlias?_iff (h : tree.Shaped) (hj : tree.kind join = .join) {name : String} :
    tree.joinedAlias? join = some name ↔ ∃ source ∈ tree.children join,
      tree.kind source = .dataSource ∧ tree.sourceAlias? source = some name := by
  have honce : NodeKind.dataSource ∈ (tree.kind join).once := by rw [hj]; simp [NodeKind.once]
  rw [joinedAlias?, Option.bind_eq_some_iff]
  simp only [h.childOfKind?_iff honce, and_assoc]

lemma Shaped.nullableAlias_iff (h : tree.Shaped) (hj : tree.kind join = .join) {source : Nat}
    (hsource : tree.parent join = some source) {name : String} :
    tree.NullableAlias join name ↔
      (tree.hasKeyword join .left = true ∨ tree.hasKeyword join .full = true) ∧
          tree.joinedAlias? join = some name ∨
        (tree.hasKeyword join .right = true ∨ tree.hasKeyword join .full = true) ∧
          tree.sourceAlias? source = some name := by
  rw [h.joinedAlias?_iff hj]
  constructor
  · rintro (⟨hword, hmem, hkind, hname⟩ | ⟨hword, hsource', _, hname⟩)
    · exact .inl ⟨hword, _, hmem, hkind, hname⟩
    · rw [hsource] at hsource'
      exact .inr ⟨hword, Option.some.inj hsource' ▸ hname⟩
  · rintro (⟨hword, _, hmem, hkind, hname⟩ | ⟨hword, hname⟩)
    · exact .joined hword hmem hkind hname
    · obtain ⟨source', hsource', hkind⟩ := h.exists_source hj
      rw [hsource] at hsource'
      exact .outer hword hsource (Option.some.inj hsource' ▸ hkind) hname

/-- The aliases that the check goes through are the nullable ones. -/
lemma Shaped.nullableAliases_eq (h : tree.Shaped) (hj : tree.kind join = .join) :
    ∃ names, tree.nullableAliases join = .ok names ∧
      ∀ name, name ∈ names ↔ tree.NullableAlias join name := by
  obtain ⟨source, hsource, hkind⟩ := h.exists_source hj
  have houter (kind : JoinKind) : tree.outerAlias? join kind = .ok (tree.sourceAlias? source) := by
    simp [outerAlias?, hsource, hkind]
  have hside (v w : Keyword) (hv : v ∈ Keyword.sides) (hw : w ∈ Keyword.sides) (hne : v ≠ w)
      (hasv : tree.hasKeyword join v = true) : tree.hasKeyword join w = false :=
    Bool.eq_false_iff.mpr fun hasw => hne (h.side hj v hv w hw hasv hasw)
  simp only [h.nullableAlias_iff hj hsource]
  unfold nullableAliases joinKind?
  rw [if_pos hj]
  by_cases hleft : tree.hasKeyword join .left = true
  · have hright := hside .left .right (by decide) (by decide) (by decide) hleft
    have hfull := hside .left .full (by decide) (by decide) (by decide) hleft
    exact ⟨(tree.joinedAlias? join).toList, by simp [hleft], by simp [hleft, hright, hfull]⟩
  · by_cases hright : tree.hasKeyword join .right = true
    · have hfull := hside .right .full (by decide) (by decide) (by decide) hright
      refine ⟨(tree.sourceAlias? source).toList, ?_, by simp [hleft, hright, hfull]⟩
      simp only [hleft, hright, houter]
      rfl
    · by_cases hfull : tree.hasKeyword join .full = true
      · refine ⟨(tree.sourceAlias? source).toList ++ (tree.joinedAlias? join).toList, ?_, ?_⟩
        · simp only [hleft, hright, hfull, houter]
          rfl
        · simp [hfull, or_comm]
      · exact ⟨[], by simp [hleft, hright, hfull], by simp [hleft, hright, hfull]⟩

end Aliases

section Regions

lemma Shaped.selectList?_iff (h : tree.Shaped) (hq : (tree.kind query).isQuery = true) {root : Nat} :
    tree.selectList? query = some root ↔
      root ∈ tree.children query ∧ tree.kind root = .selectList := by
  refine h.childOfKind?_iff ?_
  revert hq
  cases tree.kind query <;> simp [NodeKind.isQuery, NodeKind.once]

lemma Shaped.whereExpression?_iff (h : tree.Shaped) (hq : (tree.kind query).isQuery = true)
    {root : Nat} :
    tree.whereExpression? query = some root ↔ ∃ clause ∈ tree.children query,
      tree.kind clause = .whereClause ∧ root ∈ tree.children clause ∧
      tree.kind root = .whereExpression := by
  have honce : NodeKind.whereClause ∈ (tree.kind query).once := by
    revert hq
    cases tree.kind query <;> simp [NodeKind.isQuery, NodeKind.once]
  have hexpression (clause : Nat) (hk : tree.kind clause = .whereClause) :
      tree.childOfKind? clause .whereExpression = some root ↔
        root ∈ tree.children clause ∧ tree.kind root = .whereExpression :=
    h.childOfKind?_iff (by rw [hk]; simp [NodeKind.once])
  simp only [whereExpression?, Option.bind_eq_bind, Option.bind_eq_some_iff]
  constructor
  · rintro ⟨clause, hfind, hroot⟩
    have hclause := List.mem_filter.mp (List.mem_of_find?_eq_some hfind)
    have hkind : tree.kind clause = .whereClause := by simpa using hclause.2
    exact ⟨clause, hclause.1, hkind, (hexpression clause hkind).mp hroot⟩
  · rintro ⟨clause, hclause, hkind, hroot⟩
    refine ⟨clause, ?_, (hexpression clause hkind).mpr hroot⟩
    rw [h.childrenOfKind_eq honce hclause hkind]
    exact List.find?_cons_of_pos (by simpa using List.ne_nil_of_mem hroot.1)

lemma Shaped.mem_siblingJoins_iff (h : tree.Shaped) {source other : Nat}
    (hsource : tree.parent join = some source) (hkind : tree.kind source = .dataSource) :
    other ∈ tree.siblingJoins join ↔
      other ∈ tree.children source ∧ tree.kind other = .join ∧ other ≠ join := by
  have hfind : (tree.ancestors join).find? (tree.kind · = .dataSource) = some source := by
    rw [h.ancestors_of_parent hsource]
    exact List.find?_cons_of_pos (by simpa using hkind)
  rw [siblingJoins, hfind]
  simp only [childrenOfKind, List.mem_filter, decide_eq_true_eq, and_assoc]

lemma mem_ite_nil {α : Type} {a : α} {p : Bool} {l : List α} :
    a ∈ (if p then l else []) ↔ p = true ∧ a ∈ l := by
  cases p <;> simp

/-- The regions that the check goes through are those that are looked into. -/
lemma Shaped.mem_regions_iff (h : tree.Shaped) (hj : tree.kind join = .join)
    (hq : (tree.kind query).isQuery = true) {region : Region} {root : Nat} :
    (region, root) ∈ tree.regions config join query ↔
      tree.ScanRoot config join query region root := by
  obtain ⟨source, hsource, hkind⟩ := h.exists_source hj
  have hcondition (other : Nat) (hk : tree.kind other = .join) :
      tree.joinExpression? other = some root ↔
        root ∈ tree.children other ∧ tree.kind root = .joinExpression :=
    h.childOfKind?_iff (by rw [hk]; simp [NodeKind.once])
  simp only [regions, List.mem_append, List.mem_map, List.mem_filterMap, Prod.mk.injEq]
  constructor
  · rintro ((⟨_, hmem, rfl, rfl⟩ | ⟨_, hmem, rfl, rfl⟩) | ⟨_, ⟨other, hmem, hroot⟩, rfl, rfl⟩)
    · obtain ⟨henabled, hmem⟩ := mem_ite_nil.mp hmem
      obtain ⟨hroot, hk⟩ := (h.selectList?_iff hq).mp (Option.mem_toList.mp hmem)
      exact .select henabled hroot hk
    · obtain ⟨henabled, hmem⟩ := mem_ite_nil.mp hmem
      obtain ⟨_, hclause, hk, hroot, hk'⟩ :=
        (h.whereExpression?_iff hq).mp (Option.mem_toList.mp hmem)
      exact .filter henabled hclause hk hroot hk'
    · obtain ⟨henabled, hmem⟩ := mem_ite_nil.mp hmem
      obtain ⟨hother, hk, hne⟩ := (h.mem_siblingJoins_iff hsource hkind).mp hmem
      obtain ⟨hroot, hk'⟩ := (hcondition other hk).mp hroot
      exact .join henabled hsource hkind hother hk hne hroot hk'
  · rintro (⟨henabled, hroot, hk⟩ | ⟨henabled, hclause, hk, hroot, hk'⟩ |
      ⟨henabled, hs, hk, hother, hk', hne, hroot, hk''⟩)
    · refine .inl (.inl ⟨root, ?_, rfl, rfl⟩)
      simp [henabled, (h.selectList?_iff hq).mpr ⟨hroot, hk⟩]
    · refine .inl (.inr ⟨root, ?_, rfl, rfl⟩)
      simp [henabled, (h.whereExpression?_iff hq).mpr ⟨_, hclause, hk, hroot, hk'⟩]
    · refine .inr ⟨root, ⟨_, ?_, (hcondition _ hk').mpr ⟨hroot, hk''⟩⟩, rfl, rfl⟩
      rw [if_pos henabled]
      exact (h.mem_siblingJoins_iff hs hk).mpr ⟨hother, hk', hne⟩

end Regions

lemma ScanRoot.kind_eq {region : Region} {root : Nat}
    (h : tree.ScanRoot config join query region root) : tree.kind root = region.startKind := by
  cases h <;> assumption

end Tree

namespace Trail

lemma mem_columns_add (trail : Trail) (event : Event) {c : NodeId} :
    c ∈ (trail.add event).columns ↔
      c ∈ trail.columns ∨ ∃ region, event = .unguarded c region := by
  cases event with
  | unguarded column region =>
    simp only [add, Event.unguarded.injEq]
    by_cases hmem : column ∈ trail.columns
    · simp only [List.contains_iff_mem, hmem, if_true]
      constructor
      · exact .inl
      · rintro (hc | ⟨_, rfl, _⟩)
        · exact hc
        · exact hmem
    · simp [hmem, eq_comm]
  | _ => simp [add]

lemma nodup_columns_add {trail : Trail} (h : trail.columns.Nodup) (event : Event) :
    (trail.add event).columns.Nodup := by
  cases event with
  | unguarded column region =>
    by_cases hmem : column ∈ trail.columns
    · simpa [add, hmem] using h
    · simp only [add, List.contains_iff_mem, hmem, if_false]
      exact List.nodup_append.mpr ⟨h, by simp, by rintro a ha b hb rfl; simp_all⟩
  | _ => exact h

/-- The columns of a trail are those that were met unguarded. -/
lemma mem_columns_foldl (events : List Event) (trail : Trail) {c : NodeId} :
    c ∈ (events.foldl add trail).columns ↔
      c ∈ trail.columns ∨ ∃ region, Event.unguarded c region ∈ events := by
  induction events generalizing trail with
  | nil => simp
  | cons event events ih =>
    simp only [List.foldl_cons, ih, mem_columns_add, List.mem_cons, exists_or, or_assoc, eq_comm]

lemma nodup_columns_foldl (events : List Event) {trail : Trail} (h : trail.columns.Nodup) :
    (events.foldl add trail).columns.Nodup := by
  induction events generalizing trail with
  | nil => exact h
  | cons event events ih => exact ih (nodup_columns_add h event)

end Trail

namespace Tree

variable {tree : Tree} {config : Config} {join query c : Nat}

lemma reference?_eq_unguarded {name : String} {region region' : Region} {column : Nat} :
    tree.reference? name region column = some (.unguarded c region') ↔
      column = c ∧ region = region' ∧ tree.isGuarded region column = false ∧
        ∃ table, tree.tableAlias? column = some table ∧ Text.sameIgnoringCase table name = true := by
  unfold reference?
  cases htable : tree.tableAlias? column with
  | none => simp
  | some table =>
    by_cases hsame : Text.sameIgnoringCase table name = true
    · cases hguarded : tree.isGuarded region column <;> simp [hsame]
    · simp [hsame]

lemma unguarded_mem_references {name : String} {region region' : Region} {root : Nat} :
    Event.unguarded c region' ∈ tree.references name region root ↔
      region = region' ∧ c ∈ tree.candidates region root ∧ tree.isGuarded region c = false ∧
        ∃ table, tree.tableAlias? c = some table ∧ Text.sameIgnoringCase table name = true := by
  simp only [references, List.mem_append, List.mem_map, reduceCtorEq, and_false, exists_false,
    false_or, List.mem_filterMap, reference?_eq_unguarded]
  constructor
  · rintro ⟨_, hmem, rfl, hregion, hguarded, htable⟩
    exact ⟨hregion, hmem, hguarded, htable⟩
  · rintro ⟨hregion, hmem, hguarded, htable⟩
    exact ⟨c, hmem, rfl, hregion, hguarded, htable⟩

/-- What is met unguarded is a column. -/
lemma kind_of_mem_aliasTrail {name : String} {region : Region}
    (h : Event.unguarded c region ∈ tree.aliasTrail config join name) : tree.kind c = .column := by
  unfold aliasTrail at h
  split at h
  · simp at h
  · obtain ⟨_, _, hmem⟩ := List.mem_flatMap.mp h
    exact kind_of_mem_candidates (unguarded_mem_references.mp hmem).2.1

/-- A column is met unguarded if it names the alias and is exposed. -/
lemma Shaped.unguarded_mem_aliasTrail (h : tree.Shaped) (hj : tree.kind join = .join)
    (hq : tree.Nearest NodeKind.isQuery join query) {name : String} :
    (∃ region, Event.unguarded c region ∈ tree.aliasTrail config join name) ↔
      (∃ table, tree.tableAlias? c = some table ∧ Text.sameIgnoringCase table name = true) ∧
        ∃ region root, tree.ScanRoot config join query region root ∧
          tree.Exposed region root c := by
  obtain ⟨_, _, _, hquery, _⟩ := id hq
  simp only [aliasTrail, enclosingQuery?_eq_some_iff.mpr hq, List.mem_flatMap, Prod.exists,
    unguarded_mem_references, h.mem_regions_iff hj hquery]
  constructor
  · rintro ⟨_, region, root, hroot, rfl, hmem, _, htable⟩
    exact ⟨htable, region, root, hroot, (h.mem_candidates_iff_exposed hroot.kind_eq).mp hmem⟩
  · rintro ⟨htable, region, root, hroot, hexposed⟩
    exact ⟨region, region, root, hroot, rfl, (h.mem_candidates_iff_exposed hroot.kind_eq).mpr hexposed,
      h.isGuarded_of_exposed hroot.kind_eq hexposed, htable⟩

/-- The review of a join keeps the flagged columns, each of them once. -/
theorem Shaped.exists_review (h : tree.Shaped) (config : Config) (hj : tree.kind join = .join)
    (hq : tree.Nearest NodeKind.isQuery join query) :
    ∃ review, tree.reviewJoin config join = .ok review ∧ review.columns.Nodup ∧
      ∀ c, c ∈ review.columns ↔ tree.Flagged config join query c := by
  obtain ⟨names, hnames, hmem⟩ := h.nullableAliases_eq hj
  refine ⟨_, by simp only [reviewJoin, hnames]; rfl, Trail.nodup_columns_foldl _ List.nodup_nil, fun c => ?_⟩
  simp only [Trail.mem_columns_foldl, List.not_mem_nil, false_or, List.mem_flatMap]
  constructor
  · rintro ⟨region, name, hname, hevent⟩
    obtain ⟨⟨table, htable, hsame⟩, hexposed⟩ :=
      (h.unguarded_mem_aliasTrail hj hq).mp ⟨region, hevent⟩
    exact ⟨⟨table, name, htable, (hmem name).mp hname, hsame⟩, hexposed⟩
  · rintro ⟨⟨table, name, htable, hname, hsame⟩, hexposed⟩
    obtain ⟨region, hevent⟩ :=
      (h.unguarded_mem_aliasTrail hj hq).mpr ⟨⟨table, htable, hsame⟩, hexposed⟩
    exact ⟨region, name, (hmem name).mpr hname, hevent⟩

end Tree

namespace Tree

variable {tree : Tree} {config : Config} {join : Nat}

lemma nullableAliases_of_ne_join (h : tree.kind join ≠ .join) :
    tree.nullableAliases join = .ok [] := by
  simp only [nullableAliases, joinKind?, if_neg h]

/-- A join is none of the columns that are met for it, so a finding about it marks all of them. -/
lemma join_notMem_columns {review : JoinReview} (h : tree.reviewJoin config join = .ok review) :
    join ∉ review.columns := by
  intro hmem
  by_cases hj : tree.kind join = .join
  · have hcolumn : tree.kind join = .column := by
      cases hnames : tree.nullableAliases join with
      | error error =>
        rw [reviewJoin, hnames] at h
        cases h
      | ok names =>
        rw [reviewJoin, hnames] at h
        cases h
        simp only [Trail.mem_columns_foldl, List.not_mem_nil, false_or, List.mem_flatMap] at hmem
        obtain ⟨region, name, _, hevent⟩ := hmem
        exact kind_of_mem_aliasTrail hevent
    rw [hj] at hcolumn
    cases hcolumn
  · rw [reviewJoin, nullableAliases_of_ne_join hj] at h
    cases h
    cases hmem

lemma marked_eq {columns : List NodeId} (h : join ∉ columns) : columns.filter (· ≠ join) = columns := by
  rw [List.filter_eq_self]
  rintro c hc
  exact decide_eq_true (ne_of_mem_of_not_mem hc h)

lemma related_finding (tree : Tree) (config : Config) (names : List String) {columns : List NodeId}
    (h : join ∉ columns) :
    (tree.finding config join names columns).related.map Label.span = columns.map tree.span := by
  rw [finding, marked_eq h]
  simp [Diagnostic.related, List.filter_map, Function.comp_def]

end Tree

/-- The check of a join is exact on trees that are read. It ends without an error and labels the
flagged columns, each of them once; there is no finding exactly if no column is flagged. -/
theorem checkJoin_exact (scanned : List Diagnostic) (tokens : List Token) (config : Config)
    (tree : Tree) (htree : (parseTokens scanned tokens).tree = some tree) (join : NodeId)
    (hj : tree.kind join = .join) :
    ∃ query, tree.Nearest NodeKind.isQuery join query ∧
      ∃ (columns : List NodeId) (result : Option Diagnostic),
        columns.Nodup ∧ (∀ c, c ∈ columns ↔ tree.Flagged config join query c) ∧
        tree.checkJoin config join = .ok result ∧
        (result = none ↔ ∀ c, ¬ tree.Flagged config join query c) ∧
        ∀ finding, result = some finding →
          finding.related.map Label.span = columns.map tree.span := by
  have h := Parsed.shaped_of_tree htree
  obtain ⟨query, hq⟩ := h.exists_query hj
  obtain ⟨review, hreview, hnodup, hcolumns⟩ := h.exists_review config hj hq
  refine ⟨query, hq, review.columns, tree.reviewFinding? config join review, hnodup, hcolumns,
    by rw [Tree.checkJoin, hreview]; rfl, ?_, ?_⟩
  · simp only [Tree.reviewFinding?, ite_eq_left_iff, reduceCtorEq, imp_false, not_not,
      List.isEmpty_iff, List.eq_nil_iff_forall_not_mem, hcolumns]
  · intro finding hfinding
    rw [Tree.reviewFinding?] at hfinding
    split at hfinding
    · cases hfinding
    · rw [← Option.some.inj hfinding, Tree.related_finding _ _ _ (Tree.join_notMem_columns hreview)]

/-- The tokens of `SELECT b.x FROM t LEFT JOIN u b ON 1`. -/
def leftJoinTokens : List Token :=
  [⟨.keyword .select, ⟨0, 6⟩, "SELECT"⟩, ⟨.identifier, ⟨7, 8⟩, "b"⟩, ⟨.dot, ⟨8, 9⟩, "."⟩,
    ⟨.identifier, ⟨9, 10⟩, "x"⟩, ⟨.keyword .from_, ⟨11, 15⟩, "FROM"⟩,
    ⟨.identifier, ⟨16, 17⟩, "t"⟩, ⟨.keyword .left, ⟨18, 22⟩, "LEFT"⟩,
    ⟨.keyword .join, ⟨23, 27⟩, "JOIN"⟩, ⟨.identifier, ⟨28, 29⟩, "u"⟩,
    ⟨.identifier, ⟨30, 31⟩, "b"⟩, ⟨.keyword .on, ⟨32, 34⟩, "ON"⟩, ⟨.number, ⟨35, 36⟩, "1"⟩]

theorem checkJoin_leftJoin : ∃ tree query c, (parseTokens [] leftJoinTokens).tree = some tree ∧
    tree.kind 24 = .join ∧ tree.Nearest NodeKind.isQuery 24 query ∧
    tree.Flagged {} 24 query c := by
  have hsome : (parseTokens [] leftJoinTokens).tree.isSome = true := by decide +kernel
  have hchecked : ((parseTokens [] leftJoinTokens).tree.map fun tree =>
      (decide (tree.kind 24 = .join), (tree.checkJoin {} 24).toOption.bind (·.map Diagnostic.code))) =
        some (true, some (some Rule.unguardedJoinFields.code)) := by decide +kernel
  obtain ⟨tree, htree⟩ := Option.isSome_iff_exists.mp hsome
  rw [htree, Option.map_some, Option.some.injEq, Prod.mk.injEq, decide_eq_true_eq] at hchecked
  obtain ⟨query, hnearest, _, result, _, _, hresult, hnone, _⟩ :=
    checkJoin_exact [] leftJoinTokens {} tree htree 24 hchecked.1
  have hfound : result ≠ none := by
    rintro rfl
    simp [hresult, Except.toOption] at hchecked
  obtain ⟨c, hc⟩ : ∃ c, tree.Flagged {} 24 query c := by simpa [hnone] using hfound
  exact ⟨tree, query, c, htree, hchecked.1, hnearest, hc⟩

end NullGuard
