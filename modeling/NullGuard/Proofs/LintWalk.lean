import Mathlib.Data.List.TakeWhile
import NullGuard.Proofs.JoinExactness

namespace NullGuard

namespace Tree

variable {tree : Tree} {config : Config}

def found? (tree : Tree) (config : Config) (id : NodeId) : Option Diagnostic :=
  if tree.kind id = .join then (tree.checkJoin config id).toOption.bind (·) else none

/-- What ends the analysis at a join, if the join is misplaced. -/
def misplaced? (tree : Tree) (config : Config) (join : NodeId) : Option MisplacedJoin :=
  match tree.checkJoin config join with
  | .ok _ => none
  | .error error => some error

def told (tree : Tree) (config : Config) (join : NodeId) : List Event :=
  match tree.reviewJoin config join with
  | .ok review => review.events
  | .error error => [.aborted error]

/-- Goes on by the check of a join. -/
def checkNext (tree : Tree) (config : Config) (report : LintReport) (join : NodeId) :
    Except LintReport LintReport :=
  match tree.reviewJoin config join with
  | .ok review => .ok { report with
      findings := report.findings ++ (tree.reviewFinding? config join review).toList
      events := report.events ++ review.events }
  | .error error => .error { report with
      error := some error
      events := report.events ++ [.aborted error] }

lemma joinVisitor_thorough (tree : Tree) (config : Config) :
    Visitor.Thorough (tree.joinVisitor config) := by
  intro hook id report report'
  unfold joinVisitor
  split
  · split <;> simp
  · simp

/-- Of all nodes it is the joins that are checked. -/
lemma meet_joinVisitor (report : LintReport) (id : NodeId) :
    tree.meet (tree.joinVisitor config) report id =
      if tree.kind id = .join then tree.checkNext config report id else .ok report := by
  by_cases hkind : tree.kind id = .join
  · rw [if_pos hkind, meet, checkNext, hkind]
    simp only [joinVisitor, NodeKind.hook?, Step.outcome]
    cases tree.reviewJoin config id <;> rfl
  · rw [if_neg hkind, meet]
    cases hhook : (tree.kind id).hook? with
    | none => rfl
    | some hook =>
      have hne : hook ≠ .join := by
        rintro rfl
        revert hhook hkind
        cases tree.kind id <;> simp [NodeKind.hook?]
      cases hook with
      | join => exact absurd rfl hne
      | node | query | column => rfl

/-- Linting checks the joins one after the other. -/
lemma WellFormed.lint_eq_foldlM (h : tree.WellFormed) (config : Config) : tree.lint config =
    match (tree.nodesOfKind .join).foldlM (tree.checkNext config) {} with
    | .ok report => report
    | .error report => report := by
  have hjoins (ids : List NodeId) (report : LintReport) :
      ids.foldlM (tree.meet (tree.joinVisitor config)) report =
        (ids.filter (tree.kind · = .join)).foldlM (tree.checkNext config) report := by
    induction ids generalizing report with
    | nil => rfl
    | cons id ids ih =>
      rw [List.foldlM_cons, meet_joinVisitor, List.filter_cons]
      by_cases hkind : tree.kind id = .join
      · simp only [hkind, decide_true, if_true, List.foldlM_cons]
        exact bind_congr ih
      · simp only [hkind, decide_false, if_false, Bool.false_eq_true]
        exact ih report
  rw [lint, walk, h.walkTo_eq_foldlM (joinVisitor_thorough tree config) h.root_lt, hjoins]
  rfl

/-- What the checks of joins add to a report: all up to the first misplaced one. -/
lemma foldlM_checkNext (joins : List NodeId) (hkind : ∀ join ∈ joins, tree.kind join = .join)
    (findings : List Diagnostic) (events : List Event) :
    let checked := joins.takeWhile fun join => (tree.checkJoin config join).isOk
    let error := joins.findSome? (tree.misplaced? config)
    (match joins.foldlM (tree.checkNext config) ⟨findings, none, events⟩ with
      | .ok report => report
      | .error report => report) =
      ⟨findings ++ checked.filterMap (tree.found? config), error,
        events ++ checked.flatMap (tree.told config) ++ error.toList.map .aborted⟩ := by
  induction joins generalizing findings events with
  | nil => simp [pure, Except.pure]
  | cons join joins ih =>
    obtain ⟨hjoin, hkind⟩ := List.forall_mem_cons.mp hkind
    have hfound : tree.found? config join = (tree.checkJoin config join).toOption.bind (·) :=
      if_pos hjoin
    simp only [List.foldlM_cons, checkNext, List.takeWhile_cons, List.findSome?_cons, misplaced?]
    cases hreview : tree.reviewJoin config join with
    | ok review =>
      have hcheck : tree.checkJoin config join = .ok (tree.reviewFinding? config join review) := by
        rw [checkJoin, hreview]
        rfl
      have htold : tree.told config join = review.events := by rw [told, hreview]
      rw [hcheck] at hfound ⊢
      simp only [Except.isOk, Except.toBool, if_true, bind, Except.bind] at ih ⊢
      rw [ih hkind, List.flatMap_cons, htold]
      cases hfinding : tree.reviewFinding? config join review <;>
        simp [hfound, hfinding, Except.toOption]
    | error error =>
      have hcheck : tree.checkJoin config join = .error error := by
        rw [checkJoin, hreview]
        rfl
      rw [hcheck]
      simp [Except.isOk, Except.toBool, bind, Except.bind]

/-- Linting gives the findings of all joins. -/
theorem Shaped.lint_eq (h : tree.Shaped) (config : Config) :
    (tree.lint config).error = none ∧ (tree.lint config).findings =
      (tree.root :: tree.descendants tree.root).filterMap (tree.found? config) := by
  have hok (join : NodeId) (hj : tree.kind join = .join) :
      ∃ finding?, tree.checkJoin config join = .ok finding? := by
    obtain ⟨query, hq⟩ := h.exists_query hj
    obtain ⟨review, hreview, _⟩ := h.exists_review config hj hq
    exact ⟨_, by rw [checkJoin, hreview]; rfl⟩
  have hkind (join : NodeId) (hmem : join ∈ tree.nodesOfKind .join) : tree.kind join = .join := by
    simpa using (List.mem_filter.mp hmem).2
  have hall : (tree.nodesOfKind .join).takeWhile (fun join => (tree.checkJoin config join).isOk) =
      tree.nodesOfKind .join := by
    rw [List.takeWhile_eq_self_iff]
    intro join hmem
    obtain ⟨_, hcheck⟩ := hok join (hkind join hmem)
    rw [hcheck]
    rfl
  rw [h.lint_eq_foldlM, foldlM_checkNext _ hkind, hall]
  constructor
  · rw [List.findSome?_eq_none_iff]
    intro join hmem
    obtain ⟨_, hcheck⟩ := hok join (hkind join hmem)
    rw [misplaced?, hcheck]
  · rw [List.nil_append, nodesOfKind, List.filterMap_filter]
    apply List.filterMap_congr
    intro id _
    simp only [decide_eq_true_eq, found?]
    split <;> rfl

/-- The finding about a join is about its flagged columns, if there are any. -/
lemma Shaped.exists_columns (h : tree.Shaped) (config : Config) {join query : Nat}
    (hj : tree.kind join = .join) (hq : tree.Nearest NodeKind.isQuery join query) :
    ∃ columns : List NodeId, (∀ c, c ∈ columns ↔ tree.Flagged config join query c) ∧
      (columns = [] → tree.found? config join = none) ∧
      (tree.found? config join).toList.flatMap (·.related.map Label.span) =
        columns.map tree.span := by
  obtain ⟨review, hreview, _, hcolumns⟩ := h.exists_review config hj hq
  have hfound : tree.found? config join = tree.reviewFinding? config join review := by
    simp [found?, hj, checkJoin, hreview, Except.map, Except.toOption]
  refine ⟨review.columns, hcolumns, ?_, ?_⟩
  · intro hnil
    rw [hfound, reviewFinding?, hnil]
    rfl
  · have hrelated := tree.related_finding config review.aliases (join_notMem_columns hreview)
    rw [hfound, reviewFinding?]
    cases hlist : review.columns with
    | nil => rfl
    | cons c columns => simpa [hlist] using hrelated

/-- There is nothing to find if no column is flagged. -/
theorem Shaped.findings_eq_nil (h : tree.Shaped) (config : Config)
    (hnone : ∀ join query c, tree.kind join = .join → tree.Nearest NodeKind.isQuery join query →
      ¬ tree.Flagged config join query c) : (tree.lint config).findings = [] := by
  rw [(h.lint_eq config).2, List.filterMap_eq_nil_iff]
  intro join _
  by_cases hj : tree.kind join = .join
  · obtain ⟨query, hq⟩ := h.exists_query hj
    obtain ⟨columns, hcolumns, hnil, _⟩ := h.exists_columns config hj hq
    refine hnil (List.eq_nil_iff_forall_not_mem.mpr fun c hc => ?_)
    exact hnone join query c hj hq ((hcolumns c).mp hc)
  · rw [found?, if_neg hj]

/-- The places that are part of the findings are those of the flagged columns. -/
theorem Shaped.mem_related_iff (h : tree.Shaped) (config : Config) {span : Span} :
    span ∈ (tree.lint config).findings.flatMap (·.related.map Label.span) ↔
      ∃ join query c, tree.kind join = .join ∧ tree.Nearest NodeKind.isQuery join query ∧
        tree.Flagged config join query c ∧ tree.span c = span := by
  rw [(h.lint_eq config).2, List.mem_flatMap]
  constructor
  · rintro ⟨finding, hfinding, hspan⟩
    obtain ⟨join, _, hfound⟩ := List.mem_filterMap.mp hfinding
    have hj : tree.kind join = .join := by
      by_contra hne
      rw [found?, if_neg hne] at hfound
      cases hfound
    obtain ⟨query, hq⟩ := h.exists_query hj
    obtain ⟨columns, hcolumns, _, hrelated⟩ := h.exists_columns config hj hq
    rw [hfound, Option.toList_some, List.flatMap_singleton] at hrelated
    rw [hrelated, List.mem_map] at hspan
    obtain ⟨c, hc, rfl⟩ := hspan
    exact ⟨join, query, c, hj, hq, (hcolumns c).mp hc, rfl⟩
  · rintro ⟨join, query, c, hj, hq, hc, rfl⟩
    obtain ⟨columns, hcolumns, _, hrelated⟩ := h.exists_columns config hj hq
    have hspan := List.mem_map_of_mem (f := tree.span) ((hcolumns c).mpr hc)
    rw [← hrelated, List.mem_flatMap] at hspan
    obtain ⟨finding, hfinding, hspan⟩ := hspan
    have hlt : join < tree.size := lt_size_of_kind (by rw [hj]; simp)
    exact ⟨finding, List.mem_filterMap.mpr ⟨join, h.mem_descendants_root hlt,
      Option.mem_toList.mp hfinding⟩, hspan⟩

end Tree

end NullGuard
