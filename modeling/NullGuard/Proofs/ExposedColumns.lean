import NullGuard.Proofs.TreeOrder
import NullGuard.Proofs.TreeShape

/-!
# Exposed columns

A column is exposed to a region below a root if the nearest expression around it belongs to the
region and no expression of the region between the root and the column is headed by `ISNULL`. The
search from the top down finds exactly these, since it reaches the expressions of the region that no
guard below the root is above of. The search from the bottom up agrees with it.
-/

namespace NullGuard

namespace Region

/-- The kind of the nodes that the search for candidates starts from. -/
def startKind : Region → NodeKind
  | select => .selectList
  | filter => .whereExpression
  | join => .joinExpression

lemma isBoundaryStatement_statementKind (region : Region) :
    region.statementKind.isBoundaryStatement = true := by
  cases region <;> rfl

lemma isBoundaryStatement_startKind (region : Region) :
    region.startKind.isBoundaryStatement = false := by
  cases region <;> rfl

lemma startKind_ne_statement (region : Region) : region.startKind ≠ .statement := by
  cases region <;> simp [startKind]

lemma startKind_ne_statementKind (region : Region) : region.startKind ≠ region.statementKind := by
  cases region <;> simp [startKind, statementKind]

end Region

namespace Tree

variable {tree : Tree} {region : Region} {id root c a : Nat} {below above : List NodeId}

/-- The nearest ancestor of a class of kinds. -/
def Nearest (tree : Tree) (test : NodeKind → Bool) (id a : NodeId) : Prop :=
  ∃ below above, tree.ancestors id = below ++ a :: above ∧ test (tree.kind a) = true ∧
    ∀ b ∈ below, test (tree.kind b) = false

lemma Nearest.kind {test : NodeKind → Bool} (h : tree.Nearest test id a) :
    test (tree.kind a) = true := by
  obtain ⟨_, _, _, htest, _⟩ := h
  exact htest

lemma nearest_iff {test : NodeKind → Bool} : tree.Nearest test id a ↔
    (tree.ancestors id).find? (fun b => test (tree.kind b)) = some a := by
  rw [List.find?_eq_some_iff_append]
  constructor
  · rintro ⟨below, above, hsplit, hkind, hbelow⟩
    exact ⟨hkind, below, above, hsplit, by simpa using hbelow⟩
  · rintro ⟨hkind, below, above, hsplit, hbelow⟩
    exact ⟨below, above, hsplit, hkind, by simpa using hbelow⟩

lemma Nearest.unique {test : NodeKind → Bool} {b : Nat} (ha : tree.Nearest test id a)
    (hb : tree.Nearest test id b) : a = b :=
  Option.some.inj ((nearest_iff.mp ha).symm.trans (nearest_iff.mp hb))

/-- A column below a root that is not inside of a guard of the region. -/
structure Exposed (tree : Tree) (region : Region) (root c : NodeId) : Prop where
  kind : tree.kind c = .column
  statement : ∃ s, tree.Nearest NodeKind.isBoundaryStatement c s ∧
    tree.kind s = region.statementKind
  unguarded : ∃ below above, tree.ancestors c = below ++ root :: above ∧
    ∀ b ∈ below, tree.kind b = region.statementKind → tree.isGuardCall b = false

section Search

variable {child s : Nat}

/-- A guard of a region is one of its expressions that has `ISNULL` as its first child. -/
def IsGuard (tree : Tree) (region : Region) (id : NodeId) : Prop :=
  tree.kind id = region.statementKind ∧
    (tree.children id).head?.map tree.kind = some (.terminal (.keyword .isNull))

instance : DecidablePred (tree.IsGuard region) := fun _ => inferInstanceAs (Decidable (_ ∧ _))

lemma isGuardCall_iff : tree.isGuardCall id = true ↔
    (tree.children id).head?.map tree.kind = some (.terminal (.keyword .isNull)) := by
  rw [isGuardCall, decide_eq_true_iff, firstChild?]
  cases (tree.children id).head? with
  | none => simp
  | some head =>
    simp only [Option.bind_some, tokenKind?, Option.map_some, Option.some.injEq]
    cases tree.kind head <;> simp [NodeKind.token?]

lemma isGuard_iff : tree.IsGuard region id ↔
    tree.kind id = region.statementKind ∧ tree.isGuardCall id = true := by
  rw [IsGuard, isGuardCall_iff]

lemma not_isGuard_iff : ¬ tree.IsGuard region id ↔
    (tree.kind id = region.statementKind → tree.isGuardCall id = false) := by
  rw [isGuard_iff, not_and, Bool.not_eq_true]

lemma kind_of_operandColumn? (h : tree.operandColumn? s = some c) :
    tree.kind c = .column := by
  obtain ⟨_, _, hcolumn⟩ := Option.bind_eq_some_iff.mp h
  simpa using List.find?_some hcolumn

lemma kind_of_mem_surveyTo {depth : Nat} (h : .candidate c ∈ tree.surveyTo region depth id) :
    tree.kind c = .column := by
  induction depth generalizing id with
  | zero => cases h
  | succ depth ih =>
    obtain ⟨child, _, h⟩ := List.mem_flatMap.mp h
    split at h
    · split at h
      · cases List.mem_singleton.mp h
      · rcases List.mem_append.mp h with h | h
        · obtain ⟨column, hcolumn, hc⟩ := List.mem_map.mp h
          cases hc
          exact kind_of_operandColumn? (Option.mem_toList.mp hcolumn)
        · exact ih h
    · exact ih h

/-- All candidates are columns. -/
lemma kind_of_mem_candidates (h : c ∈ tree.candidates region root) : tree.kind c = .column := by
  obtain ⟨sight, hsight, hc⟩ := List.mem_filterMap.mp h
  cases sight with
  | candidate column =>
    cases hc
    exact kind_of_mem_surveyTo hsight
  | guard statement => cases hc

lemma WellFormed.candidates_eq (h : tree.WellFormed) (region : Region) (id : NodeId) :
    tree.candidates region id = (tree.children id).flatMap fun child =>
      if tree.kind child = region.statementKind then
        if tree.isGuardCall child then []
        else (tree.operandColumn? child).toList ++ tree.candidates region child
      else tree.candidates region child := by
  unfold candidates
  rw [h.survey_eq region id, List.filterMap_flatMap]
  apply List.flatMap_congr
  intro child _
  split
  · split
    · rfl
    · rw [List.filterMap_append]
      cases tree.operandColumn? child <;> rfl
  · rfl

/-- Neither a node nor any node above it and below a root is a guard. -/
def Unguarded (tree : Tree) (region : Region) (root s : NodeId) : Prop :=
  ∀ a ∈ s :: tree.ancestors s, a ∈ tree.descendants root → ¬ tree.IsGuard region a

instance : DecidablePred (tree.Unguarded region root) := fun s =>
  inferInstanceAs (Decidable (∀ a ∈ s :: tree.ancestors s, _))

/-- The expressions of a region below a root that are unguarded, in the order of a walk. -/
def reached (tree : Tree) (region : Region) (root : NodeId) : List NodeId :=
  (tree.descendants root).filter fun s =>
    tree.kind s = region.statementKind ∧ tree.Unguarded region root s

namespace WellFormed

/-- From a node up to a root above it, the nodes on the way are those that are below the root. -/
lemma mem_below_iff (h : tree.WellFormed) (hs : tree.ancestors s = below ++ root :: above) :
    a ∈ s :: below ↔ a ∈ s :: tree.ancestors s ∧ a ∈ tree.descendants root := by
  rw [h.mem_descendants_iff]
  constructor
  · intro ha
    rcases List.mem_cons.mp ha with rfl | ha
    · exact ⟨List.mem_cons_self, by simp [hs]⟩
    · obtain ⟨first, second, rfl⟩ := List.append_of_mem ha
      rw [List.append_assoc, List.cons_append] at hs
      exact ⟨by simp [hs], by simp [h.ancestors_split hs]⟩
  · rintro ⟨ha, hroot⟩
    have hlt := h.lt_of_mem_ancestors hroot
    rw [hs, List.mem_cons, List.mem_append, List.mem_cons] at ha
    rcases ha with rfl | ha | rfl | ha
    · exact List.mem_cons_self
    · exact List.mem_cons_of_mem _ ha
    · exact absurd hlt (Nat.lt_irrefl _)
    · -- what is above the root is not below it
      rw [← h.ancestors_split hs] at ha
      exact absurd hlt (Nat.lt_asymm (h.lt_of_mem_ancestors ha))

lemma unguarded_iff (h : tree.WellFormed) (hs : tree.ancestors s = below ++ root :: above) :
    tree.Unguarded region root s ↔ ∀ a ∈ s :: below, ¬ tree.IsGuard region a := by
  simp only [Unguarded, h.mem_below_iff hs, and_imp]

lemma unguarded_child_iff (h : tree.WellFormed) (hchild : child ∈ tree.children root) :
    tree.Unguarded region root child ↔ ¬ tree.IsGuard region child := by
  have hs : tree.ancestors child = [] ++ root :: tree.ancestors root := h.ancestors_of_child hchild
  rw [h.unguarded_iff hs, List.forall_mem_singleton]

/-- A node below a child is unguarded from the root on if it is from the child on, and the child is
no guard. -/
lemma unguarded_below_iff (h : tree.WellFormed) (hchild : child ∈ tree.children root)
    (hs : s ∈ tree.descendants child) : tree.Unguarded region root s ↔
      ¬ tree.IsGuard region child ∧ tree.Unguarded region child s := by
  obtain ⟨below, above, hsplit⟩ := List.append_of_mem (h.mem_descendants_iff.mp hs)
  have hlong : tree.ancestors s = (below ++ [child]) ++ root :: tree.ancestors root := by
    rw [hsplit, ← h.ancestors_split hsplit, h.ancestors_of_child hchild, List.append_assoc,
      List.singleton_append]
  rw [h.unguarded_iff hlong, h.unguarded_iff hsplit, ← List.cons_append, List.forall_mem_append,
    List.forall_mem_singleton, and_comm]

/-- What is reached below a root is reached from its children, past those that are guards. -/
lemma reached_eq (h : tree.WellFormed) (region : Region) (root : Nat) :
    tree.reached region root = (tree.children root).flatMap fun child =>
      if tree.IsGuard region child then []
      else if tree.kind child = region.statementKind then child :: tree.reached region child
      else tree.reached region child := by
  unfold reached
  rw [h.descendants_eq root, List.filter_flatMap]
  apply List.flatMap_congr
  intro child hchild
  have hfirst : tree.Unguarded region root child ↔ ¬ tree.IsGuard region child :=
    h.unguarded_child_iff hchild
  split
  case isTrue hguard =>
    rw [List.filter_eq_nil_iff]
    intro s hs
    rcases List.mem_cons.mp hs with rfl | hs
    · simp [hfirst, hguard]
    · simp [h.unguarded_below_iff hchild hs, hguard]
  case isFalse hguard =>
    have hbelow : (tree.descendants child).filter (fun s =>
        tree.kind s = region.statementKind ∧ tree.Unguarded region root s) =
        (tree.descendants child).filter (fun s =>
          tree.kind s = region.statementKind ∧ tree.Unguarded region child s) := by
      apply List.filter_congr
      intro s hs
      simp [h.unguarded_below_iff hchild hs, hguard]
    rw [List.filter_cons, hbelow]
    simp [hfirst, hguard]

/-- The search for candidates gives the operands of the expressions that it reaches. -/
lemma candidates_eq_filterMap (h : tree.WellFormed) (region : Region) (root : Nat) :
    tree.candidates region root = (tree.reached region root).filterMap tree.operandColumn? := by
  induction root using Nat.strongRecOn with
  | ind root ih =>
    rw [h.candidates_eq, h.reached_eq, List.filterMap_flatMap]
    apply List.flatMap_congr
    intro child hchild
    rw [ih child (h.child_lt hchild)]
    by_cases hkind : tree.kind child = region.statementKind
    · cases hguard : tree.isGuardCall child <;>
        cases hcolumn : tree.operandColumn? child <;>
        simp [isGuard_iff, hkind, hguard, hcolumn]
    · simp [isGuard_iff, hkind]

/-- The candidates below a root are the operands of the expressions of the region that can be reached
from it past no guard. -/
lemma mem_candidates_iff (h : tree.WellFormed) :
    c ∈ tree.candidates region root ↔ ∃ s below above,
      tree.ancestors s = below ++ root :: above ∧ tree.kind s = region.statementKind ∧
      tree.operandColumn? s = some c ∧
      ∀ b ∈ s :: below, tree.kind b = region.statementKind → tree.isGuardCall b = false := by
  simp only [h.candidates_eq_filterMap, List.mem_filterMap, reached, List.mem_filter,
    decide_eq_true_eq, ← not_isGuard_iff]
  constructor
  · rintro ⟨s, ⟨hbelow, hkind, hunguarded⟩, hoperand⟩
    obtain ⟨below, above, hs⟩ := List.append_of_mem (h.mem_descendants_iff.mp hbelow)
    exact ⟨s, below, above, hs, hkind, hoperand, (h.unguarded_iff hs).mp hunguarded⟩
  · rintro ⟨s, below, above, hs, hkind, hoperand, hguards⟩
    have hbelow : s ∈ tree.descendants root := h.mem_descendants_iff.mpr (by simp [hs])
    exact ⟨s, ⟨hbelow, hkind, (h.unguarded_iff hs).mpr hguards⟩, hoperand⟩

end WellFormed

end Search

section Columns

/-- What a place in a list can be if the first two places are known. -/
lemma split_behind_two {α : Type} {x y a : α} {rest below above : List α}
    (h : x :: y :: rest = below ++ a :: above) :
    a = x ∧ below = [] ∨ a = y ∧ below = [x] ∨
      ∃ below', below = x :: y :: below' ∧ rest = below' ++ a :: above := by
  rcases below with _ | ⟨b, _ | ⟨b', below'⟩⟩ <;>
    simp only [List.cons_append, List.nil_append, List.cons.injEq] at h
  · exact .inl ⟨h.1.symm, rfl⟩
  · exact .inr (.inl ⟨h.2.1.symm, by rw [h.1]⟩)
  · exact .inr (.inr ⟨below', by rw [h.1, h.2.1], h.2.2⟩)

/-- A column is all that there is in an operand, and the operand is all that there is in an
expression. -/
lemma Shaped.exists_children (h : tree.Shaped) (hc : tree.kind c = .column) :
    ∃ operand s : Nat, tree.children operand = [c] ∧ tree.children s = [operand] ∧
      tree.kind operand = .statement ∧ (tree.kind s).isBoundaryStatement = true := by
  obtain ⟨operand, _, hmem, hallows⟩ := h.exists_parent (by simp [hc] : tree.kind c ≠ .package)
  have hkind : tree.kind operand = .statement := by
    rw [hc] at hallows
    exact NodeKind.eq_statement_of_allows_column hallows
  obtain ⟨s, _, hmem', hallows'⟩ := h.exists_parent (by simp [hkind] : tree.kind operand ≠ .package)
  rw [hkind] at hallows'
  refine ⟨operand, s, ?_, ?_, hkind, NodeKind.boundary_of_allows_statement hallows'⟩
  · obtain ⟨d, hd⟩ := List.length_eq_one_iff.mp (h.single hkind)
    rw [hd, List.mem_singleton] at hmem
    rw [hd, hmem]
  · obtain ⟨d, hd⟩ := List.length_eq_one_iff.mp (h.alone hmem' hkind)
    rw [hd, List.mem_singleton] at hmem'
    rw [hd, hmem']

lemma Shaped.exists_operand (h : tree.Shaped) (hc : tree.kind c = .column) :
    ∃ operand s, tree.ancestors c = operand :: s :: tree.ancestors s ∧
      tree.kind operand = .statement ∧ (tree.kind s).isBoundaryStatement = true ∧
      tree.operandColumn? s = some c ∧ tree.isGuardCall s = false := by
  obtain ⟨operand, s, hchildren, hchildren', hkind, hboundary⟩ := h.exists_children hc
  have hmem : c ∈ tree.children operand := by simp [hchildren]
  have hmem' : operand ∈ tree.children s := by simp [hchildren']
  refine ⟨operand, s, ?_, hkind, hboundary, ?_, ?_⟩
  · rw [h.ancestors_of_child hmem, h.ancestors_of_child hmem']
  · simp [operandColumn?, childOfKind?, hchildren, hchildren', hkind, hc]
  · simp [isGuardCall, firstChild?, hchildren', tokenKind?, hkind, NodeKind.token?]

lemma WellFormed.of_operandColumn? (h : tree.WellFormed) {s : Nat}
    (hs : tree.operandColumn? s = some c) :
    ∃ operand, tree.ancestors c = operand :: s :: tree.ancestors s ∧
      tree.kind operand = .statement ∧ tree.kind c = .column := by
  obtain ⟨operand, hoperand, hcolumn⟩ := Option.bind_eq_some_iff.mp hs
  have hkind := List.find?_some hoperand
  refine ⟨operand, ?_, by simpa using hkind, kind_of_operandColumn? hs⟩
  rw [h.ancestors_of_child (List.mem_of_find?_eq_some hcolumn),
    h.ancestors_of_child (List.mem_of_find?_eq_some hoperand)]

/-- The search from the top down finds the exposed columns. -/
theorem Shaped.mem_candidates_iff_exposed (h : tree.Shaped)
    (hroot : tree.kind root = region.startKind) :
    c ∈ tree.candidates region root ↔ tree.Exposed region root c := by
  rw [h.mem_candidates_iff]
  constructor
  · rintro ⟨s, below, above, hs, hkind, hcolumn, hguards⟩
    obtain ⟨operand, hc, hoperand, hckind⟩ := h.of_operandColumn? hcolumn
    have hne : tree.kind operand ≠ region.statementKind := by
      rw [hoperand]
      cases region <;> simp [Region.statementKind]
    refine ⟨hckind, ⟨s, ⟨[operand], tree.ancestors s, hc, ?_, ?_⟩, hkind⟩, operand :: s :: below,
      above, by rw [hc, hs]; rfl, ?_⟩
    · rw [hkind]
      exact region.isBoundaryStatement_statementKind
    · simp [hoperand, NodeKind.isBoundaryStatement]
    · exact List.forall_mem_cons.mpr ⟨fun hk => absurd hk hne, hguards⟩
  · rintro ⟨hckind, ⟨s', ⟨_, _, hs', hboundary', hbelow⟩, hkind⟩, _, above, hs, hguards⟩
    obtain ⟨operand, s, hc, hoperand, hboundary, hcolumn, hguard⟩ := h.exists_operand hckind
    rw [hc] at hs hs'
    obtain rfl : s' = s := by
      rcases split_behind_two hs' with ⟨rfl, _⟩ | ⟨rfl, _⟩ | ⟨below, rfl, _⟩
      · simp [hoperand, NodeKind.isBoundaryStatement] at hboundary'
      · rfl
      · simp [hbelow s (by simp)] at hboundary
    rcases split_behind_two hs with ⟨rfl, _⟩ | ⟨rfl, _⟩ | ⟨below, rfl, hsplit⟩
    · exact absurd (hroot.symm.trans hoperand) region.startKind_ne_statement
    · simp [hroot, region.isBoundaryStatement_startKind] at hboundary
    · exact ⟨s', below, above, hsplit, hkind, hcolumn, (List.forall_mem_cons.mp hguards).2⟩

end Columns

section Guards

/-- The search for a guard goes past a node that neither ends it nor is a guard. -/
lemma guardedAlong_cons_iff : tree.guardedAlong region (id :: above) = true ↔
    tree.kind id ≠ region.rootKind ∧
      (tree.kind id = region.statementKind → tree.children id ≠ []) ∧
      (tree.IsGuard region id ∨ tree.guardedAlong region above = true) := by
  rw [guardedAlong, isGuard_iff]
  by_cases hroot : tree.kind id = region.rootKind
  · simp [Region.isBoundary, hroot]
  · by_cases hkind : tree.kind id = region.statementKind
    · rw [hkind] at hroot
      cases hguard : tree.isGuardCall id <;> simp [Region.isBoundary, hkind, hroot]
    · simp [Region.isBoundary, hroot, hkind]

/-- The search for a guard ends at the root kind of its region. -/
lemma guardedAlong_eq_false {nodes rest : List NodeId}
    (hguards : ∀ b ∈ nodes, tree.kind b = region.statementKind → tree.isGuardCall b = false)
    (ha : tree.kind a = region.rootKind) : tree.guardedAlong region (nodes ++ a :: rest) = false := by
  rw [← Bool.not_eq_true]
  induction nodes with
  | nil =>
    intro hfound
    exact (guardedAlong_cons_iff.mp hfound).1 ha
  | cons b nodes ih =>
    obtain ⟨hb, hnodes⟩ := List.forall_mem_cons.mp hguards
    intro hfound
    obtain ⟨_, _, hguard | hrest⟩ := guardedAlong_cons_iff.mp hfound
    · exact not_isGuard_iff.mpr hb hguard
    · exact ih hnodes hrest

/-- Above the node that the search for candidates starts from, or right below it, is a node at which
the search for a guard ends. -/
lemma Shaped.exists_rootKind (h : tree.Shaped) (hroot : tree.kind root = region.startKind)
    (hc : tree.kind c = .column) (hs : tree.ancestors c = below ++ root :: above) :
    ∃ nodes a rest, c :: tree.ancestors c = nodes ++ a :: rest ∧ tree.kind a = region.rootKind ∧
      ∀ b ∈ nodes, b = c ∨ b ∈ below ∨ b = root := by
  cases region with
  | select =>
    rcases below.eq_nil_or_concat with rfl | ⟨below, field, rfl⟩
    · -- a column does not hang off a select list
      have hallows := h.allows (h.mem_children_of_ancestors hs)
      rw [hc, hroot] at hallows
      cases hallows
    · rw [List.concat_eq_append, List.append_assoc, List.singleton_append] at hs
      have hmem := h.mem_children_of_ancestors (h.ancestors_split hs)
      obtain ⟨child, hchild⟩ := h.exists_child_of_mem_ancestors (a := field) (by rw [hs]; simp)
      have hallows := h.allows hmem
      rw [hroot] at hallows
      refine ⟨c :: below, field, root :: above, by rw [hs]; rfl,
        NodeKind.eq_selectedField_of_allows hallows (h.token?_eq_none hchild), ?_⟩
      intro b hb
      rcases List.mem_cons.mp hb with rfl | hb
      · exact .inl rfl
      · exact .inr (.inl (by simp [hb]))
  | filter =>
    obtain ⟨clause, hp, _, hallows⟩ := h.exists_parent (by rw [hroot]; simp [Region.startKind])
    rw [hroot] at hallows
    refine ⟨c :: below ++ [root], clause, tree.ancestors clause, ?_,
      NodeKind.eq_whereClause_of_allows hallows, by simp⟩
    rw [hs, ← h.ancestors_split hs, h.ancestors_of_parent hp]
    simp
  | join =>
    obtain ⟨join, hp, _, hallows⟩ := h.exists_parent (by rw [hroot]; simp [Region.startKind])
    rw [hroot] at hallows
    refine ⟨c :: below ++ [root], join, tree.ancestors join, ?_,
      NodeKind.eq_join_of_allows hallows, by simp⟩
    rw [hs, ← h.ancestors_split hs, h.ancestors_of_parent hp]
    simp

/-- The search from the bottom up finds no guard around an exposed column. -/
theorem Shaped.isGuarded_of_exposed (h : tree.Shaped) (hroot : tree.kind root = region.startKind)
    (hc : tree.Exposed region root c) : tree.isGuarded region c = false := by
  obtain ⟨hkind, _, below, above, hs, hguards⟩ := hc
  obtain ⟨nodes, a, rest, hsplit, ha, hnodes⟩ := h.exists_rootKind hroot hkind hs
  rw [isGuarded, hsplit]
  refine guardedAlong_eq_false (fun b hb hstatement => ?_) ha
  rcases hnodes b hb with rfl | hb | rfl
  · cases region <;> simp [hkind, Region.statementKind] at hstatement
  · exact hguards b hb hstatement
  · exact absurd (hroot.symm.trans hstatement) region.startKind_ne_statementKind

end Guards

end Tree

end NullGuard
