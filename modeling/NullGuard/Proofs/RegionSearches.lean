import NullGuard.Proofs.ExposedColumns
import NullGuard.Proofs.TreeNavigation

/-!
# What the searches of a region find

The search for candidates takes nodes off a stack and drops the guards with all below them. The
search for a guard goes up in hops, from one boundary of the region to the next. Both are said here
without their steps: the first by the guards between a node and the root, the second by the chain of
nodes up to where the region ends. This holds in all well formed trees, also in those that no text
is read as.
-/

namespace NullGuard

namespace Tree

variable {tree : Tree} {region : Region} {id child root s a c : Nat}
  {stack found found' below above : List NodeId}

section Candidates

/-- The first child of a kind. -/
def FirstOfKind (tree : Tree) (kind : NodeKind) (id child : NodeId) : Prop :=
  ∃ before after, tree.children id = before ++ child :: after ∧ tree.kind child = kind ∧
    ∀ other ∈ before, tree.kind other ≠ kind

lemma childOfKind?_eq_some_iff {kind : NodeKind} :
    tree.childOfKind? id kind = some child ↔ tree.FirstOfKind kind id child := by
  rw [childOfKind?, List.find?_eq_some_iff_append, FirstOfKind]
  constructor
  · rintro ⟨hkind, before, after, hchildren, hbefore⟩
    exact ⟨before, after, hchildren, by simpa using hkind, by simpa using hbefore⟩
  · rintro ⟨before, after, hchildren, hkind, hbefore⟩
    exact ⟨by simpa using hkind, before, after, hchildren, by simpa using hbefore⟩

lemma operandColumn?_eq_some_iff : tree.operandColumn? s = some c ↔
    ∃ operand, tree.FirstOfKind .statement s operand ∧ tree.FirstOfKind .column operand c := by
  rw [operandColumn?, Option.bind_eq_some_iff]
  simp only [childOfKind?_eq_some_iff]

/-- What is found by taking nodes off a stack. A guard is dropped. Any other node leaves its children
on the stack, the first of them on top, and an expression of the region gives its operand if that is
a column. -/
inductive Gathers (tree : Tree) (region : Region) : List NodeId → List NodeId → Prop where
  | empty : Gathers tree region [] []
  | drop {id : NodeId} {stack found : List NodeId} (hguard : tree.IsGuard region id)
      (h : Gathers tree region stack found) : Gathers tree region (id :: stack) found
  | take {id : NodeId} {stack found : List NodeId} (hguard : ¬ tree.IsGuard region id)
      (hkind : tree.kind id = region.statementKind)
      (h : Gathers tree region (tree.children id ++ stack) found) :
      Gathers tree region (id :: stack) ((tree.operandColumn? id).toList ++ found)
  | pass {id : NodeId} {stack found : List NodeId} (hkind : tree.kind id ≠ region.statementKind)
      (h : Gathers tree region (tree.children id ++ stack) found) :
      Gathers tree region (id :: stack) found

lemma Gathers.unique (h : tree.Gathers region stack found) (h' : tree.Gathers region stack found') :
    found = found' := by
  induction h generalizing found' with
  | empty =>
    cases h'
    rfl
  | drop hguard _ ih =>
    cases h' with
    | drop _ hmore => exact ih hmore
    | take hnot _ _ => exact absurd hguard hnot
    | pass hkind _ => exact absurd hguard.1 hkind
  | take hnot hkind _ ih =>
    cases h' with
    | drop hguard _ => exact absurd hguard hnot
    | take _ _ hmore => rw [ih hmore]
    | pass hkind' _ => exact absurd hkind hkind'
  | pass hkind _ ih =>
    cases h' with
    | drop hguard _ => exact absurd hguard.1 hkind
    | take _ hkind' _ => exact absurd hkind' hkind
    | pass _ hmore => exact ih hmore

namespace WellFormed

/-- No two expressions have the same column as their operand. -/
lemma nodup_candidates (h : tree.WellFormed) (region : Region) (root : Nat) :
    (tree.candidates region root).Nodup := by
  rw [h.candidates_eq_filterMap]
  have hreached : (tree.reached region root).Nodup :=
    (List.nodup_cons.mp (h.nodup_descendants root)).2.filter _
  refine hreached.filterMap fun s s' c hs hs' => ?_
  obtain ⟨_, hc, _⟩ := h.of_operandColumn? (Option.mem_def.mp hs)
  obtain ⟨_, hc', _⟩ := h.of_operandColumn? (Option.mem_def.mp hs')
  rw [hc] at hc'
  exact (List.cons.inj (List.cons.inj hc').2).1

/-- A stack gives the candidates of each of its nodes, where an expression comes with its own
operand. -/
lemma gathers (h : tree.WellFormed) (region : Region) (stack : List NodeId) :
    tree.Gathers region stack (stack.flatMap fun id =>
      if tree.kind id = region.statementKind then
        if tree.isGuardCall id then []
        else (tree.operandColumn? id).toList ++ tree.candidates region id
      else tree.candidates region id) := by
  induction stack using h.induction_stack with
  | empty => exact .empty
  | pop id stack ih ihstack =>
    rw [List.flatMap_append, ← h.candidates_eq] at ih
    rw [List.flatMap_cons]
    split
    case isTrue hkind =>
      split
      case isTrue hguard => exact .drop (isGuard_iff.mpr ⟨hkind, hguard⟩) ihstack
      case isFalse hguard =>
        rw [List.append_assoc]
        exact .take (fun hnot => hguard (isGuard_iff.mp hnot).2) hkind ih
    case isFalse hkind => exact .pass hkind ih

end WellFormed

/-- The search for candidates is exact. Working off a stack with the children of the root gives the
candidates and nothing else. They are the operands of the unguarded expressions of the region below
the root, each the first column of the first operand if there are both, in the order of a walk, and
no column is given twice. -/
theorem candidates_exact (h : tree.WellFormed) (region : Region) (root : NodeId) :
    (∀ found, tree.Gathers region (tree.children root) found ↔
      found = tree.candidates region root) ∧
    tree.candidates region root = ((tree.descendants root).filter fun s =>
      tree.kind s = region.statementKind ∧ ∀ a ∈ s :: tree.ancestors s,
        a ∈ tree.descendants root → ¬ tree.IsGuard region a).filterMap tree.operandColumn? ∧
    (∀ s c, tree.operandColumn? s = some c ↔
      ∃ operand, tree.FirstOfKind .statement s operand ∧ tree.FirstOfKind .column operand c) ∧
    (tree.candidates region root).Nodup := by
  refine ⟨fun found => ?_, h.candidates_eq_filterMap region root,
    fun s c => operandColumn?_eq_some_iff, h.nodup_candidates region root⟩
  have hall : tree.Gathers region (tree.children root) (tree.candidates region root) :=
    h.candidates_eq region root ▸ h.gathers region (tree.children root)
  constructor
  · intro hfound
    exact hfound.unique hall
  · rintro rfl
    exact hall

/-- Below the root are a guard of another region, a guard inside of a guard, an expression with two
operands and two columns in the first of them, and an expression without children. From the inner
guard on, the column in it is found. -/
theorem candidates_exact_nested : ∃ tree : Tree, tree.WellFormed ∧
    tree.children 22 = [5, 13, 20, 21] ∧ tree.IsGuard .filter 5 ∧ tree.IsGuard .select 13 ∧
    tree.IsGuard .select 12 ∧ tree.Gathers .select [5, 13, 20, 21] [2, 15] ∧
    ¬ tree.Gathers .select [5, 13, 20, 21] [2, 9, 15] ∧ tree.Gathers .select [7, 11] [9] ∧
    (tree.descendants 22).filter (fun s => tree.kind s = .selectStatement ∧
      ∀ a ∈ s :: tree.ancestors s, a ∈ tree.descendants 22 → ¬ tree.IsGuard .select a) =
        [4, 20, 21] ∧
    tree.FirstOfKind .column 18 15 ∧ [2, 15].Nodup := by
  let isNull : Making := .terminal (.keyword .isNull) ⟨0, 6⟩ "ISNULL"
  let name (text : String) : Making := .terminal .identifier ⟨0, 1⟩ text
  let makings : List Making := [isNull, name "a", .node .column [1], .node .statement [2],
    .node .selectStatement [3], .node .whereStatement [0, 4],
    isNull, isNull, name "b", .node .column [8], .node .statement [9], .node .selectStatement [10],
    .node .selectStatement [7, 11], .node .selectStatement [6, 12],
    name "c", .node .column [14], name "d", .node .column [16], .node .statement [15, 17],
    .node .statement [], .node .selectStatement [18, 19], .node .selectStatement [],
    .node .selectList [5, 13, 20, 21]]
  let tree : Tree := ⟨(({} : Builder).makeAll makings).nodes, 22⟩
  have hfinish : (({} : Builder).makeAll makings).finish 22 = .ok tree := by decide +kernel
  have hwf : tree.WellFormed := (Builder.mirrors_makeAll makings).wellFormed hfinish
  have hchildren : tree.children 22 = [5, 13, 20, 21] := by decide +kernel
  have hinner : tree.children 12 = [7, 11] := by decide +kernel
  have hcandidates : tree.candidates .select 22 = [2, 15] := by decide +kernel
  obtain ⟨hstack, _, hoperand, hnodup⟩ := candidates_exact hwf .select 22
  rw [hchildren, hcandidates] at hstack
  obtain ⟨operand, hfirst, hcolumn⟩ := (hoperand 20 15).mp (by decide +kernel)
  have hstatement : tree.childOfKind? 20 .statement = some 18 := by decide +kernel
  obtain rfl : 18 = operand :=
    Option.some.inj (hstatement.symm.trans (childOfKind?_eq_some_iff.mpr hfirst))
  refine ⟨tree, hwf, hchildren, by decide +kernel, by decide +kernel, by decide +kernel,
    (hstack _).mpr rfl, fun hmore => absurd ((hstack _).mp hmore) (by decide), ?_,
    by decide +kernel, hcolumn, hcandidates ▸ hnodup⟩
  rw [← hinner]
  exact ((candidates_exact hwf .select 12).1 [9]).mpr (by decide +kernel)

end Candidates

section Guards

/-- The nearest node from a node upwards that the search for a guard looks at. -/
def boundary? (tree : Tree) (region : Region) (id : NodeId) : Option NodeId :=
  (id :: tree.ancestors id).find? fun a => region.isBoundary (tree.kind a)

/-- A hop of the search for a guard. It gives the answer, or the place to go on from: the parent of
the nearest boundary, if that neither ends the region nor is empty nor is a guard. -/
def hop (tree : Tree) (region : Region) (start : NodeId) : Bool ⊕ Option NodeId :=
  match tree.boundary? region start with
  | none => .inl false
  | some id =>
    if tree.kind id = region.rootKind || (tree.children id).isEmpty then .inl false
    else if tree.isGuardCall id then .inl true
    else .inr (tree.parent id)

/-- Hop after hop up to an answer, which is that there is no guard if the hops go over the top. -/
inductive Hops (tree : Tree) (region : Region) : Option NodeId → Bool → Prop where
  | top : Hops tree region none false
  | answer {start : NodeId} {found : Bool} (h : tree.hop region start = .inl found) :
      Hops tree region (some start) found
  | on {start : NodeId} {next : Option NodeId} {found : Bool}
      (h : tree.hop region start = .inr next) (hmore : Hops tree region next found) :
      Hops tree region (some start) found

variable {place : Option NodeId} {answer answer' : Bool} {start next : Nat}

lemma Hops.unique (h : tree.Hops region place answer) (h' : tree.Hops region place answer') :
    answer = answer' := by
  induction h with
  | top =>
    cases h'
    rfl
  | answer hhop =>
    cases h' with
    | answer hhop' => exact Sum.inl.inj (hhop.symm.trans hhop')
    | on hhop' _ => cases hhop.symm.trans hhop'
  | on hhop _ ih =>
    cases h' with
    | answer hhop' => cases hhop.symm.trans hhop'
    | on hhop' hmore => exact ih (Sum.inr.inj (hhop.symm.trans hhop') ▸ hmore)

/-- The search for a guard looks at boundaries only. -/
lemma guardedAlong_append (h : ∀ b ∈ below, region.isBoundary (tree.kind b) = false) :
    tree.guardedAlong region (below ++ above) = tree.guardedAlong region above := by
  induction below with
  | nil => rfl
  | cons b below ih =>
    obtain ⟨hb, hbelow⟩ := List.forall_mem_cons.mp h
    rw [List.cons_append, guardedAlong, hb, ih hbelow]
    rfl

namespace WellFormed

/-- A boundary is met after nodes that are none, and above it is the way up from it. -/
lemma exists_of_boundary? (h : tree.WellFormed) (hid : tree.boundary? region start = some id) :
    ∃ below, start :: tree.ancestors start = below ++ id :: tree.ancestors id ∧
      region.isBoundary (tree.kind id) = true ∧
      ∀ b ∈ below, region.isBoundary (tree.kind b) = false := by
  obtain ⟨hboundary, below, above, hsplit, hbelow⟩ := List.find?_eq_some_iff_append.mp hid
  have habove : tree.ancestors id = above := by
    cases below with
    | nil =>
      obtain ⟨rfl, habove⟩ := List.cons.inj hsplit
      exact habove
    | cons b below => exact h.ancestors_split (List.cons.inj hsplit).2
  exact ⟨below, habove ▸ hsplit, hboundary, by simpa using hbelow⟩

/-- A hop keeps the answer: it is given, or it is the one at the place to go on from. -/
lemma isGuarded_hop (h : tree.WellFormed) (region : Region) (start : Nat) :
    tree.isGuarded region start =
      (tree.hop region start).elim (fun found => found)
        fun next => next.elim false (tree.isGuarded region) := by
  rw [hop]
  cases hid : tree.boundary? region start with
  | none =>
    have hnone : ∀ b ∈ start :: tree.ancestors start, region.isBoundary (tree.kind b) = false := by
      simpa using List.find?_eq_none.mp hid
    rw [isGuarded, ← List.append_nil (start :: _), guardedAlong_append hnone]
    rfl
  | some id =>
    obtain ⟨below, hsplit, hboundary, hbelow⟩ := h.exists_of_boundary? hid
    have hup : tree.guardedAlong region (tree.ancestors id) =
        (tree.parent id).elim false (tree.isGuarded region) := by
      cases hp : tree.parent id with
      | none =>
        rw [ancestors_of_none hp]
        rfl
      | some parent =>
        rw [h.ancestors_of_parent hp]
        rfl
    rw [isGuarded, hsplit, guardedAlong_append hbelow, guardedAlong, hboundary, if_pos rfl, hup]
    split
    case isTrue hends => simp [hends]
    case isFalse hends => cases hguard : tree.isGuardCall id <;> simp [hends, hguard]

/-- Hops go up. -/
lemma lt_of_hop (h : tree.WellFormed) (hhop : tree.hop region start = .inr (some next)) :
    start < next ∧ next < tree.size := by
  unfold hop at hhop
  split at hhop
  · cases hhop
  · next id hid =>
    have hparent : tree.parent id = some next := by
      split at hhop
      · cases hhop
      · split at hhop
        · cases hhop
        · exact Sum.inr.inj hhop
    obtain ⟨hlt, hsize⟩ := h.parent_lt hparent
    have hmem : id ∈ start :: tree.ancestors start := List.mem_of_find?_eq_some hid
    rcases List.mem_cons.mp hmem with rfl | hmem
    · exact ⟨hlt, hsize⟩
    · exact ⟨Nat.lt_trans (h.lt_of_mem_ancestors hmem) hlt, hsize⟩

/-- Hop after hop comes to an answer. -/
lemma hops (h : tree.WellFormed) (region : Region) (start : Nat) :
    tree.Hops region (some start) (tree.isGuarded region start) := by
  induction hn : tree.size - start using Nat.strongRecOn generalizing start with
  | ind n ih =>
    rw [h.isGuarded_hop region start]
    cases hhop : tree.hop region start with
    | inl found => exact .answer hhop
    | inr next =>
      refine .on hhop ?_
      cases next with
      | none => exact .top
      | some next =>
        have hlt := h.lt_of_hop hhop
        exact ih (tree.size - next) (by omega) next rfl

end WellFormed

/-- Where all nodes have children, the search for a guard finds one that comes before the root kind
of its region. -/
lemma guardedAlong_iff_exists (hchildren : ∀ a ∈ above, tree.children a ≠ []) :
    tree.guardedAlong region above = true ↔
      ∃ a ∈ above.takeWhile (tree.kind · ≠ region.rootKind), tree.IsGuard region a := by
  induction above with
  | nil => simp [guardedAlong]
  | cons id above ih =>
    obtain ⟨hid, habove⟩ := List.forall_mem_cons.mp hchildren
    rw [guardedAlong_cons_iff, ih habove]
    by_cases hroot : tree.kind id = region.rootKind
    · simp [hroot]
    · simp [hroot, hid]

/-- The search for a guard is exact. Its hops come to an answer, and `isGuarded` is the only one. A
node is guarded exactly if it is no expression of the region without children, and on the way up from
it to the top there is a guard before the first node, if any, of the root kind of the region. -/
theorem isGuarded_exact (h : tree.WellFormed) (region : Region) (id : NodeId) :
    (∀ answer, tree.Hops region (some id) answer ↔ answer = tree.isGuarded region id) ∧
    ∃ above, tree.Climbs id above ∧ (tree.isGuarded region id = true ↔
      ¬ (tree.kind id = region.statementKind ∧ tree.children id = []) ∧
        ∃ a ∈ (id :: above).takeWhile (tree.kind · ≠ region.rootKind), tree.IsGuard region a) := by
  refine ⟨fun answer => ⟨fun hhops => hhops.unique (h.hops region id), ?_⟩,
    tree.ancestors id, h.climbs_ancestors id, ?_⟩
  · rintro rfl
    exact h.hops region id
  · have hchildren : ∀ a ∈ tree.ancestors id, tree.children a ≠ [] := by
      intro a ha
      obtain ⟨child, hchild⟩ := h.exists_child_of_mem_ancestors ha
      exact List.ne_nil_of_mem hchild
    rw [isGuarded, guardedAlong_cons_iff, guardedAlong_iff_exists hchildren, ← not_and]
    by_cases hroot : tree.kind id = region.rootKind
    · simp [hroot]
    · simp [hroot]

/-- A guard with three nodes in it: the word `ISNULL`, an expression without children, and an
expression of another region, in which a selected field hides a column from the guard. -/
theorem isGuarded_exact_hidden : ∃ tree : Tree, tree.WellFormed ∧ tree.children 8 = [0, 1, 7] ∧
    tree.Hops .select (some 0) true ∧ tree.Hops .select (some 1) false ∧
    tree.Hops .select (some 3) false ∧ tree.Hops .select (some 7) true ∧
    tree.Hops .filter (some 3) false ∧
    ∃ above, tree.Climbs 7 above ∧
      ∃ a ∈ (7 :: above).takeWhile (tree.kind · ≠ .selectedField), tree.IsGuard .select a := by
  let makings : List Making := [.terminal (.keyword .isNull) ⟨0, 6⟩ "ISNULL",
    .node .selectStatement [], .terminal .identifier ⟨7, 8⟩ "a", .node .column [2],
    .node .statement [3], .node .selectStatement [4], .node .selectedField [5],
    .node .whereStatement [6], .node .selectStatement [0, 1, 7], .node .selectList [8]]
  let tree : Tree := ⟨(({} : Builder).makeAll makings).nodes, 9⟩
  have hfinish : (({} : Builder).makeAll makings).finish 9 = .ok tree := by decide +kernel
  have hwf : tree.WellFormed := (Builder.mirrors_makeAll makings).wellFormed hfinish
  have hhops (region : Region) (id : NodeId) := (isGuarded_exact hwf region id).1
  obtain ⟨above, hclimbs, hguarded⟩ := (isGuarded_exact hwf .select 7).2
  refine ⟨tree, hwf, by decide +kernel, (hhops _ _ _).mpr (by decide +kernel),
    (hhops _ _ _).mpr (by decide +kernel), (hhops _ _ _).mpr (by decide +kernel),
    (hhops _ _ _).mpr (by decide +kernel), (hhops _ _ _).mpr (by decide +kernel),
    above, hclimbs, ?_⟩
  exact (hguarded.mp (by decide +kernel)).2

end Guards

end Tree

end NullGuard
