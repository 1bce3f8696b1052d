import Mathlib.Data.List.Forall2
import Mathlib.Tactic.Common
import NullGuard.Lint

/-!
# Trees with right links

In a well formed tree parents and children know each other, and children have lower numbers than
their parents. The depth to which the walks of a tree go is then always enough, so each walk can be
said by its step from a node to its children or to its parent. For that the numbers alone matter: of
the parents for the way up, and of the children for the way down.
-/

namespace NullGuard

namespace Tree

/-- Parents and children know each other, and the root is the only node without a parent. -/
structure WellFormed (tree : Tree) : Prop where
  child_lt : ∀ {id child : Nat}, child ∈ tree.children id → child < id
  parent_of_child : ∀ {id child : NodeId}, child ∈ tree.children id → tree.parent child = some id
  child_of_parent : ∀ {id child : NodeId}, tree.parent child = some id → child ∈ tree.children id
  nodup_children : ∀ id, (tree.children id).Nodup
  root_lt : tree.root < tree.size
  parent_root : tree.parent tree.root = none
  parent_of_ne_root : ∀ id < tree.size, id ≠ tree.root → (tree.parent id).isSome

variable {tree : Tree} {id child parent a : Nat}

lemma node_of_size_le (h : tree.size ≤ id) : tree.node id = default := by
  have hnone : tree.nodes[id]? = none := Array.getElem?_eq_none h
  rw [node, hnone]
  rfl

lemma lt_size_of_parent (h : tree.parent id = some parent) : id < tree.size := by
  by_contra hle
  rw [Tree.parent, node_of_size_le (Nat.le_of_not_lt hle)] at h
  cases h

lemma lt_size_of_child (h : child ∈ tree.children id) : id < tree.size := by
  by_contra hle
  rw [Tree.children, node_of_size_le (Nat.le_of_not_lt hle)] at h
  cases h

lemma lt_size_of_kind (h : tree.kind id ≠ .package) : id < tree.size := by
  by_contra hle
  rw [Tree.kind, node_of_size_le (Nat.le_of_not_lt hle)] at h
  exact h rfl

/-- Parents have higher numbers than their children. -/
def Ascending (tree : Tree) : Prop :=
  ∀ id parent : Nat, tree.parent id = some parent → id < parent ∧ parent < tree.size

namespace Ascending

lemma ancestorsAtMost_eq (h : tree.Ascending) {n m : Nat} (hn : tree.size - id ≤ n)
    (hm : tree.size - id ≤ m) : tree.ancestorsAtMost n id = tree.ancestorsAtMost m id := by
  induction n generalizing m id with
  | zero =>
    have hnone : tree.parent id = none := by
      rw [Tree.parent, node_of_size_le (by omega)]
      rfl
    cases m with
    | zero => rfl
    | succ m => simp only [ancestorsAtMost, hnone]
  | succ n ih =>
    cases hp : tree.parent id with
    | none => cases m <;> simp only [ancestorsAtMost, hp]
    | some parent =>
      have hlt := h id parent hp
      cases m with
      | zero => omega
      | succ m =>
        simp only [ancestorsAtMost, hp]
        rw [ih (m := m) (by omega) (by omega)]

lemma ancestors_of_parent (h : tree.Ascending) (hp : tree.parent id = some parent) :
    tree.ancestors id = parent :: tree.ancestors parent := by
  have hlt := h id parent hp
  obtain ⟨n, hn⟩ : ∃ n, tree.size = n + 1 := ⟨tree.size - 1, by omega⟩
  have hstep : tree.ancestorsAtMost tree.size id = parent :: tree.ancestorsAtMost n parent := by
    rw [hn]
    simp only [ancestorsAtMost, hp]
  rw [ancestors, hstep, ancestors, h.ancestorsAtMost_eq (by omega) (Nat.sub_le _ _)]

end Ascending

namespace WellFormed

lemma ascending (h : tree.WellFormed) : tree.Ascending := fun _ _ hp =>
  ⟨h.child_lt (h.child_of_parent hp), lt_size_of_child (h.child_of_parent hp)⟩

lemma parent_lt (h : tree.WellFormed) (hp : tree.parent id = some parent) :
    id < parent ∧ parent < tree.size := h.ascending id parent hp

section Ancestors

lemma ancestors_of_parent (h : tree.WellFormed) (hp : tree.parent id = some parent) :
    tree.ancestors id = parent :: tree.ancestors parent := h.ascending.ancestors_of_parent hp

lemma ancestors_of_child (h : tree.WellFormed) (hc : child ∈ tree.children id) :
    tree.ancestors child = id :: tree.ancestors id :=
  h.ancestors_of_parent (h.parent_of_child hc)

end Ancestors

end WellFormed

lemma ancestors_of_none (hp : tree.parent id = none) : tree.ancestors id = [] := by
  rw [ancestors]
  cases tree.size with
  | zero => rfl
  | succ n => simp only [ancestorsAtMost, hp]

lemma exists_parent_of_mem_ancestors (h : a ∈ tree.ancestors id) :
    ∃ parent, tree.parent id = some parent := by
  cases hp : tree.parent id with
  | none =>
    rw [ancestors_of_none hp] at h
    cases h
  | some parent => exact ⟨parent, rfl⟩

namespace WellFormed

/-- Going up from a node ends at the root. -/
lemma induction_up (h : tree.WellFormed) {motive : NodeId → Prop}
    (step : ∀ id, (∀ parent, tree.parent id = some parent → motive parent) → motive id)
    (id : NodeId) : motive id := by
  induction hn : tree.size - id using Nat.strongRecOn generalizing id with
  | ind n ih =>
    refine step id fun parent hp => ih _ ?_ parent rfl
    have := h.parent_lt hp
    omega

end WellFormed

section Walks

variable {β : Type}

def Descending (tree : Tree) : Prop := ∀ id child : Nat, child ∈ tree.children id → child < id

/-- What is found by going down to a depth does not depend on it, if it is not below the number of
the node. -/
lemma Descending.stable (h : tree.Descending) {f : Nat → NodeId → β}
    (hstep : ∀ n m id, (∀ child ∈ tree.children id, f n child = f m child) →
      f (n + 1) id = f (m + 1) id) :
    ∀ (n m id : Nat), id < n → id < m → f n id = f m id := by
  intro n
  induction n with
  | zero => intro m id hn; omega
  | succ n ih =>
    intro m id hn hm
    cases m with
    | zero => omega
    | succ m =>
      refine hstep n m id fun child hchild => ih m child ?_ ?_
      · have := h id child hchild
        omega
      · have := h id child hchild
        omega

lemma descendantsTo_step (n m : Nat) (id : NodeId)
    (h : ∀ child ∈ tree.children id, tree.descendantsTo n child = tree.descendantsTo m child) :
    tree.descendantsTo (n + 1) id = tree.descendantsTo (m + 1) id :=
  List.flatMap_congr fun child hchild => by rw [h child hchild]

lemma WellFormed.descending (h : tree.WellFormed) : tree.Descending := fun _ _ => h.child_lt

/-- The depth of the tree is enough to go down from any node. -/
lemma WellFormed.at_size (h : tree.WellFormed) {f : Nat → NodeId → β} {id : Nat}
    (hstep : ∀ n m id, (∀ child ∈ tree.children id, f n child = f m child) →
      f (n + 1) id = f (m + 1) id) (hid : id < tree.size) :
    f tree.size id = f (tree.size + 1) id :=
  h.descending.stable hstep _ _ id hid (Nat.lt_succ_of_lt hid)

lemma children_of_size_le (h : tree.size ≤ id) : tree.children id = [] := by
  rw [Tree.children, node_of_size_le h]
  rfl

lemma WellFormed.descendants_eq (h : tree.WellFormed) (id : Nat) :
    tree.descendants id =
      (tree.children id).flatMap fun child => child :: tree.descendants child := by
  by_cases hid : id < tree.size
  · rw [descendants, h.at_size descendantsTo_step hid]
    rfl
  · have hnil := children_of_size_le (Nat.le_of_not_lt hid)
    rw [descendants, hnil]
    cases tree.size with
    | zero => rfl
    | succ n => simp only [descendantsTo, hnil, List.flatMap_nil]

lemma WellFormed.survey_eq (h : tree.WellFormed) (region : Region) (id : Nat) :
    tree.survey region id = (tree.children id).flatMap fun child =>
      if tree.kind child = region.statementKind then
        if tree.isGuardCall child then [.guard child]
        else (tree.operandColumn? child).toList.map .candidate ++ tree.survey region child
      else tree.survey region child := by
  by_cases hid : id < tree.size
  · have hstep : ∀ n m id,
        (∀ child ∈ tree.children id, tree.surveyTo region n child = tree.surveyTo region m child) →
        tree.surveyTo region (n + 1) id = tree.surveyTo region (m + 1) id := fun n m id hchildren =>
      List.flatMap_congr fun child hchild => by rw [hchildren child hchild]
    rw [survey, h.at_size hstep hid]
    rfl
  · have hnil := children_of_size_le (Nat.le_of_not_lt hid)
    rw [survey, hnil]
    cases tree.size with
    | zero => rfl
    | succ n => simp only [surveyTo, hnil, List.flatMap_nil]

end Walks

end Tree

end NullGuard
