import Mathlib.Data.List.Induction
import Mathlib.Data.List.Nodup
import NullGuard.Proofs.TreeLinks

/-!
# The order of a tree

In a well formed tree the nodes below a node are those that it is above of, and each of them is
listed once, before all that is below it. A walk that leaves nothing out meets the nodes in this
order: it is a fold over them, up to where it is stopped.
-/

namespace NullGuard

namespace Tree

variable {tree : Tree} {id child a b c d : Nat} {below above : List NodeId}

namespace WellFormed

section Above

/-- What is above an ancestor is above the node too. -/
lemma ancestors_split (h : tree.WellFormed) (hs : tree.ancestors id = below ++ a :: above) :
    tree.ancestors a = above := by
  induction below generalizing id with
  | nil =>
    obtain ⟨parent, hp⟩ := exists_parent_of_mem_ancestors (a := a) (by rw [hs]; simp)
    rw [h.ancestors_of_parent hp] at hs
    obtain ⟨rfl, habove⟩ := List.cons.inj hs
    exact habove
  | cons b below ih =>
    obtain ⟨parent, hp⟩ := exists_parent_of_mem_ancestors (a := a) (by rw [hs]; simp)
    rw [h.ancestors_of_parent hp] at hs
    exact ih (List.cons.inj hs).2

lemma mem_children_of_ancestors (h : tree.WellFormed) (hs : tree.ancestors id = a :: above) :
    id ∈ tree.children a := by
  obtain ⟨parent, hp⟩ := exists_parent_of_mem_ancestors (a := a) (by rw [hs]; simp)
  rw [h.ancestors_of_parent hp] at hs
  obtain ⟨rfl, _⟩ := List.cons.inj hs
  exact h.child_of_parent hp

lemma exists_child_of_mem_ancestors (h : tree.WellFormed) (ha : a ∈ tree.ancestors id) :
    ∃ child, child ∈ tree.children a := by
  obtain ⟨below, above, hs⟩ := List.append_of_mem ha
  rcases below.eq_nil_or_concat with rfl | ⟨below, b, rfl⟩
  · exact ⟨id, h.mem_children_of_ancestors hs⟩
  · rw [List.concat_eq_append, List.append_assoc, List.singleton_append] at hs
    exact ⟨b, h.mem_children_of_ancestors (h.ancestors_split hs)⟩

lemma lt_of_mem_ancestors (h : tree.WellFormed) (ha : a ∈ tree.ancestors c) : c < a := by
  obtain ⟨below, above, hs⟩ := List.append_of_mem ha
  induction below generalizing c with
  | nil => exact h.child_lt (h.mem_children_of_ancestors hs)
  | cons b below ih =>
    have hsplit : tree.ancestors c = [] ++ b :: (below ++ a :: above) := hs
    have hb := h.ancestors_split hsplit
    exact Nat.lt_trans (h.child_lt (h.mem_children_of_ancestors hs)) (ih (by simp [hb]) hb)

lemma ancestors_comparable (h : tree.WellFormed) (ha : a ∈ tree.ancestors c)
    (hb : b ∈ tree.ancestors c) : a = b ∨ a ∈ tree.ancestors b ∨ b ∈ tree.ancestors a := by
  obtain ⟨below, above, hs⟩ := List.append_of_mem ha
  rw [hs, List.mem_append, List.mem_cons] at hb
  rcases hb with hb | rfl | hb
  · obtain ⟨front, back, rfl⟩ := List.append_of_mem hb
    have hsplit : tree.ancestors c = front ++ b :: (back ++ a :: above) := by simp [hs]
    exact .inr (.inl (by simp [h.ancestors_split hsplit]))
  · exact .inl rfl
  · exact .inr (.inr (by rwa [h.ancestors_split hs]))

/-- Going up from a node other than the root ends at the root. -/
lemma exists_ancestors_root (h : tree.WellFormed) (hid : id < tree.size) (hne : id ≠ tree.root) :
    ∃ below, tree.ancestors id = below ++ [tree.root] := by
  revert hid hne
  induction id using h.induction_up with
  | step id ih =>
    intro hid hne
    obtain ⟨parent, hp⟩ := Option.isSome_iff_exists.mp (h.parent_of_ne_root id hid hne)
    rw [h.ancestors_of_parent hp]
    by_cases hroot : parent = tree.root
    · refine ⟨[], ?_⟩
      rw [hroot, ancestors_of_none h.parent_root, List.nil_append]
    · obtain ⟨below, hbelow⟩ := ih parent hp (h.parent_lt hp).2 hroot
      exact ⟨parent :: below, by rw [hbelow, List.cons_append]⟩

end Above

section Below

/-- A node is below another one exactly if the other one is above it. -/
lemma mem_descendants_iff (h : tree.WellFormed) :
    d ∈ tree.descendants id ↔ id ∈ tree.ancestors d := by
  constructor
  · intro hd
    induction id using Nat.strongRecOn with
    | ind id ih =>
      rw [h.descendants_eq id] at hd
      obtain ⟨child, hchild, hd⟩ := List.mem_flatMap.mp hd
      have habove := h.ancestors_of_child hchild
      rcases List.mem_cons.mp hd with rfl | hd
      · rw [habove]
        exact List.mem_cons_self
      · obtain ⟨below, above, hs⟩ := List.append_of_mem (ih child (h.child_lt hchild) hd)
        rw [hs, ← h.ancestors_split hs, habove]
        simp
  · intro ha
    obtain ⟨below, above, hs⟩ := List.append_of_mem ha
    induction below using List.reverseRecOn generalizing id above with
    | nil =>
      rw [h.descendants_eq id]
      exact List.mem_flatMap.mpr ⟨d, h.mem_children_of_ancestors hs, List.mem_cons_self⟩
    | append_singleton below b ih =>
      rw [List.append_assoc, List.singleton_append] at hs
      have hchild := h.mem_children_of_ancestors (h.ancestors_split hs)
      rw [h.descendants_eq id]
      exact List.mem_flatMap.mpr ⟨b, hchild, List.mem_cons_of_mem _ (ih (by simp [hs]) _ hs)⟩

/-- All nodes are met from the root on. -/
lemma mem_descendants_root (h : tree.WellFormed) (hid : id < tree.size) :
    id ∈ tree.root :: tree.descendants tree.root := by
  by_cases hne : id = tree.root
  · rw [hne]
    exact List.mem_cons_self
  · obtain ⟨below, hbelow⟩ := h.exists_ancestors_root hid hne
    refine List.mem_cons_of_mem _ (h.mem_descendants_iff.mpr ?_)
    rw [hbelow]
    simp

/-- What is below a node is met once. -/
lemma nodup_descendants (h : tree.WellFormed) (id : Nat) : (id :: tree.descendants id).Nodup := by
  induction id using Nat.strongRecOn with
  | ind id ih =>
    rw [List.nodup_cons]
    constructor
    · intro hmem
      exact Nat.lt_irrefl _ (h.lt_of_mem_ancestors (h.mem_descendants_iff.mp hmem))
    · rw [h.descendants_eq id, List.nodup_flatMap]
      refine ⟨fun child hchild => ih child (h.child_lt hchild), ?_⟩
      -- a node below two children of a node would have one of them above the other
      have hother {a b : Nat} (ha : a ∈ tree.children id) (hb : b ∈ tree.children id) :
          a ∉ tree.ancestors b := by
        intro hmem
        rw [h.ancestors_of_child hb] at hmem
        rcases List.mem_cons.mp hmem with rfl | hmem
        · exact Nat.lt_irrefl _ (h.child_lt ha)
        · exact Nat.lt_asymm (h.lt_of_mem_ancestors hmem) (h.child_lt ha)
      refine (h.nodup_children id).imp_of_mem fun {a b} ha hb hne => ?_
      change List.Disjoint _ _
      intro d hda hdb
      rcases List.mem_cons.mp hda with rfl | hda <;> rcases List.mem_cons.mp hdb with rfl | hdb
      · exact hne rfl
      · exact hother hb ha (h.mem_descendants_iff.mp hdb)
      · exact hother ha hb (h.mem_descendants_iff.mp hda)
      · rcases h.ancestors_comparable (h.mem_descendants_iff.mp hda) (h.mem_descendants_iff.mp hdb)
          with heq | hmem | hmem
        · exact hne heq
        · exact hother ha hb hmem
        · exact hother hb ha hmem

end Below

end WellFormed

end Tree

section Walks

variable {σ : Type}

/-- How a walk that leaves nothing out goes on after a hook. -/
def Step.outcome : Step σ → Except σ σ
  | descend state | skip state => .ok state
  | stop state => .error state

/-- Whether a visitor never goes past what is below a node. -/
def Visitor.Thorough (visit : Visitor σ) : Prop :=
  ∀ hook id state state', visit hook id state ≠ .skip state'

namespace Tree

variable {tree : Tree} {visit : Visitor σ} {id : Nat}

/-- What a visitor does at a node, apart from all below it. -/
def meet (tree : Tree) (visit : Visitor σ) (state : σ) (id : NodeId) : Except σ σ := do
  let state ← (visit .node id state).outcome
  match (tree.kind id).hook? with
  | none => return state
  | some hook => (visit hook id state).outcome

/-- The walk from a node meets the node and goes on with its children. -/
lemma walkTo_succ (hvisit : visit.Thorough) (depth : Nat) (id : NodeId) (state : σ) :
    tree.walkTo visit (depth + 1) id state = (tree.meet visit state id).bind fun state =>
      (tree.children id).foldlM (fun s child => tree.walkTo visit depth child s) state := by
  rw [walkTo, meet]
  cases hnode : visit .node id state with
  | stop state => rfl
  | skip state => exact absurd hnode (hvisit _ _ _ _)
  | descend state =>
    cases (tree.kind id).hook? with
    | none => rfl
    | some hook =>
      cases hhook : visit hook id state with
      | stop state => simp [Step.outcome, hhook, bind, Except.bind]
      | skip state => exact absurd hhook (hvisit _ _ _ _)
      | descend state => simp [Step.outcome, hhook, bind, Except.bind]

lemma walkTo_step (visit : Visitor σ) (n m : Nat) (id : NodeId)
    (h : ∀ child ∈ tree.children id, tree.walkTo visit n child = tree.walkTo visit m child) :
    tree.walkTo visit (n + 1) id = tree.walkTo visit (m + 1) id := by
  funext state
  have hfold (s : σ) : (tree.children id).foldlM (fun s child => tree.walkTo visit n child s) s =
      (tree.children id).foldlM (fun s child => tree.walkTo visit m child s) s := by
    generalize tree.children id = ids at h
    induction ids generalizing s with
    | nil => rfl
    | cons child ids ih =>
      rw [List.foldlM_cons, List.foldlM_cons, h child (by simp)]
      exact bind_congr fun s => ih s fun c hc => h c (by simp [hc])
  simp only [walkTo, hfold]

/-- The depth of the tree is enough for a walk. -/
lemma WellFormed.walkTo_eq (h : tree.WellFormed) (visit : Visitor σ) (hid : id < tree.size) :
    tree.walkTo visit tree.size id = tree.walkTo visit (tree.size + 1) id :=
  h.at_size (f := tree.walkTo visit) (walkTo_step visit) hid

/-- A walk that leaves nothing out meets a node and all below it one after the other. -/
theorem WellFormed.walkTo_eq_foldlM (h : tree.WellFormed) (hvisit : visit.Thorough)
    (hid : id < tree.size) (state : σ) : tree.walkTo visit tree.size id state =
      (id :: tree.descendants id).foldlM (tree.meet visit) state := by
  induction id using Nat.strongRecOn generalizing state with
  | ind id ih =>
    have hchildren (ids : List NodeId) (hids : ∀ child ∈ ids, child ∈ tree.children id)
        (state : σ) : ids.foldlM (fun s child => tree.walkTo visit tree.size child s) state =
          (ids.flatMap fun child => child :: tree.descendants child).foldlM (tree.meet visit)
            state := by
      induction ids generalizing state with
      | nil => rfl
      | cons child ids ih' =>
        have hlt := h.child_lt (hids child List.mem_cons_self)
        rw [List.foldlM_cons, List.flatMap_cons, List.foldlM_append,
          ih child hlt (Nat.lt_trans hlt hid)]
        exact bind_congr fun state => ih' (fun c hc => hids c (List.mem_cons_of_mem _ hc)) state
    rw [h.walkTo_eq visit hid, walkTo_succ hvisit, List.foldlM_cons, h.descendants_eq id]
    exact bind_congr fun state => hchildren _ (fun _ hchild => hchild) state

end Tree

end Walks

end NullGuard
