import Mathlib.Data.List.Flatten
import NullGuard.Proofs.FinishedTrees

/-!
# Ways up and down a tree

A tree can be gone through from a node upwards, by the links to the parents, and downwards, by a
stack that gives way to the children of the node on top of it. In a well formed tree both ways come
to an end and agree: what is met on the way down from a node are the nodes that meet it on their way
up. The way down is the recursive order, so that the nodes below a node stand together in it.
-/

namespace NullGuard

namespace Tree

/-- The way up from a node: its parent, and the way up from there. -/
inductive Climbs (tree : Tree) : NodeId → List NodeId → Prop where
  | top {id : NodeId} (h : tree.parent id = none) : Climbs tree id []
  | up {id parent : NodeId} {above : List NodeId} (h : tree.parent id = some parent)
      (hmore : Climbs tree parent above) : Climbs tree id (parent :: above)

/-- What is met by taking nodes off a stack. A node that is taken leaves its children on the stack,
the first of them on top. -/
inductive Unstacks (tree : Tree) : List NodeId → List NodeId → Prop where
  | empty : Unstacks tree [] []
  | pop {id : NodeId} {stack met : List NodeId}
      (h : Unstacks tree (tree.children id ++ stack) met) : Unstacks tree (id :: stack) (id :: met)

variable {tree : Tree} {id child a b c d : Nat} {stack met met' above above' : List NodeId}

lemma Climbs.unique (h : tree.Climbs id above) (h' : tree.Climbs id above') : above = above' := by
  induction h generalizing above' with
  | top hp =>
    cases h' with
    | top => rfl
    | up hp' =>
      rw [hp] at hp'
      cases hp'
  | up hp _ ih =>
    cases h' with
    | top hp' =>
      rw [hp] at hp'
      cases hp'
    | up hp' hmore =>
      obtain rfl := Option.some.inj (hp.symm.trans hp')
      rw [ih hmore]

lemma Unstacks.unique (h : tree.Unstacks stack met) (h' : tree.Unstacks stack met') :
    met = met' := by
  induction h generalizing met' with
  | empty =>
    cases h'
    rfl
  | pop _ ih =>
    cases h' with
    | pop hmore => rw [ih hmore]

namespace WellFormed

lemma climbs_ancestors (h : tree.WellFormed) (id : Nat) : tree.Climbs id (tree.ancestors id) := by
  induction id using h.induction_up with
  | step id ih =>
    cases hp : tree.parent id with
    | none =>
      rw [ancestors_of_none hp]
      exact .top hp
    | some parent =>
      rw [h.ancestors_of_parent hp]
      exact .up hp (ih parent hp)

/-- A stack comes to its end if each node that is taken off it leaves its children there. -/
lemma induction_stack (h : tree.WellFormed) {motive : List NodeId → Prop} (empty : motive [])
    (pop : ∀ id stack, motive (tree.children id ++ stack) → motive stack → motive (id :: stack))
    (stack : List NodeId) : motive stack := by
  have hnode (id : Nat) : ∀ stack, motive stack → motive (id :: stack) := by
    induction id using Nat.strongRecOn with
    | ind id ih =>
      intro stack hstack
      have hids (ids : List NodeId) (hlt : ∀ child ∈ ids, child < id) : motive (ids ++ stack) := by
        induction ids with
        | nil => exact hstack
        | cons child ids ih' =>
          obtain ⟨hchild, hlt⟩ := List.forall_mem_cons.mp hlt
          exact ih child hchild _ (ih' hlt)
      exact pop id stack (hids _ fun child => h.child_lt) hstack
  induction stack with
  | nil => exact empty
  | cons id stack ih => exact hnode id stack ih

/-- What is still to be met from a stack is each of its nodes with all below it. -/
lemma unstacks (h : tree.WellFormed) (stack : List NodeId) :
    tree.Unstacks stack (stack.flatMap fun id => id :: tree.descendants id) := by
  induction stack using h.induction_stack with
  | empty => exact .empty
  | pop id stack ih =>
    rw [List.flatMap_append, ← h.descendants_eq id] at ih
    exact .pop ih

lemma unstacks_children (h : tree.WellFormed) (id : Nat) :
    tree.Unstacks (tree.children id) (tree.descendants id) :=
  h.descendants_eq id ▸ h.unstacks (tree.children id)

/-- A node below another one stands there with all below itself behind it. -/
lemma isInfix_descendants (h : tree.WellFormed) (hd : d ∈ tree.descendants id) :
    d :: tree.descendants d <:+: tree.descendants id := by
  induction id using Nat.strongRecOn with
  | ind id ih =>
    rw [h.descendants_eq id] at hd ⊢
    obtain ⟨child, hchild, hd⟩ := List.mem_flatMap.mp hd
    have hpart := List.infix_flatMap_of_mem hchild fun child => child :: tree.descendants child
    rcases List.mem_cons.mp hd with rfl | hd
    · exact hpart
    · have hbelow := ih child (h.child_lt hchild) hd
      exact (hbelow.trans (List.suffix_cons child _).isInfix).trans hpart

/-- All below a child come before all below a later one. -/
lemma sublist_descendants (h : tree.WellFormed) (hc : [a, b].Sublist (tree.children id)) :
    ((a :: tree.descendants a) ++ (b :: tree.descendants b)).Sublist (tree.descendants id) := by
  rw [h.descendants_eq id]
  simpa using hc.flatMap fun child => child :: tree.descendants child

/-- The root and all below it are the nodes of the tree. -/
lemma perm_range (h : tree.WellFormed) :
    (tree.root :: tree.descendants tree.root).Perm (List.range tree.size) := by
  rw [List.perm_ext_iff_of_nodup (h.nodup_descendants tree.root) List.nodup_range]
  intro id
  rw [List.mem_range]
  refine ⟨fun hid => ?_, h.mem_descendants_root⟩
  rcases List.mem_cons.mp hid with rfl | hid
  · exact h.root_lt
  · obtain ⟨parent, hp⟩ := exists_parent_of_mem_ancestors (h.mem_descendants_iff.mp hid)
    exact lt_size_of_parent hp

end WellFormed

/-- The ways up and down a well formed tree agree. A node is below another one exactly if the other
one is above it. What is below a node is listed once, in the recursive order: it is what a stack with
its children gives, each node stands before all below it, and all below a child stand before all
below a later one. From the root on all nodes are listed, and the way up from any other node ends
there. -/
theorem navigation_agrees (h : tree.WellFormed) :
    (∀ x y, x ∈ tree.descendants y ↔ y ∈ tree.ancestors x) ∧
      (∀ y, (tree.descendants y).Nodup ∧
        tree.descendants y =
          (tree.children y).flatMap (fun child => child :: tree.descendants child) ∧
        (∀ met, tree.Unstacks (tree.children y) met ↔ met = tree.descendants y) ∧
        (∀ a ∈ tree.descendants y, ∀ d ∈ tree.descendants a,
          [a, d].Sublist (tree.descendants y)) ∧
        ∀ z ∈ y :: tree.descendants y, ∀ first second, [first, second].Sublist (tree.children z) →
          ∀ a ∈ first :: tree.descendants first, ∀ b ∈ second :: tree.descendants second,
            [a, b].Sublist (tree.descendants y)) ∧
      (tree.root :: tree.descendants tree.root).Perm (List.range tree.size) ∧
      (∀ x above, tree.Climbs x above ↔ above = tree.ancestors x) ∧
      ∀ x < tree.size, x ≠ tree.root → (tree.ancestors x).getLast? = some tree.root := by
  refine ⟨fun x y => h.mem_descendants_iff, fun y => ⟨(List.nodup_cons.mp (h.nodup_descendants y)).2,
    h.descendants_eq y, fun met => ⟨fun hmet => hmet.unique (h.unstacks_children y), ?_⟩, ?_, ?_⟩,
    h.perm_range, fun x above => ⟨fun hclimbs => hclimbs.unique (h.climbs_ancestors x), ?_⟩, ?_⟩
  · rintro rfl
    exact h.unstacks_children y
  · intro a ha d hd
    have hbelow : [a, d].Sublist (a :: tree.descendants a) :=
      (List.singleton_sublist.mpr hd).cons_cons a
    exact hbelow.trans (h.isInfix_descendants ha).sublist
  · intro z hz first second hchildren a ha b hb
    have hpair : [a, b].Sublist (tree.descendants z) :=
      ((List.singleton_sublist.mpr ha).append (List.singleton_sublist.mpr hb)).trans
        (h.sublist_descendants hchildren)
    rcases List.mem_cons.mp hz with rfl | hz
    · exact hpair
    · exact hpair.trans ((List.sublist_cons_self z _).trans (h.isInfix_descendants hz).sublist)
  · rintro rfl
    exact h.climbs_ancestors x
  · intro x hx hroot
    obtain ⟨below, hbelow⟩ := h.exists_ancestors_root hx hroot
    rw [hbelow, List.getLast?_concat]

end Tree

/-- A tree of three levels, whose root comes last: its first child has two children. -/
theorem navigation_agrees_threeLevels : ∃ tree : Tree, tree.WellFormed ∧ tree.size = 5 ∧
    [2, 3].Sublist (tree.children 4) ∧ 1 ∈ tree.descendants 2 ∧ 4 ∈ tree.ancestors 1 ∧
    [1, 3].Sublist (tree.descendants 4) ∧ tree.Unstacks [2, 3] (tree.descendants 4) ∧
    (4 :: tree.descendants 4).Perm (List.range 5) ∧ (tree.ancestors 0).getLast? = some 4 := by
  let makings : List Making := [.terminal .minus ⟨0, 1⟩ "-", .terminal .number ⟨1, 2⟩ "1",
    .node .selectStatement [0, 1], .terminal .comma ⟨2, 3⟩ ",", .node .selectList [2, 3]]
  let tree : Tree := ⟨(({} : Builder).makeAll makings).nodes, 4⟩
  have hfinish : (({} : Builder).makeAll makings).finish 4 = .ok tree := by decide +kernel
  have hwf : tree.WellFormed := (Builder.mirrors_makeAll makings).wellFormed hfinish
  have hchildren : tree.children 4 = [2, 3] := by decide +kernel
  have hbelow : 1 ∈ tree.descendants 2 := by decide +kernel
  obtain ⟨hagree, hdown, hall, _, hroot⟩ := Tree.navigation_agrees hwf
  obtain ⟨_, _, hstack, hbefore, horder⟩ := hdown 4
  refine ⟨tree, hwf, by decide +kernel, by rw [hchildren], hbelow, (hagree 1 4).mp ?_, ?_, ?_, hall,
    hroot 0 (by decide +kernel) (by decide)⟩
  · decide +kernel
  · exact horder 4 List.mem_cons_self 2 3 (by rw [hchildren]) 1
      (List.mem_cons_of_mem _ hbelow) 3 List.mem_cons_self
  · rw [← hchildren]
    exact (hstack _).mpr rfl

end NullGuard
