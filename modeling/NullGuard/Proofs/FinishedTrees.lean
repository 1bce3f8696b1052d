import NullGuard.Proofs.Rollbacks
import NullGuard.Proofs.TreeOrder

/-!
# Finished trees

The nodes of a builder mirror the calls that made them: the children of a node are those that its
call names, and they know their parent unless there was a problem. So a builder finishes exactly if
the calls describe a tree, and then there is one way from the root to each node.
-/

namespace NullGuard

namespace Making

variable {makings : List Making} {making : Making}

/-- Children are made before their parents, and no node is a child twice. -/
structure Sound (makings : List Making) : Prop where
  child_lt : ∀ (id : Nat) (making : Making), makings[id]? = some making →
    ∀ child ∈ making.children, child < id
  nodup : (makings.flatMap children).Nodup

lemma getElem?_concat (id : Nat) : (makings ++ [making])[id]? =
    if id = makings.length then some making else makings[id]? := by
  by_cases hid : id < makings.length
  · rw [List.getElem?_append_left hid, if_neg (Nat.ne_of_lt hid)]
  · rw [List.getElem?_append_right (Nat.le_of_not_lt hid)]
    by_cases heq : id = makings.length
    · simp [heq]
    · rw [if_neg heq, List.getElem?_eq_none (by simp; omega), List.getElem?_eq_none (by omega)]

lemma mem_flatMap_children {child : Nat} : child ∈ makings.flatMap children ↔
    ∃ (id : Nat) (making : Making), makings[id]? = some making ∧ child ∈ making.children := by
  rw [List.mem_flatMap]
  constructor
  · rintro ⟨making, hmem, hchild⟩
    obtain ⟨id, hid⟩ := List.mem_iff_getElem?.mp hmem
    exact ⟨id, making, hid, hchild⟩
  · rintro ⟨id, making, hid, hchild⟩
    exact ⟨making, List.mem_of_getElem? hid, hchild⟩

lemma exists_concat_iff {id parent : Nat} :
    (∃ other, (makings ++ [making])[parent]? = some other ∧ id ∈ other.children) ↔
      (∃ other, makings[parent]? = some other ∧ id ∈ other.children) ∨
        id ∈ making.children ∧ parent = makings.length := by
  rw [getElem?_concat]
  by_cases hparent : parent = makings.length
  · simp [hparent]
  · simp [hparent]

lemma sound_concat : Sound (makings ++ [making]) ↔ Sound makings ∧ making.children.Nodup ∧
    ∀ child ∈ making.children, child < makings.length ∧ child ∉ makings.flatMap children := by
  constructor
  · rintro ⟨hlt, hnodup⟩
    rw [List.flatMap_append, List.flatMap_singleton, List.nodup_append] at hnodup
    refine ⟨⟨fun id other hother => hlt id other ?_, hnodup.1⟩, hnodup.2.1, fun child hchild => ?_⟩
    · have hid := (List.getElem?_eq_some_iff.mp hother).1
      rwa [getElem?_concat, if_neg (Nat.ne_of_lt hid)]
    · have hlast : (makings ++ [making])[makings.length]? = some making := by
        rw [getElem?_concat, if_pos rfl]
      exact ⟨hlt _ making hlast child hchild, fun hmem => hnodup.2.2 child hmem child hchild rfl⟩
  · rintro ⟨⟨hlt, hnodup⟩, hchildren, hnew⟩
    refine ⟨fun id other hother => ?_, ?_⟩
    · rw [getElem?_concat] at hother
      split at hother
      case isTrue heq =>
        cases hother
        exact fun child hchild => heq ▸ (hnew child hchild).1
      case isFalse => exact hlt id other hother
    · rw [List.flatMap_append, List.flatMap_singleton, List.nodup_append]
      refine ⟨hnodup, hchildren, ?_⟩
      rintro a ha b hb rfl
      exact (hnew a hb).2 ha

end Making

namespace Builder

variable {b : Builder} {makings : List Making} {root id : Nat} {tree : Tree}

/-- The nodes of a builder are those that calls made. -/
structure Mirrors (b : Builder) (makings : List Making) : Prop where
  size_eq : b.nodes.size = makings.length
  children_eq : ∀ id : NodeId, b.nodes[id]?.map Node.children = makings[id]?.map Making.children
  problems_iff : b.problems = [] ↔ Making.Sound makings
  parent_iff : Making.Sound makings → ∀ id parent : Nat,
    (∃ node, b.nodes[id]? = some node ∧ node.parent = some parent) ↔
      ∃ making, makings[parent]? = some making ∧ id ∈ making.children

lemma Mirrors.free_iff (h : b.Mirrors makings) (hsound : Making.Sound makings) :
    b.Free id ↔ id < makings.length ∧ id ∉ makings.flatMap Making.children := by
  rw [← h.size_eq, Making.mem_flatMap_children]
  constructor
  · rintro ⟨node, hnode, hnone⟩
    refine ⟨(Array.getElem?_eq_some_iff.mp hnode).1, ?_⟩
    rintro ⟨parent, hmaking⟩
    obtain ⟨other, hother, hparent⟩ := (h.parent_iff hsound id parent).mpr hmaking
    rw [hnode] at hother
    cases hother
    rw [hnone] at hparent
    cases hparent
  · rintro ⟨hlt, hnot⟩
    refine ⟨b.nodes[id], Array.getElem?_eq_getElem hlt, ?_⟩
    rw [Option.eq_none_iff_forall_ne_some]
    intro parent hparent
    have hnode := Array.getElem?_eq_getElem hlt
    exact hnot ⟨parent, (h.parent_iff hsound id parent).mp ⟨_, hnode, hparent⟩⟩

/-- Making one more node keeps the nodes and the calls alike. -/
lemma Mirrors.make (h : b.Mirrors makings) (making : Making) :
    (b.make making).Mirrors (makings ++ [making]) := by
  obtain ⟨b', node, hadopts, _, _, hmake⟩ := b.exists_make making
  have hproblems : (b.make making).problems = [] ↔ Making.Sound (makings ++ [making]) := by
    have hsame : (b.make making).problems = b'.problems := by rw [hmake]
    rw [hsame, hadopts.problems_iff, h.problems_iff, Making.sound_concat]
    refine and_congr_right fun hsound => and_congr_right fun _ => ?_
    exact forall₂_congr fun child _ => h.free_iff hsound
  refine ⟨?_, fun id => ?_, hproblems, fun hsound id parent => ?_⟩
  · rw [size_make, h.size_eq, List.length_append, List.length_singleton]
  · rw [children_make, h.size_eq, Making.getElem?_concat, h.children_eq]
    split <;> rfl
  · -- the children of the new node were free
    obtain ⟨hbefore, _, hnew⟩ := Making.sound_concat.mp hsound
    rw [parent_make_iff, h.parent_iff hbefore, Making.exists_concat_iff, h.size_eq]
    refine or_congr_right ⟨And.right, fun hchild => ⟨?_, hchild⟩⟩
    exact (h.free_iff hbefore).mpr (hnew id hchild.1)

/-- The nodes that are made from nothing are alike their calls. -/
theorem mirrors_makeAll (makings : List Making) :
    (({} : Builder).makeAll makings).Mirrors makings := by
  induction makings using List.reverseRecOn with
  | nil =>
    have hsound : Making.Sound [] := ⟨by simp, by simp⟩
    exact ⟨rfl, fun _ => rfl, iff_of_true rfl hsound, fun _ _ _ => by simp [makeAll]⟩
  | append_singleton makings making ih =>
    rw [makeAll_append]
    exact ih.make making

/-- A builder finishes if there was no problem and the root alone has no parent. -/
lemma finish_eq_ok_iff : b.finish root = .ok tree ↔
    b.problems = [] ∧ (∀ id, b.Free id ↔ id = root) ∧ tree = ⟨b.nodes, root⟩ := by
  have hdetached : b.firstDetached? root = none ↔ ∀ id, b.Free id → id = root := by
    simp only [firstDetached?, List.find?_eq_none, List.mem_range, Bool.and_eq_true, not_and,
      decide_eq_true_eq]
    constructor
    · rintro hnone id ⟨node, hnode, hparent⟩
      by_contra hne
      exact hnone id (Array.getElem?_eq_some_iff.mp hnode).1 hne (by simp [hnode, hparent])
    · intro hfree id hid hne hnone
      refine hne (hfree id ⟨b.nodes[id], Array.getElem?_eq_getElem hid, ?_⟩)
      simpa [Array.getElem?_eq_getElem hid] using hnone
  unfold finish
  cases b.problems with
  | cons problem problems => simp
  | nil =>
    cases hroot : b.nodes[root]? with
    | none =>
      have hmade : ¬ b.Free root := by simp [Free, hroot]
      simp only [reduceCtorEq, true_and, false_iff, not_and]
      intro hfree
      exact absurd ((hfree root).mpr rfl) hmade
    | some node =>
      cases hparent : node.parent with
      | some parent =>
        have hmade : ¬ b.Free root := by simp [Free, hroot, hparent]
        simp only [hparent, Option.isSome_some, if_true, reduceCtorEq, true_and, false_iff, not_and]
        intro hfree
        exact absurd ((hfree root).mpr rfl) hmade
      | none =>
        have hmade : b.Free root := ⟨node, hroot, hparent⟩
        have hfree : (∀ id, b.Free id ↔ id = root) ↔ b.firstDetached? root = none := by
          rw [hdetached]
          exact forall_congr' fun id => ⟨Iff.mp, fun himp => ⟨himp, fun heq => heq ▸ hmade⟩⟩
        simp only [hparent, Option.isSome_none, Bool.false_eq_true, if_false, true_and, hfree]
        cases b.firstDetached? root <;> simp [eq_comm]

end Builder

namespace Tree

variable {tree : Tree} {id child target : Nat} {path : List NodeId}

/-- The way down from a node to another one: each node on it is a child of the one before. -/
inductive Route (tree : Tree) : NodeId → List NodeId → NodeId → Prop where
  | here (id : NodeId) : Route tree id [] id
  | down {id child target : NodeId} {path : List NodeId} (hchild : child ∈ tree.children id)
      (h : Route tree child path target) : Route tree id (child :: path) target

lemma Route.concat (h : tree.Route id path target) (hchild : child ∈ tree.children target) :
    tree.Route id (path ++ [child]) child := by
  induction h with
  | here id => exact .down hchild (.here child)
  | down hfirst _ ih => exact .down hfirst (ih hchild)

/-- The way down to a node goes through its ancestors. -/
lemma WellFormed.reverse_of_route (h : tree.WellFormed) (hpath : tree.Route id path target) :
    (id :: path).reverse ++ tree.ancestors id = target :: tree.ancestors target := by
  induction hpath with
  | here id => rfl
  | @down id child target path hchild _ ih =>
    rw [← ih, h.ancestors_of_child hchild, List.reverse_cons, List.append_assoc,
      List.singleton_append]

/-- There is one way from the root to each node. -/
theorem WellFormed.existsUnique_route (h : tree.WellFormed) (hid : id < tree.size) :
    ∃! path, tree.Route tree.root path id := by
  have hexists : ∃ path, tree.Route tree.root path id := by
    revert hid
    induction id using h.induction_up with
    | step id ih =>
      intro hid
      by_cases hroot : id = tree.root
      · rw [hroot]
        exact ⟨[], .here _⟩
      · obtain ⟨parent, hp⟩ := Option.isSome_iff_exists.mp (h.parent_of_ne_root id hid hroot)
        obtain ⟨path, hpath⟩ := ih parent hp (h.parent_lt hp).2
        exact ⟨path ++ [id], hpath.concat (h.child_of_parent hp)⟩
  obtain ⟨path, hpath⟩ := hexists
  refine ⟨path, hpath, fun other hother => ?_⟩
  have hsame : (tree.root :: other).reverse = (tree.root :: path).reverse := by
    have hup := ancestors_of_none h.parent_root
    have hways := (h.reverse_of_route hother).trans (h.reverse_of_route hpath).symm
    rwa [hup, List.append_nil, List.append_nil] at hways
  exact (List.cons.inj (List.reverse_injective hsame)).2

end Tree

namespace Builder

variable {b : Builder} {makings : List Making} {root : NodeId} {tree : Tree}

/-- What a builder finishes is a tree with right links. -/
theorem Mirrors.wellFormed (h : b.Mirrors makings) (hfinish : b.finish root = .ok tree) :
    tree.WellFormed := by
  obtain ⟨hproblems, hfree, rfl⟩ := finish_eq_ok_iff.mp hfinish
  have hsound := h.problems_iff.mp hproblems
  have hlist (id : NodeId) : Tree.children ⟨b.nodes, root⟩ id =
      (makings[id]?.map Making.children).getD [] := by
    rw [← h.children_eq id, Tree.children, Tree.node]
    cases b.nodes[id]? <;> rfl
  have hchildren (id child : Nat) : child ∈ Tree.children ⟨b.nodes, root⟩ id ↔
      ∃ making, makings[id]? = some making ∧ child ∈ making.children := by
    rw [hlist]
    cases makings[id]? <;> simp
  have hparent (id parent : Nat) : Tree.parent ⟨b.nodes, root⟩ id = some parent ↔
      ∃ making, makings[parent]? = some making ∧ id ∈ making.children := by
    rw [← h.parent_iff hsound id parent, Tree.parent, Tree.node]
    cases hnodes : b.nodes[id]? with
    | none => simp [show (default : Node).parent = none from rfl]
    | some node => simp
  exact {
    child_lt := fun {id child} hmem => by
      obtain ⟨making, hmaking, hchild⟩ := (hchildren id child).mp hmem
      exact hsound.child_lt id making hmaking child hchild
    parent_of_child := fun {id child} hmem => (hparent child id).mpr ((hchildren id child).mp hmem)
    child_of_parent := fun {id child} hp => (hchildren id child).mpr ((hparent child id).mp hp)
    nodup_children := fun id => by
      rw [hlist]
      cases hmaking : makings[id]? with
      | none => exact List.nodup_nil
      | some making =>
        exact (List.nodup_flatMap.mp hsound.nodup).1 making (List.mem_of_getElem? hmaking)
    root_lt := ((hfree root).mpr rfl).lt_size
    parent_root := by
      obtain ⟨node, hnode, hnone⟩ := (hfree root).mpr rfl
      rw [Tree.parent, Tree.node, hnode]
      exact hnone
    parent_of_ne_root := fun id hid hne => by
      rw [Option.isSome_iff_ne_none]
      intro hnone
      refine hne ((hfree id).mp ⟨b.nodes[id], Array.getElem?_eq_getElem hid, ?_⟩)
      rwa [Tree.parent, Tree.node, Array.getElem?_eq_getElem hid] at hnone }

end Builder

namespace Call

/-- A making that survives stands in the run, spared by all that comes later. Before it there are as
many makings that survive as its number tells. -/
lemma exists_split_of_survivors {calls : List Call} {count id : Nat} {making : Making}
    (h : (survivors count calls)[id]? = some making) :
    ∃ before later, calls = before ++ make making :: later ∧
      (∀ call ∈ later, call.spares (count + taken before) = true) ∧
      (survivors count before).length = id := by
  induction calls generalizing count id with
  | nil => simp [survivors] at h
  | cons call calls ih =>
    cases call with
    | make first =>
      rw [survivors] at h
      by_cases hspared : calls.all (spares count) = true
      · rw [if_pos hspared] at h
        cases id with
        | zero =>
          obtain rfl : first = making := by simpa using h
          exact ⟨[], calls, rfl, List.all_eq_true.mp hspared, rfl⟩
        | succ id =>
          obtain ⟨before, later, rfl, hlater, hlength⟩ := ih h
          rw [List.all_append, Bool.and_eq_true] at hspared
          refine ⟨make first :: before, later, rfl, hlater, ?_⟩
          rw [survivors, if_pos hspared.1, List.length_cons, hlength]
      · rw [if_neg hspared] at h
        obtain ⟨before, later, rfl, hlater, hlength⟩ := ih h
        refine ⟨make first :: before, later, rfl, hlater, ?_⟩
        -- the call is undone before the one that survives is made
        have hundone : ¬ before.all (spares count) = true := by
          intro hbefore
          apply hspared
          rw [List.all_append, hbefore, Bool.true_and, List.all_cons, List.all_eq_true.mpr]
          · rfl
          · exact fun call hcall => spares_mono (Nat.le_add_right _ _) (hlater call hcall)
        rw [survivors, if_neg hundone, hlength]
    | checkpoint =>
      obtain ⟨before, later, rfl, hlater, hlength⟩ := ih h
      refine ⟨checkpoint :: before, later, rfl, ?_, hlength⟩
      have hcount : count + taken (checkpoint :: before) = count + 1 + taken before := by
        rw [taken, List.countP_cons_of_pos rfl, ← taken]
        omega
      rwa [hcount]
    | rollback number =>
      obtain ⟨before, later, rfl, hlater, hlength⟩ := ih h
      exact ⟨rollback number :: before, later, rfl, hlater, hlength⟩

end Call

namespace Builder

lemma mirrors_after {calls : List Call} (h : Call.Disciplined calls) :
    (({} : Builder).after calls).Mirrors (Call.survivors 0 calls) := by
  rw [grounded_empty.after_eq h]
  exact mirrors_makeAll _

/-- The children that calls name are made already exactly if they have lower numbers. -/
lemma made_children_iff {calls : List Call} (h : Call.Disciplined calls) :
    (∀ before kind children later, calls = before ++ .make (.node kind children) :: later →
        (∀ call ∈ later, call.spares (Call.taken before) = true) →
        ∀ child ∈ children, child < (({} : Builder).after before).nodes.size) ↔
      ∀ (id : Nat) (making : Making), (Call.survivors 0 calls)[id]? = some making →
        ∀ child ∈ making.children, child < id := by
  constructor
  · intro hmade id making hmaking child hchild
    obtain ⟨before, later, rfl, hlater, rfl⟩ := Call.exists_split_of_survivors hmaking
    rw [Nat.zero_add] at hlater
    cases making with
    | node kind children =>
      have hlt := hmade before kind children later rfl hlater child hchild
      rwa [(mirrors_after h.of_append).size_eq] at hlt
    | token _ | terminal _ _ _ => cases hchild
  · rintro hlt before kind children later rfl hlater child hchild
    rw [(mirrors_after h.of_append).size_eq]
    refine hlt _ (.node kind children) ?_ child hchild
    rw [Call.survivors_append, Call.survivors, if_pos, List.getElem?_append_right (Nat.le_refl _),
      Nat.sub_self]
    · rfl
    · rw [Nat.zero_add]
      exact List.all_eq_true.mpr hlater
    · rw [Nat.zero_add]
      exact List.forall_mem_cons.mpr ⟨rfl, hlater⟩

/-- A builder accepts exactly the trees. If each rollback went to a live checkpoint, then it
finishes exactly if all children that a surviving call names had been made then, no node is named as
a child twice, and the root alone of all nodes is named by none. In the tree there is one way from
the root to each node, parents and children know each other, and children have lower numbers than
their parents. -/
theorem finish_accepts_trees {calls : List Call} (h : Call.Disciplined calls) (root : NodeId) :
    let b := ({} : Builder).after calls
    let named := (Call.survivors 0 calls).flatMap Making.children
    ((∃ tree, b.finish root = .ok tree) ↔
      (∀ before kind children later, calls = before ++ .make (.node kind children) :: later →
        (∀ call ∈ later, call.spares (Call.taken before) = true) →
        ∀ child ∈ children, child < (({} : Builder).after before).nodes.size) ∧
      named.Nodup ∧ root < b.nodes.size ∧ ∀ id < b.nodes.size, id ∉ named ↔ id = root) ∧
    ∀ tree, b.finish root = .ok tree → tree = ⟨b.nodes, root⟩ ∧
      (∀ id < tree.size, ∃! path, tree.Route tree.root path id) ∧
      (∀ id child, child ∈ tree.children id ↔ tree.parent child = some id) ∧
      (∀ id, (tree.children id).Nodup) ∧ ∀ id child, child ∈ tree.children id → child < id := by
  intro b named
  have hmirrors : b.Mirrors (Call.survivors 0 calls) := mirrors_after h
  constructor
  · rw [made_children_iff h]
    constructor
    · rintro ⟨tree, hfinish⟩
      obtain ⟨hproblems, hfree, _⟩ := finish_eq_ok_iff.mp hfinish
      have hsound := hmirrors.problems_iff.mp hproblems
      refine ⟨hsound.child_lt, hsound.nodup, ((hfree root).mpr rfl).lt_size, fun id hid => ?_⟩
      rw [← hfree id, hmirrors.free_iff hsound, ← hmirrors.size_eq]
      exact (and_iff_right hid).symm
    · rintro ⟨hlt, hnodup, hroot, hnamed⟩
      have hsound : Making.Sound (Call.survivors 0 calls) := ⟨hlt, hnodup⟩
      refine ⟨_, finish_eq_ok_iff.mpr ⟨hmirrors.problems_iff.mpr hsound, fun id => ?_, rfl⟩⟩
      rw [hmirrors.free_iff hsound, ← hmirrors.size_eq]
      constructor
      · rintro ⟨hid, hnot⟩
        exact (hnamed id hid).mp hnot
      · rintro rfl
        exact ⟨hroot, (hnamed id hroot).mpr rfl⟩
  · intro tree hfinish
    have hwf := hmirrors.wellFormed hfinish
    exact ⟨(finish_eq_ok_iff.mp hfinish).2.2, fun id hid => hwf.existsUnique_route hid,
      fun id child => ⟨hwf.parent_of_child, hwf.child_of_parent⟩, hwf.nodup_children,
      fun id child => hwf.child_lt⟩

/-- A word is read twice and undone, once with a node above it, before it is kept: the tree is the
word under the last node, and the word alone is no tree. -/
theorem finish_accepts_trees_undone :
    let word : Call := .make (.terminal .identifier ⟨0, 1⟩ "A")
    let above : Call := .make (.node .column [0])
    let calls := [.checkpoint, word, .checkpoint, word] ++ [.rollback 1] ++ [above] ++
      [.rollback 0] ++ [word] ++ [above]
    Call.Disciplined calls ∧ (∃ tree, (({} : Builder).after calls).finish 1 = .ok tree ∧
      tree.size = 2 ∧ ∃! path, tree.Route 1 path 0) ∧
    ¬ ∃ tree, (({} : Builder).after calls).finish 0 = .ok tree := by
  intro word above calls
  have hfirst : Call.Disciplined [.checkpoint, word, .checkpoint, word] := by
    intro before number later hsplit
    have hmem : Call.rollback number ∈ [.checkpoint, word, .checkpoint, word] := by simp [hsplit]
    simp [word] at hmem
  have hinner : Call.Live [.checkpoint, word, .checkpoint, word] 1 :=
    ⟨[.checkpoint, word], [word], rfl, rfl, by simp [word, Call.spares]⟩
  have houter : Call.Live [.checkpoint, word, .checkpoint, word, .rollback 1, above] 0 :=
    ⟨[], [word, .checkpoint, word, .rollback 1, above], rfl, rfl,
      by simp [word, above, Call.spares]⟩
  have hcalls : Call.Disciplined calls := by
    simp only [calls, Call.disciplined_concat, word, above, reduceCtorEq, false_imp_iff,
      implies_true, and_true, Call.rollback.injEq, forall_eq']
    exact ⟨⟨hfirst, hinner⟩, houter⟩
  have hfinished : ((({} : Builder).after calls).finish 1).isOk = true := by decide +kernel
  have hsize : (({} : Builder).after calls).nodes.size = 2 := by decide +kernel
  refine ⟨hcalls, ?_, fun hfinish => ?_⟩
  · cases htree : (({} : Builder).after calls).finish 1 with
    | error problem =>
      rw [htree] at hfinished
      cases hfinished
    | ok tree =>
      obtain ⟨rfl, hroutes, _⟩ := (finish_accepts_trees hcalls 1).2 tree htree
      exact ⟨_, rfl, hsize, hroutes 0 (by rw [Tree.size, hsize]; decide)⟩
  · have hnamed := ((finish_accepts_trees hcalls 0).1.mp hfinish).2.2.2 0 (by rw [hsize]; decide)
    exact absurd (hnamed.mpr rfl) (by decide)

end Builder

end NullGuard
