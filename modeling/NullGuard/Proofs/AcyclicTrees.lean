import NullGuard.Proofs.FinishedTrees

/-!
# Numbers of parents and children

Whatever calls were made, in a finished tree parents have higher numbers than their children, so
going up ends. Going down ends if children have lower numbers than their parents, and this holds
exactly if each node that is in the tree named only nodes that there were when it was made. A node
that names others is a problem; but a rollback to a checkpoint that is not live can drop the problem
and keep the node, and then the tree can even have a node that is its own child. This needs a
rollback that is neither to a live checkpoint nor harmless to the problems.
-/

namespace NullGuard

namespace Builder

variable {b : Builder}

/-- Parents have higher numbers than their children. -/
def Rising (b : Builder) : Prop :=
  ∀ (id : Nat) (node : Node) (parent : Nat), b.nodes[id]? = some node →
    node.parent = some parent → id < parent

lemma Rising.make (h : b.Rising) (making : Making) : (b.make making).Rising := by
  intro id node parent hnode hparent
  rcases (b.parent_make_iff making id parent).mp ⟨node, hnode, hparent⟩ with
    ⟨old, hold, hsome⟩ | ⟨hfree, _, rfl⟩
  · exact h id old parent hold hsome
  · exact hfree.lt_size

lemma Rising.rollback (h : b.Rising) (c : Checkpoint) : (b.rollback c).Rising := by
  intro id node parent hnode hparent
  obtain ⟨_, old, hold, hsome⟩ := parent_rollback hnode hparent
  exact h id old parent hold hsome

lemma rising_after (calls : List Call) : (({} : Builder).after calls).Rising := by
  have hempty : ({} : Builder).Rising := by
    intro id node parent hnode
    simp at hnode
  exact Session.run_keeps (fun _ making h => h.make making) (fun _ c h => h.rollback c) hempty calls

def Falling (b : Builder) : Prop :=
  ∀ (id : Nat) (children : List NodeId), b.nodes[id]?.map Node.children = some children →
    ∀ child ∈ children, child < id

lemma children_mk (b : Builder) (root id : Nat) :
    Tree.children ⟨b.nodes, root⟩ id = (b.nodes[id]?.map Node.children).getD [] := by
  rw [Tree.children, Tree.node]
  cases b.nodes[id]? <;> rfl

lemma descending_mk_iff (b : Builder) (root : NodeId) :
    Tree.Descending ⟨b.nodes, root⟩ ↔ b.Falling := by
  constructor
  · intro h id children hchildren child hchild
    refine h id child ?_
    rwa [children_mk, hchildren]
  · intro h id child hchild
    rw [children_mk] at hchild
    cases hchildren : b.nodes[id]?.map Node.children with
    | none => simp [hchildren] at hchild
    | some children =>
      rw [hchildren] at hchild
      exact h id children hchildren child hchild

lemma ascending_mk {root : NodeId} (hground : b.Grounded) (hrising : b.Rising) :
    Tree.Ascending ⟨b.nodes, root⟩ := by
  intro id parent hparent
  rw [Tree.parent, Tree.node] at hparent
  cases hnode : b.nodes[id]? with
  | none => simp [hnode, show (default : Node).parent = none from rfl] at hparent
  | some node =>
    rw [hnode] at hparent
    exact ⟨hrising id node parent hnode hparent, hground id node parent hnode hparent⟩

lemma children_rollback (b : Builder) (c : Checkpoint) {id : Nat} (hid : id < c.nodes) :
    (b.rollback c).nodes[id]?.map Node.children = b.nodes[id]?.map Node.children := by
  have hrelease : Node.children ∘ release c.nodes = Node.children := by
    funext node
    rw [Function.comp_apply, release]
    split
    · split <;> rfl
    · rfl
  rw [getElem?_rollback, if_pos hid, Option.map_map, hrelease]

/-- A node that is there before and after a call keeps its children. -/
lemma children_step (session : Session) (call : Call) {id : Nat}
    (hbefore : id < session.builder.nodes.size)
    (hafter : id < (session.step call).builder.nodes.size) :
    (session.step call).builder.nodes[id]?.map Node.children =
      session.builder.nodes[id]?.map Node.children := by
  cases call with
  | make making => rw [Session.step, children_make, if_neg (Nat.ne_of_lt hbefore)]
  | checkpoint => rfl
  | rollback number =>
    rw [Session.step] at hafter ⊢
    split
    case h_1 checkpoint htaken =>
      simp only [htaken, size_rollback] at hafter
      exact children_rollback _ _ (by omega)
    case h_2 => rfl

/-- Only a call that makes a node adds a number. -/
lemma exists_making_of_step {session : Session} {call : Call} {id : Nat}
    (hbefore : session.builder.nodes.size ≤ id)
    (hafter : id < (session.step call).builder.nodes.size) :
    ∃ making, call = .make making ∧ id = session.builder.nodes.size := by
  cases call with
  | make making =>
    rw [Session.step, size_make] at hafter
    exact ⟨making, rfl, by omega⟩
  | checkpoint => exact absurd hafter (Nat.not_lt.mpr hbefore)
  | rollback number =>
    rw [Session.step] at hafter
    split at hafter
    · rw [size_rollback] at hafter
      omega
    · omega

end Builder

namespace Call

variable {before later calls : List Call} {making : Making}

/-- The node that a call makes is there through all later calls. -/
def Stays (before : List Call) (making : Making) (later : List Call) : Prop :=
  ∀ front back, later = front ++ back →
    (({} : Builder).after before).nodes.size <
      (({} : Builder).after (before ++ make making :: front)).nodes.size

lemma stays_nil (before : List Call) (making : Making) : Stays before making [] := by
  intro front back hsplit
  obtain ⟨rfl, rfl⟩ := List.append_eq_nil_iff.mp hsplit.symm
  rw [Builder.after_concat, Session.step, Builder.size_make]
  exact Nat.lt_succ_self _

lemma stays_concat {call : Call} : Stays before making (later ++ [call]) ↔
    Stays before making later ∧ (({} : Builder).after before).nodes.size <
      (({} : Builder).after (before ++ make making :: later ++ [call])).nodes.size := by
  constructor
  · intro h
    refine ⟨fun front back hsplit => h front (back ++ [call]) ?_, ?_⟩
    · rw [hsplit, List.append_assoc]
    · rw [List.append_assoc, List.cons_append]
      exact h (later ++ [call]) [] (List.append_nil _).symm
  · rintro ⟨h, hlast⟩ front back hsplit
    rcases List.eq_nil_or_concat back with rfl | ⟨back, last, rfl⟩
    · rw [List.append_nil] at hsplit
      rwa [← hsplit, ← List.cons_append, ← List.append_assoc]
    · rw [List.concat_eq_append, ← List.append_assoc] at hsplit
      exact h front back (List.append_inj' hsplit rfl).1

/-- A node that stays has the children that its call names. -/
lemma Stays.children_eq (h : Stays before making later) :
    (({} : Builder).after (before ++ make making :: later)).nodes[(({} : Builder).after
      before).nodes.size]?.map Node.children = some making.children := by
  induction later using List.reverseRecOn with
  | nil =>
    rw [Builder.after_concat, Session.step, Builder.children_make]
    exact if_pos rfl
  | append_singleton later call ih =>
    obtain ⟨hearlier, hlast⟩ := stays_concat.mp h
    have hnow := hearlier later [] (List.append_nil _).symm
    rw [← List.cons_append, ← List.append_assoc]
    rw [Builder.after_concat] at hlast ⊢
    exact (Builder.children_step _ call hnow hlast).trans (ih hearlier)

/-- Each node was made by a call, and was there ever since. -/
lemma exists_stays (calls : List Call) {id : Nat}
    (hid : id < (({} : Builder).after calls).nodes.size) :
    ∃ before making later, calls = before ++ make making :: later ∧ Stays before making later ∧
      (({} : Builder).after before).nodes.size = id := by
  induction calls using List.reverseRecOn with
  | nil => simp [Builder.after, Session.run] at hid
  | append_singleton calls call ih =>
    by_cases hbefore : id < (({} : Builder).after calls).nodes.size
    · obtain ⟨before, making, later, rfl, hstays, rfl⟩ := ih hbefore
      refine ⟨before, making, later ++ [call], by simp, stays_concat.mpr ⟨hstays, hid⟩, rfl⟩
    · rw [Builder.after_concat] at hid
      obtain ⟨making, rfl, rfl⟩ := Builder.exists_making_of_step (Nat.le_of_not_lt hbefore) hid
      exact ⟨calls, making, [], rfl, stays_nil calls making, rfl⟩

/-- Children have lower numbers than their parents exactly if each node that stays named only nodes
that there were when it was made. -/
lemma falling_iff (calls : List Call) : (({} : Builder).after calls).Falling ↔
    ∀ before making later, calls = before ++ make making :: later → Stays before making later →
      ∀ child ∈ making.children, child < (({} : Builder).after before).nodes.size := by
  constructor
  · rintro h before making later rfl hstays child hchild
    exact h _ making.children hstays.children_eq child hchild
  · intro h id children hchildren child hchild
    have hid : id < (({} : Builder).after calls).nodes.size := by
      obtain ⟨node, hnode, _⟩ := Option.map_eq_some_iff.mp hchildren
      exact (Array.getElem?_eq_some_iff.mp hnode).1
    obtain ⟨before, making, later, rfl, hstays, rfl⟩ := exists_stays calls hid
    rw [hstays.children_eq, Option.some.injEq] at hchildren
    exact h before making later rfl hstays child (hchildren ▸ hchild)

/-- Each rollback goes to a checkpoint that is live then, or drops no problem. -/
def Careful (calls : List Call) : Prop :=
  ∀ before number later, calls = before ++ rollback number :: later → Live before number ∨
    (({} : Builder).after (before ++ [rollback number])).problems =
      (({} : Builder).after before).problems

lemma careful_concat {call : Call} : Careful (calls ++ [call]) ↔
    Careful calls ∧ ∀ number, call = rollback number → Live calls number ∨
      (({} : Builder).after (calls ++ [rollback number])).problems =
        (({} : Builder).after calls).problems :=
  forall_rollback_concat

lemma Careful.of_append (h : Careful (before ++ later)) : Careful before := by
  intro front number back hsplit
  apply h front number (back ++ later)
  rw [hsplit, List.append_assoc, List.cons_append]

/-- A run in which there never is a problem drops none. -/
lemma Careful.of_take
    (h : ∀ n ≤ calls.length, (({} : Builder).after (calls.take n)).problems = []) :
    Careful calls := by
  rintro before number later rfl
  refine .inr ?_
  have hbefore := h before.length (by simp)
  have hback := h (before ++ [rollback number]).length (by simp)
  rw [List.take_left] at hbefore
  rw [show before ++ rollback number :: later = before ++ [rollback number] ++ later by simp,
    List.take_left] at hback
  rw [hbefore, hback]

/-- What the problems tell of is not in the tree: with careful rollbacks, a node that names one that
was not made leaves a problem as long as it is there. -/
lemma Careful.falling (h : Careful calls) (hproblems : (({} : Builder).after calls).problems = []) :
    (({} : Builder).after calls).Falling := by
  induction hlength : calls.length using Nat.strongRecOn generalizing calls with
  | ind length ih =>
    subst hlength
    rcases List.eq_nil_or_concat calls with rfl | ⟨calls, last, rfl⟩
    · intro id children hchildren
      simp [Builder.after, Session.run] at hchildren
    rw [List.concat_eq_append] at *
    obtain ⟨hearlier, hlast⟩ := careful_concat.mp h
    have hbefore := ih calls.length (by simp) hearlier
    rw [Builder.after_concat] at hproblems
    cases last with
    | make making =>
      obtain ⟨b', node, hadopts, _, _, hmake⟩ := (({} : Builder).after calls).exists_make making
      have hnone : b'.problems = [] := by
        rw [← hproblems, Session.step]
        exact (congrArg Builder.problems hmake).symm
      obtain ⟨hold, _, hfree⟩ := hadopts.problems_iff.mp hnone
      intro id children hchildren child hchild
      rw [Builder.after_concat, Session.step, Builder.children_make] at hchildren
      split at hchildren
      case isTrue heq =>
        rw [Option.some.injEq] at hchildren
        rw [heq]
        exact (hfree child (hchildren ▸ hchild)).lt_size
      case isFalse => exact hbefore hold rfl id children hchildren child hchild
    | checkpoint =>
      rw [Builder.after_concat]
      exact hbefore hproblems rfl
    | rollback number =>
      rw [← Builder.after_concat] at hproblems
      rcases hlast number rfl with ⟨before, since, rfl, rfl, hsince⟩ | hkept
      · -- the builder is back to what it was when the checkpoint was taken
        have hback := Builder.grounded_empty.after_rollback before since hsince
        rw [hback] at hproblems ⊢
        exact ih before.length (by simp) hearlier.of_append hproblems rfl
      · intro id children hchildren child hchild
        have hnow : id < (({} : Builder).after (calls ++ [rollback number])).nodes.size := by
          obtain ⟨node, hnode, _⟩ := Option.map_eq_some_iff.mp hchildren
          exact (Array.getElem?_eq_some_iff.mp hnode).1
        rw [Builder.after_concat] at hchildren hnow
        by_cases hid : id < (({} : Builder).after calls).nodes.size
        · rw [Builder.children_step _ _ hid hnow] at hchildren
          exact hbefore (hkept ▸ hproblems) rfl id children hchildren child hchild
        · obtain ⟨making, hmake, _⟩ :=
            Builder.exists_making_of_step (Nat.le_of_not_lt hid) hnow
          cases hmake

end Call

namespace Tree

variable {tree : Tree} {id d : Nat}

/-- All that is below a node has lower numbers. -/
lemma Descending.lt_of_mem_descendantsTo (h : tree.Descending) {depth : Nat}
    (hd : d ∈ tree.descendantsTo depth id) : d < id := by
  induction depth generalizing id with
  | zero => cases hd
  | succ depth ih =>
    obtain ⟨child, hchild, hd⟩ := List.mem_flatMap.mp hd
    have hlt := h id child hchild
    rcases List.mem_cons.mp hd with rfl | hd
    · exact hlt
    · exact Nat.lt_trans (ih hd) hlt

end Tree

namespace Builder

/-- In a tree that calls made, whatever rollbacks were among them, going up ends. Going down ends
too, with lower numbers at each step, if each node of the tree named only nodes that there were when
it was made; and that is so if each rollback went to a live checkpoint or dropped no problem. -/
theorem finish_numbers {calls : List Call} {root : NodeId} {tree : Tree}
    (h : (({} : Builder).after calls).finish root = .ok tree) :
    (tree.Ascending ∧ ∀ id, tree.ancestors id =
        ((tree.parent id).map fun parent => parent :: tree.ancestors parent).getD []) ∧
      (tree.Descending ↔ ∀ before making later, calls = before ++ .make making :: later →
        Call.Stays before making later →
        ∀ child ∈ making.children, child < (({} : Builder).after before).nodes.size) ∧
      (Call.Careful calls → tree.Descending) ∧
      (tree.Descending → ∀ id < tree.size, (∀ d ∈ tree.descendants id, d < id) ∧
        ∀ depth > id, tree.descendantsTo depth id = tree.descendants id ∧
          ∀ (σ : Type) (visit : Visitor σ),
            tree.walkTo visit depth id = tree.walkTo visit tree.size id) := by
  obtain ⟨hproblems, _, rfl⟩ := finish_eq_ok_iff.mp h
  have hascending : Tree.Ascending ⟨(({} : Builder).after calls).nodes, root⟩ :=
    ascending_mk (Session.grounded_run grounded_empty calls) (rising_after calls)
  refine ⟨⟨hascending, fun id => ?_⟩, ?_, fun hcareful => ?_, fun hdescending id hid => ?_⟩
  · cases hp : Tree.parent ⟨(({} : Builder).after calls).nodes, root⟩ id with
    | none => exact Tree.ancestors_of_none hp
    | some parent => exact hascending.ancestors_of_parent hp
  · rw [descending_mk_iff, Call.falling_iff]
  · exact (descending_mk_iff _ root).mpr (hcareful.falling hproblems)
  · refine ⟨fun d hd => hdescending.lt_of_mem_descendantsTo hd, fun depth hdepth => ⟨?_, ?_⟩⟩
    · exact hdescending.stable Tree.descendantsTo_step depth _ id hdepth hid
    · intro σ visit
      exact hdescending.stable (Tree.walkTo_step visit) depth _ id hdepth hid

/-- A rollback to a checkpoint that was gone, among problems that stay, does no harm. -/
theorem finish_numbers_stale :
    ∃ tree, (({} : Builder).after [.checkpoint, .make (.terminal .number ⟨0, 1⟩ "1"), .checkpoint,
        .rollback 0, .make (.terminal .number ⟨2, 3⟩ "2"), .rollback 1,
        .make (.node .statement [0])]).finish 1 = .ok tree ∧
      tree.Descending ∧ tree.descendants 1 = [0] ∧ tree.ancestors 0 = [1] := by
  have hfinish : (({} : Builder).after [.checkpoint, .make (.terminal .number ⟨0, 1⟩ "1"),
      .checkpoint, .rollback 0, .make (.terminal .number ⟨2, 3⟩ "2"), .rollback 1,
      .make (.node .statement [0])]).finish 1 =
        .ok ⟨#[{ kind := .terminal .number, span := ⟨2, 3⟩, parent := some 1, text := "2" },
          { kind := .statement, span := ⟨2, 3⟩, children := [0] }], 1⟩ := by decide +kernel
  exact ⟨_, hfinish, (finish_numbers hfinish).2.2.1 (.of_take (by decide +kernel)),
    by decide +kernel, by decide +kernel⟩

/-- A node at the place of one that is gone names it, and with it itself; a rollback to a checkpoint
that was gone too keeps the node and drops the problem. Going down from the node never ends. -/
theorem finish_keeps_own_child :
    ∃ tree, (({} : Builder).after [.checkpoint, .make (.terminal .number ⟨0, 1⟩ "1"), .checkpoint,
        .rollback 0, .make (.node .statement [0]), .rollback 1]).finish 0 = .ok tree ∧
      0 ∈ tree.children 0 ∧ ∀ depth, (tree.descendantsTo depth 0).length = depth := by
  refine ⟨⟨#[{ kind := .statement, children := [0] }], 0⟩, by decide +kernel, by decide +kernel, ?_⟩
  have hchildren : Tree.children ⟨#[{ kind := .statement, children := [0] }], 0⟩ 0 = [0] := rfl
  intro depth
  induction depth with
  | zero => rfl
  | succ depth ih =>
    rw [Tree.descendantsTo, hchildren, List.flatMap_singleton, List.length_cons, ih]

end Builder

end NullGuard
