import NullGuard.Proofs.BuilderRuns

/-!
# Rollbacks

Going back to a checkpoint brings a builder back to exactly what it was when the checkpoint was
taken, whatever was made since, as long as no rollback went to an earlier checkpoint. The builder
may have been used in any way before, with rollbacks to checkpoints that were not live any more: in
each state that can be reached all parents were made, and this is all that a rollback relies on. So
a run in which each rollback goes to a live checkpoint comes to what the calls come to that were not
undone.
-/

namespace NullGuard

namespace Builder

variable {b b' : Builder}

lemma getElem?_rollback (b : Builder) (c : Checkpoint) (id : Nat) : (b.rollback c).nodes[id]? =
    if id < c.nodes then b.nodes[id]?.map (release c.nodes) else none := by
  rw [rollback, Array.getElem?_map, Array.take_eq_extract, Array.getElem?_extract, Nat.sub_zero,
    Nat.zero_add]
  by_cases hid : id < min c.nodes b.nodes.size
  · rw [if_pos hid, if_pos (Nat.lt_of_lt_of_le hid (Nat.min_le_left _ _))]
  · rw [if_neg hid, Option.map_none]
    split
    case isTrue hlt =>
      have hsize : b.nodes.size ≤ id := by omega
      rw [Array.getElem?_eq_none hsize, Option.map_none]
    case isFalse => rfl

lemma size_rollback (b : Builder) (c : Checkpoint) :
    (b.rollback c).nodes.size = min c.nodes b.nodes.size := by
  simp [rollback]

lemma release_parent_iff {bound parent : Nat} {node : Node} :
    (release bound node).parent = some parent ↔ node.parent = some parent ∧ parent < bound := by
  cases hparent : node.parent with
  | none => simp [release, hparent]
  | some old =>
    by_cases hle : bound ≤ old
    · simp only [release, hparent, hle, if_true, reduceCtorEq, false_iff, Option.some.injEq,
        not_and]
      rintro rfl
      omega
    · simp only [release, hparent, hle, if_false, Option.some.injEq]
      refine ⟨fun heq => ⟨heq, ?_⟩, And.left⟩
      exact heq ▸ Nat.lt_of_not_le hle

/-- A node that has a parent after a rollback had it before, and the parent stays. -/
lemma parent_rollback {c : Checkpoint} {id parent : Nat} {node : Node}
    (hnode : (b.rollback c).nodes[id]? = some node) (hparent : node.parent = some parent) :
    parent < c.nodes ∧ ∃ old, b.nodes[id]? = some old ∧ old.parent = some parent := by
  rw [getElem?_rollback] at hnode
  split at hnode
  case isTrue =>
    obtain ⟨old, hold, rfl⟩ := Option.map_eq_some_iff.mp hnode
    obtain ⟨hsome, hlt⟩ := release_parent_iff.mp hparent
    exact ⟨hlt, old, hold, hsome⟩
  case isFalse => cases hnode

lemma Grounded.rollback (h : b.Grounded) (c : Checkpoint) : (b.rollback c).Grounded := by
  intro id node parent hnode hparent
  obtain ⟨hlt, old, hold, hsome⟩ := parent_rollback hnode hparent
  have hmade := h id old parent hold hsome
  rw [size_rollback]
  omega

/-- Going back, but not further than to where a builder was, leaves alone what it had then. -/
lemma Extends.rollback (h : b.Extends b') {c : Checkpoint} (hnodes : b.nodes.size ≤ c.nodes)
    (hproblems : b.problems.length ≤ c.problems) : b.Extends (b'.rollback c) := by
  refine ⟨?_, fun id node hnode => ?_, ?_⟩
  · rw [size_rollback]
    exact Nat.le_min.mpr ⟨hnodes, h.size_le⟩
  · have hid := (Array.getElem?_eq_some_iff.mp hnode).1
    obtain ⟨node', hnode', hrelease⟩ := Option.map_eq_some_iff.mp (h.node_eq id node hnode)
    rw [getElem?_rollback, if_pos (Nat.lt_of_lt_of_le hid hnodes), hnode', Option.map_some,
      Option.map_some, release_release hnodes, hrelease]
  · obtain ⟨more, hmore⟩ := h.isPrefix
    have hkept : b'.problems.take c.problems =
        b.problems ++ more.take (c.problems - b.problems.length) := by
      rw [← hmore, List.take_append, List.take_of_length_le hproblems]
    exact ⟨_, hkept.symm⟩

end Builder

namespace Session

variable {b : Builder} {session : Session} {calls : List Call} {count : Nat}

/-- What making a node and going back keep is kept by each call. -/
lemma step_keeps {P : Builder → Prop} (hmake : ∀ b making, P b → P (b.make making))
    (hrollback : ∀ b checkpoint, P b → P (b.rollback checkpoint)) (h : P session.builder)
    (call : Call) : P (session.step call).builder := by
  cases call with
  | make making => exact hmake _ making h
  | checkpoint => exact h
  | rollback number =>
    rw [step]
    split
    · exact hrollback _ _ h
    · exact h

lemma run_keeps {P : Builder → Prop} (hmake : ∀ b making, P b → P (b.make making))
    (hrollback : ∀ b checkpoint, P b → P (b.rollback checkpoint)) (h : P session.builder)
    (calls : List Call) : P (session.run calls).builder := by
  induction calls generalizing session with
  | nil => exact h
  | cons call calls ih => exact ih (step_keeps hmake hrollback h call)

/-- All parents were made, whatever call there was. -/
lemma grounded_step (h : session.builder.Grounded) (call : Call) :
    (session.step call).builder.Grounded :=
  step_keeps (fun _ making h => (h.make making).1) (fun _ c h => h.rollback c) h call

lemma grounded_run (h : session.builder.Grounded) (calls : List Call) :
    (session.run calls).builder.Grounded :=
  run_keeps (fun _ making h => (h.make making).1) (fun _ c h => h.rollback c) h calls

/-- The session has gone on from a builder, and so had all that were taken as checkpoints since
`count` of them were taken. -/
structure Since (b : Builder) (count : Nat) (session : Session) : Prop where
  grounded : session.builder.Grounded
  extends_builder : b.Extends session.builder
  extends_taken : ∀ number checkpoint, count ≤ number → session.taken[number]? = some checkpoint →
    b.nodes.size ≤ checkpoint.nodes ∧ b.problems.length ≤ checkpoint.problems

/-- A call that does not go back to an earlier checkpoint keeps what there was. -/
lemma Since.step (h : session.Since b count) {call : Call} (hcall : call.spares count = true) :
    (session.step call).Since b count := by
  refine ⟨grounded_step h.grounded call, ?_, fun number checkpoint hnumber htaken => ?_⟩
  · cases call with
    | make making => exact h.extends_builder.trans (h.grounded.make making).2
    | checkpoint => exact h.extends_builder
    | rollback number =>
      rw [Session.step]
      split
      case h_1 checkpoint htaken =>
        have hback := h.extends_taken number checkpoint (of_decide_eq_true hcall) htaken
        exact h.extends_builder.rollback hback.1 hback.2
      case h_2 => exact h.extends_builder
  · cases call with
    | make making => exact h.extends_taken number checkpoint hnumber htaken
    | checkpoint =>
      rw [Session.step, List.getElem?_append] at htaken
      split at htaken
      case isTrue => exact h.extends_taken number checkpoint hnumber htaken
      case isFalse =>
        obtain rfl : session.builder.checkpoint = checkpoint := by
          have hmem := List.mem_of_getElem? htaken
          exact (List.mem_singleton.mp hmem).symm
        exact ⟨h.extends_builder.size_le, h.extends_builder.isPrefix.length_le⟩
    | rollback other =>
      refine h.extends_taken number checkpoint hnumber ?_
      rw [← htaken, Session.step]
      split <;> rfl

lemma Since.run (h : session.Since b count) (hcalls : ∀ call ∈ calls, call.spares count = true) :
    (session.run calls).Since b count := by
  induction calls generalizing session with
  | nil => exact h
  | cons call calls ih =>
    obtain ⟨hcall, hcalls⟩ := List.forall_mem_cons.mp hcalls
    exact ih (h.step hcall) hcalls

end Session

namespace Builder

variable {b : Builder}

lemma run_append_checkpoint (b : Builder) (before since : List Call) :
    Session.run ⟨b, []⟩ (before ++ .checkpoint :: since) =
      ((Session.run ⟨b, []⟩ before).step .checkpoint).run since := by
  rw [Session.run, List.foldl_append, List.foldl_cons, ← Session.run, ← Session.run]

lemma after_concat (b : Builder) (calls : List Call) (call : Call) :
    b.after (calls ++ [call]) = ((Session.run ⟨b, []⟩ calls).step call).builder := by
  rw [after, Session.run, List.foldl_append]
  rfl

/-- Since a checkpoint was taken, a builder has only gone on from what it was then. -/
lemma Grounded.extends_since (h : b.Grounded) (before since : List Call)
    (hsince : ∀ call ∈ since, call.spares (Call.taken before) = true) :
    (b.after before).Extends (b.after (before ++ .checkpoint :: since)) := by
  have hgrounded : (b.after before).Grounded := Session.grounded_run h before
  have htaken : (Session.run ⟨b, []⟩ before).taken.length = Call.taken before := by
    obtain ⟨more, hmore, hlength⟩ := Session.exists_taken_run ⟨b, []⟩ before
    rw [hmore, List.nil_append, hlength]
  have hstart : ((Session.run ⟨b, []⟩ before).step .checkpoint).Since (b.after before)
      (Call.taken before) := by
    refine ⟨hgrounded, hgrounded.extends_self, fun number checkpoint hnumber hget => ?_⟩
    -- of the checkpoints from this one on there is only this one
    rw [Session.step, List.getElem?_append_right (by omega)] at hget
    have hmem := List.mem_of_getElem? hget
    rw [List.mem_singleton.mp hmem]
    exact ⟨Nat.le_refl _, Nat.le_refl _⟩
  have hnow := (hstart.run hsince).extends_builder
  rwa [← run_append_checkpoint] at hnow

/-- Going back to a checkpoint undoes all calls since. -/
lemma Grounded.after_rollback (h : b.Grounded) (before since : List Call)
    (hsince : ∀ call ∈ since, call.spares (Call.taken before) = true) :
    b.after (before ++ .checkpoint :: since ++ [.rollback (Call.taken before)]) =
      b.after before := by
  rw [after_concat, Session.step, taken_run]
  exact (h.extends_since before since hsince).rollback_eq

/-- If each rollback goes to a live checkpoint, then a run comes to what the calls come to that were
not undone, as if there had been no others. -/
theorem Grounded.after_eq (h : b.Grounded) {calls : List Call} (hcalls : Call.Disciplined calls) :
    b.after calls = b.makeAll (Call.survivors 0 calls) := by
  induction hlength : calls.length using Nat.strongRecOn generalizing calls with
  | ind length ih =>
    subst hlength
    rcases List.eq_nil_or_concat calls with rfl | ⟨calls, last, rfl⟩
    · rfl
    rw [List.concat_eq_append] at *
    obtain ⟨hearlier, hlive⟩ := Call.disciplined_concat.mp hcalls
    have hbefore := ih calls.length (by simp) hearlier rfl
    cases last with
    | make making =>
      rw [after_concat, Call.survivors_append (by simp [Call.spares]), makeAll_append, ← hbefore]
      rfl
    | checkpoint =>
      rw [after_concat, Call.survivors_append (by simp [Call.spares]), Call.survivors,
        Call.survivors, List.append_nil]
      exact hbefore
    | rollback number =>
      obtain ⟨before, since, rfl, rfl, hsince⟩ := hlive number rfl
      have hundone :
          Call.survivors 0 (before ++ .checkpoint :: since ++ [.rollback (Call.taken before)]) =
            Call.survivors 0 before := by
        rw [List.append_assoc, List.cons_append, Call.survivors_append, Nat.zero_add,
          Call.survivors, Call.survivors_rollback (Nat.lt_succ_self _), List.append_nil]
        simpa [Call.spares, or_imp, forall_and] using hsince
      rw [h.after_rollback before since hsince, hundone]
      exact ih before.length (by simp) hearlier.of_append rfl

/-- A rollback brings a builder back to exactly what it was. After any calls a checkpoint is taken,
and then come calls that do not go back to an earlier one; going back to the checkpoint leaves the
builder that there was when it was taken. -/
theorem rollback_restores (before since : List Call)
    (h : ∀ call ∈ since, call.spares (Call.taken before) = true) :
    let old := ({} : Builder).after before
    let now := Session.run ⟨{}, []⟩ (before ++ .checkpoint :: since)
    now.taken[Call.taken before]? = some old.checkpoint ∧
      now.builder.rollback old.checkpoint = old ∧
      (now.step (.rollback (Call.taken before))).builder = old := by
  intro old now
  refine ⟨taken_run {} before since, (grounded_empty.extends_since before since h).rollback_eq, ?_⟩
  exact (after_concat _ _ _).symm.trans (grounded_empty.after_rollback before since h)

/-- A node that names an unknown child is there when the checkpoint is taken. Since then it is
adopted, its own child is named a second time, and another rollback is inside; all of this is
undone, and the one problem from before is left. -/
theorem rollback_restores_adopted :
    let word : Call := .make (.terminal .identifier ⟨0, 1⟩ "A")
    let before := [word, .make (.node .column [0, 9])]
    let since := [word, .make (.node .statement [1, 0, 2]), .checkpoint,
      .make (.node .query [3, 7]), .rollback 1, .make (.node .union [3])]
    let now := Session.run ⟨{}, []⟩ (before ++ .checkpoint :: since)
    let back := (now.step (.rollback 0)).builder
    (∀ call ∈ since, call.spares 0 = true) ∧
      now.builder.nodes.map Node.parent = #[some 1, some 3, some 3, some 4, none] ∧
      now.builder.problems = [.unknown 9, .shared 0] ∧
      back.nodes.map Node.parent = #[some 1, none] ∧ back.problems = [.unknown 9] := by
  intro word before since now back
  have hsince : ∀ call ∈ since, call.spares (Call.taken before) = true := by
    simp [since, word, before, Call.taken, Call.spares, Call.isCheckpoint]
  have hback : back = ({} : Builder).after before := (rollback_restores before since hsince).2.2
  rw [hback]
  exact ⟨hsince, by decide +kernel, by decide +kernel, by decide +kernel, by decide +kernel⟩

end Builder

end NullGuard
