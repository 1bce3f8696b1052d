import Mathlib.Data.List.Basic
import Mathlib.Tactic.Common
import NullGuard.Tree.Builder

/-!
# Runs of a builder

A builder is used by calls: nodes are made, checkpoints are taken, and what was made since a
checkpoint is undone. A checkpoint is live up to a rollback to one that was taken earlier. Here is
what making a node does to a builder, and what is needed to undo it.
-/

namespace NullGuard

/-- A call that makes a node. -/
inductive Making where
  | token (token : Token)
  | terminal (kind : TokenKind) (span : Span) (text : String)
  | node (kind : NodeKind) (children : List NodeId)

namespace Making

def children : Making → List NodeId
  | token _ | terminal _ _ _ => []
  | node _ children => children

/-- The node that is made, given what its children span. -/
def toNode (span : Option Span) : Making → Node
  | token t => { kind := .terminal t.kind, span := t.span, text := t.text }
  | terminal kind span text => { kind := .terminal kind, span := span, text := text }
  | node kind children => { kind := kind, span := span.getD .zero, children := children }

lemma toNode_parent (span : Option Span) (making : Making) :
    (making.toNode span).parent = none := by
  cases making <;> rfl

lemma toNode_children (span : Option Span) (making : Making) :
    (making.toNode span).children = making.children := by
  cases making <;> rfl

end Making

/-- A call on a builder. Checkpoints are numbered in the order in which they are taken. -/
inductive Call where
  | make (making : Making)
  | checkpoint
  | rollback (number : Nat)

namespace Call

def isCheckpoint : Call → Bool
  | checkpoint => true
  | make _ | rollback _ => false

def taken (calls : List Call) : Nat := calls.countP isCheckpoint

/-- Whether the call leaves alone what was there when `count` checkpoints were taken: it does not go
back to one of them. -/
def spares (count : Nat) : Call → Bool
  | rollback number => count ≤ number
  | make _ | checkpoint => true

/-- The checkpoint is taken, and from then on no rollback goes to an earlier one. -/
def Live (calls : List Call) (number : Nat) : Prop :=
  ∃ before since, calls = before ++ checkpoint :: since ∧ taken before = number ∧
    ∀ call ∈ since, call.spares number = true

/-- Each rollback goes to a checkpoint that is live then. -/
def Disciplined (calls : List Call) : Prop :=
  ∀ before number later, calls = before ++ rollback number :: later → Live before number

/-- The calls that make nodes and are not undone, of a run that goes on after `count` checkpoints. A
rollback undoes what was made since its checkpoint was taken. -/
def survivors (count : Nat) : List Call → List Making
  | [] => []
  | make making :: calls =>
    if calls.all (spares count) then making :: survivors count calls else survivors count calls
  | checkpoint :: calls => survivors (count + 1) calls
  | rollback _ :: calls => survivors count calls

section Survivors

variable {calls before later : List Call} {count number : Nat}

lemma spares_mono {call : Call} {n m : Nat} (hle : n ≤ m) (h : call.spares m = true) :
    call.spares n = true := by
  cases call with
  | rollback number =>
    rw [spares, decide_eq_true_eq] at h ⊢
    exact Nat.le_trans hle h
  | make _ | checkpoint => rfl

/-- What is spared by all that comes later survives it. -/
lemma survivors_append (h : ∀ call ∈ later, call.spares (count + taken before) = true) :
    survivors count (before ++ later) =
      survivors count before ++ survivors (count + taken before) later := by
  induction before generalizing count with
  | nil => rfl
  | cons call before ih =>
    cases call with
    | make making =>
      have hspared : later.all (spares count) = true :=
        List.all_eq_true.mpr fun call hcall => spares_mono (Nat.le_add_right _ _) (h call hcall)
      have hrest := ih h
      simp only [List.cons_append, survivors, List.all_append, hspared, Bool.and_true]
      split
      · rw [hrest, List.cons_append]
        rfl
      · exact hrest
    | checkpoint =>
      have hcount : count + taken (checkpoint :: before) = count + 1 + taken before := by
        rw [taken, List.countP_cons_of_pos rfl, ← taken]
        omega
      rw [hcount] at h ⊢
      exact ih h
    | rollback number => exact ih h

/-- Nothing survives a rollback that was made since its checkpoint. -/
lemma survivors_rollback (h : number < count) :
    survivors count (calls ++ [rollback number]) = [] := by
  induction calls generalizing count with
  | nil => rfl
  | cons call calls ih =>
    cases call with
    | make making =>
      have hundone : (rollback number).spares count = false := decide_eq_false (by omega)
      simp only [List.cons_append, survivors, List.all_append, List.all_cons, hundone,
        Bool.false_and, Bool.and_false, Bool.false_eq_true, if_false]
      exact ih h
    | checkpoint => exact ih (Nat.lt_succ_of_lt h)
    | rollback _ => exact ih h

lemma Disciplined.of_append (h : Disciplined (before ++ later)) : Disciplined before := by
  intro front number back hsplit
  apply h front number (back ++ later)
  rw [hsplit, List.append_assoc, List.cons_append]

/-- What is said of all rollbacks of a run is said of those before its last call, and of that. -/
lemma forall_rollback_concat {P : List Call → Nat → Prop} {call : Call} :
    (∀ before number later, calls ++ [call] = before ++ rollback number :: later →
        P before number) ↔
      (∀ before number later, calls = before ++ rollback number :: later → P before number) ∧
        ∀ number, call = rollback number → P calls number := by
  constructor
  · intro h
    refine ⟨fun before number later hsplit => h before number (later ++ [call]) ?_, ?_⟩
    · rw [hsplit, List.append_assoc, List.cons_append]
    · rintro number rfl
      exact h calls number [] rfl
  · rintro ⟨h, hlast⟩ before number later hsplit
    rcases List.eq_nil_or_concat later with rfl | ⟨later, last, rfl⟩
    · obtain ⟨rfl, hcall⟩ := List.append_inj' hsplit rfl
      exact hlast number (List.singleton_inj.mp hcall)
    · rw [List.concat_eq_append, ← List.cons_append, ← List.append_assoc] at hsplit
      exact h before number later (List.append_inj' hsplit rfl).1

lemma disciplined_concat {call : Call} : Disciplined (calls ++ [call]) ↔
    Disciplined calls ∧ ∀ number, call = rollback number → Live calls number :=
  forall_rollback_concat

end Survivors

end Call

namespace Builder

def make (b : Builder) : Making → Builder
  | .token token => (b.token token).2
  | .terminal kind span text => (b.terminal kind span text).2
  | .node kind children => (b.node kind children).2

def makeAll (b : Builder) (makings : List Making) : Builder := makings.foldl make b

lemma makeAll_append (b : Builder) (makings more : List Making) :
    b.makeAll (makings ++ more) = (b.makeAll makings).makeAll more := List.foldl_append

end Builder

/-- A builder with the checkpoints that were taken of it. -/
structure Session where
  builder : Builder
  taken : List Checkpoint := []

namespace Session

def step (session : Session) : Call → Session
  | .make making => { session with builder := session.builder.make making }
  | .checkpoint => { session with taken := session.taken ++ [session.builder.checkpoint] }
  | .rollback number =>
    match session.taken[number]? with
    | some checkpoint => { session with builder := session.builder.rollback checkpoint }
    | none => session

def run (session : Session) (calls : List Call) : Session := calls.foldl step session

/-- Checkpoints that were taken stay as they are. -/
lemma exists_taken_run (session : Session) (calls : List Call) : ∃ more,
    (session.run calls).taken = session.taken ++ more ∧ more.length = Call.taken calls := by
  induction calls generalizing session with
  | nil => exact ⟨[], (List.append_nil _).symm, rfl⟩
  | cons call calls ih =>
    obtain ⟨more, htaken, hlength⟩ := ih (session.step call)
    rw [run, List.foldl_cons, ← run, htaken]
    cases call with
    | make making => exact ⟨more, rfl, hlength⟩
    | checkpoint =>
      refine ⟨session.builder.checkpoint :: more, ?_, ?_⟩
      · rw [step, List.append_assoc, List.singleton_append]
      · rw [List.length_cons, hlength, Call.taken, Call.taken, List.countP_cons_of_pos rfl]
    | rollback number =>
      refine ⟨more, ?_, hlength⟩
      rw [step]
      split <;> rfl

end Session

namespace Builder

def after (b : Builder) (calls : List Call) : Builder := (Session.run ⟨b, []⟩ calls).builder

/-- A checkpoint tells how far the builder had come when it was taken. -/
lemma taken_run (b : Builder) (before since : List Call) :
    (Session.run ⟨b, []⟩ (before ++ .checkpoint :: since)).taken[Call.taken before]? =
      some (b.after before).checkpoint := by
  obtain ⟨first, hfirst, hlength⟩ := Session.exists_taken_run ⟨b, []⟩ before
  obtain ⟨more, hmore, _⟩ :=
    Session.exists_taken_run ((Session.run ⟨b, []⟩ before).step .checkpoint) since
  rw [Session.run, List.foldl_append, List.foldl_cons, ← Session.run, ← Session.run, hmore,
    Session.step, hfirst, List.nil_append, List.append_assoc, ← hlength,
    List.getElem?_append_right (Nat.le_refl _), Nat.sub_self]
  rfl

end Builder

/-- The node with a parent, unless it has one. -/
def Node.adoptedBy (parent : NodeId) (node : Node) : Node :=
  if node.parent = none then { node with parent := some parent } else node

lemma Node.adoptedBy_of_none {node : Node} (parent : NodeId) (h : node.parent = none) :
    node.adoptedBy parent = { node with parent := some parent } := if_pos h

lemma Node.adoptedBy_of_some {node : Node} {old : NodeId} (parent : NodeId)
    (h : node.parent = some old) : node.adoptedBy parent = node := by
  rw [adoptedBy, if_neg (by simp [h])]

lemma Node.adoptedBy_adoptedBy (parent : NodeId) (node : Node) :
    (node.adoptedBy parent).adoptedBy parent = node.adoptedBy parent := by
  cases hold : node.parent with
  | none => rw [adoptedBy_of_none parent hold, adoptedBy_of_some parent rfl]
  | some old => rw [adoptedBy_of_some parent hold, adoptedBy_of_some parent hold]

namespace Builder

/-- The node was made and has no parent. -/
def Free (b : Builder) (id : NodeId) : Prop :=
  ∃ node, b.nodes[id]? = some node ∧ node.parent = none

section Adopting

variable {b b' b'' : Builder} {parent id child : Nat} {children more : List NodeId}

lemma Free.lt_size (h : b.Free id) : id < b.nodes.size := by
  obtain ⟨node, hnode, _⟩ := h
  exact (Array.getElem?_eq_some_iff.mp hnode).1

lemma not_free_iff : ¬ b.Free id ↔ ∀ node, b.nodes[id]? = some node → node.parent ≠ none := by
  simp [Free]

/-- What adopting children does to a builder. A child that is not free is a problem. -/
structure Adopts (parent : NodeId) (children : List NodeId) (b b' : Builder) : Prop where
  size_eq : b'.nodes.size = b.nodes.size
  node_eq : ∀ id, b'.nodes[id]? =
    if id ∈ children then b.nodes[id]?.map (Node.adoptedBy parent) else b.nodes[id]?
  isPrefix : b.problems <+: b'.problems
  problems_iff : b'.problems = [] ↔
    b.problems = [] ∧ children.Nodup ∧ ∀ child ∈ children, b.Free child

/-- Children are not free any more. -/
lemma Adopts.free_iff (h : Adopts parent children b b') :
    b'.Free id ↔ id ∉ children ∧ b.Free id := by
  rw [Free, h.node_eq]
  by_cases hmem : id ∈ children
  · simp only [hmem, if_true, Option.map_eq_some_iff, not_true_eq_false, false_and, iff_false]
    rintro ⟨_, ⟨node, _, rfl⟩, hparent⟩
    cases hold : node.parent with
    | none => simp [Node.adoptedBy_of_none parent hold] at hparent
    | some old => simp [Node.adoptedBy_of_some parent hold, hold] at hparent
  · simp only [hmem, if_false, not_false_eq_true, true_and, Free]

lemma adopts_nil (parent : NodeId) (b : Builder) : Adopts parent [] b b where
  size_eq := rfl
  node_eq id := (if_neg List.not_mem_nil).symm
  isPrefix := List.prefix_rfl
  problems_iff := by simp

/-- A child is adopted, or it is a problem and nothing else changes. -/
lemma adopts_adopt (b : Builder) (span : Option Span) (parent child : NodeId) :
    Adopts parent [child] b (adopt parent (b, span) child).1 := by
  by_cases hfree : b.Free child
  · obtain ⟨node, hnode, hparent⟩ := hfree
    have hadopt : (adopt parent (b, span) child).1 =
        { b with nodes := b.nodes.setIfInBounds child (node.adoptedBy parent) } := by
      simp only [adopt, hnode, hparent, Node.adoptedBy_of_none parent hparent]
    rw [hadopt]
    refine ⟨Array.size_setIfInBounds, fun id => ?_, List.prefix_rfl, ?_⟩
    · rw [Array.getElem?_setIfInBounds]
      by_cases heq : id = child
      · subst heq
        rw [if_pos rfl, if_pos List.mem_cons_self, if_pos (Array.getElem?_eq_some_iff.mp hnode).1,
          hnode, Option.map_some]
      · rw [if_neg (Ne.symm heq), if_neg (by simpa using heq)]
    · simp [show b.Free child from ⟨node, hnode, hparent⟩]
  · have hold := not_free_iff.mp hfree
    obtain ⟨problem, hadopt⟩ : ∃ problem, (adopt parent (b, span) child).1 = b.report problem := by
      cases hnode : b.nodes[child]? with
      | none => exact ⟨.unknown child, by simp only [adopt, hnode]⟩
      | some node =>
        obtain ⟨old, hsome⟩ := Option.ne_none_iff_exists'.mp (hold node hnode)
        exact ⟨.shared child, by simp only [adopt, hnode, hsome]⟩
    rw [hadopt]
    refine ⟨rfl, fun id => ?_, List.prefix_append _ _, by simp [report, hfree]⟩
    by_cases heq : id = child
    · subst heq
      rw [if_pos List.mem_cons_self]
      cases hnode : b.nodes[id]? with
      | none => simp [report, hnode]
      | some node =>
        obtain ⟨old, hsome⟩ := Option.ne_none_iff_exists'.mp (hold node hnode)
        rw [Option.map_some, Node.adoptedBy_of_some parent hsome]
        exact hnode
    · rw [if_neg (by simpa using heq)]
      rfl

lemma Adopts.cons (h : Adopts parent [child] b b') (hmore : Adopts parent more b' b'') :
    Adopts parent (child :: more) b b'' where
  size_eq := hmore.size_eq.trans h.size_eq
  node_eq id := by
    rw [hmore.node_eq, h.node_eq]
    by_cases heq : id = child
    · by_cases hmem : id ∈ more
      · have htwice : Node.adoptedBy parent ∘ Node.adoptedBy parent = Node.adoptedBy parent :=
          funext (Node.adoptedBy_adoptedBy parent)
        rw [if_pos hmem, if_pos (List.mem_singleton.mpr heq), if_pos (List.mem_cons_of_mem _ hmem),
          Option.map_map, htwice]
      · rw [if_neg hmem, if_pos (List.mem_singleton.mpr heq), if_pos (List.mem_cons.mpr (.inl heq))]
    · have hnot : id ∉ [child] := by simpa using heq
      have hmem : id ∈ child :: more ↔ id ∈ more := by simp [heq]
      simp only [hmem, hnot, if_false]
  isPrefix := h.isPrefix.trans hmore.isPrefix
  problems_iff := by
    rw [hmore.problems_iff, h.problems_iff]
    simp only [h.free_iff, List.forall_mem_cons, List.mem_singleton, forall_eq, List.nodup_cons]
    constructor
    · rintro ⟨⟨hnone, _, hchild⟩, hnodup, hfree⟩
      exact ⟨hnone, ⟨fun hmem => (hfree child hmem).1 rfl, hnodup⟩, hchild,
        fun c hc => (hfree c hc).2⟩
    · rintro ⟨hnone, ⟨hchild, hnodup⟩, hfree, hmore⟩
      refine ⟨⟨hnone, by simp, hfree⟩, hnodup, fun c hc => ⟨?_, hmore c hc⟩⟩
      rintro rfl
      exact hchild hc

/-- What adopting children one after the other does to a builder. -/
lemma adopts_foldl (parent : NodeId) (children : List NodeId) (b : Builder) (span : Option Span) :
    Adopts parent children b (children.foldl (adopt parent) (b, span)).1 := by
  induction children generalizing b span with
  | nil => exact adopts_nil parent b
  | cons child children ih => exact (adopts_adopt b span parent child).cons (ih _ _)

/-- A node is made behind the others, with its children adopted. -/
lemma exists_make (b : Builder) (making : Making) :
    ∃ b' node, Adopts b.nodes.size making.children b b' ∧ node.parent = none ∧
      node.children = making.children ∧
      b.make making = { b' with nodes := b'.nodes.push node } := by
  have hadopts := adopts_foldl b.nodes.size making.children b none
  refine ⟨_, making.toNode (making.children.foldl (adopt b.nodes.size) (b, none)).2, hadopts,
    making.toNode_parent _, making.toNode_children _, ?_⟩
  cases making <;> rfl

lemma size_make (b : Builder) (making : Making) :
    (b.make making).nodes.size = b.nodes.size + 1 := by
  obtain ⟨b', node, hadopts, _, _, hmake⟩ := b.exists_make making
  rw [hmake, Array.size_push, hadopts.size_eq]

/-- Nodes keep their children, and the new node has those that its call names. -/
lemma children_make (b : Builder) (making : Making) (id : Nat) :
    (b.make making).nodes[id]?.map Node.children =
      if id = b.nodes.size then some making.children else b.nodes[id]?.map Node.children := by
  obtain ⟨b', node, hadopts, _, hchildren, hmake⟩ := b.exists_make making
  rw [hmake, Array.getElem?_push, hadopts.size_eq]
  split
  · rw [Option.map_some, hchildren]
  · rw [hadopts.node_eq]
    split
    · cases b.nodes[id]? with
      | none => rfl
      | some old =>
        rw [Option.map_some, Option.map_some, Option.map_some, Node.adoptedBy]
        split <;> rfl
    · rfl

/-- A node that has a parent keeps it, and a free node that is named as a child gets the new one. -/
lemma parent_make_iff (b : Builder) (making : Making) (id parent : Nat) :
    (∃ node, (b.make making).nodes[id]? = some node ∧ node.parent = some parent) ↔
      (∃ node, b.nodes[id]? = some node ∧ node.parent = some parent) ∨
        b.Free id ∧ id ∈ making.children ∧ parent = b.nodes.size := by
  obtain ⟨b', node, hadopts, hparent, _, hmake⟩ := b.exists_make making
  rw [hmake, Array.getElem?_push, hadopts.size_eq, hadopts.node_eq, Free]
  by_cases hid : id = b.nodes.size
  · simp [hid, hparent]
  · rw [if_neg hid]
    cases hnode : b.nodes[id]? with
    | none => simp
    | some old =>
      cases hold : old.parent with
      | none =>
        by_cases hmem : id ∈ making.children
        · simp [hmem, hold, Node.adoptedBy_of_none _ hold, eq_comm]
        · simp [hmem, hold]
      | some other =>
        by_cases hmem : id ∈ making.children
        · simp [hmem, hold, Node.adoptedBy_of_some _ hold]
        · simp [hmem, hold]

end Adopting

section Undoing

variable {b b' b'' : Builder}

/-- All parents were made. -/
def Grounded (b : Builder) : Prop :=
  ∀ (id : NodeId) (node : Node) (parent : Nat), b.nodes[id]? = some node →
    node.parent = some parent → parent < b.nodes.size

/-- The builder has gone on from another one: the nodes of the other are as they were, without the
parents that they got since. -/
structure Extends (b b' : Builder) : Prop where
  size_le : b.nodes.size ≤ b'.nodes.size
  node_eq : ∀ (id : NodeId) (node : Node), b.nodes[id]? = some node →
    b'.nodes[id]?.map (release b.nodes.size) = some node
  isPrefix : b.problems <+: b'.problems

/-- A builder that nothing was made with yet. -/
lemma grounded_empty : ({} : Builder).Grounded := by
  intro id node parent hnode
  simp at hnode

lemma release_eq_self {bound : Nat} {node : Node}
    (h : ∀ parent, node.parent = some parent → parent < bound) : release bound node = node := by
  unfold release
  split
  case h_1 parent hparent => exact if_neg (Nat.not_le.mpr (h parent hparent))
  case h_2 => rfl

lemma release_release {n m : Nat} (h : n ≤ m) (node : Node) :
    release n (release m node) = release n node := by
  cases hparent : node.parent with
  | none => simp only [release, hparent]
  | some parent =>
    by_cases hm : m ≤ parent
    · have hn : n ≤ parent := Nat.le_trans h hm
      simp only [release, hparent, hm, hn, if_true]
    · simp only [release, hparent, hm, if_false]

lemma release_adoptedBy {n : Nat} {node : Node}
    (h : ∀ parent, node.parent = some parent → parent < n) :
    release n (node.adoptedBy n) = node := by
  cases hparent : node.parent with
  | none =>
    rw [Node.adoptedBy_of_none n hparent]
    simp only [release, Nat.le_refl, if_true, ← hparent]
  | some parent =>
    rw [Node.adoptedBy_of_some n hparent]
    exact release_eq_self h

lemma Grounded.extends_self (h : b.Grounded) : b.Extends b := by
  refine ⟨Nat.le_refl _, fun id node hnode => ?_, List.prefix_rfl⟩
  rw [hnode, Option.map_some, release_eq_self fun parent => h id node parent hnode]

lemma Extends.trans (h : b.Extends b') (h' : b'.Extends b'') : b.Extends b'' := by
  refine ⟨Nat.le_trans h.size_le h'.size_le, fun id node hnode => ?_, h.isPrefix.trans h'.isPrefix⟩
  obtain ⟨node', hnode', hrelease⟩ := Option.map_eq_some_iff.mp (h.node_eq id node hnode)
  obtain ⟨node'', hnode'', hrelease'⟩ := Option.map_eq_some_iff.mp (h'.node_eq id node' hnode')
  rw [hnode'', Option.map_some, ← hrelease, ← hrelease', release_release h.size_le]

/-- Going back to where a builder was brings it back as it was. -/
lemma Extends.rollback_eq (h : b.Extends b') : b'.rollback b.checkpoint = b := by
  have hnodes : (b'.nodes.take b.nodes.size).map (release b.nodes.size) = b.nodes := by
    apply Array.ext_getElem?
    intro id
    rw [Array.getElem?_map, Array.take_eq_extract, Array.getElem?_extract, Nat.sub_zero,
      Nat.zero_add, Nat.min_eq_left h.size_le]
    cases hnode : b.nodes[id]? with
    | none => rw [if_neg (Nat.not_lt.mpr (Array.getElem?_eq_none_iff.mp hnode)), Option.map_none]
    | some node =>
      rw [if_pos (Array.getElem?_eq_some_iff.mp hnode).1, h.node_eq id node hnode]
  have hproblems : b'.problems.take b.problems.length = b.problems :=
    (List.prefix_iff_eq_take.mp h.isPrefix).symm
  simp only [rollback, checkpoint, hnodes, hproblems]

/-- Making a node only goes on from the nodes that were there. -/
lemma Grounded.make (h : b.Grounded) (making : Making) :
    (b.make making).Grounded ∧ b.Extends (b.make making) := by
  obtain ⟨b', node, hadopts, _, _, hmake⟩ := b.exists_make making
  have hold : ∀ id, id < b.nodes.size → (b'.nodes.push node)[id]? = b'.nodes[id]? := by
    intro id hid
    rw [Array.getElem?_push, if_neg (by rw [hadopts.size_eq]; omega)]
  constructor
  · intro id other parent hother hsome
    rw [size_make]
    rcases (b.parent_make_iff making id parent).mp ⟨other, hother, hsome⟩ with
      ⟨before, hbefore, hparent⟩ | ⟨_, _, rfl⟩
    · exact Nat.lt_succ_of_lt (h id before parent hbefore hparent)
    · exact Nat.lt_succ_self _
  · rw [hmake]
    refine ⟨?_, fun id other hother => ?_, hadopts.isPrefix⟩
    · rw [Array.size_push, hadopts.size_eq]
      exact Nat.le_succ _
    · have hground := fun parent => h id other parent hother
      rw [hold id (Array.getElem?_eq_some_iff.mp hother).1, hadopts.node_eq, hother]
      split
      · rw [Option.map_some, Option.map_some, release_adoptedBy hground]
      · rw [Option.map_some, release_eq_self hground]

end Undoing

end Builder

end NullGuard
