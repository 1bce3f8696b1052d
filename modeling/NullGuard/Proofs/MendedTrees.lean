import NullGuard.Proofs.TreePairs

namespace NullGuard

open Phrase (Mended)

lemma forall₂_getElem? {α β : Type*} {R : α → β → Prop} {as : List α} {bs : List β}
    (h : List.Forall₂ R as bs) {n : Nat} {a : α} (ha : as[n]? = some a) :
    ∃ b, bs[n]? = some b ∧ R a b := by
  induction h generalizing n with
  | nil => simp at ha
  | @cons _ b _ _ hab _ ih =>
    cases n with
    | zero =>
      cases ha
      exact ⟨b, rfl, hab⟩
    | succ n => exact ih ha

namespace Tree

variable {tree : Tree} {id c s operand : Nat} {p : Phrase}

lemma Shows.text_eq (h : tree.Shows id p) :
    (tree.node id).text = match p with
      | .leaf token => token.text
      | .node _ _ => "" := by
  obtain ⟨base, parent, hlies, rfl⟩ := h
  rw [hlies.node_eq]
  cases p <;> rfl

lemma Shows.eq_of_single (h : tree.Shows id p) (hchildren : tree.children id = [c]) :
    ∃ q, p = .node (tree.kind id) [q] ∧ tree.Shows c q := by
  cases p with
  | leaf token => simp [h.leaf.1] at hchildren
  | node kind ps =>
    have hps := h.parts
    rw [hchildren] at hps
    obtain _ | ⟨hq, ⟨⟩⟩ := hps
    exact ⟨_, by rw [h.kind_eq, Phrase.kind_node], hq⟩

/-- What an expression with a column by itself shows. -/
lemma Shows.eq_of_column (h : tree.Shows s p) (hs : tree.children s = [operand])
    (hoperand : tree.children operand = [c]) (hkind : tree.kind operand = .statement)
    (hc : tree.kind c = .column) : ∃ kind parts,
      p = .node kind [.node .statement [.node .column parts]] ∧
        tree.span c = (Phrase.node .column parts).span := by
  obtain ⟨q, rfl, hq⟩ := h.eq_of_single hs
  obtain ⟨r, rfl, hr⟩ := hq.eq_of_single hoperand
  rw [hkind]
  have hrkind := hr.kind_eq.symm.trans hc
  cases r with
  | leaf token => cases hrkind
  | node kind parts =>
    cases hrkind
    exact ⟨_, parts, rfl, hr.span_eq⟩

end Tree

section Pairs

open NullGuard.Tree

variable {spans : List Span} {P P' : Phrase} {id id' : Nat}

/-- Paired nodes show a phrase and the same phrase with guards put in. -/
lemma Tree.Paired.exists_mended (hP : Mended spans P P')
    (h : Paired P.toTree P'.toTree id id') :
    ∃ p p', P.Has p ∧ P.toTree.Shows id p ∧ P'.toTree.Shows id' p' ∧ Mended spans p p' := by
  induction h with
  | root => exact ⟨P, P', .refl P, shows_toTree P, shows_toTree P', hP⟩
  | child _ hlength n hchild hchild' ih =>
    obtain ⟨p, p', hhas, hp, hp', hmended⟩ := ih
    cases hmended with
    | leaf _ => simp [hp.leaf.1] at hchild
    | node _ hparts =>
      obtain ⟨q, hq, hshows⟩ := forall₂_getElem? hp.parts hchild
      obtain ⟨q', hq', hmended⟩ := forall₂_getElem? hparts hq
      obtain ⟨r, hr, hshows'⟩ := forall₂_getElem? hp'.parts hchild'
      obtain rfl := Option.some.inj (hr.symm.trans hq')
      have hpart := hhas.trans (.part (List.mem_of_getElem? hq) (.refl q))
      exact ⟨q, r, hpart, hshows, hshows', hmended⟩
    | guard hmark _ _ _ =>
      obtain ⟨_, _, heq, _⟩ := Phrase.isMarked_iff.mp hmark
      cases heq
      rw [hp.length_children, hp'.length_children] at hlength
      cases hlength

end Pairs

namespace Phrase

variable {spans : List Span} {kind : NodeKind} {parts : List Phrase} {q' : Phrase}

/-- There are no expressions and no joins in the phrase. -/
def Plain (p : Phrase) : Prop :=
  ∀ q, p.Has q → q.kind.isBoundaryStatement = false ∧ q.kind ≠ .join

lemma plain_leaf (token : Token) : (Phrase.leaf token).Plain := by
  rintro q ⟨⟩
  exact ⟨rfl, nofun⟩

lemma Plain.node (h : ∀ p ∈ parts, p.Plain) (hkind : kind.isBoundaryStatement = false)
    (hjoin : kind ≠ .join) : (Phrase.node kind parts).Plain := by
  rintro q (_ | ⟨hp, hq⟩)
  · exact ⟨hkind, hjoin⟩
  · exact h _ hp q hq

lemma Plain.part (h : (Phrase.node kind parts).Plain) {p : Phrase} (hp : p ∈ parts) : p.Plain :=
  fun q hq => h q (.part hp hq)

/-- A column stays plain where no guard is put in. -/
lemma Mended.plain {tokens : List Token}
    (h : Mended spans (.node .statement [.node .column (tokens.map .leaf)]) q') : q'.Plain := by
  cases h with
  | guard hmark _ _ _ =>
    rw [isMarked_of_has_operand (.refl _)] at hmark
    cases hmark
  | node _ hparts =>
    obtain _ | ⟨hcolumn, ⟨⟩⟩ := hparts
    cases hcolumn with
    | guard hmark _ _ _ =>
      rw [isMarked_of_has_operand (.part List.mem_cons_self (.refl _))] at hmark
      cases hmark
    | node _ hparts =>
      refine .node (List.forall_mem_singleton.mpr (.node (fun p hp => ?_) rfl nofun)) rfl nofun
      obtain ⟨old, hold, hmended⟩ := exists_left_of_forall₂ hparts p hp
      obtain ⟨token, _, rfl⟩ := List.mem_map.mp hold
      cases hmended
      exact plain_leaf _

end Phrase

namespace Tree

/-- A call of `ISNULL` that was put in. What is in it is terminals, and expressions of the same kind
that hold something plain. -/
structure IsCall (tree : Tree) (id : NodeId) : Prop where
  guard : tree.isGuardCall id = true
  boundary : (tree.kind id).isBoundaryStatement = true
  inside : ∀ c ∈ tree.children id,
    (∃ token, tree.kind c = .terminal token ∧ tree.children c = []) ∨
      tree.kind c = tree.kind id ∧ ∀ d ∈ tree.children c, ∃ q, tree.Shows d q ∧ q.Plain

lemma Shows.isCall {tree : Tree} {id : Nat} {kind : NodeKind} {parts : List Phrase}
    {word left comma zero right : Token}
    (h : tree.Shows id (.node kind [.leaf word, .leaf left, .node kind parts, .leaf comma,
      .node kind [.node .statement [.leaf zero]], .leaf right]))
    (hword : word.kind = .keyword .isNull) (hkind : kind.isBoundaryStatement = true)
    (hparts : ∀ p ∈ parts, p.Plain) : tree.IsCall id where
  guard := by
    have hfirst := h.parts
    rw [isGuardCall, firstChild?]
    generalize tree.children id = ids at hfirst
    obtain _ | ⟨hfirst, _⟩ := hfirst
    simp [tokenKind?, hfirst.kind_eq, hword, NodeKind.token?]
  boundary := by rwa [h.kind_eq]
  inside c hc := by
    obtain ⟨p, hp, hshows⟩ := exists_right_of_forall₂ h.parts c hc
    have hleaf {token : Token} (hp : p = .leaf token) :
        ∃ token, tree.kind c = .terminal token ∧ tree.children c = [] := by
      subst hp
      exact ⟨_, hshows.kind_eq, hshows.leaf.1⟩
    have hnode {qs : List Phrase} (hp : p = .node kind qs) (hqs : ∀ q ∈ qs, q.Plain) :
        tree.kind c = tree.kind id ∧ ∀ d ∈ tree.children c, ∃ q, tree.Shows d q ∧ q.Plain := by
      subst hp
      refine ⟨hshows.kind_eq.trans h.kind_eq.symm, fun d hd => ?_⟩
      obtain ⟨q, hq, hshows⟩ := exists_right_of_forall₂ hshows.parts d hd
      exact ⟨q, hshows, hqs q hq⟩
    have hzero : ∀ q ∈ [Phrase.node .statement [.leaf zero]], q.Plain :=
      List.forall_mem_singleton.mpr
        (.node (List.forall_mem_singleton.mpr (Phrase.plain_leaf zero)) rfl (by simp))
    simp only [List.mem_cons, List.not_mem_nil, or_false] at hp
    rcases hp with hp | hp | hp | hp | hp | hp
    · exact .inl (hleaf hp)
    · exact .inl (hleaf hp)
    · exact .inr (hnode hp hparts)
    · exact .inl (hleaf hp)
    · exact .inr (hnode hp hzero)
    · exact .inl (hleaf hp)

end Tree

/-- What is in a call is not exposed. -/
lemma Tree.IsCall.not_exposed {tree : Tree} {call s c root : Nat} {region : Region}
    (hcall : tree.IsCall call) (h : tree.Shaped) (hroot : tree.kind root = region.startKind)
    (hs : s ∈ tree.children call) (hboundary : (tree.kind s).isBoundaryStatement = true)
    (hcolumn : tree.operandColumn? s = some c) : ¬ tree.Exposed region root c := by
  intro hexposed
  obtain ⟨s', below, above, hsplit, hkind, hcolumn', hguards⟩ :=
    h.mem_candidates_iff.mp ((h.mem_candidates_iff_exposed hroot).mpr hexposed)
  obtain rfl : s = s' := by
    obtain ⟨_, hancestors, _⟩ := h.of_operandColumn? hcolumn
    obtain ⟨_, hancestors', _⟩ := h.of_operandColumn? hcolumn'
    rw [hancestors] at hancestors'
    exact (List.cons.inj (List.cons.inj hancestors').2).1
  rw [h.ancestors_of_child hs] at hsplit
  cases below with
  | nil =>
    have hcallKind := hcall.boundary
    rw [(List.cons.inj hsplit).1, hroot, region.isBoundaryStatement_startKind] at hcallKind
    cases hcallKind
  | cons b below =>
    obtain rfl := (List.cons.inj hsplit).1
    have hsame : tree.kind s = tree.kind call := by
      rcases hcall.inside s hs with ⟨token, hterminal, _⟩ | ⟨hsame, _⟩
      · rw [hterminal] at hboundary
        cases hboundary
      · exact hsame
    have hguard := hguards call (by simp) (hsame.symm.trans hkind)
    rw [hcall.guard] at hguard
    cases hguard

section Call

open NullGuard.Tree

variable {spans : List Span} {P P' : Phrase} {id id' : Nat} (hP : Mended spans P P')
  (hshaped : P.toTree.Shaped) (hshaped' : P'.toTree.Shaped) (hcolumns : P.ColumnsBuilt)

include hP hshaped hcolumns

/-- A node is as it was, or it was put into a call. -/
lemma Tree.Paired.same_or_isCall (h : Paired P.toTree P'.toTree id id') :
    (∃ p, P.toTree.Shows id p ∧ p.isMarked spans = false ∧
        (P.toTree.children id).length = (P'.toTree.children id').length) ∨
      (P.toTree.kind id).isBoundaryStatement = true ∧ P'.toTree.IsCall id' := by
  obtain ⟨p, p', hhas, hp, hp', hmended⟩ := h.exists_mended hP
  cases hmended with
  | leaf _ => exact .inl ⟨_, hp, rfl, by rw [hp.leaf.1, hp'.leaf.1]⟩
  | node hmark hparts =>
    exact .inl ⟨_, hp, hmark, by rw [hp.length_children, hp'.length_children, hparts.length_eq]⟩
  | guard hmark hparts hopening _ =>
    obtain ⟨kind, cs, heq, _⟩ := Phrase.isMarked_iff.mp hmark
    cases heq
    have hkind : (P.toTree.kind id).isBoundaryStatement = true := by
      have hoperand := hp.parts
      generalize hchildren : P.toTree.children id = ids at hoperand
      obtain _ | ⟨hoperand, ⟨⟩⟩ := hoperand
      have hallows := hshaped.allows (hchildren ▸ List.mem_cons_self)
      rw [hoperand.kind_eq] at hallows
      exact NodeKind.boundary_of_allows_statement hallows
    have hcolumn := hcolumns cs (hhas.trans
      (.part List.mem_cons_self (.part List.mem_cons_self (.refl _))))
    obtain ⟨first, rest, rfl, _⟩ := builds_column hcolumn
    obtain _ | ⟨hoperand, ⟨⟩⟩ := hparts
    obtain _ | ⟨hword, _⟩ := hopening
    refine .inr ⟨hkind, hp'.isCall hword ?_ (List.forall_mem_singleton.mpr hoperand.plain)⟩
    rwa [hp.kind_eq] at hkind

include hshaped'

lemma matched_toTree : Matched P.toTree P'.toTree where
  wf := hshaped.toWellFormed
  wf' := hshaped'.toWellFormed
  kind_eq h := by
    obtain ⟨p, p', _, hp, hp', hmended⟩ := h.exists_mended hP
    rw [hp.kind_eq, hp'.kind_eq]
    cases hmended with
    | leaf hmoved => simp [hmoved.1]
    | node _ _ => rfl
    | guard _ _ _ _ => rfl
  text_eq h := by
    obtain ⟨p, p', _, hp, hp', hmended⟩ := h.exists_mended hP
    rw [hp.text_eq, hp'.text_eq]
    cases hmended with
    | leaf hmoved => exact hmoved.2
    | node _ _ => rfl
    | guard _ _ _ _ => rfl
  length_eq h hkind := by
    rcases h.same_or_isCall hP hshaped hcolumns with ⟨_, _, _, hlength⟩ | ⟨hboundary, _⟩
    · exact hlength
    · rw [hkind] at hboundary
      cases hboundary

/-- A node of the new tree is paired with an old one, in a call that was put in, or in what such a
call is about. -/
lemma paired_or_inside (hid : id' < P'.toTree.size) :
    (∃ id, Paired P.toTree P'.toTree id id') ∨
      (∃ call, P'.toTree.IsCall call ∧ id' ∈ P'.toTree.children call) ∨
      ∃ q, P'.toTree.Shows id' q ∧ q.Plain := by
  revert hid
  induction id' using hshaped'.induction_up with
  | step id' ih =>
    intro hid
    by_cases hroot : id' = P'.toTree.root
    · exact .inl ⟨P.toTree.root, by rw [hroot]; exact .root⟩
    obtain ⟨parent', hparent⟩ := Option.isSome_iff_exists.mp (hshaped'.parent_of_ne_root id' hid hroot)
    have hmem := hshaped'.child_of_parent hparent
    rcases ih parent' hparent (lt_size_of_child hmem) with ⟨parent, hpaired⟩ | ⟨call, hcall, hparent⟩ |
      ⟨q, hq, hplain⟩
    · rcases hpaired.same_or_isCall hP hshaped hcolumns with ⟨_, _, _, hlength⟩ | ⟨_, hcall⟩
      · obtain ⟨id, _, hpaired⟩ := exists_left_of_forall₂ (hpaired.children hlength) id' hmem
        exact .inl ⟨id, hpaired⟩
      · exact .inr (.inl ⟨parent', hcall, hmem⟩)
    · rcases hcall.inside parent' hparent with ⟨_, _, hnil⟩ | ⟨_, hinside⟩
      · simp [hnil] at hmem
      · exact .inr (.inr (hinside id' hmem))
    · cases q with
      | leaf token => simp [hq.leaf.1] at hmem
      | node kind parts =>
        obtain ⟨p, hp, hshows⟩ := exists_right_of_forall₂ hq.parts id' hmem
        exact .inr (.inr ⟨p, hshows, hplain.part hp⟩)

/-- All joins were there before. -/
lemma exists_paired_join {join' : Nat} (hj : P'.toTree.kind join' = .join) :
    ∃ join, Paired P.toTree P'.toTree join join' := by
  have hlt : join' < P'.toTree.size := lt_size_of_kind (by simp [hj])
  rcases paired_or_inside hP hshaped hshaped' hcolumns hlt with hpaired | ⟨call, hcall, hmem⟩ |
    ⟨q, hq, hplain⟩
  · exact hpaired
  · rcases hcall.inside join' hmem with ⟨token, hkind, _⟩ | ⟨hkind, _⟩
    · rw [hj] at hkind
      cases hkind
    · have hboundary := hcall.boundary
      rw [← hkind, hj] at hboundary
      cases hboundary
  · exact absurd (hq.kind_eq.symm.trans hj) (hplain q (.refl q)).2

/-- If all flagged columns are put into calls, then none is flagged any more. -/
theorem not_flagged_of_mended {config : Config}
    (hspans : ∀ join query c, P.toTree.kind join = .join →
      P.toTree.Nearest NodeKind.isQuery join query → P.toTree.Flagged config join query c →
      P.toTree.span c ∈ spans)
    {join' query' c' : Nat} (hj : P'.toTree.kind join' = .join)
    (hq : P'.toTree.Nearest NodeKind.isQuery join' query') :
    ¬ P'.toTree.Flagged config join' query' c' := by
  intro hflagged
  have hmatched := matched_toTree hP hshaped hshaped' hcolumns
  obtain ⟨join, hjoin⟩ := exists_paired_join hP hshaped hshaped' hcolumns hj
  obtain ⟨query, hquery, hpaired⟩ := hmatched.nearest hjoin hq
  obtain ⟨region, root', hroot, hexposed⟩ := hflagged.exposed
  obtain ⟨operand', s', hoperand, hs, hkind, hboundary⟩ := hshaped'.exists_children hexposed.kind
  have hlt : s' < P'.toTree.size := lt_size_of_child (hs ▸ List.mem_cons_self)
  rcases paired_or_inside hP hshaped hshaped' hcolumns hlt with ⟨s, hpaireds⟩ | ⟨call, hcall, hmem⟩ |
    ⟨q, hq, hplain⟩
  · rcases hpaireds.same_or_isCall hP hshaped hcolumns with ⟨p, hp, hmark, hlength⟩ | ⟨_, hcall⟩
    · -- the column was there before, and is flagged there, so it would have been put into a call
      have hpairs := hpaireds.children hlength
      rw [hs] at hpairs
      obtain ⟨operand, _, hpairedo, hnil, hsold⟩ := List.forall₂_cons_right_iff.mp hpairs
      cases hnil
      have hkindo : P.toTree.kind operand = .statement := (hmatched.kind_eq hpairedo).symm.trans hkind
      have hpairs := hpairedo.children (hmatched.length_eq hpairedo (by rw [hkindo]; rfl))
      rw [hoperand] at hpairs
      obtain ⟨c, _, hpairedc, hnil, hoold⟩ := List.forall₂_cons_right_iff.mp hpairs
      cases hnil
      have hjkind := (hmatched.kind_eq hjoin).symm.trans hj
      have hc := hmatched.flagged hjoin hjkind hpaired hquery.kind hpairedc hflagged
      obtain ⟨kind, parts, rfl, hspan⟩ := hp.eq_of_column hsold hoold hkindo
        ((hmatched.kind_eq hpairedc).symm.trans hexposed.kind)
      have hmem := hspans join query c hjkind hquery hc
      rw [Phrase.isMarked_iff.mpr ⟨kind, parts, rfl, hspan ▸ hmem⟩] at hmark
      cases hmark
    · rcases hcall.inside operand' (hs ▸ List.mem_cons_self) with ⟨_, hterminal, _⟩ | ⟨hsame, _⟩
      · rw [hkind] at hterminal
        cases hterminal
      · rw [← hsame, hkind] at hboundary
        cases hboundary
  · refine hcall.not_exposed hshaped' hroot.kind_eq hmem hboundary ?_ hexposed
    simp [operandColumn?, childOfKind?, hoperand, hs, hkind, hexposed.kind]
  · rw [hq.kind_eq, (hplain q (.refl q)).1] at hboundary
    cases hboundary

end Call

end NullGuard
