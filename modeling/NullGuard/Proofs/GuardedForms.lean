import NullGuard.Proofs.PhraseMending

namespace NullGuard

open Phrase (Mended)

namespace Form

/-- The form does not look at where tokens stand. -/
def Placeless : Form → Prop
  | token accepts => ∀ token span, accepts { token with span := span } = accepts token
  | empty | call _ => True
  | seq first second | either first second => first.Placeless ∧ second.Placeless
  | many item => item.Placeless
  | node _ parts => parts.Placeless
  | chain _ _ operand | led _ _ operand => operand.Placeless
  | extended _ first more => first.Placeless ∧ more.Placeless

/-- Whether the parts that a form builds are never a column by itself. -/
def holdsNoColumn : Form → Bool
  | node .statement inner => inner.tops (· ≠ .column)
  | form => form.tops (· ≠ .statement)

/-- Whether no node that is made in the form is a column by itself. -/
def columnless : Form → Bool
  | token _ | empty | call _ => true
  | seq first second | either first second => first.columnless && second.columnless
  | many item => item.columnless
  | node _ parts => parts.columnless && parts.holdsNoColumn
  | chain _ _ operand | led _ _ operand => operand.columnless
  | extended _ first more => first.columnless && more.columnless &&
      first.tops (· ≠ .statement) && more.tops (· ≠ .statement)

/-- Where the form makes a column by itself, it makes a call of `ISNULL` too. -/
def Guardable : Form → Prop
  | token _ | empty | call _ => True
  | seq first second => first.Guardable ∧ second.Guardable
  | either first second => first.Guardable ∧ (second.Guardable ∨ ∃ context,
      second = wrapped context (operand context) ∧
        ∀ ps, Builds (guardCall context) ps → Builds first ps)
  | many item => item.Guardable
  | node _ parts => parts.Guardable ∧ parts.holdsNoColumn = true
  | chain _ _ operand | led _ _ operand => operand.Guardable
  | extended _ first more => first.Guardable ∧ more.Guardable ∧
      first.tops (· ≠ .statement) = true ∧ more.tops (· ≠ .statement) = true

lemma guardable_of_columnless {form : Form} (h : form.columnless = true) : form.Guardable := by
  induction form with
  | token _ | empty | call _ => trivial
  | seq first second ih ih' =>
    simp only [columnless, Bool.and_eq_true] at h
    exact ⟨ih h.1, ih' h.2⟩
  | either first second ih ih' =>
    simp only [columnless, Bool.and_eq_true] at h
    exact ⟨ih h.1, .inl (ih' h.2)⟩
  | many item ih => exact ih h
  | node kind parts ih =>
    simp only [columnless, Bool.and_eq_true] at h
    exact ⟨ih h.1, h.2⟩
  | chain kind _ operand ih | led kind _ operand ih => exact ih h
  | extended kind first more ih ih' =>
    simp only [columnless, Bool.and_eq_true] at h
    exact ⟨ih h.1.1.1, ih' h.1.1.2, h.1.2, h.2⟩

end Form

lemma Construct.guardable_form (construct : Construct) : construct.form.Guardable := by
  cases construct with
  | expression context =>
    have plain {form : Form} (h : form.columnless = true) : form.Guardable :=
      Form.guardable_of_columnless h
    have hadditive : (Form.additive context).Guardable := by
      refine ⟨⟨⟨?_, .inl ?_⟩, .inl ?_⟩, .inr ⟨context, rfl, fun _ h => .first (.first h)⟩⟩
      all_goals exact plain (by cases context <;> rfl)
    have htops : (Form.additive context).tops (· ≠ .statement) = true := by
      cases context <;> rfl
    refine ⟨hadditive, ⟨trivial, .inl ?_⟩, htops, by cases context <;> rfl⟩
    refine ⟨⟨⟨⟨trivial, hadditive⟩, .inl ?_⟩, .inl ?_⟩, .inl ⟨?_, ?_⟩⟩
    · exact plain rfl
    · exact plain rfl
    · exact plain rfl
    · exact ⟨⟨plain (by cases context <;> rfl), .inl ⟨⟨⟨trivial, hadditive⟩, trivial⟩, hadditive⟩⟩,
        .inl ⟨trivial, hadditive⟩⟩
  | statement => exact Form.guardable_of_columnless rfl
  | source => exact Form.guardable_of_columnless rfl

variable {spans : List Span} {kind : NodeKind}

lemma isMarked_of_tops {ps : List Phrase} (h : ∀ p ∈ ps, p.kind ≠ .statement) :
    (Phrase.node kind ps).isMarked spans = false := by
  refine Bool.eq_false_iff.mpr fun hmark => ?_
  obtain ⟨_, parts, heq, _⟩ := Phrase.isMarked_iff.mp hmark
  cases heq
  exact h _ List.mem_cons_self rfl

lemma Builds.isMarked_eq_false {form : Form} {ps : List Phrase} (h : Builds form ps)
    (hform : form.holdsNoColumn = true) : (Phrase.node kind ps).isMarked spans = false := by
  unfold Form.holdsNoColumn at hform
  split at hform
  case h_1 inner =>
    refine Bool.eq_false_iff.mpr fun hmark => ?_
    obtain ⟨_, parts, heq, _⟩ := Phrase.isMarked_iff.mp hmark
    cases heq
    obtain ⟨qs, hqs, heq⟩ := builds_node.mp h
    cases heq
    have := hqs.tops (by simp) hform _ List.mem_cons_self
    simp at this
  case h_2 => exact isMarked_of_tops (by simpa using h.tops (by simp) hform)

namespace Phrase

lemma Mended.chained {start : Phrase} {pairs : List (Token × Phrase)} {p' : Phrase}
    (h : Mended spans (Phrase.chained kind start pairs) p') :
    ∃ start' pairs', Mended spans start start' ∧
      List.Forall₂ (fun pair pair' : Token × Phrase => pair.1.Moved pair'.1 ∧
        Mended spans pair.2 pair'.2) pairs pairs' ∧ p' = Phrase.chained kind start' pairs' := by
  induction pairs generalizing start with
  | nil => exact ⟨p', [], h, .nil, rfl⟩
  | cons pair pairs ih =>
    obtain ⟨_, pairs', hnode, hpairs, rfl⟩ := ih h
    cases hnode with
    | node _ hparts =>
      obtain _ | ⟨hstart, _ | ⟨⟨hmoved⟩, _ | ⟨hright, ⟨⟩⟩⟩⟩ := hparts
      exact ⟨_, (_, _) :: pairs', hstart, .cons ⟨hmoved, hright⟩ hpairs, rfl⟩
    | guard hmark => cases hmark

lemma Mended.behind {operators : List Token} {inmost p' : Phrase}
    (h : Mended spans (Phrase.behind kind operators inmost) p') :
    ∃ operators' inmost', List.Forall₂ Token.Moved operators operators' ∧
      Mended spans inmost inmost' ∧ p' = Phrase.behind kind operators' inmost' := by
  induction operators generalizing p' with
  | nil => exact ⟨[], p', .nil, h, rfl⟩
  | cons operator operators ih =>
    cases h with
    | node _ hparts =>
      obtain _ | ⟨⟨hmoved⟩, _ | ⟨hrest, ⟨⟩⟩⟩ := hparts
      obtain ⟨operators', inmost', hoperators, hinmost, rfl⟩ := ih hrest
      exact ⟨_ :: operators', inmost', .cons hmoved hoperators, hinmost, rfl⟩
    | guard hmark => cases hmark

end Phrase

namespace Form

@[simp]
lemma placeless_append (a b : Form) : (a ++ b).Placeless ↔ a.Placeless ∧ b.Placeless := Iff.rfl

@[simp]
lemma placeless_or (a b : Form) : (a ||| b).Placeless ↔ a.Placeless ∧ b.Placeless := Iff.rfl

@[simp]
lemma placeless_token (accepts : Token → Bool) : (Form.token accepts).Placeless ↔
    ∀ token span, accepts { token with span := span } = accepts token := Iff.rfl

@[simp]
lemma placeless_empty : empty.Placeless := trivial

@[simp]
lemma placeless_call (construct : Construct) : (call construct).Placeless := trivial

@[simp]
lemma placeless_many (a : Form) : (many a).Placeless ↔ a.Placeless := Iff.rfl

@[simp]
lemma placeless_node (kind : NodeKind) (a : Form) : (node kind a).Placeless ↔ a.Placeless :=
  Iff.rfl

@[simp]
lemma placeless_chain (kind : NodeKind) (operator : TokenKind → Bool) (a : Form) :
    (chain kind operator a).Placeless ↔ a.Placeless := Iff.rfl

@[simp]
lemma placeless_led (kind : NodeKind) (operator : TokenKind) (a : Form) :
    (led kind operator a).Placeless ↔ a.Placeless := Iff.rfl

@[simp]
lemma placeless_extended (kind : NodeKind) (a b : Form) :
    (extended kind a b).Placeless ↔ a.Placeless ∧ b.Placeless := Iff.rfl

@[simp]
lemma placeless_tok (kind : TokenKind) : (tok kind).Placeless := fun _ _ => rfl

@[simp]
lemma placeless_path : path.Placeless := ⟨placeless_tok _, fun _ _ => rfl⟩

@[simp]
lemma placeless_subquery : subquery.Placeless := ⟨⟨placeless_tok _, trivial⟩, placeless_tok _⟩

@[simp]
lemma placeless_word (w : Keyword) : (word w).Placeless := placeless_tok _

@[simp]
lemma placeless_opt (a : Form) : (opt a).Placeless ↔ a.Placeless := by simp [opt]

@[simp]
lemma placeless_list (a : Form) : (list a).Placeless ↔ a.Placeless := by simp [list]

lemma placeless_operand (context : Context) : (operand context).Placeless := by
  simp [operand, functionCall, column, caseExpression, arguments, castType, typeSize, caseArm, expr]

lemma placeless_additive (context : Context) : (additive context).Placeless := by
  simp [additive, term, factor, primary, guardCall, wrapped, bracketed, placeless_operand, expr]

lemma placeless_test (context : Context) : (test context).Placeless := by
  simp [test, membership, inList, referencedTable, placeless_additive, expr, Token.spells]

lemma placeless_clauses {into : Form} (h : into.Placeless) : (clauses into).Placeless := by
  simp [clauses, limitations, selectList, selectedField, aliasClause, dataSources, whereClause,
    groupBy, byWord, having, orderBy, orderKey, h, expr]

end Form

lemma Construct.placeless_form (construct : Construct) : construct.form.Placeless := by
  cases construct with
  | expression context =>
    exact ⟨Form.placeless_additive context, trivial, Form.placeless_test context⟩
  | statement =>
    have hinto : Form.temporaryTable.Placeless := by simp [Form.temporaryTable]
    have hquery : Form.query.Placeless :=
      ⟨Form.placeless_clauses trivial, Form.placeless_clauses hinto⟩
    exact ⟨hquery, Form.placeless_word _, ⟨trivial, Form.placeless_word _⟩, hquery⟩
  | source =>
    simp [Construct.form, Form.source, Form.sourceBody, Form.table, Form.tableArguments, Form.join,
      Form.joinWords, Form.joinSide, Form.aliasClause, Form.expr]

section Closure

variable {form : Form} {ps ps' : List Phrase}

lemma mended_flatten {groups : List (List Phrase)}
    (h : List.Forall₂ (Mended spans) groups.flatten ps') :
    ∃ groups', List.Forall₂ (List.Forall₂ (Mended spans)) groups groups' ∧ ps' = groups'.flatten := by
  induction groups generalizing ps' with
  | nil =>
    cases h
    exact ⟨[], .nil, rfl⟩
  | cons group groups ih =>
    obtain ⟨group', _, hgroup, hrest, rfl⟩ := forall₂_append_left.mp h
    obtain ⟨groups', hgroups, rfl⟩ := ih hrest
    exact ⟨group' :: groups', .cons hgroup hgroups, rfl⟩

lemma builds_expr_of_primary {context : Context} {p : Phrase} (h : Builds (.primary context) [p]) :
    Builds (.expr context) [p] := by
  have hfactor : Builds (.factor context) [p] := .led [] p (by simp) h
  have hterm : Builds (.term context) [p] := .chain p [] hfactor (by simp) (by simp)
  have hadditive : Builds (.additive context) [p] := .chain p [] hterm (by simp) (by simp)
  have hpredicate : Builds (.predicate context) [p] := .plain hadditive (.first .empty)
  have hnegation : Builds (.negation context) [p] := .led [] p (by simp) hpredicate
  have hconjunction : Builds (.conjunction context) [p] := .chain p [] hnegation (by simp) (by simp)
  exact .call (.chain p [] hconjunction (by simp) (by simp))

/-- What a column is put into is a call of `ISNULL`. -/
lemma builds_guard {context : Context} {word left comma zero right : Token}
    (h : Builds (.wrapped context (.operand context)) [.node kind ps])
    (hopening : List.Forall₂ Item.Fits Item.opening [word, left])
    (hclosing : List.Forall₂ Item.Fits Item.closing [comma, zero, right]) :
    Builds (.guardCall context) [.node kind [.leaf word, .leaf left, .node kind ps, .leaf comma,
      .node kind [.node .statement [.leaf zero]], .leaf right]] := by
  obtain rfl : kind = context.wrapper := by
    obtain ⟨_, _, heq⟩ := builds_node.mp h
    cases heq
    rfl
  obtain _ | ⟨hword, _ | ⟨hleft, ⟨⟩⟩⟩ := hopening
  obtain _ | ⟨hcomma, _ | ⟨hzero, _ | ⟨hright, ⟨⟩⟩⟩⟩ := hclosing
  have hnumber : Builds (.operand context) [.leaf zero] :=
    .second (.token (by rw [show zero.kind = .number from hzero]; rfl))
  have hexpr := builds_expr_of_primary (.second h)
  have hdefault := builds_expr_of_primary (.second (.node (.node hnumber)))
  have htok {kind : TokenKind} {token : Token} (hkind : token.kind = kind) :
      Builds (.tok kind) [.leaf token] := builds_tok.mpr ⟨token, hkind, rfl⟩
  exact .node (((((htok hword).seq (htok hleft)).seq hexpr).seq (htok hcomma)).seq hdefault |>.seq
    (htok hright))

lemma Token.Moved.eq {token token' : Token} (h : token.Moved token') :
    token' = { token with span := token'.span } := by
  cases token'
  obtain ⟨rfl, rfl⟩ := h
  rfl

/-- What a form builds it builds too after guards are put in. A column by itself cannot be built as
such any more, but as a call. -/
lemma Builds.mended_or (h : Builds form ps) (hps : List.Forall₂ (Mended spans) ps ps') :
    (form.Placeless → form.Guardable → Builds form ps') ∧
      ∀ context, form = .wrapped context (.operand context) →
        Builds form ps' ∨ Builds (.guardCall context) ps' := by
  induction h generalizing ps' with
  | token haccepts =>
    refine ⟨fun hplace _ => ?_, nofun⟩
    obtain _ | ⟨⟨hmoved⟩, ⟨⟩⟩ := hps
    rw [hmoved.eq]
    exact .token ((hplace _ _).trans haccepts)
  | empty =>
    cases hps
    exact ⟨fun _ _ => .empty, nofun⟩
  | seq _ _ iha ihb =>
    obtain ⟨left, right, hleft, hright, rfl⟩ := forall₂_append_left.mp hps
    exact ⟨fun hplace hform => .seq ((iha hleft).1 hplace.1 hform.1)
      ((ihb hright).1 hplace.2 hform.2), nofun⟩
  | first _ ih => exact ⟨fun hplace hform => .first ((ih hps).1 hplace.1 hform.1), nofun⟩
  | second _ ih =>
    refine ⟨fun hplace hform => ?_, nofun⟩
    rcases hform.2 with hform | ⟨context, heq, hguard⟩
    · exact .second ((ih hps).1 hplace.2 hform)
    · rcases (ih hps).2 context heq with h | h
      · exact .second h
      · exact .first (hguard _ h)
  | many groups _ ih =>
    refine ⟨fun hplace hform => ?_, nofun⟩
    obtain ⟨groups', hgroups, rfl⟩ := mended_flatten hps
    refine .many groups' fun group' hgroup' => ?_
    obtain ⟨group, hgroup, hmended⟩ := exists_left_of_forall₂ hgroups group' hgroup'
    exact (ih group hgroup hmended).1 hplace hform
  | node h ih =>
    obtain _ | ⟨hp, ⟨⟩⟩ := hps
    constructor
    · intro hplace hform
      cases hp with
      | node _ hparts => exact .node ((ih hparts).1 hplace hform.1)
      | guard hmark =>
        rw [h.isMarked_eq_false hform.2] at hmark
        cases hmark
    · rintro context ⟨⟩
      have hplace : (Form.operand context).Placeless := Form.placeless_operand context
      have hform : (Form.node .statement (.operand context)).Guardable :=
        Form.guardable_of_columnless (by cases context <;> rfl)
      cases hp with
      | node _ hparts => exact .inl (.node ((ih hparts).1 hplace hform))
      | guard _ hparts hopening hclosing =>
        exact .inr (builds_guard (.node ((ih hparts).1 hplace hform)) hopening hclosing)
  | chain start pairs _ hoperator _ ihstart ihright =>
    refine ⟨fun hplace hform => ?_, nofun⟩
    obtain _ | ⟨hp, ⟨⟩⟩ := hps
    obtain ⟨start', pairs', hstart, hpairs, rfl⟩ := hp.chained
    have hpair := exists_left_of_forall₂ hpairs
    refine .chain start' pairs' ((ihstart (.cons hstart .nil)).1 hplace hform) ?_ ?_
    · intro pair' hpair'
      obtain ⟨pair, hmem, hmoved, _⟩ := hpair pair' hpair'
      rw [hmoved.1]
      exact hoperator pair hmem
    · intro pair' hpair'
      obtain ⟨pair, hmem, _, hmended⟩ := hpair pair' hpair'
      exact (ihright pair hmem (.cons hmended .nil)).1 hplace hform
  | led operators inmost hoperator _ ih =>
    refine ⟨fun hplace hform => ?_, nofun⟩
    obtain _ | ⟨hp, ⟨⟩⟩ := hps
    obtain ⟨operators', inmost', hoperators, hinmost, rfl⟩ := hp.behind
    refine .led operators' inmost' ?_ ((ih (.cons hinmost .nil)).1 hplace hform)
    intro token' htoken'
    obtain ⟨token, hmem, hmoved⟩ := exists_left_of_forall₂ hoperators token' htoken'
    rw [hmoved.1]
    exact hoperator token hmem
  | plain _ hmore ih _ =>
    exact ⟨fun hplace hform => .plain ((ih hps).1 hplace.1 hform.1) hmore, nofun⟩
  | extended h hmore hne ih ihmore =>
    refine ⟨fun hplace hform => ?_, nofun⟩
    obtain _ | ⟨hp, ⟨⟩⟩ := hps
    cases hp with
    | node _ hparts =>
      obtain ⟨left, right, hleft, hright, rfl⟩ := forall₂_append_left.mp hparts
      refine .extended ((ih hleft).1 hplace.1 hform.1) ((ihmore hright).1 hplace.2 hform.2.1) ?_
      rintro rfl
      cases hright
      exact hne rfl
    | guard hmark =>
      have hfirst := h.tops (by simp) hform.2.2.1
      have hsecond := hmore.tops (by simp) hform.2.2.2
      rw [isMarked_of_tops (by simpa using List.forall_mem_append.mpr ⟨hfirst, hsecond⟩)] at hmark
      cases hmark
  | call _ ih =>
    exact ⟨fun _ _ => .call ((ih hps).1 (Construct.placeless_form _) (Construct.guardable_form _)),
      nofun⟩

/-- A statement stays a statement of the grammar when guards are put in. -/
theorem Builds.statement_mended {p p' : Phrase} (h : Builds (.call .statement) [p])
    (hp : Mended spans p p') : Builds (.call .statement) [p'] :=
  (h.mended_or (.cons hp .nil)).1 trivial trivial

end Closure

end NullGuard
