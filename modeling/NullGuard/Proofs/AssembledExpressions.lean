import NullGuard.Proofs.Assembling

namespace NullGuard

open Grammar (selects_of_kind selects_word)
open Parse (Selects selects_isAt)

namespace Cursor

variable {c : Cursor} {kind : TokenKind}

lemma inside_of_isAt (h : c.isAt kind = true) (hkind : kind.endsStatement = false) :
    c.kind.endsStatement = false := by
  rw [isAt_iff.mp h, hkind]

/-- The next token, if it is not an end, is the one that a step leads to. -/
lemma kind_advance (h : c.nextKind ≠ .eof) : c.advance.kind = c.nextKind := by
  obtain ⟨n, current, following⟩ := c
  cases following with
  | nil => exact absurd rfl h
  | cons next later => rfl

end Cursor

/-- The nested readers make the nodes of what the nested readers of the grammar read. -/
structure Assembler.Follows (asm : Assembler) (inner : Nested) : Prop where
  expression : ∀ context, Assemble.Assembles (inner.expression context) (asm.expression context)
  statement : Assemble.Assembles inner.statement asm.statement
  source : Assemble.Assembles inner.source asm.source
  sound : inner.Sound

namespace Assemble

variable {asm : Assembler} {inner : Nested} {context : Context} {c : Cursor}

lemma subquery_assembles (h : asm.Follows inner) :
    Assembles (Grammar.subquery inner) (subquery asm) := fun _ =>
  (expect_assembles rfl).bind fun _ _ => h.statement.bind fun _ _ =>
    (expect_assembles rfl).bind fun _ _ => .node _

lemma column_assembles (hc : c.isAt .identifier = true) :
    AssemblesAt c Grammar.column (dotted .column) := fun _ =>
  .bump hc (Cursor.inside_of_isAt hc rfl) fun _ => path_assembles.bind (fun _ _ _ => .node _) _

lemma referencedTable_assembles (hc : c.isAt .identifier = true) :
    AssemblesAt c Grammar.referencedTable (dotted .table) := fun _ =>
  .bump hc (Cursor.inside_of_isAt hc rfl) fun _ => path_assembles.bind (fun _ _ _ => .node _) _

lemma typeSize_assembles : AssemblesLed (·.isAt .lparen) Grammar.typeSize typeSize id :=
  .of_bump (selects_isAt rfl) fun _ _ _ _ =>
    (expectAs_assembles rfl _).bind fun _ _ =>
    (manyBehind_assembles (one_assembles (expectAs_assembles rfl _)) rfl).bind fun _ _ _ =>
    (expect_assembles rfl).bind fun _ _ => .pure

lemma castType_assembles : AssemblesLed (·.isAt (.keyword .as)) Grammar.castType castType id :=
  .of_bump (selects_isAt rfl) fun _ _ _ _ =>
    (expectAs_assembles rfl _).bind fun _ _ => path_assembles.bind fun _ _ _ =>
    (optionalLed_assembles (selects_isAt rfl) typeSize_assembles).bind fun _ _ _ => .pure

lemma arguments_assembles (h : asm.Follows inner) :
    AssemblesAll (Grammar.arguments inner context) (arguments asm context) := by
  intro b
  refine .here fun c => .ite (fun hc => ?_) fun _ => .ite (fun _ => Steps.pure c) fun _ => ?_
  · exact .bump hc (Cursor.inside_of_isAt hc rfl) fun _ => Steps.pure _
  · exact (h.expression context).bind (fun _ _ =>
      (optionalLed_assembles (selects_isAt rfl) castType_assembles).bind fun _ _ _ =>
      (manyBehind_assembles (one_assembles (h.expression context)) rfl).bind fun _ _ _ => .pure) c

lemma functionCall_assembles (h : asm.Follows inner) (hc : c.isAt .identifier = true)
    (hnext : c.nextKind = .lparen) :
    AssemblesAt c (Grammar.functionCall inner context) (functionCall asm context) := by
  have hopening : c.advance.isAt .lparen = true :=
    Cursor.isAt_iff.mpr ((Cursor.kind_advance (by simp [hnext])).trans hnext)
  exact fun _ => .bump hc (Cursor.inside_of_isAt hc rfl) fun _ =>
    .bump hopening (Cursor.inside_of_isAt hopening rfl) fun _ =>
    (optional_assembles (selects_isAt rfl)).bind (fun _ _ _ =>
    (arguments_assembles h).bind fun _ _ _ => (expect_assembles rfl).bind fun _ _ => .node _) _

lemma caseArm_assembles (h : asm.Follows inner) :
    AssemblesAll (Grammar.caseArm inner context) (caseArm asm context) := fun _ =>
  (h.expression context).bind fun _ _ => (keyword_assembles .then_).bind fun _ _ =>
    (h.expression context).bind fun _ _ => .pure

lemma caseDefault_assembles (h : asm.Follows inner) : AssemblesLed (·.isAt (.keyword .else_))
    (Grammar.caseDefault inner context) (caseDefault asm context) id :=
  .of_bump (selects_isAt rfl) fun _ _ _ _ => (h.expression context).bind fun _ _ => .pure

lemma caseExpression_assembles (h : asm.Follows inner) (hc : c.isAt (.keyword .case) = true) :
    AssemblesAt c (Grammar.caseExpression inner context) (caseExpression asm context) := fun _ =>
  .bump hc (Cursor.inside_of_isAt hc rfl) fun _ =>
    (keyword_assembles .when).bind (fun _ _ => (caseArm_assembles h).bind fun _ _ _ =>
    (manyBehind_assembles (caseArm_assembles h) rfl).bind fun _ _ _ =>
    (optionalLed_assembles (selects_isAt rfl) (caseDefault_assembles h)).bind fun _ _ _ =>
    (keyword_assembles .end_).bind fun _ _ => .node _) _

lemma operand_assembles (h : asm.Follows inner) :
    Assembles (Grammar.operand inner context) (operand asm context) := by
  intro b
  refine .here fun c => .ite (fun hc => .ite (fun hnext => ?_) fun _ => ?_) fun _ =>
    .ite (fun hc => ?_) fun _ => ?_
  · exact functionCall_assembles h hc hnext b
  · exact column_assembles hc b
  · exact caseExpression_assembles h hc b
  · intro b₁ hlaid hc
    have hmade : (if c.isAt .parameter = true then bump
        else if c.kind.isLiteral = true then bump else refuse .expression : Assemble NodeId) =
        if (c.isAt .parameter || c.kind.isLiteral) = true then bump else refuse .expression := by
      cases c.isAt .parameter <;> rfl
    rw [hmade]
    exact require_assembles Grammar.selects_value .expression b c b₁ hlaid hc

lemma guardCall_assembles (h : asm.Follows inner) (hc : c.isAt (.keyword .isNull) = true) :
    AssemblesAt c (Grammar.guardCall inner context) (guardCall asm context) := fun _ =>
  .bump hc (Cursor.inside_of_isAt hc rfl) fun _ => (expect_assembles rfl).bind (fun _ _ =>
    (h.expression context).bind fun _ _ => (expect_assembles rfl).bind fun _ _ =>
    (h.expression context).bind fun _ _ => (expect_assembles rfl).bind fun _ _ => .node _) _

lemma bracketed_assembles (h : asm.Follows inner) (hc : c.isAt .lparen = true) :
    AssemblesAt c (Grammar.bracketed inner context) (bracketed asm context) := fun _ =>
  .bump hc (Cursor.inside_of_isAt hc rfl) fun _ => (h.expression context).bind (fun _ _ =>
    (expect_assembles rfl).bind fun _ _ => .node _) _

lemma wrapped_assembles {operand : Parse Phrase} {made : Assemble NodeId}
    (h : Assembles operand made) :
    Assembles (Grammar.wrapped context operand) (wrapped context made) := fun _ =>
  h.bind fun _ _ => .wrap _ fun _ => .node _

lemma primary_assembles (h : asm.Follows inner) :
    Assembles (Grammar.primary inner context) (primary asm context) := by
  intro b
  refine .here fun c => .ite (fun hc => ?_) fun _ => .ite (fun _ => ?_) fun _ =>
    .ite (fun hc => ?_) fun _ => ?_
  · exact guardCall_assembles h hc b
  · exact wrapped_assembles (subquery_assembles h) b c
  · exact bracketed_assembles h hc b
  · exact wrapped_assembles (operand_assembles h) b c

section Operators

variable {operand : Parse Phrase} {made : Assemble NodeId} {operator : TokenKind}
  {isOperator : TokenKind → Bool}

/-- The node of an operator is made when what stands behind it is there. -/
lemma ledWithin_assembles (h : Assembles operand made) (hoperator : operator.endsStatement = false)
    (ahead : List Token) (b : Builder) (hc : c.EndsAhead) :
    Agree b b.Lays ((do
        let operators ← Parse.manyLedWithin (·.isAt operator) pure ahead
        let inmost ← operand
        return Phrase.behind context.wrapper operators inmost : Parse Phrase) c)
      (ledWithin context operator made ahead ⟨c, b⟩) := by
  induction ahead generalizing c b with
  | nil => exact (h b c b b.laysAll_nil hc).map fun _ _ _ hp => hp
  | cons token ahead ih =>
    rw [Parse.manyLedWithin, bind_assoc, ledWithin, here_bind]
    split
    case isTrue hat =>
      have hinside := Cursor.inside_of_isAt hat hoperator
      have hleaf : b.Lays (.leaf c.current) _ _ := rfl
      have hbehind := (ih _ (hc.advance hinside).2).mono hleaf.grows
      have hnode := hbehind.bind (W := b.Lays)
        (f := fun p => pure (.node context.wrapper [.leaf c.current, p]))
        (g := fun id => node context.wrapper [_, id]) fun p id d b' _ hp hd =>
          .ok ((hleaf.cons hp.all).node context.wrapper) hd
      rw [Parse.bind_of_ok (takeIf_of_inside hc hinside hat)]
      simp only [bind_assoc, pure_bind] at hnode ⊢
      exact hnode
    case isFalse hat =>
      rw [Parse.bind_of_ok (Parse.takeIf_of_not_wanted (Bool.eq_false_iff.mpr hat))]
      exact (h b c b b.laysAll_nil hc).map fun _ _ _ hp => hp

lemma led_assembles (h : Assembles operand made) (hoperator : operator.endsStatement = false) :
    Assembles (Grammar.led context operator operand) (led context operator made) := by
  intro b c b₁ hlaid hc
  obtain rfl := hlaid.eq_of_nil
  exact ledWithin_assembles h hoperator c.following b₁ hc

/-- The node of an operator is made of what stands before it, which is there, and of what stands
behind it, before the next operator is looked for. -/
lemma chainWithin_assembles (h : Assembles operand made)
    (hoperator : ∀ kind, isOperator kind = true → kind.endsStatement = false) (ahead : List Token)
    {b b₁ : Builder} {start : Phrase} {left : NodeId} (hstart : b.Lays start left b₁)
    (hc : c.EndsAhead) :
    Agree b b.Lays ((do
        let pairs ← Parse.manyLedWithin (isOperator ·.kind) (fun operator => do
          let right ← operand
          return (operator, right)) ahead
        return Phrase.chained context.wrapper start pairs : Parse Phrase) c)
      (chainWithin context isOperator made ahead left ⟨c, b₁⟩) := by
  induction ahead generalizing c b₁ start left with
  | nil => exact .ok hstart hc
  | cons token ahead ih =>
    rw [Parse.manyLedWithin, bind_assoc, chainWithin, here_bind]
    split
    case isTrue hat =>
      have hinside := hoperator _ hat
      have hleaf : b₁.Lays (.leaf c.current) _ _ := rfl
      have hadvance := (hc.advance hinside).2
      have hright := (h _ _ _ (Builder.laysAll_nil _) hadvance).mono
        (hstart.grows.trans hleaf.grows)
      rw [Parse.bind_of_ok (takeIf_of_inside hc hinside hat)]
      simp only [bind_assoc, pure_bind]
      refine hright.bind fun right id d b' _ hp hd => ?_
      exact ih ((hstart.cons (hleaf.cons hp.all)).node context.wrapper) hd
    case isFalse hat =>
      rw [Parse.bind_of_ok (Parse.takeIf_of_not_wanted (Bool.eq_false_iff.mpr hat))]
      exact .ok hstart hc

lemma chain_assembles (h : Assembles operand made)
    (hoperator : ∀ kind, isOperator kind = true → kind.endsStatement = false) :
    Assembles (Grammar.chain context isOperator operand) (chain context isOperator made) := by
  intro b c b₁ hlaid hc
  obtain rfl := hlaid.eq_of_nil
  refine (h b₁ c b₁ hlaid hc).bind fun first id d b' _ hfirst hd => ?_
  exact chainWithin_assembles h hoperator d.following hfirst hd

end Operators

lemma factor_assembles (h : asm.Follows inner) :
    Assembles (Grammar.factor inner context) (factor asm context) :=
  led_assembles (primary_assembles h) rfl

lemma term_assembles (h : asm.Follows inner) :
    Assembles (Grammar.term inner context) (term asm context) := by
  refine chain_assembles (factor_assembles h) fun kind hkind => ?_
  simp only [Bool.or_eq_true, decide_eq_true_eq] at hkind
  rcases hkind with rfl | rfl <;> rfl

lemma additive_assembles (h : asm.Follows inner) :
    Assembles (Grammar.additive inner context) (additive asm context) := by
  rw [Grammar.additive_eq]
  refine chain_assembles (term_assembles h) fun kind hkind => ?_
  simp only [Bool.or_eq_true, decide_eq_true_eq] at hkind
  rcases hkind with rfl | rfl <;> rfl

lemma inList_assembles (h : asm.Follows inner) :
    Assembles (Grammar.inList inner context) (inList asm context) := by
  intro b
  refine .here fun c => .ite (fun _ => subquery_assembles h b c) fun _ => ?_
  exact (expect_assembles rfl).bind (fun _ _ =>
    (commaSeparated_assembles (one_assembles (h.expression context))).bind fun _ _ _ =>
    (expect_assembles rfl).bind fun _ _ => .node _) c

lemma membership_assembles (h : asm.Follows inner) (hc : Grammar.isMembership c.kind = true) :
    AssemblesAllAt c (Grammar.membership inner context) (membership asm context) := by
  intro b
  refine .here (.ite (fun hin => ?_) fun hin => .ite (fun hbetween => ?_) fun hbetween => ?_)
  · exact .bump hin (Cursor.inside_of_isAt hin rfl) fun _ =>
      (optional_assembles (selects_word _)).bind (fun _ _ _ =>
      (inList_assembles h).bind fun _ _ => .pure) _
  · exact .bump hbetween (Cursor.inside_of_isAt hbetween rfl) fun _ =>
      (additive_assembles h).bind (fun _ _ => (keyword_assembles .and).bind fun _ _ =>
      (additive_assembles h).bind fun _ _ => .pure) _
  · have hlike : c.isAt (.keyword .like) = true := by
      rw [Cursor.isAt_iff] at hin hbetween ⊢
      simpa [Grammar.isMembership, hin, hbetween] using hc
    exact .bump hlike (Cursor.inside_of_isAt hlike rfl) fun _ =>
      (additive_assembles h).bind (fun _ _ => .pure) _

lemma test_assembles (h : asm.Follows inner) :
    AssemblesAll (Grammar.test inner context) (test asm context) := by
  intro b
  refine .here fun c => .ite (fun hrefs => ?_) fun _ => .ite (fun hc => ?_) fun _ =>
    .ite (fun hc => ?_) fun _ => .ite (fun hnot => ?_) fun _ => .ite (fun hc => ?_) fun _ =>
    Steps.pure c
  · simp only [Bool.and_eq_true, decide_eq_true_eq] at hrefs
    have hword : c.isAt .identifier = true := by
      have hspells := hrefs.1
      simp only [Cursor.isAtWord, Token.spells, Bool.and_eq_true] at hspells
      exact hspells.1
    have htable : c.advance.isAt .identifier = true :=
      Cursor.isAt_iff.mpr ((Cursor.kind_advance (by simp [hrefs.2])).trans hrefs.2)
    exact .bump hword (Cursor.inside_of_isAt hword rfl) fun _ =>
      (referencedTable_assembles htable).bind fun _ _ => .pure
  · exact .bump hc (Grammar.endsStatement_of_isComparison hc) fun _ =>
      (additive_assembles h).bind (fun _ _ => .pure) _
  · exact .bump hc (Cursor.inside_of_isAt hc rfl) fun _ =>
      (optional_assembles (selects_isAt rfl)).bind (fun _ _ _ =>
      (keyword_assembles .null).bind fun _ _ => .pure) _
  · rw [Bool.and_eq_true] at hnot
    have hnext : Grammar.isMembership c.advance.kind = true := by
      rw [Cursor.kind_advance]
      · exact hnot.2
      · intro heof
        rw [heof] at hnot
        cases hnot.2
    exact .bump hnot.1 (Cursor.inside_of_isAt hnot.1 rfl) fun _ =>
      (membership_assembles h hnext).bind fun _ _ _ => .pure
  · exact membership_assembles h hc b

lemma predicate_assembles (h : asm.Follows inner) :
    Assembles (Grammar.predicate inner context) (predicate asm context) := by
  refine fun b => (additive_assembles h).bind fun value id => (test_assembles h).bind
    fun said more hempty => ?_
  cases said with
  | nil =>
    obtain rfl := List.isEmpty_iff.mp hempty
    exact .single
  | cons p said =>
    cases more with
    | nil => cases hempty
    | cons first more => exact .node _

lemma negation_assembles (h : asm.Follows inner) :
    Assembles (Grammar.negation inner context) (negation asm context) :=
  led_assembles (predicate_assembles h) rfl

lemma conjunction_assembles (h : asm.Follows inner) :
    Assembles (Grammar.conjunction inner context) (conjunction asm context) :=
  chain_assembles (negation_assembles h) fun kind hkind => by
    rw [of_decide_eq_true hkind]
    rfl

lemma expression_assembles (h : asm.Follows inner) :
    Assembles (Grammar.expression inner context) (expression asm context) := by
  rw [Grammar.expression_eq]
  exact chain_assembles (conjunction_assembles h) fun kind hkind => by
    rw [of_decide_eq_true hkind]
    rfl

end Assemble

end NullGuard
