import NullGuard.Proofs.KeepingReaders
import NullGuard.Proofs.MendedPackage
import NullGuard.Proofs.PackageLockstep

/-!
# Failures are told in time

Every reader of the grammar keeps to the words of its form, whatever stands in the text: the choices
that it makes by the tokens ahead, and all that is open around it, can still be completed where it
fails. The readers of nested constructs are taken as given in `Nested.Keeps`; `nested_keeps` ties
the knot by induction on the depth. So the tokens before a failure are the beginning of a statement,
and the tokens before a missing end of a statement are a statement.
-/

namespace NullGuard

open Parse

/-- The nested readers keep to the words of the constructs. -/
structure Nested.Keeps (inner : Nested) : Prop where
  expression : ∀ context, (inner.expression context).KeepsTo (Form.expr context).words
  statement : inner.statement.KeepsTo (Form.call .statement).words
  source : inner.source.KeepsTo (Form.call .source).words

namespace Grammar

variable {inner : Nested} {context : Context}

lemma name_keeps : Parse.name.KeepsTo (Form.token (·.kind.isName)).words :=
  require_keeps (selects_of_kind fun _ => endsStatement_of_isName)
    (rfl : TokenKind.isName (Token.kind ⟨.identifier, .zero, "a"⟩) = true)

lemma path_keeps : Parse.path.KeepsTo Form.path.words := by
  refine .of_eq ?_ (manyBehind_keeps (one_keeps name_keeps) rfl)
  simp [Form.path]

lemma subquery_keeps (h : inner.Keeps) : (subquery inner).KeepsTo Form.subquery.words := by
  refine .of_eq ?_ ((expect_keeps .lparen).bind fun _ => h.statement.bind fun _ =>
    (expect_keeps .rparen).bind fun _ => .pure)
  simp [Form.subquery, mul_assoc]

lemma column_keeps : column.KeepsTo Form.column.words := by
  refine .of_eq ?_ ((expect_keeps .identifier).bind fun _ => path_keeps.bind fun _ => .pure)
  simp [Form.column]

lemma referencedTable_keeps : referencedTable.KeepsTo Form.referencedTable.words := by
  refine .of_eq ?_ ((expect_keeps .identifier).bind fun _ => path_keeps.bind fun _ => .pure)
  simp [Form.referencedTable]

/-- What is read behind a mark keeps to the words of a form that begin with the mark. -/
def KeepsBehind (reader : Token → Parse (List Phrase)) (kind : TokenKind) (form : Form) : Prop :=
  ∀ mark : Token, decide (mark.kind = kind) = true →
    (reader mark).KeepsTo (form.words.leftQuotient [mark])

lemma typeSize_keeps : KeepsBehind typeSize .lparen .typeSize := by
  intro mark hmark
  refine .behind (Form.mem_words_tok hmark) ?_ ((expectAs_keeps .number .typeLength).bind fun _ =>
    (manyBehind_keeps (one_keeps (expectAs_keeps .number .typePrecision)) rfl).bind fun _ =>
    (expect_keeps .rparen).bind fun _ => .pure)
  simp [Form.typeSize, mul_assoc]

lemma castType_keeps : KeepsBehind castType (.keyword .as) .castType := by
  intro mark hmark
  refine .behind (Form.mem_words_tok hmark) ?_ ((expectAs_keeps .identifier .typeName).bind fun _ =>
    path_keeps.bind fun _ => (optionalLed_keeps (selects_isAt rfl) typeSize_keeps).bind
    fun _ => .pure)
  simp [Form.castType, Form.word, mul_assoc]

lemma arguments_keeps (h : inner.Keeps) :
    (arguments inner context).KeepsTo (Form.arguments context).words := by
  rw [Form.arguments, Form.words_or, Form.words_or, Form.words_empty]
  refine .get_bind fun c => .ite (.inl (.inl (one_keeps (expect_keeps .star)))) (.ite
    (.inl (.inr .pure)) (.inr ?_))
  refine .of_eq ?_ ((h.expression context).bind fun _ =>
    (optionalLed_keeps (selects_isAt rfl) castType_keeps).bind fun _ =>
    (manyBehind_keeps (one_keeps (h.expression context)) rfl).bind fun _ => .pure)
  simp [mul_assoc]

lemma functionCall_keeps (h : inner.Keeps) :
    (functionCall inner context).KeepsTo (Form.functionCall context).words := by
  refine .of_eq ?_ ((expect_keeps .identifier).bind fun _ => (expect_keeps .lparen).bind fun _ =>
    (optional_keeps (selects_isAt rfl)).bind fun _ => (arguments_keeps h).bind fun _ =>
    (expect_keeps .rparen).bind fun _ => .pure)
  simp [Form.functionCall, Form.word, Form.tok, mul_assoc]

lemma caseArm_keeps (h : inner.Keeps) : (caseArm inner context).KeepsTo
    (Form.expr context ++ .word .then_ ++ .expr context).words := by
  refine .of_eq ?_ ((h.expression context).bind fun _ => (keyword_keeps .then_).bind fun _ =>
    (h.expression context).bind fun _ => .pure)
  simp [mul_assoc]

lemma caseDefault_keeps (h : inner.Keeps) : KeepsBehind (caseDefault inner context)
    (.keyword .else_) (.word .else_ ++ .expr context) := by
  intro mark hmark
  refine .behind (Form.mem_words_tok hmark) ?_ ((h.expression context).bind fun _ => .pure)
  simp [Form.word]

lemma caseExpression_keeps (h : inner.Keeps) :
    (caseExpression inner context).KeepsTo (Form.caseExpression context).words := by
  refine .of_eq ?_ ((keyword_keeps .case).bind fun _ => (keyword_keeps .when).bind fun _ =>
    (caseArm_keeps h).bind fun _ => (manyBehind_keeps (caseArm_keeps h) rfl).bind fun _ =>
    (optionalLed_keeps (selects_isAt rfl) (caseDefault_keeps h)).bind fun _ =>
    (keyword_keeps .end_).bind fun _ => .pure)
  simp [Form.caseExpression, Form.caseArm, Form.word, mul_assoc]

lemma operand_keeps (h : inner.Keeps) :
    (operand inner context).KeepsTo (Form.operand context).words := by
  have hvalue : (require (fun c => c.isAt .parameter || c.kind.isLiteral) .expression).KeepsTo
      (Form.tok .parameter ||| .token (·.kind.isLiteral)).words := by
    have hparameter : decide (Token.kind ⟨.parameter, .zero, ""⟩ = .parameter) = true := rfl
    refine (require_keeps selects_value (Bool.or_inl hparameter)).mono
      (Form.mem_words_of_token fun token htoken => ?_)
    simp only [Bool.or_eq_true] at htoken
    rcases htoken with htoken | htoken
    · exact .first (.token htoken)
    · exact .second (.token htoken)
  have hwords : (Form.operand context).words = (Form.functionCall context).words +
      (Form.column.words + ((Form.caseExpression context).words +
        (Form.tok .parameter ||| .token (·.kind.isLiteral)).words)) := by
    simp [Form.operand, add_assoc]
  rw [hwords]
  refine .get_bind fun c => .ite (.ite (.inl (functionCall_keeps h)) (.inr (.inl column_keeps)))
    (.ite (.inr (.inr (.inl (caseExpression_keeps h)))) (.inr (.inr (.inr hvalue))))

lemma guardCall_keeps (h : inner.Keeps) :
    (guardCall inner context).KeepsTo (Form.guardCall context).words := by
  refine .of_eq ?_ ((keyword_keeps .isNull).bind fun _ => (expect_keeps .lparen).bind fun _ =>
    (h.expression context).bind fun _ => (expect_keeps .comma).bind fun _ =>
    (h.expression context).bind fun _ => (expect_keeps .rparen).bind fun _ => .pure)
  simp [Form.guardCall, mul_assoc]

lemma bracketed_keeps (h : inner.Keeps) :
    (bracketed inner context).KeepsTo (Form.bracketed context).words := by
  refine .of_eq ?_ ((expect_keeps .lparen).bind fun _ => (h.expression context).bind fun _ =>
    (expect_keeps .rparen).bind fun _ => .pure)
  simp [Form.bracketed, mul_assoc]

lemma wrapped_keeps {operand : Parse Phrase} {form : Form} (h : operand.KeepsTo form.words) :
    (wrapped context operand).KeepsTo (Form.wrapped context form).words := by
  refine .of_eq ?_ (h.bind fun _ => .pure)
  simp [Form.wrapped]

lemma primary_keeps (h : inner.Keeps) :
    (primary inner context).KeepsTo (Form.primary context).words := by
  rw [Form.primary, Form.words_or, Form.words_or, Form.words_or]
  exact .get_bind fun c => .ite (.inl (.inl (.inl (guardCall_keeps h)))) (.ite
    (.inl (.inl (.inr (wrapped_keeps (subquery_keeps h))))) (.ite
    (.inl (.inr (bracketed_keeps h))) (.inr (wrapped_keeps (operand_keeps h)))))

lemma led_keeps {operator : TokenKind} {operand : Parse Phrase} {form : Form}
    (h : operand.KeepsTo form.words) (hoperator : operator.endsStatement = false) :
    (led context operator operand).KeepsTo (Form.led context.wrapper operator form).words := by
  have hloop : (manyLed (·.isAt operator) (pure : Token → Parse Token)).KeepsTo _ :=
    manyLed_keeps (selects_isAt hoperator) fun mark hmark =>
      .behind (Form.mem_words_tok hmark) (mul_one _) .pure
  refine .of_eq ?_ (hloop.bind fun _ => h.bind fun _ => .pure)
  simp

lemma chain_keeps {isOperator : TokenKind → Bool} {operand : Parse Phrase} {form : Form}
    (h : operand.KeepsTo form.words)
    (hoperator : ∀ kind, isOperator kind = true → kind.endsStatement = false) :
    (chain context isOperator operand).KeepsTo
      (Form.chain context.wrapper isOperator form).words := by
  refine .of_eq ?_ (h.bind fun _ => KeepsTo.bind (manyLed_keeps (selects_of_kind hoperator)
    fun mark hmark => .behind (Form.mem_words_token hmark) rfl (h.bind fun _ => .pure))
    fun _ => .pure)
  simp

lemma additive_keeps (h : inner.Keeps) :
    (additive inner context).KeepsTo (Form.additive context).words := by
  have hfactor : (factor inner context).KeepsTo (Form.factor context).words :=
    led_keeps (primary_keeps h) rfl
  have hterm : (term inner context).KeepsTo (Form.term context).words := by
    refine chain_keeps hfactor fun kind hkind => ?_
    simp only [Bool.or_eq_true, decide_eq_true_eq] at hkind
    rcases hkind with rfl | rfl <;> rfl
  rw [additive_eq]
  refine chain_keeps hterm fun kind hkind => ?_
  simp only [Bool.or_eq_true, decide_eq_true_eq] at hkind
  rcases hkind with rfl | rfl <;> rfl

lemma inList_keeps (h : inner.Keeps) :
    (inList inner context).KeepsTo (Form.inList context).words := by
  rw [Form.inList, Form.words_or]
  refine .get_bind fun c => .ite (.inl (subquery_keeps h)) (.inr ?_)
  refine .of_eq ?_ ((expect_keeps .lparen).bind fun _ =>
    (commaSeparated_keeps (one_keeps (h.expression context))).bind fun _ =>
    (expect_keeps .rparen).bind fun _ => .pure)
  simp [mul_assoc]

lemma membership_keeps (h : inner.Keeps) :
    (membership inner context).KeepsTo (Form.membership context).words := by
  rw [Form.membership, Form.words_or, Form.words_or]
  refine .get_bind fun c => .ite (.inl (.inl ?_)) (.ite (.inl (.inr ?_)) (.inr ?_))
  · refine .of_eq ?_ ((keyword_keeps .in_).bind fun _ =>
      (optional_keeps (selects_word .hierarchy)).bind fun _ => (inList_keeps h).bind fun _ => .pure)
    simp [mul_assoc]
  · refine .of_eq ?_ ((keyword_keeps .between).bind fun _ => (additive_keeps h).bind fun _ =>
      (keyword_keeps .and).bind fun _ => (additive_keeps h).bind fun _ => .pure)
    simp [mul_assoc]
  · refine .of_eq ?_ ((keyword_keeps .like).bind fun _ => (additive_keeps h).bind fun _ => .pure)
    simp

lemma test_keeps (h : inner.Keeps) :
    (test inner context).KeepsTo (Form.opt (Form.test context)).words := by
  rw [Form.words_opt, Form.test, Form.words_or, Form.words_or, Form.words_or]
  refine .get_bind_at fun c => ?_
  by_cases hrefs : (c.isAtWord .refs && c.nextKind = .identifier) = true
  · -- the word is taken as a name; that it spells `REFS` was seen before
    rw [if_pos hrefs]
    simp only [Bool.and_eq_true] at hrefs
    have hspells : Token.spells ⟨.identifier, .zero, "REFS"⟩ .refs = true := by decide
    have hword : (expect .identifier).KeepsToAt c (Form.token (·.spells .refs)).words :=
      require_keepsAt (fun _ => hrefs.1) hspells
    refine (hword.bind fun _ => referencedTable_keeps.bind fun _ => .pure).mono fun w hw => ?_
    rw [mul_one, ← Form.words_append] at hw
    exact .inr (.inl (.inr hw))
  rw [if_neg hrefs]
  refine KeepsTo.ite (.inr (.inl (.inl (.inl ?_)))) (.ite (.inr (.inl (.inl (.inr ?_))))
    (.ite (.inr (.inr ?_)) (.ite (.inr (.inr ?_)) (.inl .pure)))) c
  · have hcomparison : TokenKind.isComparison (Token.kind ⟨.eq, .zero, "="⟩) = true := rfl
    refine .of_eq ?_ ((require_keeps (selects_of_kind fun _ => endsStatement_of_isComparison)
      hcomparison).bind fun _ => (additive_keeps h).bind fun _ => .pure)
    simp
  · refine .of_eq ?_ ((keyword_keeps .is).bind fun _ => (optional_keeps (selects_isAt rfl)).bind
      fun _ => (keyword_keeps .null).bind fun _ => .pure)
    simp [Form.word, Form.tok, mul_assoc]
  · refine ((keyword_keeps .not).bind fun _ => (membership_keeps h).bind fun _ => .pure).mono
      fun w hw => ?_
    rw [mul_one] at hw
    rw [Form.words_append, Form.words_opt, add_mul]
    exact .inr hw
  · rw [Form.words_append, Form.words_opt, add_mul, one_mul]
    exact .inl (membership_keeps h)

lemma predicate_keeps (h : inner.Keeps) :
    (predicate inner context).KeepsTo (Form.predicate context).words := by
  refine .of_eq ?_ ((additive_keeps h).bind fun _ => (test_keeps h).bind fun _ => .pure)
  simp [Form.predicate]

lemma expression_keeps (h : inner.Keeps) :
    (expression inner context).KeepsTo (Form.expression context).words := by
  have hnegation : (negation inner context).KeepsTo (Form.negation context).words :=
    led_keeps (predicate_keeps h) rfl
  have hconjunction : (conjunction inner context).KeepsTo (Form.conjunction context).words := by
    refine chain_keeps hnegation fun kind hkind => ?_
    rw [of_decide_eq_true hkind]
    rfl
  rw [expression_eq]
  refine chain_keeps hconjunction fun kind hkind => ?_
  rw [of_decide_eq_true hkind]
  rfl

lemma aliasClause_keeps : aliasClause.KeepsTo (Form.opt Form.aliasClause).words := by
  have hwords : (Form.opt Form.aliasClause).words = 1 + ((Form.tok .identifier).words +
      (Form.word .as).words * (Form.tok .identifier).words) := by
    simp [Form.aliasClause, add_mul]
  rw [hwords]
  refine .get_bind fun c => .ite (.inr (.inr ?_)) (.ite (.inr (.inl ?_)) (.inl .pure))
  · refine .of_eq ?_ ((keyword_keeps .as).bind fun _ =>
      (expectAs_keeps .identifier .aliasName).bind fun _ => .pure)
    simp
  · exact .of_eq (mul_one _) ((expect_keeps .identifier).bind fun _ => .pure)

lemma qualifiedStar_keeps : qualifiedStar.KeepsTo
    (Form.tok .identifier ++ Form.path ++ .tok .dot ++ .tok .star).words := by
  have hloop : (manyLed (fun c => c.isAt .dot && c.nextKind ≠ .star) fun dot => do
      let name ← name
      return [Phrase.leaf dot, name]).KeepsTo Form.path.words := by
    refine .of_eq ?_ (manyLed_keeps selects_dotBeforeName fun mark hmark =>
      .behind (Form.mem_words_tok hmark) rfl (name_keeps.bind fun _ => .pure))
    simp [Form.path]
  refine .of_eq ?_ ((expect_keeps .identifier).bind fun _ => hloop.bind fun _ =>
    (expect_keeps .dot).bind fun _ => (expect_keeps .star).bind fun _ => .pure)
  simp [mul_assoc]

lemma selectedField_keeps (h : inner.Keeps) :
    (selectedField inner).KeepsTo Form.selectedField.words := by
  rw [Form.selectedField, Form.words_node, Form.words_or, Form.words_or]
  refine .get_bind fun c => .ite (.inl (.inl ?_)) (.ite (.inl (.inr ?_)) (.inr ?_))
  · exact .of_eq (mul_one _) ((expect_keeps .star).bind fun _ => .pure)
  · exact .of_eq (mul_one _) (qualifiedStar_keeps.bind fun _ => .pure)
  · refine .of_eq ?_ ((h.expression .select).bind fun _ => aliasClause_keeps.bind fun _ => .pure)
    simp

/-- A limit by its first word. -/
lemma limitation_keeps (word : Token)
    (hword : [.keyword .allowed, .keyword .distinct, .keyword .top].contains word.kind = true) :
    (limitation word).KeepsTo ((Form.word .allowed ||| .word .distinct |||
      .word .top ++ .tok .number).words.leftQuotient [word]) := by
  by_cases htop : word.kind = .keyword .top
  · simp only [limitation, htop, if_true]
    refine (KeepsTo.behind (Form.mem_words_tok (decide_eq_true htop)) rfl
      ((expectAs_keeps .number .rowCount).bind fun _ => .pure)).mono fun w hw => ?_
    rw [mul_one, ← Form.words_append] at hw
    exact .second hw
  · simp only [limitation, htop, if_false]
    refine KeepsTo.pure.mono ?_
    rintro w rfl
    simp only [List.contains_eq_mem, List.mem_cons, List.not_mem_nil, or_false, htop,
      decide_eq_true_eq] at hword
    rcases hword with hword | hword
    · exact .first (.first (.token (decide_eq_true hword)))
    · exact .first (.second (.token (decide_eq_true hword)))

lemma limitations_keeps : limitations.KeepsTo Form.limitations.words := by
  refine .of_eq ?_ (KeepsTo.bind (manyLed_keeps (selects_isAtAny (by decide)) limitation_keeps)
    fun _ => .pure)
  rw [Form.limitations, Form.words_extended, Form.words_empty, Form.words_many, one_mul, mul_one]

lemma selectList_keeps (h : inner.Keeps) : (selectList inner).KeepsTo Form.selectList.words := by
  refine .of_eq ?_ ((commaSeparated_keeps (one_keeps (selectedField_keeps h))).bind fun _ => .pure)
  simp [Form.selectList]

lemma temporaryTable_keeps : KeepsBehind temporaryTable (.keyword .into) .temporaryTable := by
  intro mark hmark
  refine .behind (Form.mem_words_tok hmark) ?_
    ((expectAs_keeps .identifier .temporaryTableName).bind fun _ => .pure)
  simp [Form.temporaryTable, Form.word]

lemma dataSources_keeps (h : inner.Keeps) :
    KeepsBehind (dataSources inner) (.keyword .from_) .dataSources := by
  intro mark hmark
  refine .behind (Form.mem_words_tok hmark) ?_
    ((commaSeparated_keeps (one_keeps h.source)).bind fun _ => .pure)
  simp [Form.dataSources, Form.word]

lemma whereClause_keeps (h : inner.Keeps) :
    KeepsBehind (whereClause inner) (.keyword .where_) .whereClause := by
  intro mark hmark
  refine .behind (Form.mem_words_tok hmark) ?_ ((h.expression .filter).bind fun _ => .pure)
  simp [Form.whereClause, Form.word]

lemma byWord_keeps : byWord.KeepsTo Form.byWord.words := by
  have hby : [TokenKind.keyword .by_, .keyword .on].contains
      (Token.kind ⟨.keyword .by_, .zero, "BY"⟩) = true := rfl
  refine (require_keeps (selects_isAtAny (by decide)) hby).mono
    (Form.mem_words_of_token fun token htoken => ?_)
  simp only [List.contains_eq_mem, List.mem_cons, List.not_mem_nil, or_false,
    decide_eq_true_eq] at htoken
  rcases htoken with htoken | htoken
  · exact .first (.token (decide_eq_true htoken))
  · exact .second (.token (decide_eq_true htoken))

lemma groupBy_keeps (h : inner.Keeps) : KeepsBehind (groupBy inner) (.keyword .group) .groupBy := by
  intro mark hmark
  refine .behind (Form.mem_words_tok hmark) ?_ (byWord_keeps.bind fun _ =>
    (commaSeparated_keeps (one_keeps (h.expression .clause))).bind fun _ => .pure)
  simp [Form.groupBy, Form.word, mul_assoc]

lemma having_keeps (h : inner.Keeps) : KeepsBehind (having inner) (.keyword .having) .having := by
  intro mark hmark
  refine .behind (Form.mem_words_tok hmark) ?_ ((h.expression .clause).bind fun _ => .pure)
  simp [Form.having, Form.word]

lemma orderKey_keeps (h : inner.Keeps) : (orderKey inner).KeepsTo Form.orderKey.words := by
  have hdirection : (optional (·.isAtAny [.keyword .asc, .keyword .desc])).KeepsTo
      (Form.opt (Form.word .asc ||| .word .desc)).words := by
    refine (optional_keeps (selects_isAtAny (by decide))).mono ?_
    rintro w (hw | hw)
    · exact .first (hw ▸ .empty)
    · refine .second (Form.mem_words_of_token (fun token htoken => ?_) w hw)
      simp only [List.contains_eq_mem, List.mem_cons, List.not_mem_nil, or_false,
        decide_eq_true_eq] at htoken
      rcases htoken with htoken | htoken
      · exact .first (.token (decide_eq_true htoken))
      · exact .second (.token (decide_eq_true htoken))
  refine .of_eq ?_ ((h.expression .clause).bind fun _ => hdirection.bind fun _ => .pure)
  simp [Form.orderKey]

lemma orderBy_keeps (h : inner.Keeps) : KeepsBehind (orderBy inner) (.keyword .order) .orderBy := by
  intro mark hmark
  refine .behind (Form.mem_words_tok hmark) ?_ (byWord_keeps.bind fun _ =>
    (commaSeparated_keeps (orderKey_keeps h)).bind fun _ => .pure)
  simp [Form.orderBy, Form.word, mul_assoc]

lemma query_keeps (h : inner.Keeps) : (query inner).KeepsTo Form.query.words := by
  refine .of_eq ?_ ((keyword_keeps .select).bind fun _ => limitations_keeps.bind fun _ =>
    (selectList_keeps h).bind fun _ =>
    (optionalLed_keeps (selects_isAt rfl) temporaryTable_keeps).bind fun _ =>
    (optionalLed_keeps (selects_isAt rfl) (dataSources_keeps h)).bind fun _ =>
    (optionalLed_keeps (selects_isAt rfl) (whereClause_keeps h)).bind fun _ =>
    (optionalLed_keeps (selects_isAt rfl) (groupBy_keeps h)).bind fun _ =>
    (optionalLed_keeps (selects_isAt rfl) (having_keeps h)).bind fun _ =>
    (optionalLed_keeps (selects_isAt rfl) (orderBy_keeps h)).bind fun _ => .pure)
  rw [add_mul, mul_add, mul_add, mul_add]
  simp [Form.query, Form.clauses, mul_assoc]

lemma unionMember_keeps (h : inner.Keeps) :
    (unionMember inner).KeepsTo (Form.opt (Form.word .all) ++ .query).words := by
  refine .of_eq ?_ ((optional_keeps (selects_isAt rfl)).bind fun _ => (query_keeps h).bind
    fun _ => .pure)
  simp [Form.word, Form.tok]

lemma statement_keeps (h : inner.Keeps) : (statement inner).KeepsTo Form.statement.words := by
  refine .of_eq ?_ ((query_keeps h).bind fun _ => (manyBehind_keeps (unionMember_keeps h) rfl).bind
    fun _ => .pure)
  simp [Form.statement, Form.unionMember, Form.word]

lemma tableArgument_keeps (h : inner.Keeps) :
    (tableArgument inner).KeepsTo (Form.opt (.expr .clause)).words := by
  rw [Form.words_opt]
  exact .get_bind fun c => .ite (.inl .pure) (.inr (one_keeps (h.expression .clause)))

lemma tableArguments_keeps (h : inner.Keeps) : KeepsBehind (tableArguments inner) .lparen
    (.tok .lparen ++ .tableArguments ++ .tok .rparen) := by
  intro mark hmark
  refine .behind (Form.mem_words_tok hmark) ?_ ((commaSeparated_keeps (tableArgument_keeps h)).bind
    fun _ => (expectAs_keeps .rparen .argumentEnd).bind fun _ => .pure)
  simp [Form.tableArguments, mul_assoc]

lemma table_keeps (h : inner.Keeps) : (table inner).KeepsTo Form.table.words := by
  refine .of_eq ?_ ((expect_keeps .identifier).bind fun _ => path_keeps.bind fun _ =>
    (optionalLed_keeps (selects_isAt rfl) (tableArguments_keeps h)).bind fun _ => .pure)
  simp [Form.table, mul_assoc]

lemma sourceBody_keeps (h : inner.Keeps) : (sourceBody inner).KeepsTo Form.sourceBody.words := by
  rw [Form.sourceBody, Form.words_or, Form.words_or, Form.words_or]
  refine .get_bind fun c => .ite (.inl (.inl (.inl (one_keeps (subquery_keeps h))))) (.ite
    (.inl (.inl (.inr ?_))) (.ite (.inr (one_keeps (table_keeps h)))
    (.inl (.inr (one_keeps (expectAs_keeps .parameter .source))))))
  refine .of_eq ?_ ((expect_keeps .lparen).bind fun _ => h.source.bind fun _ =>
    (expect_keeps .rparen).bind fun _ => .pure)
  simp [mul_assoc]

lemma joinWords_keeps {first : Token} (hfirst : first.kind.startsJoin = true) :
    (joinWords first).KeepsTo (Form.joinWords.words.leftQuotient [first]) := by
  by_cases hjoin : first.kind = .keyword .join
  · simp only [joinWords, hjoin, if_true]
    refine KeepsTo.pure.mono ?_
    rintro w rfl
    exact .first (.token (decide_eq_true hjoin))
  · simp only [joinWords, hjoin, if_false]
    have hside : [first] ∈ Form.joinSide.words := by
      simpa [Form.mem_words] using (builds_joinSide_of_startsJoin hfirst hjoin).derives
    refine (KeepsTo.behind hside rfl ((optional_keeps (selects_isAt rfl)).bind fun _ =>
      (keyword_keeps .join).bind fun _ => .pure)).mono fun w hw => ?_
    refine .second ?_
    have hwords : (Form.joinSide ++ .opt (.word .outer) ++ .word .join).words =
        Form.joinSide.words * ((1 + (Form.token fun token => token.kind = .keyword .outer).words) *
          ((Form.word .join).words * 1)) := by
      simp [Form.word, Form.tok, mul_assoc]
    rw [← Form.mem_words, hwords]
    exact hw

lemma join_keeps (h : inner.Keeps) {first : Token} (hfirst : first.kind.startsJoin = true) :
    (join inner first).KeepsTo (Form.join.words.leftQuotient [first]) := by
  refine ((joinWords_keeps hfirst).bind fun _ => h.source.bind fun _ => (keyword_keeps .on).bind
    fun _ => (h.expression .join).bind fun _ => .pure).mono fun w hw => ?_
  have hwords := mem_leftQuotient_mul hw
  simpa [Form.join, mul_assoc] using hwords

lemma source_keeps (h : inner.Keeps) : (source inner).KeepsTo Form.source.words := by
  refine .of_eq ?_ ((sourceBody_keeps h).bind fun _ => aliasClause_keeps.bind fun _ =>
    KeepsTo.bind (manyLed_keeps (selects_of_kind fun _ => endsStatement_of_startsJoin)
      fun _ hmark => join_keeps h hmark) fun _ => .pure)
  simp [Form.source, mul_assoc]

/-- Where a reader is done, its form has a word. -/
lemma exists_mem_words {reader : Parse Phrase} {form : Form} (h : reader.Makes form) (c : Cursor)
    (hdone : (reader c).toOption.isSome = true) : ∃ w, w ∈ form.words := by
  have hc := h c
  unfold MeetsAt at hc
  split at hc
  · obtain ⟨taken, _, _, rfl, hbuilds⟩ := hc
    exact ⟨_, hbuilds.derives⟩
  · simp_all [Except.toOption]

/-- The readers keep to their words at every depth. At depth zero they take nothing. -/
lemma nested_keeps (depth : Nat) : (nested depth).Keeps := by
  induction depth with
  | zero =>
    have hsound := nested_sound 2
    refine ⟨fun context => ?_, ?_, ?_⟩
    · obtain ⟨w, hw⟩ := exists_mem_words (hsound.expression context)
        (.ofTokens [⟨.identifier, .zero, "a"⟩]) (by cases context <;> rfl)
      exact .refuse hw
    · obtain ⟨w, hw⟩ := exists_mem_words hsound.statement
        (.ofTokens [⟨.keyword .select, .zero, "SELECT"⟩, ⟨.star, .zero, "*"⟩]) rfl
      exact .refuse hw
    · obtain ⟨w, hw⟩ := exists_mem_words hsound.source
        (.ofTokens [⟨.identifier, .zero, "a"⟩]) rfl
      exact .refuse hw
  | succ depth ih =>
    exact {
      expression := fun _ => (expression_keeps ih).of_eq Form.words_call.symm
      statement := (statement_keeps ih).of_eq Form.words_call.symm
      source := (source_keeps ih).of_eq Form.words_call.symm }

end Grammar

/-- What is read of a statement is a statement, or the beginning of one. -/
theorem Parse.statement_keeps : Parse.statement.KeepsTo (Form.call .statement).words := by
  intro c
  have hnested := (Grammar.nested_keeps c.rest.length).statement c
  unfold KeepsToAt at hnested ⊢
  rw [Parse.statement]
  exact hnested

/-- The tokens are read as one statement, and nothing is wrong. -/
def Token.Accepted (w : List Token) : Prop :=
  (parseTokens [] w).diagnostics = [] ∧
    ∃ tree, (parseTokens [] w).tree = some tree ∧ (tree.children tree.root).length = 1

lemma Builds.accepted {p : Phrase} (hp : Builds (.call .statement) [p]) :
    Token.Accepted p.tokens := by
  obtain ⟨hdiagnostics, htree⟩ := Parsed.ofParts_eq [] [.statement p]
  have hshows := Tree.shows_toTree (Part.package [.statement p])
  rw [Token.Accepted, parseTokens, Part.all_of_builds hp hp.tokens_plain]
  exact ⟨hdiagnostics, _, htree.trans (if_neg (by simp [Part.isStatement])),
    hshows.parts.length_eq⟩

namespace Part

/-- What goes wrong in a part goes wrong behind a statement whose end is missing, or else behind the
beginning of a statement. -/
lemma next_viable {c : Cursor} {failure : Failure} (h : (next c).1.failure? = some failure) :
    ∃ taken, c.Passes taken failure.place ∧
      (failure.expected = .statementEnd → Derives (.call .statement) taken) ∧
      (failure.expected ≠ .statementEnd →
        ∃ later, Derives (.call .statement) (taken ++ later)) := by
  have hmakes := Parse.statement_makes c
  have hkeeps := Parse.statement_keeps c
  unfold Parse.MeetsAt at hmakes
  unfold Parse.KeepsToAt at hkeeps
  unfold next at h
  cases hread : Parse.statement c with
  | ok result =>
    obtain ⟨p, after⟩ := result
    simp only [hread] at hmakes h
    obtain ⟨taken, hpass, _, rfl, hp⟩ := hmakes
    split at h
    · cases h
    · cases h
      exact ⟨p.tokens, hpass, fun _ => by simpa using hp.derives, fun hne => absurd rfl hne⟩
  | error told =>
    simp only [hread] at hmakes hkeeps h
    cases h
    obtain ⟨taken, later, hmem, hpass⟩ := hkeeps
    exact ⟨taken, hpass, fun heq => absurd heq hmakes.2, fun _ => ⟨later, hmem⟩⟩

/-- Tokens without an end of a statement are one part. -/
lemma all_of_plain {w : List Token} (h : ∀ token ∈ w, token.kind.endsStatement = false)
    (hne : w ≠ []) : all (.ofTokens w) = [(next (.ofTokens w)).1] := by
  obtain ⟨e, hpass, he⟩ := Cursor.exists_passes_end w
  rw [Token.beforeEnd_of_plain h] at hpass
  have hends : e.kind.endsStatement = true := by rw [he]; rfl
  have hinside : (Cursor.ofTokens w).kind.endsStatement = false := by
    obtain ⟨token, w, rfl⟩ := List.exists_cons_of_ne_nil hne
    rw [hpass.kind]
    exact h token (by simp)
  have hahead : ∃ token ∈ (Cursor.ofTokens w).rest, token.kind.endsStatement = true := by
    rw [hpass.rest]
    exact ⟨e.current, by simp [Cursor.rest], hends⟩
  obtain ⟨segment, _, hsegment, hsegmentInside, hstops, _⟩ := next_covers _ hahead hinside
  have hnext : (next (.ofTokens w)).2 = e :=
    (Cursor.skipStatement_eq hsegment hsegmentInside hstops).symm.trans
      (Cursor.skipStatement_eq hpass h hends)
  rw [all, Cursor.rest, allWithin_of_inside hinside, hnext, allWithin_of_eof _ he]

end Part

/-- An end token is put behind tokens without an end. -/
lemma Token.exists_closed_eq {w : List Token} (h : ∀ token ∈ w, token.kind.endsStatement = false) :
    ∃ stop, closed w = w ++ [stop] := by
  unfold closed
  cases hlast : w.getLast? with
  | none => exact ⟨_, by rw [List.getLast?_eq_none_iff.mp hlast]; rfl⟩
  | some last =>
    have heof := (TokenKind.endsStatement_eq_false.mp (h last (List.mem_of_getLast? hlast))).2
    exact ⟨_, if_neg heof⟩

/-- From the first of such tokens on, what is passed is what stands before the place that it leads
to. -/
lemma Cursor.Passes.eq_take {w taken : List Token} {d : Cursor}
    (h : ∀ token ∈ w, token.kind.endsStatement = false)
    (hpass : (Cursor.ofTokens w).Passes taken d) :
    d.position ≤ w.length ∧ d.rest = (Token.closed w).drop d.position ∧
      w.take d.position = taken := by
  obtain ⟨stop, hclosed⟩ := Token.exists_closed_eq h
  have hposition : d.position = taken.length := by
    rw [hpass.position, Cursor.position_ofTokens, Nat.zero_add]
  have hrest := hpass.rest
  rw [Cursor.rest_ofTokens] at hrest
  have hlength : taken.length ≤ w.length := by
    have hlt := hpass.length_lt
    rw [Cursor.rest_ofTokens, hclosed, List.length_append, List.length_singleton] at hlt
    omega
  refine ⟨hposition ▸ hlength, ?_, ?_⟩
  · rw [hposition, hrest, List.drop_left]
  · rw [hposition, ← List.take_append_of_le_length hlength, ← hclosed, hrest, List.take_left]

/-- Nothing is told too late. Where the end of a statement is missing, the tokens before that place
are a statement; where anything else is missing, they are the beginning of one. -/
theorem parseTokens_tells_in_time (w : List Token)
    (h : ∀ token ∈ w, token.kind.endsStatement = false) :
    (parseTokens [] w).diagnostics =
        ((Part.all (.ofTokens w)).filterMap Part.failure?).map Failure.diagnostic ∧
      ∀ failure ∈ (Part.all (.ofTokens w)).filterMap Part.failure?,
        failure.place.position ≤ w.length ∧
        failure.place.rest = (Token.closed w).drop failure.place.position ∧
        failure.diagnostic.code ∈ [some "P001", some "P002", some "P003"] ∧
        (failure.diagnostic.code = some "P002" → Token.Accepted (w.take failure.place.position)) ∧
        (failure.diagnostic.code = some "P001" ∨ failure.diagnostic.code = some "P003" →
          ∃ v, (∀ token ∈ v, token.kind.endsStatement = false) ∧
            Token.Accepted (w.take failure.place.position ++ v)) := by
  refine ⟨(Parsed.ofParts_eq [] _).1, fun failure hfailure => ?_⟩
  obtain ⟨part, hpart, htold⟩ := List.mem_filterMap.mp hfailure
  have hne : w ≠ [] := by
    rintro rfl
    cases hpart
  rw [Part.all_of_plain h hne, List.mem_singleton] at hpart
  subst hpart
  obtain ⟨taken, hpass, hend, hbeginning⟩ := Part.next_viable htold
  obtain ⟨hposition, hrest, htake⟩ := hpass.eq_take h
  have hcode : failure.diagnostic.code = some failure.expected.code := rfl
  rw [hcode, htake]
  refine ⟨hposition, hrest, ?_, fun hmissing => ?_, fun hmissing => ?_⟩
  · cases failure.expected <;> simp [Expected.code]
  · have hexpected : failure.expected = .statementEnd := by
      by_contra hother
      rcases Expected.code_of_ne_statementEnd hother with hother | hother <;> simp_all
    obtain ⟨p, hp, rfl⟩ := derives_call_iff.mp (hend hexpected)
    exact hp.accepted
  · have hexpected : failure.expected ≠ .statementEnd := by
      intro hexpected
      simp [hexpected, Expected.code] at hmissing
    obtain ⟨v, hv⟩ := hbeginning hexpected
    obtain ⟨p, hp, htokens⟩ := derives_call_iff.mp hv
    refine ⟨v, fun token htoken => hp.tokens_plain token ?_, htokens ▸ hp.accepted⟩
    rw [htokens]
    exact List.mem_append_right _ htoken

/-- The tokens of `SELECT ISNULL(a, FROM`, with a value missing behind the comma. -/
def openGuardTokens : List Token :=
  [⟨.keyword .select, ⟨0, 6⟩, "SELECT"⟩, ⟨.keyword .isNull, ⟨7, 13⟩, "ISNULL"⟩,
    ⟨.lparen, ⟨13, 14⟩, "("⟩, ⟨.identifier, ⟨14, 15⟩, "a"⟩, ⟨.comma, ⟨15, 16⟩, ","⟩,
    ⟨.keyword .from_, ⟨17, 21⟩, "FROM"⟩]

theorem parseTokens_tells_in_time_openGuard :
    (∀ token ∈ openGuardTokens, token.kind.endsStatement = false) ∧
      ∃ failure ∈ (Part.all (.ofTokens openGuardTokens)).filterMap Part.failure?,
        failure.place.position = 5 ∧ failure.diagnostic.code = some "P003" ∧
        ∃ v, Token.Accepted (openGuardTokens.take 5 ++ v) := by
  have hplain : ∀ token ∈ openGuardTokens, token.kind.endsStatement = false := by decide
  have htold : ∃ failure ∈ (Part.all (.ofTokens openGuardTokens)).filterMap Part.failure?,
      failure.place.position = 5 ∧ failure.diagnostic.code = some "P003" := by decide +kernel
  obtain ⟨failure, hfailure, hposition, hcode⟩ := htold
  obtain ⟨v, _, hv⟩ :=
    ((parseTokens_tells_in_time openGuardTokens hplain).2 failure hfailure).2.2.2.2 (.inr hcode)
  rw [hposition] at hv
  exact ⟨hplain, failure, hfailure, hposition, hcode, v, hv⟩

end NullGuard
