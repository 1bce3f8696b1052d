import NullGuard.Proofs.Lockstep
import NullGuard.Proofs.ReaderSoundness

namespace NullGuard

namespace Phrase.Alike

variable {R : Token → Token → Prop} {kind : NodeKind}

lemma behind {operators operators' : List Token} {p q : Phrase} (hpq : p.Alike R q)
    (h : List.Forall₂ R operators operators') :
    (Phrase.behind kind operators p).Alike R (Phrase.behind kind operators' q) := by
  induction h with
  | nil => exact hpq
  | cons hoperator _ ih => exact .node (.cons (.leaf hoperator) (.cons ih .nil))

lemma chained {pairs pairs' : List (Token × Phrase)} {p q : Phrase} (hpq : p.Alike R q)
    (h : List.Forall₂ (fun x y => R x.1 y.1 ∧ x.2.Alike R y.2) pairs pairs') :
    (Phrase.chained kind p pairs).Alike R (Phrase.chained kind q pairs') := by
  induction h generalizing p q with
  | nil => exact hpq
  | cons hpair _ ih =>
    apply ih
    exact .node (.cons hpq (.cons (.leaf hpair.1) (.cons hpair.2 .nil)))

end Phrase.Alike

lemma isEmpty_eq_of_forall₂ {α β : Type} {R : α → β → Prop} {as : List α} {bs : List β}
    (h : List.Forall₂ R as bs) : as.isEmpty = bs.isEmpty := by
  cases h <;> rfl

namespace Grammar

open Parse Pairing

variable {P : Pairing} {k : Nat} {inner inner' : Nested} {context : Context}

/-- The nested readers go in step where fewer than `k` tokens are left. -/
structure InStep (P : Pairing) (k : Nat) (inner inner' : Nested) : Prop where
  expression : ∀ context, P.Run k (inner.expression context) (inner'.expression context) P.Like
  statement : P.Run k inner.statement inner'.statement P.Like
  source : P.Run k inner.source inner'.source P.Like

lemma settles_startsSubquery : P.Settles Cursor.startsSubquery :=
  (settles_isAt rfl).and_next (· = .keyword .select) rfl (by decide)

section Expressions

lemma path_run : P.Run k path path P.LikeAll := by
  have hname : P.Step k name name P.Like :=
    require_step (settles_face (fun _ => endsStatement_of_isName) (by decide)) .name
  exact manyBehind_run rfl (one_run hname.run)

lemma subquery_step (h : InStep P k inner inner') :
    P.Step (k + 1) (subquery inner) (subquery inner') P.Like :=
  (expect_step rfl).bind fun _ _ hopening => h.statement.bind fun _ _ hstatement =>
    (expect_step rfl).run.bind fun _ _ hclosing =>
    .pure (.node (.cons hopening (.cons hstatement (.cons hclosing .nil))))

lemma column_step : P.Step (k + 1) column column P.Like :=
  (expect_step rfl).bind fun _ _ hfirst => path_run.bind fun _ _ hmore =>
    .pure (.node (.cons hfirst hmore))

lemma referencedTable_step : P.Step (k + 1) referencedTable referencedTable P.Like :=
  (expect_step rfl).bind fun _ _ hfirst => path_run.bind fun _ _ hmore =>
    .pure (.node (.cons hfirst hmore))

lemma typeSize_run {a b : Token} (h : P.alike a b) : P.Run k (typeSize a) (typeSize b) P.LikeAll := by
  have hprecision : P.Run k (manyBehind .comma (one (expectAs .number .typePrecision)))
      (manyBehind .comma (one (expectAs .number .typePrecision))) P.LikeAll :=
    manyBehind_run rfl (one_run (expectAs_step rfl _).run)
  exact (expectAs_step rfl _).run.bind fun _ _ hlength => hprecision.bind fun _ _ hmore =>
    (expect_step rfl).run.bind fun _ _ hclosing =>
    .pure (List.rel_append (.cons (.leaf h) (.cons hlength hmore)) (.cons hclosing .nil))

lemma castType_run {a b : Token} (h : P.alike a b) : P.Run k (castType a) (castType b) P.LikeAll :=
  (expectAs_step rfl _).run.bind fun _ _ hfirst => path_run.bind fun _ _ hmore =>
    (optionalLed_run (settles_isAt rfl) fun _ _ => typeSize_run).bind fun _ _ hsize =>
    .pure (List.rel_append (.cons (.leaf h) (.cons hfirst hmore)) hsize)

lemma arguments_run (h : InStep P k inner inner') :
    P.Run k (arguments inner context) (arguments inner' context) P.LikeAll := by
  apply Run.get_bind
  intro n c d hn hbeside
  apply Agree.ite ((settles_isAt rfl).iff hbeside)
  · intro _
    exact one_run (expect_step rfl).run n c d hn hbeside
  apply Agree.ite ((settles_isAt rfl).iff hbeside)
  · intro _
    exact Run.pure .nil n c d hn hbeside
  · refine ((h.expression context).bind fun _ _ hfirst =>
      (optionalLed_run (settles_isAt rfl) fun _ _ => castType_run).bind fun _ _ htype =>
      (manyBehind_run rfl (one_run (h.expression context))).bind fun _ _ hmore => ?_) n c d hn hbeside
    exact .pure (List.rel_append (.cons hfirst htype) hmore)

lemma functionCall_step (h : InStep P k inner inner') :
    P.Step (k + 1) (functionCall inner context) (functionCall inner' context) P.Like :=
  (expect_step rfl).bind fun _ _ hfunction => (expect_step rfl).run.bind fun _ _ hopening =>
    (optional_run (settles_isAt rfl)).bind fun _ _ hdistinct => (arguments_run h).bind
    fun _ _ harguments => (expect_step rfl).run.bind fun _ _ hclosing =>
    .pure (.node (List.rel_append (List.rel_append (.cons hfunction (.cons hopening hdistinct))
      harguments) (.cons hclosing .nil)))

lemma caseArm_run (h : InStep P k inner inner') :
    P.Run k (caseArm inner context) (caseArm inner' context) P.LikeAll :=
  (h.expression context).bind fun _ _ hcondition => (keyword_step .then_ rfl).run.bind fun _ _ hlink =>
    (h.expression context).bind fun _ _ hvalue =>
    .pure (.cons hcondition (.cons hlink (.cons hvalue .nil)))

lemma caseDefault_run (h : InStep P k inner inner') {a b : Token} (hword : P.alike a b) :
    P.Run k (caseDefault inner context a) (caseDefault inner' context b) P.LikeAll :=
  (h.expression context).bind fun _ _ hvalue => .pure (.cons (.leaf hword) (.cons hvalue .nil))

lemma caseExpression_step (h : InStep P k inner inner') :
    P.Step (k + 1) (caseExpression inner context) (caseExpression inner' context) P.Like :=
  (keyword_step .case rfl).bind fun _ _ hword => (keyword_step .when rfl).run.bind fun _ _ hwhen =>
    (caseArm_run h).bind fun _ _ hfirst => (manyBehind_run rfl (caseArm_run h)).bind
    fun _ _ hmore => (optionalLed_run (settles_isAt rfl) fun _ _ => caseDefault_run h).bind
    fun _ _ hotherwise => (keyword_step .end_ rfl).run.bind fun _ _ hclosing =>
    .pure (.node (List.rel_append (List.rel_append (List.rel_append
      (.cons hword (.cons hwhen hfirst)) hmore) hotherwise) (.cons hclosing .nil)))

lemma operand_step (h : InStep P k inner inner') :
    P.Step (k + 1) (operand inner context) (operand inner' context) P.Like := by
  apply Step.get_bind
  intro n c d hn hbeside
  apply Agree.ite ((settles_isAt rfl).iff hbeside)
  · intro hc
    cases n with
    | zero =>
      rw [(settles_isAt (P := P) rfl).ends c hbeside.ends.1] at hc
      cases hc
    | succ n =>
      apply Agree.ite (by simpa using hbeside.nextKind_eq (· = .lparen) rfl (by decide))
      · intro _
        exact functionCall_step h _ c d hn hbeside
      · exact column_step _ c d hn hbeside
  apply Agree.ite ((settles_isAt rfl).iff hbeside)
  · intro _
    exact caseExpression_step h n c d hn hbeside
  · exact require_step (settles_kind (fun kind => kind = .parameter || kind.isLiteral) (by decide)) _
      n c d hn hbeside

lemma guardCall_step (h : InStep P k inner inner') :
    P.Step (k + 1) (guardCall inner context) (guardCall inner' context) P.Like :=
  (keyword_step .isNull rfl).bind fun _ _ hword => (expect_step rfl).run.bind fun _ _ hopening =>
    (h.expression context).bind fun _ _ hvalue => (expect_step rfl).run.bind fun _ _ hcomma =>
    (h.expression context).bind fun _ _ hreplacement => (expect_step rfl).run.bind
    fun _ _ hclosing => .pure (.node (.cons hword (.cons hopening (.cons hvalue (.cons hcomma
      (.cons hreplacement (.cons hclosing .nil)))))))

lemma bracketed_step (h : InStep P k inner inner') :
    P.Step (k + 1) (bracketed inner context) (bracketed inner' context) P.Like :=
  (expect_step rfl).bind fun _ _ hopening => (h.expression context).bind fun _ _ hexpression =>
    (expect_step rfl).run.bind fun _ _ hclosing =>
    .pure (.node (.cons hopening (.cons hexpression (.cons hclosing .nil))))

lemma wrapped_step {operand operand' : Parse Phrase} (h : P.Step (k + 1) operand operand' P.Like) :
    P.Step (k + 1) (wrapped context operand) (wrapped context operand') P.Like :=
  h.bind fun _ _ hp => .pure (.node (.cons (.node (.cons hp .nil)) .nil))

lemma primary_step (h : InStep P k inner inner') :
    P.Step (k + 1) (primary inner context) (primary inner' context) P.Like := by
  apply Step.get_bind
  intro n c d hn hbeside
  apply Agree.ite ((settles_isAt rfl).iff hbeside)
  · intro _
    exact guardCall_step h n c d hn hbeside
  apply Agree.ite (settles_startsSubquery.iff hbeside)
  · intro _
    exact wrapped_step (subquery_step h) n c d hn hbeside
  apply Agree.ite ((settles_isAt rfl).iff hbeside)
  · intro _
    exact bracketed_step h n c d hn hbeside
  · exact wrapped_step (operand_step h) n c d hn hbeside

lemma led_step {operator : TokenKind} {operand operand' : Parse Phrase}
    (hoperator : operator.isDistinct = true) (h : P.Step (k + 1) operand operand' P.Like) :
    P.Step (k + 1) (led context operator operand) (led context operator operand') P.Like := by
  have hloop : P.Run (k + 1) (manyLed (·.isAt operator) pure) (manyLed (·.isAt operator) pure)
      (List.Forall₂ P.alike) :=
    manyLed_run (settles_isAt hoperator) fun _ _ halike => .pure halike
  exact hloop.bind_step fun _ _ hoperators =>
    h.bind fun _ _ hinmost => .pure (hinmost.behind hoperators)

lemma chain_step {isOperator : TokenKind → Bool} {operand operand' : Parse Phrase}
    (hoperator : ∀ kind, isOperator kind = true → kind.isDistinct = true)
    (h : P.Step (k + 1) operand operand' P.Like) :
    P.Step (k + 1) (chain context isOperator operand) (chain context isOperator operand') P.Like := by
  have hitem (a b) (halike : P.alike a b) : P.Run k
      (do let right ← operand; return (a, right)) (do let right ← operand'; return (b, right))
      fun x y => P.alike x.1 y.1 ∧ P.Like x.2 y.2 :=
    h.after.bind fun _ _ hright => .pure ⟨halike, hright⟩
  exact h.bind fun _ _ hfirst => (manyLed_run (settles_kind isOperator hoperator) hitem).bind
    fun _ _ hpairs => .pure (hfirst.chained hpairs)

lemma factor_step (h : InStep P k inner inner') :
    P.Step (k + 1) (factor inner context) (factor inner' context) P.Like :=
  led_step rfl (primary_step h)

lemma term_step (h : InStep P k inner inner') :
    P.Step (k + 1) (term inner context) (term inner' context) P.Like :=
  chain_step (by decide) (factor_step h)

lemma additive_step (h : InStep P k inner inner') :
    P.Step (k + 1) (additive inner context) (additive inner' context) P.Like := by
  rw [additive_eq, additive_eq]
  exact chain_step (by decide) (term_step h)

lemma inList_run (h : InStep P k inner inner') :
    P.Run k (inList inner context) (inList inner' context) P.Like := by
  apply Run.get_bind
  intro n c d hn hbeside
  apply Agree.ite (settles_startsSubquery.iff hbeside)
  · intro _
    exact (subquery_step h).after n c d hn hbeside
  · refine ((expect_step rfl).run.bind fun _ _ hopening =>
      (commaSeparated_run (one_run (h.expression context))).bind fun _ _ hitems =>
      (expect_step rfl).run.bind fun _ _ hclosing => ?_) n c d hn hbeside
    exact .pure (.node (List.rel_append (.cons hopening hitems) (.cons hclosing .nil)))

lemma membership_run (h : InStep P k inner inner') :
    P.Run k (membership inner context) (membership inner' context) P.LikeAll := by
  apply Run.get_bind
  intro n c d hn hbeside
  apply Agree.ite ((settles_isAt rfl).iff hbeside)
  · intro _
    refine ((keyword_step .in_ rfl).run.bind fun _ _ hword => (optional_run (settles_isAtWord _)).bind
      fun _ _ hhierarchy => (inList_run h).bind fun _ _ hlist => ?_) n c d hn hbeside
    exact .pure (List.rel_append (.cons hword hhierarchy) (.cons hlist .nil))
  apply Agree.ite ((settles_isAt rfl).iff hbeside)
  · intro _
    refine ((keyword_step .between rfl).run.bind fun _ _ hword => (additive_step h).after.bind
      fun _ _ hlow => (keyword_step .and rfl).run.bind fun _ _ hlink => (additive_step h).after.bind
      fun _ _ hhigh => ?_) n c d hn hbeside
    exact .pure (.cons hword (.cons hlow (.cons hlink (.cons hhigh .nil))))
  · refine ((keyword_step .like rfl).run.bind fun _ _ hword => (additive_step h).after.bind
      fun _ _ hpattern => ?_) n c d hn hbeside
    exact .pure (.cons hword (.cons hpattern .nil))

lemma test_run (h : InStep P k inner inner') :
    P.Run k (test inner context) (test inner' context) P.LikeAll := by
  apply Run.get_bind
  intro n c d hn hbeside
  apply Agree.ite (((settles_isAtWord .refs).and_next (· = .identifier) rfl (by decide)).iff hbeside)
  · intro _
    refine ((expect_step rfl).run.bind fun _ _ hword => referencedTable_step.after.bind
      fun _ _ htable => ?_) n c d hn hbeside
    exact .pure (.cons hword (.cons htable .nil))
  have hcomparison : P.Settles fun c => c.kind.isComparison :=
    settles_kind _ (by decide)
  apply Agree.ite (hcomparison.iff hbeside)
  · intro _
    refine ((require_step hcomparison _).run.bind fun _ _ hoperator => (additive_step h).after.bind
      fun _ _ hright => ?_) n c d hn hbeside
    exact .pure (.cons hoperator (.cons hright .nil))
  apply Agree.ite ((settles_isAt rfl).iff hbeside)
  · intro _
    refine ((keyword_step .is rfl).run.bind fun _ _ hword => (optional_run (settles_isAt rfl)).bind
      fun _ _ hnegation => (keyword_step .null rfl).run.bind fun _ _ hnull => ?_) n c d hn hbeside
    exact .pure (List.rel_append (.cons hword hnegation) (.cons hnull .nil))
  apply Agree.ite (((settles_isAt rfl).and_next isMembership rfl (by decide)).iff hbeside)
  · intro _
    refine ((keyword_step .not rfl).run.bind fun _ _ hnegation => (membership_run h).bind
      fun _ _ hrest => ?_) n c d hn hbeside
    exact .pure (.cons hnegation hrest)
  apply Agree.ite ((settles_kind isMembership (by decide)).iff hbeside)
  · intro _
    exact membership_run h n c d hn hbeside
  · exact Run.pure .nil n c d hn hbeside

lemma predicate_step (h : InStep P k inner inner') :
    P.Step (k + 1) (predicate inner context) (predicate inner' context) P.Like := by
  refine (additive_step h).bind fun _ _ hvalue => (test_run h).bind fun said said' hsaid => .pure ?_
  rw [isEmpty_eq_of_forall₂ hsaid]
  split
  · exact hvalue
  · exact .node (.cons hvalue hsaid)

lemma expression_step (h : InStep P k inner inner') :
    P.Step (k + 1) (expression inner context) (expression inner' context) P.Like := by
  have hnegation : P.Step (k + 1) (negation inner context) (negation inner' context) P.Like :=
    led_step rfl (predicate_step h)
  have hconjunction :
      P.Step (k + 1) (conjunction inner context) (conjunction inner' context) P.Like :=
    chain_step (by decide) hnegation
  rw [expression_eq, expression_eq]
  exact chain_step (by decide) hconjunction

end Expressions

section Statements

lemma leadToStar_of_ends {stop : Token} (h : stop.kind.endsStatement = true) (later : List Token) :
    Token.leadToStar (stop :: later) = false := by
  cases later with
  | nil => rfl
  | cons next later =>
    cases hkind : stop.kind <;> simp_all [Token.leadToStar, TokenKind.endsStatement]

lemma leadToStar_of_next_ends {stop : Token} (h : stop.kind.endsStatement = true) (dot : Token)
    (later : List Token) : Token.leadToStar (dot :: stop :: later) = false := by
  cases hkind : stop.kind <;>
    simp_all [Token.leadToStar, TokenKind.endsStatement, TokenKind.isName]

/-- Whether a path goes on to a star is told before the end of the statement. -/
lemma leadToStar_eq {stop stop' : Token} (hstop : stop.kind.endsStatement = true)
    (hstop' : stop'.kind.endsStatement = true) (later later' : List Token) {u v : List Token}
    (h : List.Forall₂ P.alike u v) :
    Token.leadToStar (u ++ stop :: later) = Token.leadToStar (v ++ stop' :: later') := by
  cases h with
  | nil =>
    rw [List.nil_append, List.nil_append, leadToStar_of_ends hstop, leadToStar_of_ends hstop']
  | cons hdot hrest =>
    cases hrest with
    | nil =>
      exact (leadToStar_of_next_ends hstop _ _).trans (leadToStar_of_next_ends hstop' _ _).symm
    | cons hnext hrest =>
      have hlater := leadToStar_eq hstop hstop' later later' hrest
      simp only [List.cons_append, Token.leadToStar, kind_iff hdot .dot rfl,
        kind_iff hnext .star rfl, test_eq hnext TokenKind.isName (by decide), hlater]

lemma settles_isAtQualifiedStar : P.Settles Cursor.isAtQualifiedStar where
  ends c hc := by
    rw [Cursor.isAtQualifiedStar, (settles_isAt (P := P) rfl).ends c hc, Bool.false_and]
  inside n c d hbeside := by
    have hkind : c.isAt .identifier = d.isAt .identifier := (settles_isAt rfl).eq hbeside
    obtain ⟨u, v, halike, hlength, hc, hd⟩ := hbeside
    cases halike with
    | nil => simp at hlength
    | cons _ hrest =>
      have hstar := leadToStar_eq P.left_ends P.right_ends P.left.following P.right.following hrest
      rw [Cursor.isAtQualifiedStar, Cursor.isAtQualifiedStar, (List.cons.inj hc.rest).2,
        (List.cons.inj hd.rest).2, hkind]
      exact congrArg _ hstar

lemma aliasClause_run : P.Run k aliasClause aliasClause P.LikeAll := by
  apply Run.get_bind
  intro n c d hn hbeside
  apply Agree.ite ((settles_isAt rfl).iff hbeside)
  · intro _
    refine ((keyword_step .as rfl).run.bind fun _ _ hword => (expectAs_step rfl _).run.bind
      fun _ _ hname => ?_) n c d hn hbeside
    exact .pure (.cons (.node (.cons hword (.cons hname .nil))) .nil)
  apply Agree.ite ((settles_isAt rfl).iff hbeside)
  · intro _
    refine ((expect_step rfl).run.bind fun _ _ hname => ?_) n c d hn hbeside
    exact .pure (.cons (.node (.cons hname .nil)) .nil)
  · exact Run.pure .nil n c d hn hbeside

lemma qualifiedStar_run : P.Run k qualifiedStar qualifiedStar P.LikeAll := by
  have hname : P.Step k name name P.Like :=
    require_step (settles_face (fun _ => endsStatement_of_isName) (by decide)) .name
  have hitem (a b) (halike : P.alike a b) : P.Run k
      (do let name ← name; return [.leaf a, name]) (do let name ← name; return [.leaf b, name])
      P.LikeAll :=
    hname.run.bind fun _ _ hname => .pure (.cons (.leaf halike) (.cons hname .nil))
  exact (expect_step rfl).run.bind fun _ _ hfirst =>
    (manyLed_run ((settles_isAt rfl).and_next (· ≠ .star) rfl (by decide)) hitem).bind fun _ _ hnames =>
    (expect_step rfl).run.bind fun _ _ hdot => (expect_step rfl).run.bind fun _ _ hstar =>
    .pure (List.rel_append (.cons hfirst (List.rel_flatten hnames)) (.cons hdot (.cons hstar .nil)))

lemma selectedField_run (h : InStep P k inner inner') :
    P.Run k (selectedField inner) (selectedField inner') P.Like := by
  apply Run.get_bind
  intro n c d hn hbeside
  apply Agree.ite ((settles_isAt rfl).iff hbeside)
  · intro _
    refine ((expect_step rfl).run.bind fun _ _ hstar => ?_) n c d hn hbeside
    exact .pure (.node (.cons hstar .nil))
  apply Agree.ite (settles_isAtQualifiedStar.iff hbeside)
  · intro _
    refine (qualifiedStar_run.bind fun _ _ hstar => ?_) n c d hn hbeside
    exact .pure (.node hstar)
  · refine ((h.expression .select).bind fun _ _ hexpression => aliasClause_run.bind
      fun _ _ hgiven => ?_) n c d hn hbeside
    exact .pure (.node (.cons hexpression hgiven))

lemma limitation_run {a b : Token} (h : P.alike a b) :
    P.Run k (limitation a) (limitation b) P.LikeAll := by
  unfold limitation
  simp only [kind_iff h (.keyword .top) rfl]
  split
  · exact (expectAs_step rfl _).run.bind fun _ _ hcount =>
      .pure (.cons (.leaf h) (.cons hcount .nil))
  · exact .pure (.cons (.leaf h) .nil)

lemma limitations_run : P.Run k limitations limitations P.LikeAll := by
  have hloop : P.Run k
      (manyLed (·.isAtAny [.keyword .allowed, .keyword .distinct, .keyword .top]) limitation)
      (manyLed (·.isAtAny [.keyword .allowed, .keyword .distinct, .keyword .top]) limitation)
      (List.Forall₂ P.LikeAll) :=
    manyLed_run (settles_isAtAny (by decide)) fun _ _ => limitation_run
  refine hloop.bind fun _ _ hitems => .pure ?_
  rw [isEmpty_eq_of_forall₂ hitems]
  split
  · exact .nil
  · exact .cons (.node (List.rel_flatten hitems)) .nil

lemma selectList_run (h : InStep P k inner inner') :
    P.Run k (selectList inner) (selectList inner') P.Like :=
  (commaSeparated_run (one_run (selectedField_run h))).bind fun _ _ hfields => .pure (.node hfields)

variable {a b : Token}

lemma temporaryTable_run (h : P.alike a b) :
    P.Run k (temporaryTable a) (temporaryTable b) P.LikeAll :=
  (expectAs_step rfl _).run.bind fun _ _ hname =>
    .pure (.cons (.node (.cons (.leaf h) (.cons hname .nil))) .nil)

lemma dataSources_run (h : InStep P k inner inner') (hword : P.alike a b) :
    P.Run k (dataSources inner a) (dataSources inner' b) P.LikeAll :=
  (commaSeparated_run (one_run h.source)).bind fun _ _ hsources =>
    .pure (.cons (.node (.cons (.leaf hword) hsources)) .nil)

lemma whereClause_run (h : InStep P k inner inner') (hword : P.alike a b) :
    P.Run k (whereClause inner a) (whereClause inner' b) P.LikeAll :=
  (h.expression .filter).bind fun _ _ hcondition => .pure (.cons (.node (.cons (.leaf hword)
    (.cons (.node (.cons hcondition .nil)) .nil))) .nil)

lemma byWord_run : P.Run k byWord byWord P.Like :=
  (require_step (settles_isAtAny (by decide)) _).run

lemma groupBy_run (h : InStep P k inner inner') (hword : P.alike a b) :
    P.Run k (groupBy inner a) (groupBy inner' b) P.LikeAll :=
  byWord_run.bind fun _ _ hlink => (commaSeparated_run (one_run (h.expression .clause))).bind
    fun _ _ hkeys => .pure (.cons (.node (.cons (.leaf hword) (.cons hlink hkeys))) .nil)

lemma having_run (h : InStep P k inner inner') (hword : P.alike a b) :
    P.Run k (having inner a) (having inner' b) P.LikeAll :=
  (h.expression .clause).bind fun _ _ hcondition =>
    .pure (.cons (.node (.cons (.leaf hword) (.cons hcondition .nil))) .nil)

lemma orderKey_run (h : InStep P k inner inner') :
    P.Run k (orderKey inner) (orderKey inner') P.LikeAll :=
  (h.expression .clause).bind fun _ _ hkey =>
    (optional_run (settles_isAtAny (by decide))).bind fun _ _ hdirection =>
    .pure (.cons hkey hdirection)

lemma orderBy_run (h : InStep P k inner inner') (hword : P.alike a b) :
    P.Run k (orderBy inner a) (orderBy inner' b) P.LikeAll :=
  byWord_run.bind fun _ _ hlink => (commaSeparated_run (orderKey_run h)).bind
    fun _ _ hkeys => .pure (.cons (.node (.cons (.leaf hword) (.cons hlink hkeys))) .nil)

lemma query_step (h : InStep P k inner inner') :
    P.Step (k + 1) (query inner) (query inner') P.Like := by
  refine (keyword_step .select rfl).bind fun _ _ hword => limitations_run.bind fun _ _ hlimits =>
    (selectList_run h).bind fun _ _ hfields =>
    (optionalLed_run (settles_isAt rfl) fun _ _ => temporaryTable_run).bind fun _ _ hinto =>
    (optionalLed_run (settles_isAt rfl) fun _ _ => dataSources_run h).bind fun _ _ hsources =>
    (optionalLed_run (settles_isAt rfl) fun _ _ => whereClause_run h).bind fun _ _ hfilter =>
    (optionalLed_run (settles_isAt rfl) fun _ _ => groupBy_run h).bind fun _ _ hgroups =>
    (optionalLed_run (settles_isAt rfl) fun _ _ => having_run h).bind fun _ _ hhaving =>
    (optionalLed_run (settles_isAt rfl) fun _ _ => orderBy_run h).bind fun _ _ horder => .pure ?_
  rw [isEmpty_eq_of_forall₂ hinto]
  have hheader := List.rel_append (List.Forall₂.cons hword hlimits) (.cons hfields hinto)
  have hrows := List.rel_append (List.rel_append hheader hsources) hfilter
  exact .node (List.rel_append (List.rel_append (List.rel_append hrows hgroups) hhaving) horder)

lemma unionMember_run (h : InStep P k inner inner') :
    P.Run k (unionMember inner) (unionMember inner') P.LikeAll :=
  (optional_run (settles_isAt rfl)).bind fun _ _ hall => (query_step h).after.bind fun _ _ hnext =>
    .pure (List.rel_append hall (.cons hnext .nil))

lemma statement_step (h : InStep P k inner inner') :
    P.Step (k + 1) (statement inner) (statement inner') P.Like := by
  refine (query_step h).bind fun _ _ hfirst => (manyBehind_run rfl (unionMember_run h)).bind
    fun _ _ hmore => .pure ?_
  rw [isEmpty_eq_of_forall₂ hmore]
  split
  · exact hfirst
  · exact .node (.cons hfirst hmore)

lemma tableArgument_run (h : InStep P k inner inner') :
    P.Run k (tableArgument inner) (tableArgument inner') P.LikeAll := by
  apply Run.get_bind
  intro n c d hn hbeside
  apply Agree.ite ((settles_isAtAny (by decide)).iff hbeside)
  · intro _
    exact Run.pure .nil n c d hn hbeside
  · exact one_run (h.expression .clause) n c d hn hbeside

lemma tableArguments_run (h : InStep P k inner inner') (hopening : P.alike a b) :
    P.Run k (tableArguments inner a) (tableArguments inner' b) P.LikeAll :=
  (commaSeparated_run (tableArgument_run h)).bind fun _ _ harguments =>
    (expectAs_step rfl _).run.bind fun _ _ hclosing =>
    .pure (List.rel_append (.cons (.leaf hopening) harguments) (.cons hclosing .nil))

lemma table_step (h : InStep P k inner inner') :
    P.Step (k + 1) (table inner) (table inner') P.Like :=
  (expect_step rfl).bind fun _ _ hfirst => path_run.bind fun _ _ hmore =>
    (optionalLed_run (settles_isAt rfl) fun _ _ => tableArguments_run h).bind fun _ _ harguments =>
    .pure (.node (List.rel_append (.cons hfirst hmore) harguments))

lemma bracketedSource_step (h : InStep P k inner inner') :
    P.Step (k + 1) (bracketedSource inner) (bracketedSource inner') P.LikeAll :=
  (expect_step rfl).bind fun _ _ hopening => h.source.bind fun _ _ hsource =>
    (expect_step rfl).run.bind fun _ _ hclosing =>
    .pure (.cons hopening (.cons hsource (.cons hclosing .nil)))

lemma one_step {item item' : Parse Phrase} (h : P.Step (k + 1) item item' P.Like) :
    P.Step (k + 1) (one item) (one item') P.LikeAll :=
  h.bind fun _ _ hp => .pure (.cons hp .nil)

lemma sourceBody_step (h : InStep P k inner inner') :
    P.Step (k + 1) (sourceBody inner) (sourceBody inner') P.LikeAll := by
  apply Step.get_bind
  intro n c d hn hbeside
  apply Agree.ite (settles_startsSubquery.iff hbeside)
  · intro _
    exact one_step (subquery_step h) n c d hn hbeside
  apply Agree.ite ((settles_isAt rfl).iff hbeside)
  · intro _
    exact bracketedSource_step h n c d hn hbeside
  apply Agree.ite ((settles_isAt rfl).iff hbeside)
  · intro _
    exact one_step (table_step h) n c d hn hbeside
  · exact one_step (expectAs_step rfl _) n c d hn hbeside

lemma joinWords_run (h : P.alike a b) : P.Run k (joinWords a) (joinWords b) P.LikeAll := by
  unfold joinWords
  simp only [kind_iff h (.keyword .join) rfl]
  split
  · exact .pure (.cons (.leaf h) .nil)
  · exact (optional_run (settles_isAt rfl)).bind fun _ _ houter => (keyword_step .join rfl).run.bind
      fun _ _ hword => .pure (List.rel_append (.cons (.leaf h) houter) (.cons hword .nil))

lemma join_run (h : InStep P k inner inner') (hfirst : P.alike a b) :
    P.Run k (join inner a) (join inner' b) P.Like :=
  (joinWords_run hfirst).bind fun _ _ hwords => h.source.bind fun _ _ hsource =>
    (keyword_step .on rfl).run.bind fun _ _ hon => (h.expression .join).bind fun _ _ hcondition =>
    .pure (.node (List.rel_append hwords (.cons hsource (.cons hon
      (.cons (.node (.cons hcondition .nil)) .nil)))))

lemma source_step (h : InStep P k inner inner') :
    P.Step (k + 1) (source inner) (source inner') P.Like :=
  (sourceBody_step h).bind fun _ _ hbody => aliasClause_run.bind fun _ _ hgiven =>
    (manyLed_run (settles_face (fun _ => endsStatement_of_startsJoin) (by decide)) fun _ _ => join_run h).bind
    fun _ _ hjoins => .pure (.node (List.rel_append (List.rel_append hbody hgiven) hjoins))

/-- Readers that are nested to any depths go in step where the tokens left bound both depths. -/
lemma nested_inStep {k m m' : Nat} (hm : k ≤ m) (hm' : k ≤ m') :
    InStep P k (nested m) (nested m') := by
  induction k generalizing m m' with
  | zero =>
    -- nowhere are fewer than no tokens left
    have hnone {x y : Parse Phrase} : P.Run 0 x y P.Like := fun n _ _ hn => absurd hn n.not_lt_zero
    exact ⟨fun _ => hnone, hnone, hnone⟩
  | succ k ih =>
    cases m with
    | zero => omega
    | succ m =>
      cases m' with
      | zero => omega
      | succ m' =>
        have hinner : InStep P k (nested m) (nested m') := ih (by omega) (by omega)
        exact
          { expression := fun _ => (expression_step hinner).run
            statement := (statement_step hinner).run
            source := (source_step hinner).run }

end Statements

end Grammar

/-- Statements are read alike wherever alike tokens lead to their ends. -/
theorem Pairing.statement_agree {P : Pairing} {n : Nat} {c d : Cursor} (h : P.Beside n c d) :
    P.Agree (n + 1) P.Like (Parse.statement c) (Parse.statement d) := by
  obtain ⟨hc, hd⟩ := h.le_following
  have hnested : Grammar.InStep P (n + 1) (Grammar.nested c.rest.length)
      (Grammar.nested d.rest.length) :=
    Grammar.nested_inStep (Nat.succ_le_succ hc) (Nat.succ_le_succ hd)
  exact hnested.statement n c d (Nat.lt_succ_self n) h

end NullGuard
