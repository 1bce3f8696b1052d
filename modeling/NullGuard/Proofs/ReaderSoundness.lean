import NullGuard.Proofs.Readers

/-!
# Readers give what the forms build

Every reader of the grammar gives phrases that its form builds, out of exactly the tokens that it
takes, and never goes past the end of a statement. The readers of nested constructs are taken as
given in `Nested.Sound`; `nested_sound` ties the knot by induction on the depth.
-/

namespace NullGuard

open Parse

/-- The nested readers give what the forms of the constructs build. -/
structure Nested.Sound (inner : Nested) : Prop where
  expression : ∀ context, (inner.expression context).Makes (.expr context)
  statement : inner.statement.Makes (.call .statement)
  source : inner.source.Makes (.call .source)

namespace Grammar

variable {inner : Nested} {context : Context}

lemma selects_of_kind {test : TokenKind → Bool}
    (h : ∀ kind, test kind = true → kind.endsStatement = false) :
    Selects (fun c => test c.kind) (fun token => test token.kind) where
  accepts_current _ hc := hc
  inside token := h token.kind

lemma selects_word (word : ContextWord) : Selects (·.isAtWord word) (·.spells word) where
  accepts_current _ hc := hc
  inside token h := by
    simp only [Token.spells, Bool.and_eq_true, decide_eq_true_eq] at h
    rw [h.1]
    rfl

lemma endsStatement_of_isName {kind : TokenKind} (h : kind.isName = true) :
    kind.endsStatement = false := by
  cases kind <;> simp_all [TokenKind.isName, TokenKind.endsStatement]

lemma endsStatement_of_isComparison {kind : TokenKind} (h : kind.isComparison = true) :
    kind.endsStatement = false := by
  cases kind <;> simp_all [TokenKind.isComparison, TokenKind.endsStatement]

lemma endsStatement_of_isLiteral {kind : TokenKind} (h : kind.isLiteral = true) :
    kind.endsStatement = false := by
  cases kind <;> simp_all [TokenKind.isLiteral, TokenKind.endsStatement]

lemma name_makes : Parse.name.Makes (.token (·.kind.isName)) :=
  require_makes (selects_of_kind fun _ => endsStatement_of_isName) (by simp)

lemma path_makes : Parse.path.MakesAll .path := manyBehind_makes (one_makes name_makes) rfl

lemma subquery_makes (h : inner.Sound) : (subquery inner).Makes .subquery := by
  refine (expect_makes rfl).bind fun _ opening hopening => h.statement.bind
    fun _ statement hstatement => (expect_makes rfl).bind fun _ closing hclosing => .pure ⟨?_, ?_⟩
  · simp [hopening.1, hstatement.1, hclosing.1]
  · exact .node (.seq (.seq hopening.2 hstatement.2) hclosing.2)

lemma column_makes : column.Makes .column := by
  refine (expect_makes rfl).bind fun _ first hfirst => path_makes.bind fun _ more hmore =>
    .pure ⟨?_, ?_⟩
  · simp [hfirst.1, hmore.1]
  · exact .node (.seq hfirst.2 hmore.2)

lemma referencedTable_makes : referencedTable.Makes .referencedTable := by
  refine (expect_makes rfl).bind fun _ first hfirst => path_makes.bind fun _ more hmore =>
    .pure ⟨?_, ?_⟩
  · simp [hfirst.1, hmore.1]
  · exact .node (.seq hfirst.2 hmore.2)

/-- What is read behind a mark, together with the mark. -/
def BehindMark (reader : Token → Parse (List Phrase)) (kind : TokenKind) (form : Form) : Prop :=
  ∀ mark : Token, decide (mark.kind = kind) = true →
    (reader mark).Meets fun taken ps => mark :: taken = Phrase.tokensAll ps ∧ Builds form ps

lemma typeSize_makes : BehindMark typeSize .lparen .typeSize := by
  intro mark hmark
  have hprecision : (manyBehind .comma (one (expectAs .number .typePrecision))).MakesAll
      (.many (.tok .comma ++ .tok .number)) :=
    manyBehind_makes (one_makes (expectAs_makes rfl (by simp))) rfl
  refine (expectAs_makes rfl (by simp)).bind fun _ length hlength => hprecision.bind
    fun _ precision hprecision => (expect_makes rfl).bind fun _ closing hclosing => .pure ⟨?_, ?_⟩
  · simp [hlength.1, hprecision.1, hclosing.1]
  · exact .seq (.seq (.seq (.token hmark) hlength.2) hprecision.2) hclosing.2

lemma castType_makes : BehindMark castType (.keyword .as) .castType := by
  intro mark hmark
  refine (expectAs_makes rfl (by simp)).bind fun _ first hfirst => path_makes.bind
    fun _ more hmore => (optionalLed_makes (selects_isAt rfl) typeSize_makes).bind
    fun _ size hsize => .pure ⟨?_, ?_⟩
  · simp [hfirst.1, hmore.1, hsize.1]
  · exact .seq (.seq (.seq (.token hmark) hfirst.2) hmore.2) hsize.2

lemma arguments_makes (h : inner.Sound) :
    (arguments inner context).MakesAll (.arguments context) := by
  refine .get_bind fun c => .ite ?_ (.ite ?_ ?_)
  · refine (one_makes (expect_makes rfl)).mono fun _ ps hps => ⟨hps.1, .first (.first hps.2)⟩
  · exact .pure ⟨rfl, .first (.second .empty)⟩
  · refine (h.expression context).bind fun _ first hfirst =>
      (optionalLed_makes (selects_isAt rfl) castType_makes).bind fun _ type htype =>
      (manyBehind_makes (one_makes (h.expression context)) rfl).bind fun _ more hmore =>
      .pure ⟨?_, ?_⟩
    · simp [hfirst.1, htype.1, hmore.1]
    · exact .second (.seq (.seq hfirst.2 htype.2) hmore.2)

lemma functionCall_makes (h : inner.Sound) :
    (functionCall inner context).Makes (.functionCall context) := by
  refine (expect_makes rfl).bind fun _ function hfunction => (expect_makes rfl).bind
    fun _ opening hopening => (optional_makes (selects_isAt rfl)).bind fun _ distinct hdistinct =>
    (arguments_makes h).bind fun _ arguments harguments => (expect_makes rfl).bind
    fun _ closing hclosing => .pure ⟨?_, ?_⟩
  · simp [hfunction.1, hopening.1, hdistinct.1, harguments.1, hclosing.1]
  · exact .node (.seq (.seq (.seq (.seq hfunction.2 hopening.2) hdistinct.2) harguments.2)
      hclosing.2)

/-- The form of a case without its first word. -/
lemma caseArm_makes (h : inner.Sound) : (caseArm inner context).MakesAll
    (.expr context ++ .word .then_ ++ .expr context) := by
  refine (h.expression context).bind fun _ condition hcondition => (keyword_makes .then_).bind
    fun _ link hlink => (h.expression context).bind fun _ value hvalue => .pure ⟨?_, ?_⟩
  · simp [hcondition.1, hlink.1, hvalue.1]
  · exact .seq (.seq hcondition.2 hlink.2) hvalue.2

lemma caseDefault_makes (h : inner.Sound) : BehindMark (caseDefault inner context)
    (.keyword .else_) (.word .else_ ++ .expr context) := by
  intro mark hmark
  refine (h.expression context).bind fun _ value hvalue => .pure ⟨?_, ?_⟩
  · simp [hvalue.1]
  · exact .seq (.token hmark) hvalue.2

lemma caseExpression_makes (h : inner.Sound) :
    (caseExpression inner context).Makes (.caseExpression context) := by
  refine (keyword_makes .case).bind fun _ word hword => (keyword_makes .when).bind
    fun _ when_ hwhen => (caseArm_makes h).bind fun _ first hfirst =>
    (manyBehind_makes (caseArm_makes h) rfl).bind fun _ more hmore =>
    (optionalLed_makes (selects_isAt rfl) (caseDefault_makes h)).bind fun _ otherwise hotherwise =>
    (keyword_makes .end_).bind fun _ closing hclosing => .pure ⟨?_, ?_⟩
  · simp [hword.1, hwhen.1, hfirst.1, hmore.1, hotherwise.1, hclosing.1]
  · exact .node (.seq (.seq (.seq (.seq hword.2 (.seq hwhen.2 hfirst.2)) hmore.2) hotherwise.2)
      hclosing.2)

lemma selects_value : Selects (fun c => c.isAt .parameter || c.kind.isLiteral)
    (fun token => token.kind = .parameter || token.kind.isLiteral) := by
  refine ⟨fun _ hc => hc, fun token htoken => ?_⟩
  simp only [Bool.or_eq_true, decide_eq_true_eq] at htoken
  rcases htoken with htoken | htoken
  · rw [htoken]
    rfl
  · exact endsStatement_of_isLiteral htoken

lemma operand_makes (h : inner.Sound) : (operand inner context).Makes (.operand context) := by
  have hlast : (require (fun c => c.isAt .parameter || c.kind.isLiteral) .expression).Makes
      (.token fun token => token.kind = .parameter || token.kind.isLiteral) :=
    require_makes selects_value (by simp)
  refine .get_bind fun c => .ite (.ite ?_ ?_) (.ite ?_ ?_)
  · exact (functionCall_makes h).mono fun _ p hp =>
      ⟨hp.1, .first (.first (.first (.first hp.2)))⟩
  · exact column_makes.mono fun _ p hp => ⟨hp.1, .first (.first (.first (.second hp.2)))⟩
  · exact (caseExpression_makes h).mono fun _ p hp => ⟨hp.1, .first (.first (.second hp.2))⟩
  · refine hlast.mono fun _ p hp => ⟨hp.1, ?_⟩
    obtain ⟨token, htoken, hp⟩ := builds_token.mp hp.2
    rw [hp]
    simp only [Bool.or_eq_true] at htoken
    rcases htoken with htoken | htoken
    · exact .first (.second (.token htoken))
    · exact .second (.token htoken)

lemma guardCall_makes (h : inner.Sound) : (guardCall inner context).Makes (.guardCall context) := by
  refine (keyword_makes .isNull).bind fun _ word hword => (expect_makes rfl).bind
    fun _ opening hopening => (h.expression context).bind fun _ value hvalue =>
    (expect_makes rfl).bind fun _ comma hcomma => (h.expression context).bind
    fun _ replacement hreplacement => (expect_makes rfl).bind fun _ closing hclosing =>
    .pure ⟨?_, ?_⟩
  · simp [hword.1, hopening.1, hvalue.1, hcomma.1, hreplacement.1, hclosing.1]
  · exact .node (.seq (.seq (.seq (.seq (.seq hword.2 hopening.2) hvalue.2) hcomma.2)
      hreplacement.2) hclosing.2)

lemma bracketed_makes (h : inner.Sound) : (bracketed inner context).Makes (.bracketed context) := by
  refine (expect_makes rfl).bind fun _ opening hopening => (h.expression context).bind
    fun _ expression hexpression => (expect_makes rfl).bind fun _ closing hclosing => .pure ⟨?_, ?_⟩
  · simp [hopening.1, hexpression.1, hclosing.1]
  · exact .node (.seq (.seq hopening.2 hexpression.2) hclosing.2)

lemma wrapped_makes {operand : Parse Phrase} {form : Form} (h : operand.Makes form) :
    (wrapped context operand).Makes (.wrapped context form) := by
  refine h.bind fun _ p hp => .pure ⟨?_, ?_⟩
  · simp [hp.1]
  · exact .node (.node hp.2)

lemma primary_makes (h : inner.Sound) : (primary inner context).Makes (.primary context) := by
  refine .get_bind fun c => .ite ?_ (.ite ?_ (.ite ?_ ?_))
  · exact (guardCall_makes h).mono fun _ p hp => ⟨hp.1, .first (.first (.first hp.2))⟩
  · exact (wrapped_makes (subquery_makes h)).mono fun _ p hp =>
      ⟨hp.1, .first (.first (.second hp.2))⟩
  · exact (bracketed_makes h).mono fun _ p hp => ⟨hp.1, .first (.second hp.2)⟩
  · exact (wrapped_makes (operand_makes h)).mono fun _ p hp => ⟨hp.1, .second hp.2⟩

lemma led_makes {operator : TokenKind} {operand : Parse Phrase} {form : Form}
    (h : operand.Makes form) (hoperator : operator.endsStatement = false) :
    (led context operator operand).Makes (.led context.wrapper operator form) := by
  have hloop := manyLed_meets (fun token => [token]) (fun token => token.kind = operator)
    (selects_isAt hoperator) fun mark hmark => Meets.pure ⟨rfl, by simpa using hmark⟩
  refine hloop.bind fun _ operators hoperators => h.bind fun _ inmost hinmost => .pure ⟨?_, ?_⟩
  · change _ = (Phrase.behind context.wrapper operators inmost).tokens
    rw [Phrase.tokens_behind, hoperators.1, hinmost.1, List.flatMap_singleton', List.append_nil]
  · exact .led operators inmost hoperators.2 hinmost.2

lemma chain_makes {isOperator : TokenKind → Bool} {operand : Parse Phrase} {form : Form}
    (h : operand.Makes form)
    (hoperator : ∀ kind, isOperator kind = true → kind.endsStatement = false) :
    (chain context isOperator operand).Makes (.chain context.wrapper isOperator form) := by
  have hpair : ∀ mark : Token, isOperator mark.kind = true →
      Meets (do let right ← operand; return (mark, right)) fun taken pair =>
        mark :: taken = pair.1 :: pair.2.tokens ∧
          isOperator pair.1.kind = true ∧ Builds form [pair.2] := fun mark hmark =>
    h.bind fun _ right hright => .pure ⟨by simp [hright.1], hmark, hright.2⟩
  have hloop := manyLed_meets (fun pair : Token × Phrase => pair.1 :: pair.2.tokens)
    (fun pair => isOperator pair.1.kind = true ∧ Builds form [pair.2])
    (selects_of_kind hoperator) hpair
  refine h.bind fun _ first hfirst => hloop.bind fun _ pairs hpairs => .pure ⟨?_, ?_⟩
  · change _ = (Phrase.chained context.wrapper first pairs).tokens
    rw [Phrase.tokens_chained, hfirst.1, hpairs.1, List.append_nil]
  · exact builds_chain.mpr ⟨first, pairs, hfirst.2, hpairs.2, rfl⟩

def factor (inner : Nested) (context : Context) : Parse Phrase :=
  led context .minus (primary inner context)

def term (inner : Nested) (context : Context) : Parse Phrase :=
  chain context (fun kind => kind = .star || kind = .slash) (factor inner context)

lemma additive_eq : additive inner context =
    chain context (fun kind => kind = .plus || kind = .minus) (term inner context) := rfl

lemma factor_makes (h : inner.Sound) : (factor inner context).Makes (.factor context) :=
  led_makes (primary_makes h) rfl

lemma term_makes (h : inner.Sound) : (term inner context).Makes (.term context) := by
  refine chain_makes (factor_makes h) fun kind hkind => ?_
  simp only [Bool.or_eq_true, decide_eq_true_eq] at hkind
  rcases hkind with rfl | rfl <;> rfl

lemma additive_makes (h : inner.Sound) : (additive inner context).Makes (.additive context) := by
  rw [additive_eq]
  refine chain_makes (term_makes h) fun kind hkind => ?_
  simp only [Bool.or_eq_true, decide_eq_true_eq] at hkind
  rcases hkind with rfl | rfl <;> rfl

lemma inList_makes (h : inner.Sound) : (inList inner context).Makes (.inList context) := by
  refine .get_bind fun c => .ite ?_ ?_
  · exact (subquery_makes h).mono fun _ p hp => ⟨hp.1, .first hp.2⟩
  · refine (expect_makes rfl).bind fun _ opening hopening =>
      (commaSeparated_makes (one_makes (h.expression context))).bind fun _ items hitems =>
      (expect_makes rfl).bind fun _ closing hclosing => .pure ⟨?_, ?_⟩
    · simp [hopening.1, hitems.1, hclosing.1]
    · exact .second (.node (.seq (.seq hopening.2 hitems.2) hclosing.2))

lemma membership_makes (h : inner.Sound) :
    (membership inner context).MakesAll (.membership context) := by
  refine .get_bind fun c => .ite ?_ (.ite ?_ ?_)
  · refine (keyword_makes .in_).bind fun _ word hword => (optional_makes (selects_word _)).bind
      fun _ hierarchy hhierarchy => (inList_makes h).bind fun _ list hlist => .pure ⟨?_, ?_⟩
    · simp [hword.1, hhierarchy.1, hlist.1]
    · exact .first (.first (.seq (.seq hword.2 hhierarchy.2) hlist.2))
  · refine (keyword_makes .between).bind fun _ word hword => (additive_makes h).bind
      fun _ low hlow => (keyword_makes .and).bind fun _ link hlink => (additive_makes h).bind
      fun _ high hhigh => .pure ⟨?_, ?_⟩
    · simp [hword.1, hlow.1, hlink.1, hhigh.1]
    · exact .first (.second (.seq (.seq (.seq hword.2 hlow.2) hlink.2) hhigh.2))
  · refine (keyword_makes .like).bind fun _ word hword => (additive_makes h).bind
      fun _ pattern hpattern => .pure ⟨?_, ?_⟩
    · simp [hword.1, hpattern.1]
    · exact .second (.seq hword.2 hpattern.2)

lemma test_makes (h : inner.Sound) : (test inner context).MakesAll (.opt (.test context)) := by
  refine .get_bind_at fun c => ?_
  by_cases hrefs : (c.isAtWord .refs && c.nextKind = .identifier) = true
  · -- the word is taken as a name; that it spells `REFS` was seen before
    rw [if_pos hrefs]
    refine (require_meetsAt (selects_isAt rfl) (by simp) c).bind fun _ word hword =>
      referencedTable_makes.bind fun _ table htable => .pure ⟨?_, ?_⟩
    · simp [hword.1, htable.1]
    · simp only [Bool.and_eq_true] at hrefs
      rw [hword.2.1]
      exact .second (.first (.second (.seq (.token hrefs.1) htable.2)))
  rw [if_neg hrefs]
  refine Meets.ite ?_ (.ite ?_ (.ite ?_ (.ite ?_ ?_))) c
  · refine (require_makes (selects_of_kind fun _ => endsStatement_of_isComparison) (by simp)).bind
      fun _ operator hoperator => (additive_makes h).bind fun _ right hright => .pure ⟨?_, ?_⟩
    · simp [hoperator.1, hright.1]
    · exact .second (.first (.first (.first (.seq hoperator.2 hright.2))))
  · refine (keyword_makes .is).bind fun _ word hword => (optional_makes (selects_isAt rfl)).bind
      fun _ negation hnegation => (keyword_makes .null).bind fun _ null hnull => .pure ⟨?_, ?_⟩
    · simp [hword.1, hnegation.1, hnull.1]
    · exact .second (.first (.first (.second (.seq (.seq hword.2 hnegation.2) hnull.2))))
  · refine (keyword_makes .not).bind fun _ negation hnegation => (membership_makes h).bind
      fun _ rest hrest => .pure ⟨?_, ?_⟩
    · simp [hnegation.1, hrest.1]
    · exact .second (.second (.seq (.second hnegation.2) hrest.2))
  · exact (membership_makes h).mono fun _ ps hps =>
      ⟨hps.1, .second (.second (.seq (.first .empty) hps.2))⟩
  · exact .pure ⟨rfl, .first .empty⟩

lemma predicate_makes (h : inner.Sound) : (predicate inner context).Makes (.predicate context) := by
  refine (additive_makes h).bind fun _ value hvalue => (test_makes h).bind fun _ said hsaid =>
    .pure ⟨?_, ?_⟩
  · cases said <;> simp [hvalue.1, hsaid.1]
  · refine builds_extended.mpr ⟨[value], said, hvalue.2, hsaid.2, ?_⟩
    cases said <;> rfl

def negation (inner : Nested) (context : Context) : Parse Phrase :=
  led context (.keyword .not) (predicate inner context)

def conjunction (inner : Nested) (context : Context) : Parse Phrase :=
  chain context (fun kind => kind = .keyword .and) (negation inner context)

lemma expression_eq : expression inner context =
    chain context (fun kind => kind = .keyword .or) (conjunction inner context) := rfl

lemma negation_makes (h : inner.Sound) : (negation inner context).Makes (.negation context) :=
  led_makes (predicate_makes h) rfl

lemma conjunction_makes (h : inner.Sound) :
    (conjunction inner context).Makes (.conjunction context) := by
  refine chain_makes (negation_makes h) fun kind hkind => ?_
  rw [of_decide_eq_true hkind]
  rfl

lemma expression_makes (h : inner.Sound) :
    (expression inner context).Makes (.expression context) := by
  rw [expression_eq]
  refine chain_makes (conjunction_makes h) fun kind hkind => ?_
  rw [of_decide_eq_true hkind]
  rfl

lemma aliasClause_makes : aliasClause.MakesAll (.opt .aliasClause) := by
  refine .get_bind fun c => .ite ?_ (.ite ?_ ?_)
  · refine (keyword_makes .as).bind fun _ word hword => (expectAs_makes rfl (by simp)).bind
      fun _ name hname => .pure ⟨?_, ?_⟩
    · simp [hword.1, hname.1]
    · exact .second (.node (.seq (.second hword.2) hname.2))
  · refine (expect_makes rfl).bind fun _ name hname => .pure ⟨?_, ?_⟩
    · simp [hname.1]
    · exact .second (.node (.seq (.first .empty) hname.2))
  · exact .pure ⟨rfl, .first .empty⟩

lemma selects_dotBeforeName :
    Selects (fun c => c.isAt .dot && c.nextKind ≠ .star) (·.kind = .dot) := by
  refine ⟨fun c hc => ?_, (selects_isAt rfl).inside⟩
  simp only [Bool.and_eq_true] at hc
  exact hc.1

lemma qualifiedStar_makes : qualifiedStar.MakesAll
    (.tok .identifier ++ .path ++ .tok .dot ++ .tok .star) := by
  have hitem : ∀ mark : Token, decide (mark.kind = .dot) = true →
      Meets (do let name ← name; return [.leaf mark, name]) fun taken ps =>
        mark :: taken = Phrase.tokensAll ps ∧ Builds (.tok .dot ++ .token (·.kind.isName)) ps :=
    fun mark hmark => name_makes.bind fun _ name hname =>
      .pure ⟨by simp [hname.1], .seq (.token hmark) hname.2⟩
  have hloop := manyLed_meets Phrase.tokensAll (Builds (.tok .dot ++ .token (·.kind.isName)))
    selects_dotBeforeName hitem
  refine (expect_makes rfl).bind fun _ first hfirst => hloop.bind fun _ names hnames =>
    (expect_makes rfl).bind fun _ dot hdot => (expect_makes rfl).bind fun _ star hstar =>
    .pure ⟨?_, ?_⟩
  · simp [hfirst.1, hnames.1, hdot.1, hstar.1, Phrase.tokensAll_flatten]
  · have hbuilds := Builds.seq (.seq (.seq hfirst.2 (.many names hnames.2)) hdot.2) hstar.2
    rw [List.append_assoc] at hbuilds
    exact hbuilds

lemma selectedField_makes (h : inner.Sound) : (selectedField inner).Makes .selectedField := by
  refine .get_bind fun c => .ite ?_ (.ite ?_ ?_)
  · refine (expect_makes rfl).bind fun _ star hstar => .pure ⟨?_, ?_⟩
    · simp [hstar.1]
    · exact .node (.first (.first hstar.2))
  · refine qualifiedStar_makes.bind fun _ parts hparts => .pure ⟨?_, ?_⟩
    · simp [hparts.1]
    · exact .node (.first (.second hparts.2))
  · refine (h.expression .select).bind fun _ expression hexpression => aliasClause_makes.bind
      fun _ given hgiven => .pure ⟨?_, ?_⟩
    · simp [hexpression.1, hgiven.1]
    · exact .node (.second (.seq hexpression.2 hgiven.2))

/-- A choice of kinds, none of which ends a statement. -/
lemma selects_isAtAny {kinds : List TokenKind} (h : ∀ kind ∈ kinds, kind.endsStatement = false) :
    Selects (·.isAtAny kinds) (fun token => kinds.contains token.kind) :=
  selects_of_kind fun kind hkind => h kind (List.contains_iff_mem.mp hkind)

lemma limitation_makes {word : Token}
    (hword : [.keyword .allowed, .keyword .distinct, .keyword .top].contains word.kind = true) :
    (limitation word).Meets fun taken ps => word :: taken = Phrase.tokensAll ps ∧
      (Builds (.word .allowed ||| .word .distinct ||| .word .top ++ .tok .number) ps ∧
        ps ≠ []) := by
  by_cases htop : word.kind = .keyword .top
  · simp only [limitation, htop, if_true]
    refine (expectAs_makes rfl (by simp)).bind fun _ count hcount => .pure ⟨?_, ?_, by simp⟩
    · simp [hcount.1]
    · exact .second (.seq (.token (by simpa using htop)) hcount.2)
  · simp only [limitation, htop, if_false]
    refine .pure ⟨by simp, .first ?_, by simp⟩
    simp only [List.contains_eq_mem, List.mem_cons, List.not_mem_nil, or_false, htop,
      decide_eq_true_eq] at hword
    rcases hword with hword | hword
    · exact .first (.token (by simpa using hword))
    · exact .second (.token (by simpa using hword))

lemma selects_limitation :
    Selects (·.isAtAny [.keyword .allowed, .keyword .distinct, .keyword .top])
      (fun token => [.keyword .allowed, .keyword .distinct, .keyword .top].contains token.kind) :=
  selects_isAtAny (by decide)

lemma limitations_makes : limitations.MakesAll .limitations := by
  have hloop := manyLed_meets Phrase.tokensAll _ selects_limitation fun _ => limitation_makes
  refine hloop.bind fun _ items hitems => .pure ⟨?_, ?_⟩
  · cases items <;> simp [hitems.1, Phrase.tokensAll_flatten]
  · refine builds_extended.mpr ⟨[], items.flatten, .empty, .many items fun ps hps =>
      (hitems.2 ps hps).1, ?_⟩
    cases items with
    | nil => rfl
    | cons item items =>
      have hne := (hitems.2 item (by simp)).2
      simp [hne]

lemma selectList_makes (h : inner.Sound) : (selectList inner).Makes .selectList := by
  refine (commaSeparated_makes (one_makes (selectedField_makes h))).bind fun _ fields hfields =>
    .pure ⟨?_, .node hfields.2⟩
  simp [hfields.1]

lemma temporaryTable_makes : BehindMark temporaryTable (.keyword .into) .temporaryTable := by
  intro mark hmark
  refine (expectAs_makes rfl (by simp)).bind fun _ name hname => .pure ⟨?_, ?_⟩
  · simp [hname.1]
  · exact .node (.seq (.token hmark) hname.2)

lemma dataSources_makes (h : inner.Sound) :
    BehindMark (dataSources inner) (.keyword .from_) .dataSources := by
  intro mark hmark
  refine (commaSeparated_makes (one_makes h.source)).bind fun _ sources hsources => .pure ⟨?_, ?_⟩
  · simp [hsources.1]
  · exact .node (.seq (.token hmark) hsources.2)

lemma whereClause_makes (h : inner.Sound) :
    BehindMark (whereClause inner) (.keyword .where_) .whereClause := by
  intro mark hmark
  refine (h.expression .filter).bind fun _ condition hcondition => .pure ⟨?_, ?_⟩
  · simp [hcondition.1]
  · exact .node (.seq (.token hmark) (.node hcondition.2))

lemma byWord_makes : byWord.Makes .byWord := by
  refine (require_makes (selects_isAtAny (by decide)) (by simp)).mono fun _ p hp => ⟨hp.1, ?_⟩
  obtain ⟨token, htoken, hp⟩ := builds_token.mp hp.2
  rw [hp]
  simp only [List.contains_eq_mem, List.mem_cons, List.not_mem_nil, or_false,
    decide_eq_true_eq] at htoken
  rcases htoken with htoken | htoken
  · exact .first (.token (by simpa using htoken))
  · exact .second (.token (by simpa using htoken))

lemma groupBy_makes (h : inner.Sound) : BehindMark (groupBy inner) (.keyword .group) .groupBy := by
  intro mark hmark
  refine byWord_makes.bind fun _ link hlink => (commaSeparated_makes (one_makes
    (h.expression .clause))).bind fun _ keys hkeys => .pure ⟨?_, ?_⟩
  · simp [hlink.1, hkeys.1]
  · exact .node (.seq (.seq (.token hmark) hlink.2) hkeys.2)

lemma having_makes (h : inner.Sound) : BehindMark (having inner) (.keyword .having) .having := by
  intro mark hmark
  refine (h.expression .clause).bind fun _ condition hcondition => .pure ⟨?_, ?_⟩
  · simp [hcondition.1]
  · exact .node (.seq (.token hmark) hcondition.2)

lemma orderKey_makes (h : inner.Sound) : (orderKey inner).MakesAll .orderKey := by
  refine (h.expression .clause).bind fun _ key hkey =>
    (optional_makes (selects_isAtAny (by decide))).bind fun _ direction hdirection => .pure ⟨?_, ?_⟩
  · simp [hkey.1, hdirection.1]
  · refine .seq hkey.2 ?_
    rcases builds_opt.mp hdirection.2 with hnone | hsome
    · exact builds_opt.mpr (.inl hnone)
    · obtain ⟨token, htoken, hp⟩ := builds_token.mp hsome
      simp only [List.contains_eq_mem, List.mem_cons, List.not_mem_nil, or_false,
        decide_eq_true_eq] at htoken
      rw [hp]
      rcases htoken with htoken | htoken
      · exact .second (.first (.token (by simpa using htoken)))
      · exact .second (.second (.token (by simpa using htoken)))

lemma orderBy_makes (h : inner.Sound) : BehindMark (orderBy inner) (.keyword .order) .orderBy := by
  intro mark hmark
  refine byWord_makes.bind fun _ link hlink => (commaSeparated_makes (orderKey_makes h)).bind
    fun _ keys hkeys => .pure ⟨?_, ?_⟩
  · simp [hlink.1, hkeys.1]
  · exact .node (.seq (.seq (.token hmark) hlink.2) hkeys.2)

lemma query_makes (h : inner.Sound) : (query inner).Makes .query := by
  refine (keyword_makes .select).bind fun _ word hword => limitations_makes.bind
    fun _ limits hlimits => (selectList_makes h).bind fun _ fields hfields =>
    (optionalLed_makes (selects_isAt rfl) temporaryTable_makes).bind fun _ into hinto =>
    (optionalLed_makes (selects_isAt rfl) (dataSources_makes h)).bind fun _ sources hsources =>
    (optionalLed_makes (selects_isAt rfl) (whereClause_makes h)).bind fun _ filter hfilter =>
    (optionalLed_makes (selects_isAt rfl) (groupBy_makes h)).bind fun _ groups hgroups =>
    (optionalLed_makes (selects_isAt rfl) (having_makes h)).bind fun _ having hhaving =>
    (optionalLed_makes (selects_isAt rfl) (orderBy_makes h)).bind fun _ order horder =>
    .pure ⟨?_, ?_⟩
  · simp [hword.1, hlimits.1, hfields.1, hinto.1, hsources.1, hfilter.1, hgroups.1, hhaving.1,
      horder.1]
  · have hclauses : ∀ {form : Form}, Builds form into → Builds (.clauses form)
        (word :: limits ++ fields :: into ++ sources ++ filter ++ groups ++ having ++ order) := by
      intro form hform
      have hhead := Builds.seq (.seq hword.2 hlimits.2) hfields.2
      have hbuilds := Builds.seq (.seq (.seq (.seq (.seq (.seq hhead hform) hsources.2) hfilter.2)
        hgroups.2) hhaving.2) horder.2
      rw [List.append_assoc ([word] ++ limits)] at hbuilds
      exact hbuilds
    cases into with
    | nil => exact .first (.node (hclauses .empty))
    | cons p into =>
      refine .second (.node (hclauses ?_))
      simpa using builds_opt.mp hinto.2

lemma unionMember_makes (h : inner.Sound) :
    (unionMember inner).MakesAll (.opt (.word .all) ++ .query) := by
  refine (optional_makes (selects_isAt rfl)).bind fun _ all hall => (query_makes h).bind
    fun _ next hnext => .pure ⟨?_, .seq hall.2 hnext.2⟩
  simp [hall.1, hnext.1]

lemma statement_makes (h : inner.Sound) : (statement inner).Makes .statement := by
  refine (query_makes h).bind fun _ first hfirst =>
    (manyBehind_makes (unionMember_makes h) rfl).bind fun _ more hmore => .pure ⟨?_, ?_⟩
  · cases more <;> simp [hfirst.1, hmore.1]
  · refine builds_extended.mpr ⟨[first], more, hfirst.2, hmore.2, ?_⟩
    cases more <;> rfl

lemma tableArgument_makes (h : inner.Sound) :
    (tableArgument inner).MakesAll (.opt (.expr .clause)) := by
  refine .get_bind fun c => .ite ?_ ?_
  · exact .pure ⟨rfl, .first .empty⟩
  · exact (one_makes (h.expression .clause)).mono fun _ ps hps => ⟨hps.1, .second hps.2⟩

lemma tableArguments_makes (h : inner.Sound) : BehindMark (tableArguments inner) .lparen
    (.tok .lparen ++ .tableArguments ++ .tok .rparen) := by
  intro mark hmark
  refine (commaSeparated_makes (tableArgument_makes h)).bind fun _ arguments harguments =>
    (expectAs_makes rfl (by simp)).bind fun _ closing hclosing => .pure ⟨?_, ?_⟩
  · simp [harguments.1, hclosing.1]
  · exact .seq (.seq (.token hmark) harguments.2) hclosing.2

lemma table_makes (h : inner.Sound) : (table inner).Makes .table := by
  refine (expect_makes rfl).bind fun _ first hfirst => path_makes.bind fun _ more hmore =>
    (optionalLed_makes (selects_isAt rfl) (tableArguments_makes h)).bind
    fun _ arguments harguments => .pure ⟨?_, ?_⟩
  · simp [hfirst.1, hmore.1, harguments.1]
  · exact .node (.seq (.seq hfirst.2 hmore.2) harguments.2)

lemma bracketedSource_makes (h : inner.Sound) :
    (bracketedSource inner).MakesAll (.tok .lparen ++ .call .source ++ .tok .rparen) := by
  refine (expect_makes rfl).bind fun _ opening hopening => h.source.bind fun _ source hsource =>
    (expect_makes rfl).bind fun _ closing hclosing => .pure ⟨?_, ?_⟩
  · simp [hopening.1, hsource.1, hclosing.1]
  · exact .seq (.seq hopening.2 hsource.2) hclosing.2

lemma sourceBody_makes (h : inner.Sound) : (sourceBody inner).MakesAll .sourceBody := by
  refine .get_bind fun c => .ite ?_ (.ite ?_ (.ite ?_ ?_))
  · exact (one_makes (subquery_makes h)).mono fun _ ps hps =>
      ⟨hps.1, .first (.first (.first hps.2))⟩
  · exact (bracketedSource_makes h).mono fun _ ps hps =>
      ⟨hps.1, .first (.first (.second hps.2))⟩
  · exact (one_makes (table_makes h)).mono fun _ ps hps => ⟨hps.1, .second hps.2⟩
  · exact (one_makes (expectAs_makes rfl (by simp))).mono fun _ ps hps =>
      ⟨hps.1, .first (.second hps.2)⟩

lemma endsStatement_of_startsJoin {kind : TokenKind} (h : kind.startsJoin = true) :
    kind.endsStatement = false := by
  cases kind <;> simp_all [TokenKind.startsJoin, TokenKind.endsStatement]

lemma builds_joinSide_of_startsJoin {token : Token} (h : token.kind.startsJoin = true)
    (hjoin : token.kind ≠ .keyword .join) : Builds .joinSide [.leaf token] := by
  have hkind : token.kind = .keyword .inner ∨ token.kind = .keyword .left ∨
      token.kind = .keyword .right ∨ token.kind = .keyword .full := by
    unfold TokenKind.startsJoin at h
    split at h <;> simp_all
  simp only [Form.joinSide, builds_or, builds_word]
  rcases hkind with hkind | hkind | hkind | hkind
  · exact .inl (.inl (.inl ⟨token, hkind, rfl⟩))
  · exact .inl (.inl (.inr ⟨token, hkind, rfl⟩))
  · exact .inl (.inr ⟨token, hkind, rfl⟩)
  · exact .inr ⟨token, hkind, rfl⟩

lemma joinWords_makes {first : Token} (hfirst : first.kind.startsJoin = true) :
    (joinWords first).Meets fun taken ps =>
      first :: taken = Phrase.tokensAll ps ∧ Builds .joinWords ps := by
  by_cases hjoin : first.kind = .keyword .join
  · simp only [joinWords, hjoin, if_true]
    exact .pure ⟨by simp, .first (.token (by simpa using hjoin))⟩
  · simp only [joinWords, hjoin, if_false]
    refine (optional_makes (selects_isAt rfl)).bind fun _ outer houter =>
      (keyword_makes .join).bind fun _ word hword => .pure ⟨?_, ?_⟩
    · simp [houter.1, hword.1]
    · exact .second (.seq (.seq (builds_joinSide_of_startsJoin hfirst hjoin) houter.2) hword.2)

lemma join_makes (h : inner.Sound) {first : Token} (hfirst : first.kind.startsJoin = true) :
    (join inner first).Meets fun taken p => first :: taken = p.tokens ∧ Builds .join [p] := by
  refine (joinWords_makes hfirst).bind fun _ words hwords => h.source.bind fun _ source hsource =>
    (keyword_makes .on).bind fun _ on hon => (h.expression .join).bind
    fun _ condition hcondition => .pure ⟨?_, ?_⟩
  · rw [← List.cons_append, hwords.1]
    simp [hsource.1, hon.1, hcondition.1]
  · have hexpression : Builds (.node .joinExpression (.expr .join)) _ := .node hcondition.2
    have hparts := Builds.seq (.seq (.seq hwords.2 hsource.2) hon.2) hexpression
    rw [List.append_assoc, List.append_assoc] at hparts
    exact .node hparts

lemma source_makes (h : inner.Sound) : (source inner).Makes .source := by
  have hloop := manyLed_meets Phrase.tokens (fun p => Builds .join [p])
    (selects_of_kind fun _ => endsStatement_of_startsJoin) fun mark hmark => join_makes h hmark
  refine (sourceBody_makes h).bind fun _ body hbody => aliasClause_makes.bind fun _ given hgiven =>
    hloop.bind fun _ joins hjoins => .pure ⟨?_, ?_⟩
  · simp [hbody.1, hgiven.1, hjoins.1, Phrase.tokensAll_eq_flatMap]
  · have hmany : Builds (.many .join) joins := by
      refine builds_many.mpr ⟨joins.map fun p => [p], ?_, ?_⟩
      · intro group hgroup
        obtain ⟨p, hp, rfl⟩ := List.mem_map.mp hgroup
        exact hjoins.2 p hp
      · rw [← List.flatMap_def, List.flatMap_singleton']
    exact .node (.seq (.seq hbody.2 hgiven.2) hmany)

/-- The readers are right at every depth. At depth zero they give nothing. -/
lemma nested_sound (depth : Nat) : (nested depth).Sound := by
  induction depth with
  | zero => exact ⟨fun _ => .refuse (by simp), .refuse (by simp), .refuse (by simp)⟩
  | succ depth ih =>
    exact {
      expression := fun _ => (expression_makes ih).mono fun _ _ hp => ⟨hp.1, .call hp.2⟩
      statement := (statement_makes ih).mono fun _ _ hp => ⟨hp.1, .call hp.2⟩
      source := (source_makes ih).mono fun _ _ hp => ⟨hp.1, .call hp.2⟩ }

end Grammar

/-- A statement that is read is one of the grammar, of exactly the tokens that are taken. -/
theorem Parse.statement_makes : Parse.statement.Makes (.call .statement) := by
  intro c
  have hnested := (Grammar.nested_sound c.rest.length).statement c
  unfold MeetsAt at hnested ⊢
  rw [Parse.statement]
  exact hnested

end NullGuard
