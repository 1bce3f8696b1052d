import NullGuard.Proofs.ReadBack
import NullGuard.Proofs.ReaderSoundness

namespace NullGuard

open Parse

namespace TokenKind

/-- Whether an operand could go on with the kind. -/
def extendsOperand (kind : TokenKind) : Bool := kind = .dot || kind = .lparen

def extendsTerm (kind : TokenKind) : Bool := kind.extendsOperand || kind = .star || kind = .slash

def extendsValue (kind : TokenKind) : Bool := kind.extendsTerm || kind = .plus || kind = .minus

def extendsPredicate (kind : TokenKind) : Bool :=
  kind.extendsValue || kind.isComparison || kind = .keyword .is || kind = .keyword .not ||
    Grammar.isMembership kind

def extendsExpression (kind : TokenKind) : Bool :=
  kind.extendsPredicate || kind = .keyword .and || kind = .keyword .or

/-- Whether an item of a clause ends before the kind. -/
def endsItem (kind : TokenKind) : Bool :=
  [.comma, .keyword .on, .keyword .into, .keyword .from_, .keyword .where_, .keyword .group,
    .keyword .having, .keyword .order, .keyword .union, .rparen, .semicolon, .eof].contains kind

end TokenKind

namespace Cursor

/-- No operand goes on here. -/
def EndsOperand (c : Cursor) : Prop := c.kind.extendsOperand = false

def EndsValue (c : Cursor) : Prop := c.kind.extendsValue = false

/-- No predicate goes on here. A name goes on with a predicate only if there is one behind it. -/
def EndsPredicate (c : Cursor) : Prop :=
  c.kind.extendsPredicate = false ∧ (c.kind = .identifier → c.nextKind ≠ .identifier)

def EndsExpression (c : Cursor) : Prop :=
  c.kind.extendsExpression = false ∧ (c.kind = .identifier → c.nextKind ≠ .identifier)

def EndsItem (c : Cursor) : Prop := c.kind.endsItem = true

def EndsStatement (c : Cursor) : Prop := c.kind = .rparen ∨ c.kind.endsStatement = true

lemma endsOperand_iff {c : Cursor} : c.EndsOperand ↔ c.kind ≠ .dot ∧ c.kind ≠ .lparen := by
  simp [EndsOperand, TokenKind.extendsOperand]

lemma EndsOperand.of_kind {c : Cursor} {kind : TokenKind} (hc : c.kind = kind)
    (h : kind.extendsOperand = false) : c.EndsOperand := by
  rw [EndsOperand, hc, h]

lemma EndsValue.of_kind {c : Cursor} {kind : TokenKind} (hc : c.kind = kind)
    (h : kind.extendsValue = false) : c.EndsValue := by
  rw [EndsValue, hc, h]

lemma EndsExpression.of_kind {c : Cursor} {kind : TokenKind} (hc : c.kind = kind)
    (h : kind.extendsExpression = false) (hname : kind ≠ .identifier) : c.EndsExpression := by
  rw [EndsExpression, hc]
  exact ⟨h, fun hkind => absurd hkind hname⟩

lemma EndsPredicate.of_kind {c : Cursor} {kind : TokenKind} (hc : c.kind = kind)
    (h : kind.extendsPredicate = false) (hname : kind ≠ .identifier) : c.EndsPredicate := by
  rw [EndsPredicate, hc]
  exact ⟨h, fun hkind => absurd hkind hname⟩

lemma isAtWord_of_kind {c : Cursor} {word : ContextWord} (h : c.kind ≠ .identifier) :
    c.isAtWord word = false := by
  have hkind : c.current.kind ≠ .identifier := h
  simp [isAtWord, Token.spells, hkind]

lemma EndsPredicate.endsValue {c : Cursor} (h : c.EndsPredicate) : c.EndsValue := by
  have hkind : ∀ kind : TokenKind, kind.extendsPredicate = false → kind.extendsValue = false := by
    decide
  exact hkind _ h.1

lemma EndsItem.endsExpression {c : Cursor} (h : c.EndsItem) : c.EndsExpression := by
  have hkind : ∀ kind : TokenKind, kind.endsItem = true →
      kind.extendsExpression = false ∧ kind ≠ .identifier := by decide
  exact .of_kind rfl (hkind _ h).1 (hkind _ h).2

end Cursor

open Cursor

/-- The nested readers give all phrases of the constructs, up to a bound on their tokens. -/
structure Nested.Complete (inner : Nested) (bound : Nat) : Prop where
  expression : ∀ context, (inner.expression context).Reads (.expr context) bound EndsExpression
  statement : inner.statement.Reads (.call .statement) bound EndsStatement
  source : inner.source.Reads (.call .source) bound EndsItem

namespace Grammar

variable {inner : Nested} {context : Context} {n : Nat}

lemma path_reads (bound : Nat) : Parse.path.ReadsAll .path bound (·.kind ≠ .dot) := by
  have hname : Parse.name.Reads (.token (·.kind.isName)) bound (fun _ => True) := by
    intro p hp _
    obtain ⟨token, htoken, hp⟩ := builds_token.mp hp
    obtain rfl := List.singleton_inj.mp hp
    refine require_gives fun c hc => ?_
    rwa [Cursor.kind, hc]
  intro ps hps hlen
  exact (manyBehind_reads (one_reads hname rfl) (fun _ _ => trivial) ps hps hlen).mono
    fun d hd => ⟨trivial, hd⟩

lemma subquery_reads (h : inner.Complete n) :
    (subquery inner).Reads .subquery (n + 1) (fun _ => True) := by
  intro p hp hlen
  obtain ⟨_, hparts, hp⟩ := builds_node.mp hp
  obtain rfl := List.singleton_inj.mp hp
  simp only [builds_append, builds_tok] at hparts
  obtain ⟨_, _, ⟨_, _, ⟨opening, hopening, rfl⟩, hstatement, rfl⟩, ⟨closing, hclosing, rfl⟩, rfl⟩ :=
    hparts
  obtain ⟨statement, rfl⟩ := hstatement.exists_single rfl
  have hinner : statement.tokens.length ≤ n := by
    simp at hlen
    omega
  refine .cast ((expect_gives hopening).bind ((h.statement statement hstatement hinner).bind
    (expect_gives hclosing).map ?_) .any) (by simp)
  exact .cons fun c hc => .inl (hc.trans hclosing)

lemma namedPath_reads (kind : NodeKind) (bound : Nat) :
    (do let first ← expect .identifier
        let more ← path
        return .node kind (first :: more) : Parse Phrase).Reads
      (.node kind (.tok .identifier ++ .path)) bound (·.kind ≠ .dot) := by
  intro p hp hlen
  obtain ⟨_, hparts, hp⟩ := builds_node.mp hp
  obtain rfl := List.singleton_inj.mp hp
  simp only [builds_append, builds_tok] at hparts
  obtain ⟨_, more, ⟨first, hfirst, rfl⟩, hmore, rfl⟩ := hparts
  have hinner : (Phrase.tokensAll more).length ≤ bound := by
    simp at hlen
    omega
  exact .cast ((expect_gives hfirst).bind (path_reads bound more hmore hinner).map .any) (by simp)

lemma typeSize_reads (bound : Nat) :
    ReadsBehind typeSize .lparen .typeSize bound (fun _ => True) := by
  intro ps hps hlen
  simp only [Form.typeSize, builds_append, builds_tok] at hps
  obtain ⟨_, _, ⟨_, precision, ⟨_, _, ⟨opening, hopening, rfl⟩, ⟨length, hlength, rfl⟩, rfl⟩,
    hprecision, rfl⟩, ⟨closing, hclosing, rfl⟩, rfl⟩ := hps
  have hnumber : (expectAs .number .typePrecision).Reads (.tok .number) bound (fun _ => True) := by
    intro p hp _
    obtain ⟨token, htoken, hp⟩ := builds_tok.mp hp
    obtain rfl := List.singleton_inj.mp hp
    exact expectAs_gives htoken
  have hinner : (Phrase.tokensAll precision).length ≤ bound := by
    simp at hlen
    omega
  have hmany := manyBehind_reads (one_reads hnumber rfl) (fun _ _ => trivial) precision hprecision
    hinner
  refine .of_kind hopening ((expectAs_gives hlength).bind (hmany.bind (expect_gives hclosing).map ?_)
    .any) (by simp)
  exact .cons fun c hc => ⟨trivial, by rw [hc, hclosing]; decide⟩

lemma castType_reads (bound : Nat) :
    ReadsBehind castType (.keyword .as) .castType bound EndsOperand := by
  intro ps hps hlen
  simp only [Form.castType, builds_append, builds_tok, builds_word] at hps
  obtain ⟨_, size, ⟨_, more, ⟨_, _, ⟨word, hword, rfl⟩, ⟨first, hfirst, rfl⟩, rfl⟩, hmore, rfl⟩, hsize,
    rfl⟩ := hps
  have hinner : (Phrase.tokensAll more).length ≤ bound ∧ (Phrase.tokensAll size).length ≤ bound := by
    simp at hlen
    omega
  have hlast := optionalLed_reads (typeSize_reads bound) size hsize hinner.2
  have hstarts : (Form.opt .typeSize).StartsWith .lparen :=
    Form.startsWith_opt ⟨⟨⟨Form.startsWith_tok, .inl rfl⟩, .inl rfl⟩, .inl rfl⟩
  refine .of_kind hword ((expectAs_gives hfirst).bind ((path_reads bound more hmore hinner.1).bind
    (hlast.map.mono fun d hd => ⟨trivial, (endsOperand_iff.mp hd).2⟩) ?_) .any) (by simp)
  exact .maybe_last hsize hstarts (fun c hc => by simp [hc]) fun d hd => (endsOperand_iff.mp hd).1

lemma expr_start {p : Phrase} (hp : Builds (.expr context) [p]) {w : List Token} {c d : Cursor}
    (hpass : c.Passes (p.tokens ++ w) d) : c.kind.startsExpression = true :=
  hp.kind_of_passes (Form.expr_leads context) rfl (by simpa using hpass)

lemma arguments_reads (h : inner.Complete n) :
    (arguments inner context).ReadsAll (.arguments context) n (·.kind = .rparen) := by
  intro ps hps hlen
  simp only [Form.arguments, builds_or, builds_tok, builds_empty] at hps
  rcases hps with (⟨star, hstar, rfl⟩ | rfl) | hps
  · exact .choose (fun c d hpass _ => isAt_iff.mpr (hpass.kind.trans hstar))
      (.settle ((expect_gives hstar).map.mono fun _ _ => trivial))
  · have hrparen : ∀ c d : Cursor, c.Passes [] d → d.kind = .rparen → c.kind = .rparen := by
      intro c d hpass hd
      rwa [Cursor.passes_nil_iff.mp hpass]
    refine .pass (fun c d hpass hd => ?_) (.choose (fun c d hpass hd => ?_) (.settle .pure))
    · rw [isAt_iff, hrparen c d hpass hd]
      decide
    · exact isAt_iff.mpr (hrparen c d hpass hd)
  · simp only [builds_append] at hps
    obtain ⟨_, more, ⟨_, type, hfirst, htype, rfl⟩, hmore, rfl⟩ := hps
    obtain ⟨first, rfl⟩ := hfirst.exists_single rfl
    have hinner : first.tokens.length ≤ n ∧ (Phrase.tokensAll type).length ≤ n ∧
        (Phrase.tokensAll more).length ≤ n := by
      simp at hlen
      omega
    have hne : ∀ kind : TokenKind, kind.startsExpression = true → kind ≠ .star ∧ kind ≠ .rparen := by
      decide
    have htypes := optionalLed_reads (castType_reads n) type htype hinner.2.1
    have hmany := manyBehind_reads (one_reads (h.expression context) rfl)
      (fun c hc => .of_kind hc rfl (by decide)) more hmore hinner.2.2
    refine .cast (.pass (fun c d hpass _ => ?_) (.pass (fun c d hpass _ => ?_) (.settle
      ((h.expression context first hfirst hinner.1).bind (htypes.bind (hmany.map.mono ?_) ?_)
        ?_)))) (by simp)
    · exact mt isAt_iff.mp (hne _ (expr_start hfirst hpass)).1
    · exact mt isAt_iff.mp (hne _ (expr_start hfirst hpass)).2
    · exact fun d hd => ⟨.of_kind hd rfl (by decide), by rw [hd]; decide⟩
    · refine .maybe_last hmore Form.startsWith_many (fun c hc => ⟨.of_kind hc rfl, ?_⟩)
        fun d hd => ⟨.of_kind hd rfl, ?_⟩
      · simp [hc]
      · simp [hd]
    · refine .maybe htype (Form.startsWith_opt ⟨⟨⟨Form.startsWith_tok, .inl rfl⟩, .inl rfl⟩, .inl rfl⟩)
        (fun c hc => .of_kind hc rfl (by decide)) (.maybe_last hmore Form.startsWith_many
        (fun c hc => .of_kind hc rfl (by decide)) fun d hd => .of_kind hd rfl (by decide))

lemma functionCall_reads (h : inner.Complete n) :
    (functionCall inner context).Reads (.functionCall context) (n + 1) (fun _ => True) := by
  intro p hp hlen
  obtain ⟨_, hparts, hp⟩ := builds_node.mp hp
  obtain rfl := List.singleton_inj.mp hp
  simp only [builds_append, builds_tok] at hparts
  obtain ⟨_, _, ⟨_, arguments, ⟨_, distinct, ⟨_, _, ⟨function, hfunction, rfl⟩,
    ⟨opening, hopening, rfl⟩, rfl⟩, hdistinct, rfl⟩, harguments, rfl⟩, ⟨closing, hclosing, rfl⟩, rfl⟩ :=
    hparts
  have hinner : (Phrase.tokensAll distinct).length ≤ n ∧ (Phrase.tokensAll arguments).length ≤ n := by
    simp at hlen
    omega
  have hdistincts := optional_isAt_reads (.keyword .distinct) n distinct hdistinct hinner.1
  have hreads := arguments_reads h arguments harguments hinner.2
  refine .cast ((expect_gives hfunction).bind ((expect_gives hopening).bind (hdistincts.bind
    (hreads.bind (expect_gives hclosing).map ?_) ?_) .any) .any) (by simp)
  · exact .cons fun c hc => hc.trans hclosing
  · -- no argument begins with the word
    have hkind : ∀ kind : TokenKind, kind.startsExpression = true → kind ≠ .keyword .distinct := by
      decide
    have hleads : (Form.arguments context).Leads (fun kind => kind ≠ .keyword .distinct) :=
      ⟨⟨Form.leads_tok rfl, trivial⟩, ⟨⟨(Form.expr_leads context).mono (by decide), .inl rfl⟩, .inl rfl⟩⟩
    exact .leads harguments hleads (fun c hc => of_decide_eq_true hc)
      (.cons fun c hc => by simp [hc, hclosing])

lemma caseArm_reads (h : inner.Complete n) : (caseArm inner context).ReadsAll
    (.expr context ++ .word .then_ ++ .expr context) n EndsExpression := by
  intro ps hps hlen
  simp only [builds_append, builds_word] at hps
  obtain ⟨_, _, ⟨_, _, hcondition, ⟨link, hlink, rfl⟩, rfl⟩, hvalue, rfl⟩ := hps
  obtain ⟨condition, rfl⟩ := hcondition.exists_single rfl
  obtain ⟨value, rfl⟩ := hvalue.exists_single rfl
  have hinner : condition.tokens.length ≤ n ∧ value.tokens.length ≤ n := by
    simp at hlen
    omega
  refine .cast ((h.expression context condition hcondition hinner.1).bind ((keyword_gives hlink).bind
    (h.expression context value hvalue hinner.2).map .any) ?_) (by simp)
  exact .cons fun c hc => .of_kind (hc.trans hlink) rfl (by decide)

lemma caseDefault_reads (h : inner.Complete n) : ReadsBehind (caseDefault inner context)
    (.keyword .else_) (.word .else_ ++ .expr context) n EndsExpression := by
  intro ps hps hlen
  simp only [builds_append, builds_word] at hps
  obtain ⟨_, _, ⟨word, hword, rfl⟩, hvalue, rfl⟩ := hps
  obtain ⟨value, rfl⟩ := hvalue.exists_single rfl
  have hinner : value.tokens.length ≤ n := by
    simp at hlen
    omega
  exact .of_kind hword (h.expression context value hvalue hinner).map (by simp)

lemma caseExpression_reads (h : inner.Complete n) :
    (caseExpression inner context).Reads (.caseExpression context) (n + 1) (fun _ => True) := by
  intro p hp hlen
  obtain ⟨_, hparts, hp⟩ := builds_node.mp hp
  obtain rfl := List.singleton_inj.mp hp
  simp only [builds_append, builds_word] at hparts
  obtain ⟨_, _, ⟨_, otherwise, ⟨_, more, ⟨_, arm, ⟨word, hword, rfl⟩, harm, rfl⟩, hmore, rfl⟩,
    hotherwise, rfl⟩, ⟨closing, hclosing, rfl⟩, rfl⟩ := hparts
  obtain ⟨_, first, hwhen, hfirst, rfl⟩ := builds_append.mp harm
  obtain ⟨when_, hkind, rfl⟩ := builds_word.mp hwhen
  have hinner : (Phrase.tokensAll first).length ≤ n ∧ (Phrase.tokensAll more).length ≤ n ∧
      (Phrase.tokensAll otherwise).length ≤ n := by
    simp at hlen
    omega
  have hreads := caseArm_reads h first hfirst hinner.1
  have hmany := manyBehind_reads (caseArm_reads h) (fun c hc => .of_kind hc rfl (by decide)) more hmore
    hinner.2.1
  have hdefault := optionalLed_reads (caseDefault_reads h) otherwise hotherwise hinner.2.2
  have hstarts : (Form.opt (.word .else_ ++ .expr context)).StartsWith (.keyword .else_) :=
    Form.startsWith_opt ⟨Form.startsWith_tok, .inl rfl⟩
  refine .cast ((keyword_gives hword).bind ((keyword_gives hkind).bind (hreads.bind (hmany.bind
    (hdefault.bind (keyword_gives hclosing).map ?_) ?_) ?_) .any) .any) (by simp)
  · exact .cons fun c hc => ⟨.of_kind (hc.trans hclosing) rfl (by decide), by simp [hc, hclosing]⟩
  · refine .maybe hotherwise hstarts (fun c hc => ⟨.of_kind hc rfl (by decide), by simp [hc]⟩) ?_
    exact .cons fun c hc => ⟨.of_kind (hc.trans hclosing) rfl (by decide), by simp [hc, hclosing]⟩
  · refine .maybe hmore Form.startsWith_many (fun c hc => .of_kind hc rfl (by decide)) ?_
    refine .maybe hotherwise hstarts (fun c hc => .of_kind hc rfl (by decide)) ?_
    exact .cons fun c hc => .of_kind (hc.trans hclosing) rfl (by decide)

lemma functionCall_tokens {p : Phrase} (hp : Builds (.functionCall context) [p]) :
    ∃ function opening rest, function.kind = .identifier ∧ opening.kind = .lparen ∧
      p.tokens = function :: opening :: rest := by
  obtain ⟨_, hparts, hp⟩ := builds_node.mp hp
  obtain rfl := List.singleton_inj.mp hp
  simp only [builds_append, builds_tok] at hparts
  obtain ⟨_, _, ⟨_, _, ⟨_, _, ⟨_, _, ⟨function, hfunction, rfl⟩, ⟨opening, hopening, rfl⟩, rfl⟩, _,
    rfl⟩, _, rfl⟩, _, rfl⟩ := hparts
  exact ⟨function, opening, _, hfunction, hopening, by simp; rfl⟩

lemma column_tokens {p : Phrase} (hp : Builds .column [p]) :
    ∃ first more, first.kind = .identifier ∧ Builds .path more ∧
      p.tokens = first :: Phrase.tokensAll more := by
  obtain ⟨_, hparts, hp⟩ := builds_node.mp hp
  obtain rfl := List.singleton_inj.mp hp
  simp only [builds_append, builds_tok] at hparts
  obtain ⟨_, more, ⟨first, hfirst, rfl⟩, hmore, rfl⟩ := hparts
  exact ⟨first, more, hfirst, hmore, by simp⟩

lemma operand_reads (h : inner.Complete n) :
    (operand inner context).Reads (.operand context) (n + 1) EndsOperand := by
  intro p hp hlen
  simp only [Form.operand, builds_or] at hp
  rcases hp with (((hp | hp) | hp) | hp) | hp
  · obtain ⟨function, opening, rest, hfunction, hopening, htokens⟩ := functionCall_tokens hp
    have hreads := (functionCall_reads h p hp hlen).mono fun d (_ : d.EndsOperand) => trivial
    rw [htokens] at hreads ⊢
    exact .choose (fun c d hpass _ => isAt_iff.mpr (hpass.kind.trans hfunction))
      (.choose (fun c d hpass _ => hpass.nextKind.trans hopening) (.settle hreads))
  · obtain ⟨first, more, hfirst, hmore, htokens⟩ := column_tokens hp
    have hreads := (namedPath_reads .column (n + 1) p hp hlen).mono fun d (hd : d.EndsOperand) =>
      (endsOperand_iff.mp hd).1
    have hnext : Follows (Phrase.tokensAll more) EndsOperand (·.kind ≠ .lparen) :=
      .maybe_last hmore Form.startsWith_many (fun c hc => by simp [hc]) fun d hd =>
        (endsOperand_iff.mp hd).2
    rw [htokens] at hreads ⊢
    refine .choose (fun c d hpass _ => isAt_iff.mpr (hpass.kind.trans hfirst))
      (.pass (fun c d hpass hd => ?_) (.settle hreads))
    have hsingle := passes_advance hpass.following_ne_nil
    rw [hsingle.nextKind_single]
    exact hnext _ _ hpass.advance hd
  · have hreads := (caseExpression_reads h p hp hlen).mono fun d (_ : d.EndsOperand) => trivial
    have hcase : ∀ c d : Cursor, c.Passes p.tokens d → c.kind = .keyword .case := by
      intro c d hpass
      have hstarts : (Form.caseExpression context).StartsWith (.keyword .case) :=
        ⟨⟨⟨⟨Form.startsWith_tok, .inl rfl⟩, .inl rfl⟩, .inl rfl⟩, .inl rfl⟩
      exact of_decide_eq_true (hp.kind_of_passes_single hstarts rfl hpass)
    refine .pass (fun c d hpass _ => ?_) (.choose (fun c d hpass _ => ?_) (.settle hreads))
    · simp [isAt_iff, hcase c d hpass]
    · exact isAt_iff.mpr (hcase c d hpass)
  · obtain ⟨token, htoken, hp⟩ := builds_tok.mp hp
    obtain rfl := List.singleton_inj.mp hp
    refine .pass (fun c d hpass _ => ?_) (.pass (fun c d hpass _ => ?_) (.settle
      ((require_gives fun c hc => ?_).mono fun _ _ => trivial)))
    · simp [isAt_iff, hpass.kind, htoken]
    · simp [isAt_iff, hpass.kind, htoken]
    · simp [isAt, Cursor.kind, hc, htoken]
  · obtain ⟨token, htoken, hp⟩ := builds_token.mp hp
    obtain rfl := List.singleton_inj.mp hp
    have hkind : ∀ kind : TokenKind, kind.isLiteral = true →
        kind ≠ .identifier ∧ kind ≠ .keyword .case := by decide
    refine .pass (fun c d hpass _ => ?_) (.pass (fun c d hpass _ => ?_) (.settle
      ((require_gives fun c hc => ?_).mono fun _ _ => trivial)))
    · rw [isAt_iff, hpass.kind]
      exact (hkind _ htoken).1
    · rw [isAt_iff, hpass.kind]
      exact (hkind _ htoken).2
    · simp [Cursor.kind, hc, htoken]

lemma guardCall_reads (h : inner.Complete n) :
    (guardCall inner context).Reads (.guardCall context) (n + 1) (fun _ => True) := by
  intro p hp hlen
  obtain ⟨_, hparts, hp⟩ := builds_node.mp hp
  obtain rfl := List.singleton_inj.mp hp
  simp only [builds_append, builds_tok, builds_word] at hparts
  obtain ⟨_, _, ⟨_, _, ⟨_, _, ⟨_, _, ⟨_, _, ⟨word, hword, rfl⟩, ⟨opening, hopening, rfl⟩, rfl⟩, hvalue,
    rfl⟩, ⟨comma, hcomma, rfl⟩, rfl⟩, hreplacement, rfl⟩, ⟨closing, hclosing, rfl⟩, rfl⟩ := hparts
  obtain ⟨value, rfl⟩ := hvalue.exists_single rfl
  obtain ⟨replacement, rfl⟩ := hreplacement.exists_single rfl
  have hinner : value.tokens.length ≤ n ∧ replacement.tokens.length ≤ n := by
    simp at hlen
    omega
  refine .cast ((keyword_gives hword).bind ((expect_gives hopening).bind
    ((h.expression context value hvalue hinner.1).bind ((expect_gives hcomma).bind
    ((h.expression context replacement hreplacement hinner.2).bind (expect_gives hclosing).map ?_)
    .any) ?_) .any) .any) (by simp)
  · exact .cons fun c hc => .of_kind (hc.trans hclosing) rfl (by decide)
  · exact .cons fun c hc => .of_kind (hc.trans hcomma) rfl (by decide)

lemma bracketed_reads (h : inner.Complete n) :
    (bracketed inner context).Reads (.bracketed context) (n + 1) (fun _ => True) := by
  intro p hp hlen
  obtain ⟨_, hparts, hp⟩ := builds_node.mp hp
  obtain rfl := List.singleton_inj.mp hp
  simp only [builds_append, builds_tok] at hparts
  obtain ⟨_, _, ⟨_, _, ⟨opening, hopening, rfl⟩, hexpression, rfl⟩, ⟨closing, hclosing, rfl⟩, rfl⟩ :=
    hparts
  obtain ⟨expression, rfl⟩ := hexpression.exists_single rfl
  have hinner : expression.tokens.length ≤ n := by
    simp at hlen
    omega
  refine .cast ((expect_gives hopening).bind ((h.expression context expression hexpression hinner).bind
    (expect_gives hclosing).map ?_) .any) (by simp)
  exact .cons fun c hc => .of_kind (hc.trans hclosing) rfl (by decide)

lemma wrapped_reads {operand : Parse Phrase} {form : Form} {bound : Nat} {stop : Cursor → Prop}
    (h : operand.Reads form bound stop) (hsingle : form.single = true) :
    (wrapped context operand).Reads (.wrapped context form) bound stop := by
  intro p hp hlen
  simp only [Form.wrapped, builds_node] at hp
  obtain ⟨_, ⟨qs, hqs, rfl⟩, hp⟩ := hp
  obtain rfl := List.singleton_inj.mp hp
  obtain ⟨q, rfl⟩ := hqs.exists_single hsingle
  exact .cast (h q hqs (by simpa using hlen)).map (by simp)

lemma nextKind_eq {c : Cursor} (h : c.following ≠ []) : c.nextKind = c.advance.kind :=
  (passes_advance h).nextKind_single

/-- What stands in brackets is seen from before them. -/
lemma bracket_ahead {form : Form} {test : TokenKind → Bool} (hleads : form.Leads test)
    (hfilled : form.filled = true) {ps : List Phrase}
    (hps : Builds (.tok .lparen ++ form ++ .tok .rparen) ps) {c d : Cursor}
    (hpass : c.Passes (Phrase.tokensAll ps) d) : c.kind = .lparen ∧ test c.nextKind = true := by
  simp only [builds_append, builds_tok] at hps
  obtain ⟨_, _, ⟨_, qs, ⟨opening, hopening, rfl⟩, hqs, rfl⟩, ⟨closing, _, rfl⟩, rfl⟩ := hps
  have hpass' : c.Passes (opening :: (Phrase.tokensAll qs ++ [closing])) d := by simpa using hpass
  refine ⟨hpass'.kind.trans hopening, ?_⟩
  rw [nextKind_eq hpass'.following_ne_nil]
  exact hqs.kind_of_passes hleads hfilled hpass'.advance

lemma subquery_ahead {p : Phrase} (hp : Builds .subquery [p]) {c d : Cursor}
    (hpass : c.Passes p.tokens d) : c.kind = .lparen ∧ c.startsSubquery = true := by
  have hleads : (Form.call .statement).Leads (fun kind => kind = .keyword .select) :=
    fun _ hps => hps.head Form.statement_startsWith
  obtain ⟨ps, hps, hp⟩ := builds_node.mp hp
  obtain rfl := List.singleton_inj.mp hp
  obtain ⟨hkind, hnext⟩ := bracket_ahead hleads rfl hps hpass
  exact ⟨hkind, by simp [startsSubquery, isAt_iff.mpr hkind, of_decide_eq_true hnext]⟩

/-- Brackets that hold no statement. -/
lemma bracket_ahead_of_ne_select {form : Form} {test : TokenKind → Bool} (hleads : form.Leads test)
    (hfilled : form.filled = true) (htest : test (.keyword .select) = false) {ps : List Phrase}
    (hps : Builds (.tok .lparen ++ form ++ .tok .rparen) ps) {c d : Cursor}
    (hpass : c.Passes (Phrase.tokensAll ps) d) : c.kind = .lparen ∧ c.startsSubquery = false := by
  obtain ⟨hkind, hnext⟩ := bracket_ahead hleads hfilled hps hpass
  refine ⟨hkind, ?_⟩
  have hne : c.nextKind ≠ .keyword .select := by
    intro hselect
    simp [hselect, htest] at hnext
  simp [startsSubquery, hne]

lemma operand_leads (context : Context) :
    (Form.operand context).Leads (fun kind => kind ≠ .keyword .isNull && kind ≠ .lparen) := by
  have hliteral : ∀ kind : TokenKind, kind.isLiteral = true →
      (kind ≠ .keyword .isNull && kind ≠ .lparen) = true := by decide
  exact ⟨⟨⟨⟨⟨⟨⟨⟨Form.leads_tok rfl, .inl rfl⟩, .inl rfl⟩, .inl rfl⟩, .inl rfl⟩,
    Form.leads_tok rfl, .inl rfl⟩, ⟨⟨⟨Form.leads_tok rfl, .inl rfl⟩, .inl rfl⟩, .inl rfl⟩, .inl rfl⟩,
    Form.leads_tok rfl⟩, fun token => hliteral token.kind⟩

lemma primary_reads (h : inner.Complete n) :
    (primary inner context).Reads (.primary context) (n + 1) EndsOperand := by
  intro p hp hlen
  simp only [Form.primary, builds_or] at hp
  rcases hp with ((hp | hp) | hp) | hp
  · have hstarts : (Form.guardCall context).StartsWith (.keyword .isNull) :=
      ⟨⟨⟨⟨⟨Form.startsWith_tok, .inl rfl⟩, .inl rfl⟩, .inl rfl⟩, .inl rfl⟩, .inl rfl⟩
    refine .choose (fun c d hpass _ => ?_) (.settle ((guardCall_reads h p hp hlen).mono
      fun _ _ => trivial))
    exact isAt_iff.mpr (of_decide_eq_true (hp.kind_of_passes_single hstarts rfl hpass))
  · have hreads : (wrapped context (subquery inner)).Reads (.wrapped context .subquery) (n + 1) _ :=
      wrapped_reads (subquery_reads h) rfl
    have hahead : ∀ c d : Cursor, c.Passes p.tokens d →
        c.kind = .lparen ∧ c.startsSubquery = true := by
      intro c d hpass
      simp only [Form.wrapped, builds_node] at hp
      obtain ⟨_, ⟨qs, hqs, rfl⟩, hp⟩ := hp
      obtain rfl := List.singleton_inj.mp hp
      obtain ⟨q, rfl⟩ := hqs.exists_single rfl
      exact subquery_ahead hqs (by simpa using hpass)
    refine .pass (fun c d hpass _ => ?_) (.choose (fun c d hpass _ => (hahead c d hpass).2)
      (.settle ((hreads p hp hlen).mono fun _ _ => trivial)))
    simp [isAt_iff, (hahead c d hpass).1]
  · have hahead : ∀ c d : Cursor, c.Passes p.tokens d →
        c.kind = .lparen ∧ c.startsSubquery = false := by
      intro c d hpass
      obtain ⟨ps, hps, hp⟩ := builds_node.mp hp
      obtain rfl := List.singleton_inj.mp hp
      exact bracket_ahead_of_ne_select (Form.expr_leads context) rfl rfl hps hpass
    refine .pass (fun c d hpass _ => ?_) (.pass (fun c d hpass _ => ?_) (.choose
      (fun c d hpass _ => isAt_iff.mpr (hahead c d hpass).1)
      (.settle ((bracketed_reads h p hp hlen).mono fun _ _ => trivial))))
    · simp [isAt_iff, (hahead c d hpass).1]
    · simp [(hahead c d hpass).2]
  · have hreads : (wrapped context (operand inner context)).Reads
        (.wrapped context (.operand context)) (n + 1) _ := wrapped_reads (operand_reads h) rfl
    have hahead : ∀ c d : Cursor, c.Passes p.tokens d →
        c.kind ≠ .keyword .isNull ∧ c.kind ≠ .lparen := by
      intro c d hpass
      simpa using hp.kind_of_passes_single (operand_leads context) rfl hpass
    refine .pass (fun c d hpass _ => ?_) (.pass (fun c d hpass _ => ?_) (.pass
      (fun c d hpass _ => ?_) (.settle (hreads p hp hlen))))
    · exact mt isAt_iff.mp (hahead c d hpass).1
    · simp [startsSubquery, isAt, (hahead c d hpass).2]
    · exact mt isAt_iff.mp (hahead c d hpass).2

section Operators

variable {operand : Parse Phrase} {form : Form} {bound : Nat} {stop : Cursor → Prop}

lemma led_reads {operator : TokenKind} (h : operand.Reads form bound stop)
    (hfilled : form.filled = true) (hleads : form.Leads (fun kind => kind ≠ operator)) :
    (led context operator operand).Reads (.led context.wrapper operator form) bound stop := by
  intro p hp hlen
  obtain ⟨operators, inmost, hoperators, hinmost, hp⟩ := builds_led.mp hp
  obtain rfl := List.singleton_inj.mp hp
  rw [Phrase.tokens_behind, List.length_append] at hlen
  have hloop : (manyLed (·.isAt operator) pure).Gives (operators.flatMap fun token => [token])
      (fun d => True ∧ d.isAt operator = false) operators :=
    manyLed_gives operators _ (fun token htoken => .of_kind (hoperators token htoken) .pure rfl)
      fun _ _ => trivial
  refine .cast (hloop.bind (h inmost hinmost (by omega)).map ?_) ?_
  · intro c d hpass _
    exact ⟨trivial, decide_eq_false (of_decide_eq_true (hinmost.kind_of_passes_single hleads hfilled
      hpass))⟩
  · rw [Phrase.tokens_behind, List.flatMap_singleton']

lemma chain_reads {isOperator : TokenKind → Bool} (h : operand.Reads form bound stop)
    (hoperator : ∀ c : Cursor, isOperator c.kind = true → stop c) :
    (chain context isOperator operand).Reads (.chain context.wrapper isOperator form) bound
      (fun d => stop d ∧ isOperator d.kind = false) := by
  intro p hp hlen
  obtain ⟨start, pairs, hstart, hpairs, hp⟩ := builds_chain.mp hp
  obtain rfl := List.singleton_inj.mp hp
  rw [Phrase.tokens_chained] at hlen ⊢
  rw [List.length_append] at hlen
  have hitem : ∀ pair ∈ pairs, Led (isOperator ·.kind)
      (fun mark => do let right ← operand; return (mark, right)) stop (pair.1 :: pair.2.tokens)
      pair := by
    intro pair hpair
    have hle := length_le_flatMap (fun pair : Token × Phrase => pair.1 :: pair.2.tokens) hpair
    rw [List.length_cons] at hle
    refine ⟨pair.1, pair.2.tokens, rfl, fun c d hpass => ?_, ?_⟩
    · simp only [hpass.kind, (hpairs pair hpair).1]
    · exact (h pair.2 (hpairs pair hpair).2 (by omega)).map
  have hloop := manyLed_gives pairs (fun pair => pair.1 :: pair.2.tokens) hitem hoperator
  refine (h start hstart (by omega)).bind hloop.map fun c d hpass hd => ?_
  cases pairs with
  | nil =>
    obtain rfl := Cursor.passes_nil_iff.mp hpass
    exact hd.1
  | cons pair pairs =>
    refine hoperator c ?_
    rw [hpass.kind]
    exact (hpairs pair (by simp)).1

end Operators

lemma factor_reads (h : inner.Complete n) :
    (factor inner context).Reads (.factor context) (n + 1) EndsOperand :=
  led_reads (primary_reads h) rfl ((Form.primary_leads context).mono (by decide))

lemma term_reads (h : inner.Complete n) : (term inner context).Reads (.term context) (n + 1)
    (·.kind.extendsTerm = false) := by
  have hkind : ∀ kind : TokenKind, (kind = .star || kind = .slash) = true →
      kind.extendsOperand = false := by decide
  have hend : ∀ kind : TokenKind, kind.extendsTerm = false →
      kind.extendsOperand = false ∧ (kind = .star || kind = .slash) = false := by decide
  intro p hp hlen
  exact (chain_reads (factor_reads h) (fun c hc => hkind _ hc) p hp hlen).mono fun d hd => hend _ hd

lemma additive_reads (h : inner.Complete n) :
    (additive inner context).Reads (.additive context) (n + 1) EndsValue := by
  have hkind : ∀ kind : TokenKind, (kind = .plus || kind = .minus) = true →
      kind.extendsTerm = false := by decide
  have hend : ∀ kind : TokenKind, kind.extendsValue = false →
      kind.extendsTerm = false ∧ (kind = .plus || kind = .minus) = false := by decide
  intro p hp hlen
  rw [additive_eq]
  exact (chain_reads (term_reads h) (fun c hc => hkind _ hc) p hp hlen).mono fun d hd => hend _ hd

lemma inList_reads (h : inner.Complete n) :
    (inList inner context).Reads (.inList context) (n + 1) (fun _ => True) := by
  intro p hp hlen
  simp only [Form.inList, builds_or] at hp
  rcases hp with hp | hp
  · exact .choose (fun c d hpass _ => (subquery_ahead hp hpass).2) (.settle (subquery_reads h p hp hlen))
  · obtain ⟨ps, hps, hp⟩ := builds_node.mp hp
    obtain rfl := List.singleton_inj.mp hp
    have hleads : (Form.list (.expr context)).Leads TokenKind.startsExpression :=
      ⟨Form.expr_leads context, .inl rfl⟩
    have hahead := fun c d (hpass : Cursor.Passes c (Phrase.tokensAll ps) d) =>
      (bracket_ahead_of_ne_select hleads rfl rfl hps hpass).2
    simp only [builds_append, builds_tok] at hps
    obtain ⟨_, _, ⟨_, items, ⟨opening, hopening, rfl⟩, hitems, rfl⟩, ⟨closing, hclosing, rfl⟩, rfl⟩ :=
      hps
    have hinner : (Phrase.tokensAll items).length ≤ n := by
      simp at hlen
      omega
    have hlist := commaSeparated_reads (one_reads (h.expression context) rfl)
      (fun c hc => .of_kind hc rfl (by decide)) items hitems hinner
    refine .pass (fun c d hpass _ => by simp [hahead c d hpass]) (.settle (.cast
      ((expect_gives hopening).bind (hlist.bind (expect_gives hclosing).map ?_) .any) (by simp)))
    exact .cons fun c hc => ⟨.of_kind (hc.trans hclosing) rfl (by decide), by simp [hc, hclosing]⟩

lemma membership_reads (h : inner.Complete n) :
    (membership inner context).ReadsAll (.membership context) (n + 1) EndsValue := by
  intro ps hps hlen
  simp only [Form.membership, builds_or, builds_append, builds_word] at hps
  rcases hps with (⟨_, _, ⟨_, hierarchy, ⟨word, hword, rfl⟩, hhierarchy, rfl⟩, hlist, rfl⟩ |
    ⟨_, _, ⟨_, _, ⟨_, _, ⟨word, hword, rfl⟩, hlow, rfl⟩, ⟨link, hlink, rfl⟩, rfl⟩, hhigh, rfl⟩) |
    ⟨_, _, ⟨word, hword, rfl⟩, hpattern, rfl⟩
  · obtain ⟨list, rfl⟩ := hlist.exists_single rfl
    have hinner : (Phrase.tokensAll hierarchy).length ≤ n + 1 ∧ list.tokens.length ≤ n + 1 := by
      simp at hlen
      omega
    have hoptional : (optional (·.isAtWord .hierarchy)).ReadsAll
        (.opt (.token (·.spells .hierarchy))) (n + 1) _ := optional_reads _ fun c hc => hc
    have hstarts : (Form.inList context).StartsWith .lparen :=
      ⟨⟨⟨Form.startsWith_tok, .inl rfl⟩, .inl rfl⟩, ⟨Form.startsWith_tok, .inl rfl⟩, .inl rfl⟩
    refine .choose ?_ (.settle (.cast ((keyword_gives hword).bind ((hoptional hierarchy hhierarchy
      hinner.1).bind ((inList_reads h list hlist hinner.2).map.mono fun _ _ => trivial) ?_) .any)
      (by simp)))
    · exact fun c d hpass _ => isAt_iff.mpr (hpass.kind.trans hword)
    · intro c d hpass _
      have hkind := of_decide_eq_true (hlist.kind_of_passes_single hstarts rfl hpass)
      exact isAtWord_of_kind (by simp [hkind])
  · obtain ⟨low, rfl⟩ := hlow.exists_single rfl
    obtain ⟨high, rfl⟩ := hhigh.exists_single rfl
    have hinner : low.tokens.length ≤ n + 1 ∧ high.tokens.length ≤ n + 1 := by
      simp at hlen
      omega
    refine .pass (fun c d hpass _ => ?_) (.choose (fun c d hpass _ => ?_) (.settle (.cast
      ((keyword_gives hword).bind ((additive_reads h low hlow hinner.1).bind ((keyword_gives hlink).bind
      (additive_reads h high hhigh hinner.2).map .any) ?_) .any) (by simp))))
    · simp [isAt_iff, hpass.kind, hword]
    · exact isAt_iff.mpr (hpass.kind.trans hword)
    · exact .cons fun c hc => .of_kind (hc.trans hlink) rfl
  · obtain ⟨pattern, rfl⟩ := hpattern.exists_single rfl
    have hinner : pattern.tokens.length ≤ n + 1 := by
      simp at hlen
      omega
    refine .pass (fun c d hpass _ => ?_) (.pass (fun c d hpass _ => ?_) (.settle (.cast
      ((keyword_gives hword).bind (additive_reads h pattern hpattern hinner).map .any) (by simp))))
    · simp [isAt_iff, hpass.kind, hword]
    · simp [isAt_iff, hpass.kind, hword]

lemma not_refs_of_kind {c : Cursor} (h : c.kind ≠ .identifier) :
    ¬ (c.isAtWord .refs && c.nextKind = .identifier) = true := by
  simp [isAtWord_of_kind h]

lemma comparison_reads (h : inner.Complete n) {ps : List Phrase}
    (hps : Builds (.token (·.kind.isComparison) ++ .additive context) ps)
    (hlen : (Phrase.tokensAll ps).length ≤ n + 1) :
    (test inner context).Gives (Phrase.tokensAll ps) EndsPredicate ps := by
  simp only [builds_append, builds_token] at hps
  obtain ⟨_, _, ⟨operator, hoperator, rfl⟩, hright, rfl⟩ := hps
  obtain ⟨right, rfl⟩ := hright.exists_single rfl
  have hinner : right.tokens.length ≤ n + 1 := by
    simp at hlen
    omega
  have hname : ∀ kind : TokenKind, kind.isComparison = true → kind ≠ .identifier := by decide
  refine .cast (.pass (fun c d hpass _ => ?_) (.choose (fun c d hpass _ => ?_) (.settle
    ((require_gives fun c hc => ?_).bind ((additive_reads h right hright hinner).map.mono
    fun d hd => hd.endsValue) .any)))) (by simp)
  · exact not_refs_of_kind (by rw [hpass.kind]; exact hname _ hoperator)
  · rw [hpass.kind, hoperator]
  · rw [Cursor.kind, hc, hoperator]

lemma nullTest_reads {ps : List Phrase} (hps : Builds (.word .is ++ .opt (.word .not) ++ .word .null) ps) :
    (test inner context).Gives (Phrase.tokensAll ps) EndsPredicate ps := by
  simp only [builds_append, builds_word] at hps
  obtain ⟨_, _, ⟨_, negation, ⟨word, hword, rfl⟩, hnegation, rfl⟩, ⟨null, hnull, rfl⟩, rfl⟩ := hps
  have hoptional := optional_isAt_reads (.keyword .not) _ negation hnegation (Nat.le_refl _)
  refine .cast (.pass (fun c d hpass _ => ?_) (.pass (fun c d hpass _ => ?_) (.choose
    (fun c d hpass _ => isAt_iff.mpr (hpass.kind.trans hword)) (.settle ((keyword_gives hword).bind
    (hoptional.bind ((keyword_gives hnull).map.mono fun _ _ => trivial) ?_) .any))))) (by simp)
  · exact not_refs_of_kind (by simp [hpass.kind, hword])
  · simp [hpass.kind, hword, TokenKind.isComparison]
  · exact .cons fun c hc => by simp [hc, hnull]

lemma refsTest_reads {ps : List Phrase}
    (hps : Builds (.token (·.spells .refs) ++ .referencedTable) ps)
    (hlen : (Phrase.tokensAll ps).length ≤ n + 1) :
    (test inner context).Gives (Phrase.tokensAll ps) EndsPredicate ps := by
  simp only [builds_append, builds_token] at hps
  obtain ⟨_, _, ⟨word, hword, rfl⟩, htable, rfl⟩ := hps
  obtain ⟨table, rfl⟩ := htable.exists_single rfl
  have hinner : table.tokens.length ≤ n + 1 := by
    simp at hlen
    omega
  have hname : word.kind = .identifier := by
    simp only [Token.spells, Bool.and_eq_true, decide_eq_true_eq] at hword
    exact hword.1
  have hdot : ∀ d : Cursor, d.EndsPredicate → d.kind ≠ .dot := by
    intro d hd hkind
    simp [hkind, EndsPredicate, TokenKind.extendsPredicate, TokenKind.extendsValue,
      TokenKind.extendsTerm, TokenKind.extendsOperand] at hd
  refine .cast (.choose (fun c d hpass _ => ?_) (.settle ((expect_gives hname).bind
    ((namedPath_reads .table (n + 1) table htable hinner).map.mono hdot) .any))) (by simp)
  have hstarts : Form.referencedTable.StartsWith .identifier := ⟨Form.startsWith_tok, .inl rfl⟩
  have hnext : c.nextKind = .identifier := by
    rw [nextKind_eq hpass.following_ne_nil]
    exact of_decide_eq_true (htable.kind_of_passes_single hstarts rfl hpass.advance)
  rw [isAtWord, hpass.current, hword, hnext]
  rfl

lemma membershipTest_reads (h : inner.Complete n) {ps : List Phrase}
    (hps : Builds (.opt (.word .not) ++ .membership context) ps)
    (hlen : (Phrase.tokensAll ps).length ≤ n + 1) :
    (test inner context).Gives (Phrase.tokensAll ps) EndsPredicate ps := by
  have hkind : ∀ kind : TokenKind, isMembership kind = true → kind ≠ .identifier ∧
      kind.isComparison = false ∧ kind ≠ .keyword .is ∧ kind ≠ .keyword .not := by decide
  simp only [builds_append, builds_opt, builds_word] at hps
  obtain ⟨left, rest, hleft, hrest, rfl⟩ := hps
  rcases hleft with rfl | ⟨word, hword, rfl⟩
  · have hahead := fun c d (hpass : Cursor.Passes c (Phrase.tokensAll rest) d) =>
      hrest.kind_of_passes (w := []) (Form.membership_leads context) rfl (by simpa using hpass)
    refine .pass (fun c d hpass _ => ?_) (.pass (fun c d hpass _ => ?_) (.pass
      (fun c d hpass _ => ?_) (.pass (fun c d hpass _ => ?_) (.choose (fun c d hpass _ =>
      hahead c d hpass) (.settle ((membership_reads h rest hrest hlen).mono fun d hd =>
      hd.endsValue))))))
    · exact not_refs_of_kind (hkind _ (hahead c d hpass)).1
    · simp [(hkind _ (hahead c d hpass)).2.1]
    · exact mt isAt_iff.mp (hkind _ (hahead c d hpass)).2.2.1
    · simp [isAt, (hkind _ (hahead c d hpass)).2.2.2]
  · have hinner : (Phrase.tokensAll rest).length ≤ n + 1 := by
      simp at hlen
      omega
    refine .cast (.pass (fun c d hpass _ => ?_) (.pass (fun c d hpass _ => ?_) (.pass
      (fun c d hpass _ => ?_) (.choose (fun c d hpass _ => ?_) (.settle ((keyword_gives hword).bind
      ((membership_reads h rest hrest hinner).map.mono fun d hd => hd.endsValue) .any)))))) (by simp)
    · exact not_refs_of_kind (by simp [hpass.kind, hword])
    · simp [hpass.kind, hword, TokenKind.isComparison]
    · simp [isAt_iff, hpass.kind, hword]
    · have hnext : isMembership c.nextKind = true := by
        rw [nextKind_eq hpass.following_ne_nil]
        exact hrest.kind_of_passes (w := []) (Form.membership_leads context) rfl
          (by simpa using hpass.advance)
      rw [isAt_iff.mpr (hpass.kind.trans hword), hnext, Bool.true_and]

lemma noTest_reads : (test inner context).Gives [] EndsPredicate [] := by
  have hkind : ∀ kind : TokenKind, kind.extendsPredicate = false → kind.isComparison = false ∧
      kind ≠ .keyword .is ∧ kind ≠ .keyword .not ∧ isMembership kind = false := by decide
  have hsame : ∀ c d : Cursor, c.Passes [] d → d.EndsPredicate → c.EndsPredicate := by
    intro c d hpass hd
    rwa [Cursor.passes_nil_iff.mp hpass]
  refine .pass (fun c d hpass hd => ?_) (.pass (fun c d hpass hd => ?_) (.pass
    (fun c d hpass hd => ?_) (.pass (fun c d hpass hd => ?_) (.pass (fun c d hpass hd => ?_)
    (.settle .pure)))))
  · by_cases hname : c.kind = .identifier
    · simp [(hsame c d hpass hd).2 hname]
    · exact not_refs_of_kind hname
  · simp [(hkind _ (hsame c d hpass hd).1).1]
  · exact mt isAt_iff.mp (hkind _ (hsame c d hpass hd).1).2.1
  · simp [isAt, (hkind _ (hsame c d hpass hd).1).2.2.1]
  · simp [(hkind _ (hsame c d hpass hd).1).2.2.2]

lemma test_reads (h : inner.Complete n) :
    (test inner context).ReadsAll (.opt (.test context)) (n + 1) EndsPredicate := by
  intro ps hps hlen
  rcases builds_opt.mp hps with rfl | hps
  · exact noTest_reads
  · simp only [Form.test, builds_or] at hps
    rcases hps with ((hps | hps) | hps) | hps
    · exact comparison_reads h hps hlen
    · exact nullTest_reads hps
    · exact refsTest_reads hps hlen
    · exact membershipTest_reads h hps hlen

lemma predicate_reads (h : inner.Complete n) :
    (predicate inner context).Reads (.predicate context) (n + 1) EndsPredicate := by
  intro p hp hlen
  obtain ⟨left, said, hleft, hsaid, hp⟩ := builds_extended.mp hp
  obtain ⟨value, rfl⟩ := hleft.exists_single rfl
  have hvalue : p = if said.isEmpty then value else .node context.wrapper (value :: said) := by
    cases said with
    | nil => exact List.singleton_inj.mp hp
    | cons first rest => exact List.singleton_inj.mp hp
  have htokens : p.tokens = value.tokens ++ Phrase.tokensAll said := by
    rw [hvalue]
    cases said <;> simp
  rw [htokens, List.length_append] at hlen
  rw [htokens, hvalue]
  refine (additive_reads h value hleft (by omega)).bind (test_reads h said hsaid (by omega)).map ?_
  refine .leads_last hsaid (Form.test_leads context) (fun c hc => ?_) fun d hd => hd.endsValue
  have hkind : ∀ kind : TokenKind, kind.startsTest = true → kind.extendsValue = false := by decide
  exact hkind _ hc

lemma negation_reads (h : inner.Complete n) :
    (negation inner context).Reads (.negation context) (n + 1) EndsPredicate :=
  led_reads (predicate_reads h) rfl ⟨(Form.additive_leads context).mono (by decide), .inl rfl⟩

lemma conjunction_reads (h : inner.Complete n) :
    (conjunction inner context).Reads (.conjunction context) (n + 1)
      (fun d => d.EndsPredicate ∧ d.kind ≠ .keyword .and) := by
  intro p hp hlen
  have hoperator : ∀ c : Cursor, decide (c.kind = .keyword .and) = true → c.EndsPredicate :=
    fun c hc => .of_kind (of_decide_eq_true hc) rfl (by decide)
  exact (chain_reads (negation_reads h) hoperator p hp hlen).mono fun d hd =>
    ⟨hd.1, decide_eq_false hd.2⟩

lemma expression_reads (h : inner.Complete n) :
    (expression inner context).Reads (.expression context) (n + 1) EndsExpression := by
  intro p hp hlen
  have hoperator : ∀ c : Cursor, decide (c.kind = .keyword .or) = true →
      c.EndsPredicate ∧ c.kind ≠ .keyword .and := fun c hc =>
    ⟨.of_kind (of_decide_eq_true hc) rfl (by decide), by simp [of_decide_eq_true hc]⟩
  have hend : ∀ kind : TokenKind, kind.extendsExpression = false →
      kind.extendsPredicate = false ∧ kind ≠ .keyword .and ∧ kind ≠ .keyword .or := by decide
  rw [expression_eq]
  refine (chain_reads (conjunction_reads h) hoperator p hp hlen).mono fun d hd => ?_
  exact ⟨⟨⟨(hend _ hd.1).1, hd.2⟩, (hend _ hd.1).2.1⟩, decide_eq_false (hend _ hd.1).2.2⟩

end Grammar

end NullGuard
