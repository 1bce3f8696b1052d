import NullGuard.Proofs.GrammarLoops
import NullGuard.Proofs.PhraseSpans

/-!
# Reading moves on

Reading goes over the tokens from left to right and comes to its end on the first end token,
whatever the tokens are. Every rule of the grammar moves on, and takes a token if it reads anything;
so does every round of a loop. What is read does not depend on what stands behind the first end
token.
-/

namespace NullGuard

open Parse

namespace Cursor

variable {tokens taken : List Token} {c d : Cursor}

/-- The cursor is on one of the tokens, and not behind the first end token. -/
structure On (tokens : List Token) (c : Cursor) : Prop where
  current : (Token.closed tokens)[c.position]? = some c.current
  following : c.following = (Token.closed tokens).drop (c.position + 1)
  before_end : c.position ≤ (Token.beforeEnd tokens).length

lemma on_iff : c.On tokens ↔ c.rest = (Token.closed tokens).drop c.position ∧
    c.position ≤ (Token.beforeEnd tokens).length := by
  constructor
  · rintro ⟨hcurrent, hfollowing, hbefore⟩
    obtain ⟨hlt, hget⟩ := List.getElem?_eq_some_iff.mp hcurrent
    exact ⟨by rw [List.drop_eq_getElem_cons hlt, hget, ← hfollowing, rest], hbefore⟩
  · rintro ⟨hrest, hbefore⟩
    refine ⟨?_, ?_, hbefore⟩
    · rw [← List.head?_drop, ← hrest]
      rfl
    · rw [← List.tail_drop, ← hrest]
      rfl

lemma on_ofTokens (tokens : List Token) : (ofTokens tokens).On tokens := by
  rw [on_iff, position_ofTokens, rest_ofTokens]
  exact ⟨rfl, Nat.zero_le _⟩

/-- The first end token is behind all tokens before it. -/
lemma On.eof_iff (h : c.On tokens) :
    c.kind = .eof ↔ c.position = (Token.beforeEnd tokens).length := by
  obtain ⟨later, hclosed, hstop⟩ := Token.closed_eq tokens
  have hcurrent := h.current
  rw [hclosed] at hcurrent
  constructor
  · intro hkind
    by_contra hne
    have hlt := Nat.lt_of_le_of_ne h.before_end hne
    rw [List.getElem?_append_left hlt] at hcurrent
    exact Token.kind_ne_eof_of_mem_beforeEnd tokens _ (List.mem_of_getElem? hcurrent) hkind
  · intro hposition
    rw [hposition, List.getElem?_append_right (Nat.le_refl _), Nat.sub_self] at hcurrent
    rw [kind, ← Option.some.inj hcurrent, hstop]

lemma On.endsAhead (h : c.On tokens) : c.EndsAhead := by
  obtain ⟨later, hclosed, hstop⟩ := Token.closed_eq tokens
  refine ⟨Token.endOf tokens, ?_, by rw [hstop]; rfl⟩
  rw [(on_iff.mp h).1, hclosed, List.drop_append_of_le_length h.before_end]
  exact List.mem_append_right _ List.mem_cons_self

/-- One step over a token that is not an end token. -/
lemma On.advance (h : c.On tokens) (hkind : c.kind ≠ .eof) :
    c.advance.On tokens ∧ c.Passes [c.current] c.advance := by
  obtain ⟨later, hclosed, _⟩ := Token.closed_eq tokens
  have hlt : c.position < (Token.beforeEnd tokens).length :=
    Nat.lt_of_le_of_ne h.before_end (mt h.eof_iff.mpr hkind)
  have hne : c.following ≠ [] := by
    rw [h.following, Ne, List.drop_eq_nil_iff, hclosed, List.length_append, List.length_cons]
    omega
  have hpass := passes_advance hne
  refine ⟨on_iff.mpr ⟨?_, by rw [hpass.position]; exact hlt⟩, hpass⟩
  have hrest := hpass.rest
  rw [hpass.position, List.length_singleton, ← h.following]
  exact (List.cons.inj hrest).2.symm

lemma On.passes (h : c.On tokens) (hpass : c.Passes taken d)
    (heof : ∀ token ∈ taken, token.kind ≠ .eof) : d.On tokens := by
  induction taken generalizing c with
  | nil => exact passes_nil_iff.mp hpass ▸ h
  | cons token taken ih =>
    have hkind : c.kind ≠ .eof := hpass.kind ▸ heof token List.mem_cons_self
    exact ih (h.advance hkind).1 hpass.advance fun other hother =>
      heof other (List.mem_cons_of_mem _ hother)

/-- From the cursor on, what is read or what fails comes to a place ahead among the tokens, and a
token is taken if anything is read. -/
def MovesOn (tokens : List Token) (c : Cursor) : Except Failure (List Phrase × Cursor) → Prop
  | .ok (phrases, d) =>
    d.On tokens ∧ c.position ≤ d.position ∧ (phrases ≠ [] → c.position < d.position)
  | .error failure => failure.place.On tokens ∧ c.position ≤ failure.place.position

end Cursor

/-- A reader of phrases that hold tokens moves on. -/
lemma Parse.MakesAll.movesOn {reader : Parse (List Phrase)} {form : Form}
    (h : reader.MakesAll form) (hform : form.solid = true) {tokens : List Token} {c : Cursor}
    (hc : c.On tokens) : c.MovesOn tokens (reader c) := by
  have hmeets := h c
  unfold MeetsAt at hmeets
  have hplain {taken : List Token} (hinside : ∀ token ∈ taken, token.kind.endsStatement = false) :
      ∀ token ∈ taken, token.kind ≠ .eof := fun token htoken =>
    (TokenKind.endsStatement_eq_false.mp (hinside token htoken)).2
  cases hread : reader c with
  | ok result =>
    obtain ⟨phrases, d⟩ := result
    simp only [hread] at hmeets
    obtain ⟨taken, hpass, hinside, rfl, hbuilds⟩ := hmeets
    refine ⟨hc.passes hpass (hplain hinside), by rw [hpass.position]; omega, fun hne => ?_⟩
    obtain ⟨p, phrases, rfl⟩ := List.exists_cons_of_ne_nil hne
    have hp := (hbuilds.solid hform p List.mem_cons_self).tokens_ne_nil
    have hpos := List.length_pos_iff.mpr hp
    rw [hpass.position, Phrase.tokensAll_cons, List.length_append]
    omega
  | error failure =>
    simp only [hread] at hmeets
    obtain ⟨⟨taken, hpass, hinside⟩, _⟩ := hmeets
    exact ⟨hc.passes hpass (hplain hinside), by rw [hpass.position]; omega⟩

namespace Grammar

inductive Rule where
  | statement
  | query
  | limitations
  | selectList
  | selectedField
  | aliasClause
  | temporaryTable
  | dataSources
  | source
  | table
  | subquery
  | join
  | whereClause
  | groupBy
  | having
  | orderBy
  | byWord
  | name
  | expression (context : Context)
  | conjunction (context : Context)
  | negation (context : Context)
  | predicate (context : Context)
  | inList (context : Context)
  | referencedTable
  | additive (context : Context)
  | term (context : Context)
  | factor (context : Context)
  | primary (context : Context)
  | guardCall (context : Context)
  | operand (context : Context)
  | column
  | functionCall (context : Context)
  | castType
  | caseExpression (context : Context)

/-- The reader of a rule. Clauses are read with the word that leads them in, if it is there. -/
def Rule.read (inner : Nested) : Rule → Parse (List Phrase)
  | statement => one (Grammar.statement inner)
  | query => one (Grammar.query inner)
  | limitations => Grammar.limitations
  | selectList => one (Grammar.selectList inner)
  | selectedField => one (Grammar.selectedField inner)
  | aliasClause => Grammar.aliasClause
  | temporaryTable => optionalLed (·.isAt (.keyword .into)) Grammar.temporaryTable
  | dataSources => optionalLed (·.isAt (.keyword .from_)) (Grammar.dataSources inner)
  | source => one (Grammar.source inner)
  | table => one (Grammar.table inner)
  | subquery => one (Grammar.subquery inner)
  | join => optionalLed (·.kind.startsJoin) fun first => one (Grammar.join inner first)
  | whereClause => optionalLed (·.isAt (.keyword .where_)) (Grammar.whereClause inner)
  | groupBy => optionalLed (·.isAt (.keyword .group)) (Grammar.groupBy inner)
  | having => optionalLed (·.isAt (.keyword .having)) (Grammar.having inner)
  | orderBy => optionalLed (·.isAt (.keyword .order)) (Grammar.orderBy inner)
  | byWord => one Grammar.byWord
  | name => one Parse.name
  | expression context => one (Grammar.expression inner context)
  | conjunction context => one (Grammar.conjunction inner context)
  | negation context => one (Grammar.negation inner context)
  | predicate context => one (Grammar.predicate inner context)
  | inList context => one (Grammar.inList inner context)
  | referencedTable => one Grammar.referencedTable
  | additive context => one (Grammar.additive inner context)
  | term context => one (Grammar.term inner context)
  | factor context => one (Grammar.factor inner context)
  | primary context => one (Grammar.primary inner context)
  | guardCall context => one (Grammar.guardCall inner context)
  | operand context => one (Grammar.operand inner context)
  | column => one Grammar.column
  | functionCall context => one (Grammar.functionCall inner context)
  | castType => optionalLed (·.isAt (.keyword .as)) Grammar.castType
  | caseExpression context => one (Grammar.caseExpression inner context)

def Rule.form : Rule → Form
  | statement => .statement
  | query => .query
  | limitations => .limitations
  | selectList => .selectList
  | selectedField => .selectedField
  | aliasClause => .opt .aliasClause
  | temporaryTable => .opt .temporaryTable
  | dataSources => .opt .dataSources
  | source => .source
  | table => .table
  | subquery => .subquery
  | join => .opt .join
  | whereClause => .opt .whereClause
  | groupBy => .opt .groupBy
  | having => .opt .having
  | orderBy => .opt .orderBy
  | byWord => .byWord
  | name => .token (·.kind.isName)
  | expression context => .expression context
  | conjunction context => .conjunction context
  | negation context => .negation context
  | predicate context => .predicate context
  | inList context => .inList context
  | referencedTable => .referencedTable
  | additive context => .additive context
  | term context => .term context
  | factor context => .factor context
  | primary context => .primary context
  | guardCall context => .guardCall context
  | operand context => .operand context
  | column => .column
  | functionCall context => .functionCall context
  | castType => .opt .castType
  | caseExpression context => .caseExpression context

lemma Rule.solid_form (rule : Rule) : rule.form.solid = true := by
  cases rule with
  | expression context | conjunction context | negation context | predicate context
  | inList context | additive context | term context | factor context | primary context
  | guardCall context | operand context | functionCall context | caseExpression context =>
    cases context <;> rfl
  | _ => rfl

variable {inner : Nested}

lemma Rule.read_makes (h : inner.Sound) (rule : Rule) : (rule.read inner).MakesAll rule.form := by
  cases rule with
  | statement => exact one_makes (statement_makes h)
  | query => exact one_makes (query_makes h)
  | limitations => exact limitations_makes
  | selectList => exact one_makes (selectList_makes h)
  | selectedField => exact one_makes (selectedField_makes h)
  | aliasClause => exact aliasClause_makes
  | temporaryTable => exact optionalLed_makes (selects_isAt rfl) temporaryTable_makes
  | dataSources => exact optionalLed_makes (selects_isAt rfl) (dataSources_makes h)
  | source => exact one_makes (source_makes h)
  | table => exact one_makes (table_makes h)
  | subquery => exact one_makes (subquery_makes h)
  | join =>
    refine optionalLed_makes (selects_of_kind fun _ => endsStatement_of_startsJoin)
      fun first hfirst => (join_makes h hfirst).bind fun _ p hp => .pure ⟨?_, hp.2⟩
    simp [hp.1]
  | whereClause => exact optionalLed_makes (selects_isAt rfl) (whereClause_makes h)
  | groupBy => exact optionalLed_makes (selects_isAt rfl) (groupBy_makes h)
  | having => exact optionalLed_makes (selects_isAt rfl) (having_makes h)
  | orderBy => exact optionalLed_makes (selects_isAt rfl) (orderBy_makes h)
  | byWord => exact one_makes byWord_makes
  | name => exact one_makes name_makes
  | expression context => exact one_makes (expression_makes h)
  | conjunction context => exact one_makes (conjunction_makes h)
  | negation context => exact one_makes (negation_makes h)
  | predicate context => exact one_makes (predicate_makes h)
  | inList context => exact one_makes (inList_makes h)
  | referencedTable => exact one_makes referencedTable_makes
  | additive context => exact one_makes (additive_makes h)
  | term context => exact one_makes (term_makes h)
  | factor context => exact one_makes (factor_makes h)
  | primary context => exact one_makes (primary_makes h)
  | guardCall context => exact one_makes (guardCall_makes h)
  | operand context => exact one_makes (operand_makes h)
  | column => exact one_makes column_makes
  | functionCall context => exact one_makes (functionCall_makes h)
  | castType => exact optionalLed_makes (selects_isAt rfl) castType_makes
  | caseExpression context => exact one_makes (caseExpression_makes h)

end Grammar

/-- Skipping goes one token on until the statement ends. -/
lemma Cursor.skipStatement_eq_ite (c : Cursor) :
    c.skipStatement = if c.kind.endsStatement then c else c.advance.skipStatement := by
  obtain ⟨position, current, following⟩ := c
  cases following with
  | nil => split <;> rfl
  | cons next later => rfl

/-- Whether a path goes on to a star is told by the tokens up to the end of the statement. -/
lemma Token.leadToStar_takeWhile (tokens : List Token) :
    leadToStar (tokens.takeWhile fun token => !token.kind.endsStatement) = leadToStar tokens := by
  induction tokens using leadToStar.induct with
  | case1 dot next later ih =>
    cases hdot : dot.kind.endsStatement with
    | true =>
      rw [List.takeWhile_cons_of_neg (by simp [hdot]), Grammar.leadToStar_of_ends hdot]
      rfl
    | false =>
      cases hnext : next.kind.endsStatement with
      | true =>
        rw [List.takeWhile_cons_of_pos (by simp [hdot]),
          List.takeWhile_cons_of_neg (by simp [hnext]), Grammar.leadToStar_of_next_ends hnext]
        rfl
      | false =>
        rw [List.takeWhile_cons_of_pos (by simp [hdot]),
          List.takeWhile_cons_of_pos (by simp [hnext]), leadToStar, leadToStar, ih]
  | case2 tokens hshort =>
    rcases tokens with _ | ⟨token, _ | ⟨next, later⟩⟩
    · rfl
    · cases hends : token.kind.endsStatement <;> simp [hends, leadToStar]
    · exact (hshort token next later rfl).elim

namespace Part

/-- The parts of a package from a place to the end, as they are read: a semicolon, or a statement up
to where it ends, each of which moves on. -/
inductive Run (tokens : List Token) : Cursor → List Part → Cursor → Prop where
  | stop {c : Cursor} (hon : c.On tokens) (hkind : c.kind = .eof) : Run tokens c [] c
  | separator {c e : Cursor} {parts : List Part} (hon : c.On tokens) (hkind : c.kind = .semicolon)
      (hmoves : c.position < c.advance.position) (hmore : Run tokens c.advance parts e) :
      Run tokens c (.separator (.leaf c.current) :: parts) e
  | part {c e : Cursor} {parts : List Part} (hon : c.On tokens)
      (hkind : c.kind.endsStatement = false) (hmoves : c.position < (next c).2.position)
      (hmore : Run tokens (next c).2 parts e) : Run tokens c ((next c).1 :: parts) e

/-- A run comes to its end on the first end token. -/
lemma Run.ends {tokens : List Token} {c e : Cursor} {parts : List Part}
    (h : Run tokens c parts e) : e.On tokens ∧ e.kind = .eof := by
  induction h with
  | stop hon hkind => exact ⟨hon, hkind⟩
  | separator _ _ _ _ ih => exact ih
  | part _ _ _ _ ih => exact ih

/-- The tokens ahead are no limit to the number of parts. -/
lemma exists_run {tokens : List Token} (ahead : List Token) {c : Cursor} (hc : c.On tokens)
    (hahead : (Token.beforeEnd tokens).length < c.position + ahead.length) :
    ∃ e, Run tokens c (allWithin ahead c) e := by
  induction ahead generalizing c with
  | nil =>
    have hbefore := hc.before_end
    rw [List.length_nil] at hahead
    omega
  | cons mark ahead ih =>
    rw [List.length_cons] at hahead
    by_cases heof : c.kind = .eof
    · exact ⟨c, allWithin_of_eof (mark :: ahead) heof ▸ .stop hc heof⟩
    by_cases hsemicolon : c.kind = .semicolon
    · obtain ⟨hadvance, hpass⟩ := hc.advance heof
      have hposition : c.advance.position = c.position + 1 := hpass.position
      obtain ⟨e, hrun⟩ := ih hadvance (by omega)
      refine ⟨e, ?_⟩
      rw [allWithin_of_semicolon hsemicolon]
      exact .separator hc hsemicolon (by omega) hrun
    · have hinside := TokenKind.endsStatement_eq_false.mpr ⟨hsemicolon, heof⟩
      obtain ⟨segment, hne, hpass, hplain, _⟩ := next_covers c hc.endsAhead hinside
      have hpos := List.length_pos_iff.mpr hne
      have hposition := hpass.position
      have hnext := hc.passes hpass fun token htoken =>
        (TokenKind.endsStatement_eq_false.mp (hplain token htoken)).2
      obtain ⟨e, hrun⟩ := ih hnext (by omega)
      refine ⟨e, ?_⟩
      rw [allWithin_of_inside hinside]
      exact .part hc hinside (by omega) hrun

end Part

namespace Token

/-- The tokens up to the first end token and with it. -/
def untilEnd (tokens : List Token) : List Token := tokens.take ((beforeEnd tokens).length + 1)

/-- Tokens have an end token behind those before the first, or there is none. -/
lemma untilEnd_cases (tokens : List Token) : untilEnd tokens = tokens ∨
    ∃ u stop later, stop.kind = .eof ∧ (∀ token ∈ u, token.kind ≠ .eof) ∧
      tokens = u ++ stop :: later ∧ untilEnd tokens = u ++ [stop] := by
  by_cases h : ∃ token ∈ tokens, token.kind = .eof
  · obtain ⟨stop, later, _, hstop, hsplit⟩ := exists_split_of_mem_eof h
    refine .inr ⟨beforeEnd tokens, stop, later, hstop, kind_ne_eof_of_mem_beforeEnd tokens, hsplit,
      ?_⟩
    have hlength : (tokens.takeWhile (·.kind ≠ .eof)).length = (beforeEnd tokens).length := rfl
    rw [untilEnd]
    nth_rewrite 2 [hsplit]
    rw [← hlength, List.take_length_add_append]
    rfl
  · refine .inl ?_
    have hbefore : beforeEnd tokens = tokens := by
      refine List.takeWhile_eq_self_iff.mpr fun token htoken => ?_
      simpa using fun hkind => h ⟨token, htoken, hkind⟩
    rw [untilEnd, hbefore, List.take_of_length_le (Nat.le_succ _)]

/-- Closing adds an end token behind all tokens, if anything. -/
lemma exists_closed_append (tokens : List Token) : ∃ more, closed tokens = tokens ++ more := by
  unfold closed
  split
  · exact ⟨[eof 0], by simp_all⟩
  · split
    · exact ⟨[], (List.append_nil _).symm⟩
    · exact ⟨_, rfl⟩

end Token

/-- Nothing is read behind the first end token. -/
lemma Part.all_untilEnd (tokens : List Token) :
    List.Forall₂ (Alike Eq Eq) (all (.ofTokens tokens))
      (all (.ofTokens (Token.untilEnd tokens))) := by
  rcases Token.untilEnd_cases tokens with hsame | ⟨u, stop, later, hstop, heof, htokens, hcut⟩
  · rw [hsame]
    exact Part.all_alike Token.likeness_eq (List.forall₂_refl _)
  · obtain ⟨more, hmore⟩ := Token.exists_closed_append tokens
    obtain ⟨more', hmore'⟩ := Token.exists_closed_append (Token.untilEnd tokens)
    rw [htokens, List.append_assoc, List.cons_append, ← htokens] at hmore
    rw [hcut, List.append_assoc, List.singleton_append, ← hcut] at hmore'
    exact Part.all_alike_of_closed Token.likeness_eq hmore hmore' (List.forall₂_refl u) rfl heof
      hstop

/-- The same parts, at any places, make the same tree and the same diagnostics. -/
lemma Parsed.ofParts_congr {parts parts' : List Part}
    (h : List.Forall₂ (Part.Alike Eq Eq) parts parts') (scanned : List Diagnostic) :
    (ofParts scanned parts).tree = (ofParts scanned parts').tree ∧
      (ofParts scanned parts).diagnostics = (ofParts scanned parts').diagnostics := by
  have hsame := diagnostics_alike h scanned
  have hpackage : Part.package parts = Part.package parts' := by
    rw [Part.package, Part.package, Phrase.Alike.eq_all (Part.phrases_alike h)]
  refine ⟨?_, hsame⟩
  rw [(ofParts_eq scanned parts).2, (ofParts_eq scanned parts').2, hpackage, hasErrors, hasErrors,
    hsame, Part.any_isStatement_eq h]

/-- Reading a list of tokens moves on, in all of its parts. -/
structure ReadingMovesOn (tokens : List Token) : Prop where
  /-- The readers call each other as the grammar says, to any depth, and no others do. -/
  nested : Grammar.Solves Grammar.unbounded ∧ ∀ inner, Grammar.Solves inner → ∀ context c,
    c.On tokens → inner.expression context c = Grammar.unbounded.expression context c ∧
      inner.statement c = Grammar.unbounded.statement c ∧
      inner.source c = Grammar.unbounded.source c
  /-- A rule goes on to another token, if not behind the first end token, and takes a token if it
  reads anything. -/
  rules : ∀ (rule : Grammar.Rule) (c : Cursor), c.On tokens →
    c.MovesOn tokens (rule.read Grammar.unbounded c)
  /-- The readers of the grammar run the loops. -/
  runs : ∀ (loop : Grammar.Loop) (mark : Token), loop.reader Grammar.unbounded mark =
    loop.around Grammar.unbounded mark (loop.body Grammar.unbounded).read
  /-- A loop has as many rounds as there are, and each takes a token. -/
  loops : ∀ (loop : Grammar.Loop) (c : Cursor), c.On tokens → (loop.body Grammar.unbounded).Ends c
  /-- Behind a failure tokens are skipped one by one until the statement ends. -/
  skips : ∀ c : Cursor, c.On tokens →
    c.skipStatement = (if c.kind.endsStatement then c else c.advance.skipStatement) ∧
      (c.kind.endsStatement = false → c.advance.On tokens ∧ c.position < c.advance.position)
  /-- Looking ahead for a star stops at the end of the statement. -/
  lookahead : ∀ c : Cursor, c.isAtQualifiedStar = (c.isAt .identifier &&
    Token.leadToStar (c.following.takeWhile fun token => !token.kind.endsStatement))
  /-- The package is read from the first token to the first end token, and each part moves on. -/
  package : ∃ e, Part.Run tokens (.ofTokens tokens) (Part.all (.ofTokens tokens)) e ∧
    e.On tokens ∧ e.kind = .eof ∧ e.position = (Token.beforeEnd tokens).length
  /-- What stands behind the first end token does not matter. -/
  cut : ∀ scanned,
    (parseTokens scanned tokens).tree = (parseTokens scanned (Token.untilEnd tokens)).tree ∧
      (parseTokens scanned tokens).diagnostics =
        (parseTokens scanned (Token.untilEnd tokens)).diagnostics

/-- Any tokens are read, from left to right and up to the first end token. -/
theorem parseTokens_moves_on (tokens : List Token) : ReadingMovesOn tokens where
  nested := ⟨Grammar.unbounded_solves, fun _ h _ _ hc => h.eq_unbounded hc.endsAhead⟩
  rules rule _ hc :=
    (rule.read_makes Grammar.unbounded_sound).movesOn rule.solid_form hc
  runs loop mark := loop.reader_eq Grammar.unbounded mark
  loops loop c _ := (loop.steady Grammar.unbounded_sound).ends c
  skips c hc := by
    refine ⟨c.skipStatement_eq_ite, fun hinside => ?_⟩
    obtain ⟨hon, hpass⟩ := hc.advance (TokenKind.endsStatement_eq_false.mp hinside).2
    exact ⟨hon, by rw [hpass.position]; exact Nat.lt_succ_self _⟩
  lookahead c := by rw [Token.leadToStar_takeWhile, Cursor.isAtQualifiedStar]
  package := by
    have hstart := Cursor.on_ofTokens tokens
    obtain ⟨later, hclosed, _⟩ := Token.closed_eq tokens
    obtain ⟨e, hrun⟩ := Part.exists_run (Cursor.ofTokens tokens).rest hstart (by
      rw [Cursor.rest_ofTokens, hclosed, List.length_append, List.length_cons]
      omega)
    obtain ⟨hon, hkind⟩ := hrun.ends
    exact ⟨e, hrun, hon, hkind, hon.eof_iff.mp hkind⟩
  cut scanned := Parsed.ofParts_congr (Part.all_untilEnd tokens) scanned

end NullGuard
