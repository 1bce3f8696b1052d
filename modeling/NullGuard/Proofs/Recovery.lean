import NullGuard.Proofs.PackageTree

/-!
# What becomes of the tokens of a package

The tokens before the first end token fall into segments at the semicolons. Each segment is kept as
a whole, kept up to a token with which an error is told, or left out with an error; nothing else
happens to tokens. The step from one part of a package to the next is `Part.next_covers`, and
`Part.exists_account` takes it through all segments.
-/

namespace NullGuard

lemma TokenKind.endsStatement_eq_false {kind : TokenKind} :
    kind.endsStatement = false ↔ kind ≠ .semicolon ∧ kind ≠ .eof := by
  cases kind <;> simp [endsStatement]

namespace Cursor

/-- Skipping goes over tokens inside of a statement, up to its end. -/
lemma skipStatement_passes (c : Cursor) (h : ∃ token ∈ c.rest, token.kind.endsStatement = true) :
    ∃ skipped, c.Passes skipped c.skipStatement ∧
      (∀ token ∈ skipped, token.kind.endsStatement = false) ∧
      c.skipStatement.kind.endsStatement = true := by
  obtain ⟨position, current, following⟩ := c
  induction following generalizing position current with
  | nil =>
    simp only [rest, List.mem_singleton, exists_eq_left] at h
    exact ⟨[], .refl _, by simp, h⟩
  | cons next later ih =>
    by_cases hcurrent : current.kind.endsStatement = true
    · refine ⟨[], ?_, by simp, ?_⟩ <;> simp [skipStatement, skipFrom, hcurrent, kind]
    · have hnext : ∃ token ∈ next :: later, token.kind.endsStatement = true := by
        obtain ⟨token, hmem, htoken⟩ := h
        rcases List.mem_cons.mp hmem with rfl | hmem
        · exact absurd htoken hcurrent
        · exact ⟨token, hmem, htoken⟩
      obtain ⟨skipped, hpass, hinside, hends⟩ := ih (position + 1) next hnext
      have hskip : skipStatement ⟨position, current, next :: later⟩ =
          skipStatement ⟨position + 1, next, later⟩ := by
        simp [skipStatement, skipFrom, hcurrent]
      rw [hskip]
      refine ⟨current :: skipped, ?_, ?_, hends⟩
      · exact passes_cons_iff.mpr ⟨rfl, by simp, hpass⟩
      · intro token hmem
        rcases List.mem_cons.mp hmem with rfl | hmem
        · simpa using hcurrent
        · exact hinside token hmem

/-- Where a passage goes on, the current token is its first, or the one behind it. -/
lemma Passes.current_mem {c d : Cursor} {tokens : List Token} (h : c.Passes tokens d) :
    c.current ∈ tokens ++ [d.current] := by
  cases tokens with
  | nil =>
    obtain rfl := passes_nil_iff.mp h
    simp
  | cons token tokens =>
    rw [h.current]
    simp

end Cursor

namespace Part

/-- What a part of a package makes of a segment with a token behind it. -/
inductive Covers (segment : List Token) (stop : Token) : Part → Prop where
  | statement {p : Phrase} (hp : Builds (.call .statement) [p]) (htokens : p.tokens = segment) :
      Covers segment stop (.statement p)
  | truncated {p : Phrase} {after : Cursor} {dropped : List Token} {skipped : Nat}
      (hp : Builds (.call .statement) [p])
      (htokens : segment = p.tokens ++ after.current :: dropped) :
      Covers segment stop (.truncated p ⟨.statementEnd, after⟩ skipped)
  | rejected {failure : Failure} {skipped : Nat} (hexpected : failure.expected ≠ .statementEnd)
      (hplace : failure.place.current ∈ segment ++ [stop]) :
      Covers segment stop (.rejected failure skipped)

/-- The next part covers the tokens up to the end of the statement. -/
lemma next_covers (c : Cursor) (h : ∃ token ∈ c.rest, token.kind.endsStatement = true)
    (hc : c.kind.endsStatement = false) :
    ∃ segment, segment ≠ [] ∧ c.Passes segment (next c).2 ∧
      (∀ token ∈ segment, token.kind.endsStatement = false) ∧
      (next c).2.kind.endsStatement = true ∧ Covers segment (next c).2.current (next c).1 := by
  have hahead : ∀ {d : Cursor} {taken : List Token}, c.Passes taken d →
      (∀ token ∈ taken, token.kind.endsStatement = false) →
      ∃ token ∈ d.rest, token.kind.endsStatement = true := by
    intro d taken hpass hinside
    obtain ⟨token, hmem, htoken⟩ := h
    rw [hpass.rest] at hmem
    rcases List.mem_append.mp hmem with hmem | hmem
    · rw [hinside token hmem] at htoken
      cases htoken
    · exact ⟨token, hmem, htoken⟩
  have hne : ∀ {d : Cursor} {segment : List Token}, c.Passes segment d →
      d.kind.endsStatement = true → segment ≠ [] := by
    rintro d _ hpass hd rfl
    rw [Cursor.passes_nil_iff.mp hpass, hd] at hc
    cases hc
  have hmakes := Parse.statement_makes c
  unfold Parse.MeetsAt at hmakes
  unfold next
  cases hread : Parse.statement c with
  | ok result =>
    obtain ⟨p, after⟩ := result
    simp only [hread] at hmakes ⊢
    obtain ⟨taken, hpass, hinside, rfl, hp⟩ := hmakes
    by_cases hafter : after.kind.endsStatement = true
    · rw [if_pos hafter]
      exact ⟨p.tokens, hne hpass hafter, hpass, hinside, hafter, .statement hp rfl⟩
    · rw [if_neg hafter]
      obtain ⟨skipped, hskip, hskipped, hstop⟩ := after.skipStatement_passes (hahead hpass hinside)
      cases skipped with
      | nil =>
        rw [← Cursor.passes_nil_iff.mp hskip] at hstop
        exact absurd hstop hafter
      | cons token dropped =>
        have htokens : p.tokens ++ token :: dropped = p.tokens ++ after.current :: dropped := by
          rw [hskip.current]
        exact ⟨p.tokens ++ token :: dropped, by simp, hpass.trans hskip,
          List.forall_mem_append.mpr ⟨hinside, hskipped⟩, hstop, .truncated hp htokens⟩
  | error failure =>
    simp only [hread] at hmakes ⊢
    obtain ⟨⟨taken, hpass, hinside⟩, hexpected⟩ := hmakes
    obtain ⟨skipped, hskip, hskipped, hstop⟩ :=
      failure.place.skipStatement_passes (hahead hpass hinside)
    have hpassed := hpass.trans hskip
    refine ⟨taken ++ skipped, hne hpassed hstop, hpassed,
      List.forall_mem_append.mpr ⟨hinside, hskipped⟩, hstop, .rejected hexpected ?_⟩
    rw [List.append_assoc]
    exact List.mem_append_right _ hskip.current_mem

end Part

namespace Token

/-- The tokens before the first end token. -/
def beforeEnd (tokens : List Token) : List Token := tokens.takeWhile (·.kind ≠ .eof)

/-- The end token behind them, which is added if there is none. -/
def endOf (tokens : List Token) : Token := ((closed tokens).find? (·.kind = .eof)).getD (eof 0)

lemma beforeEnd_append {tokens later : List Token} (htokens : ∀ token ∈ tokens, token.kind ≠ .eof)
    (hlater : beforeEnd later = []) : beforeEnd (tokens ++ later) = tokens := by
  rw [beforeEnd, List.takeWhile_append_of_pos (by simpa using htokens), ← beforeEnd, hlater,
    List.append_nil]

/-- The segments between semicolons, each with the token behind it. -/
def segments (stop : Token) : List Token → List (List Token × Token)
  | [] => [([], stop)]
  | token :: tokens =>
    if token.kind = .semicolon then ([], token) :: segments stop tokens
    else
      match segments stop tokens with
      | (segment, behind) :: later => (token :: segment, behind) :: later
      | [] => []

lemma exists_split_of_mem_eof {tokens : List Token} (h : ∃ token ∈ tokens, token.kind = .eof) :
    ∃ stop later, tokens.find? (·.kind = .eof) = some stop ∧ stop.kind = .eof ∧
      tokens = tokens.takeWhile (·.kind ≠ .eof) ++ stop :: later := by
  induction tokens with
  | nil => simp at h
  | cons token tokens ih =>
    by_cases htoken : token.kind = .eof
    · exact ⟨token, tokens, by simp [htoken], htoken, by simp [htoken]⟩
    · obtain ⟨other, hmem, hother⟩ := h
      rcases List.mem_cons.mp hmem with rfl | hmem
      · exact absurd hother htoken
      · obtain ⟨stop, later, hfind, hstop, hsplit⟩ := ih ⟨other, hmem, hother⟩
        refine ⟨stop, later, by simpa [htoken] using hfind, hstop, ?_⟩
        simpa [htoken] using hsplit

/-- Closing adds nothing before the first end token, and there is one behind. -/
lemma closed_eq (tokens : List Token) : ∃ later,
    closed tokens = beforeEnd tokens ++ endOf tokens :: later ∧ (endOf tokens).kind = .eof := by
  have hclosed : (∃ token ∈ closed tokens, token.kind = .eof) ∧
      (closed tokens).takeWhile (·.kind ≠ .eof) = beforeEnd tokens := by
    unfold closed beforeEnd
    cases hlast : tokens.getLast? with
    | none =>
      rw [List.getLast?_eq_none_iff.mp hlast]
      simp [eof]
    | some last =>
      by_cases hkind : last.kind = .eof
      · simp only [hkind, if_true]
        exact ⟨⟨last, List.mem_of_getLast? hlast, hkind⟩, trivial⟩
      · simp only [hkind, if_false]
        refine ⟨⟨eof last.span.stop, by simp, rfl⟩, ?_⟩
        rw [List.takeWhile_append]
        split
        case isTrue hall =>
          rw [List.takeWhile_cons_of_neg (by simp [eof]), List.append_nil]
          exact ((List.takeWhile_prefix _).eq_of_length hall).symm
        case isFalse => rfl
  obtain ⟨stop, later, hfind, hstop, hsplit⟩ := exists_split_of_mem_eof hclosed.1
  rw [hclosed.2] at hsplit
  have hend : endOf tokens = stop := by rw [endOf, hfind, Option.getD_some]
  rw [hend]
  exact ⟨later, hsplit, hstop⟩

/-- A scan ends with an end token, so closing adds none. -/
lemma closed_scan (source : String) : closed (scan source).tokens = (scan source).tokens := by
  unfold closed scan
  rw [List.getLast?_concat]
  rfl

lemma segments_ne_nil (stop : Token) (tokens : List Token) : segments stop tokens ≠ [] := by
  induction tokens with
  | nil => simp [segments]
  | cons token tokens ih =>
    rw [segments]
    split
    · simp
    · cases hsegments : segments stop tokens with
      | nil => exact absurd hsegments ih
      | cons first later => simp

/-- The segments and the semicolons between them are all tokens. -/
lemma flatMap_segments {stop : Token} (h : stop.kind = .eof) (tokens : List Token) :
    (segments stop tokens).flatMap (fun (segment, behind) =>
      segment ++ if behind.kind = .semicolon then [behind] else []) = tokens := by
  induction tokens with
  | nil => simp [segments, h]
  | cons token tokens ih =>
    rw [segments]
    split
    case isTrue hsemicolon => simp [hsemicolon, ih]
    case isFalse =>
      cases hsegments : segments stop tokens with
      | nil => exact absurd hsegments (segments_ne_nil stop tokens)
      | cons first later =>
        rw [hsegments] at ih
        simpa using ih

lemma segments_append {stop : Token} {segment tokens : List Token}
    (h : ∀ token ∈ segment, token.kind ≠ .semicolon) {first : List Token} {behind : Token}
    {later : List (List Token × Token)} (hrest : segments stop tokens = (first, behind) :: later) :
    segments stop (segment ++ tokens) = (segment ++ first, behind) :: later := by
  induction segment with
  | nil => exact hrest
  | cons token segment ih =>
    have htoken := h token (by simp)
    rw [List.cons_append, segments, if_neg htoken,
      ih fun other hother => h other (List.mem_cons_of_mem _ hother)]
    rfl

lemma exists_tail {segment tail tokens later : List Token} {stop : Token}
    (h : segment ++ tail = tokens ++ stop :: later)
    (hinside : ∀ token ∈ segment, token.kind.endsStatement = false)
    (hstop : stop.kind.endsStatement = true) :
    ∃ rest, tokens = segment ++ rest ∧ tail = rest ++ stop :: later := by
  rcases List.append_eq_append_iff.mp h with ⟨rest, hrest, htail⟩ | ⟨rest, hrest, htail⟩
  · exact ⟨rest, hrest, htail⟩
  · cases rest with
    | nil => exact ⟨[], by simpa using hrest.symm, by simpa using htail.symm⟩
    | cons token rest =>
      obtain ⟨rfl, _⟩ := List.cons.inj htail
      have := hinside stop (by rw [hrest]; simp)
      rw [this] at hstop
      cases hstop

lemma segments_of_ends {c : Cursor} {tokens later : List Token} {stop : Token}
    (h : c.rest = tokens ++ stop :: later) (hc : c.kind.endsStatement = true)
    (htokens : ∀ token ∈ tokens, token.kind ≠ .eof) :
    ∃ segments', segments stop tokens = ([], c.current) :: segments' := by
  cases tokens with
  | nil => exact ⟨[], by rw [(List.cons.inj h).1]; rfl⟩
  | cons token tokens =>
    have hcurrent : c.current = token := (List.cons.inj h).1
    have hsemicolon : token.kind = .semicolon := by
      have heof := htokens token (by simp)
      rw [Cursor.kind, hcurrent] at hc
      cases hk : token.kind <;> simp_all [TokenKind.endsStatement]
    exact ⟨segments stop tokens, by rw [segments, if_pos hsemicolon, hcurrent]⟩

end Token

lemma Cursor.rest_ofTokens (tokens : List Token) :
    (Cursor.ofTokens tokens).rest = Token.closed tokens := by
  obtain ⟨later, hclosed, _⟩ := Token.closed_eq tokens
  unfold ofTokens
  cases hlist : Token.closed tokens with
  | nil => simp [hlist] at hclosed
  | cons first rest => rfl

/-- Over all tokens before the first end token a cursor comes to an end. -/
lemma Cursor.exists_passes_end (tokens : List Token) :
    ∃ e, (Cursor.ofTokens tokens).Passes (Token.beforeEnd tokens) e ∧ e.kind = .eof := by
  obtain ⟨later, hclosed, hstop⟩ := Token.closed_eq tokens
  exact ⟨⟨_, Token.endOf tokens, later⟩, ⟨(rest_ofTokens tokens).trans hclosed, rfl⟩, hstop⟩

/-- What becomes of a segment: the tokens that are kept as a child of the package, and the error. -/
structure Outcome where
  child : Option (List Token)
  error : Option Diagnostic

/-- What can become of a segment with a token behind it. -/
inductive Outcome.Fits (stop : Token) : List Token → Outcome → Prop where
  | empty : Fits stop [] ⟨none, none⟩
  | whole {segment : List Token} (h : segment ≠ []) : Fits stop segment ⟨some segment, none⟩
  | cut {kept dropped : List Token} {token : Token} {message : String} (h : kept ≠ []) :
      Fits stop (kept ++ token :: dropped)
        ⟨some kept, some (.errorAt token.span "here" message "P002")⟩
  | lost {segment : List Token} {token : Token} {message code : String} (h : segment ≠ [])
      (htoken : token ∈ segment ++ [stop]) (hcode : code = "P001" ∨ code = "P003") :
      Fits stop segment ⟨none, some (.errorAt token.span "here" message code)⟩

lemma Outcome.Fits.eq_of_nil {stop : Token} {segment : List Token} {outcome : Outcome}
    (h : outcome.Fits stop segment) (hsegment : segment = []) : outcome = ⟨none, none⟩ := by
  cases h with
  | empty => rfl
  | whole hne => exact absurd hsegment hne
  | cut => simp at hsegment
  | lost hne => exact absurd hsegment hne

/-- The tokens of the children of a package: what is kept of the segments, and the semicolons. -/
def Outcome.pieces (segments : List (List Token × Token)) (outcomes : List Outcome) :
    List (List Token) :=
  (segments.zip outcomes).flatMap fun ((_, stop), outcome) =>
    outcome.child.toList ++ if stop.kind = .semicolon then [[stop]] else []

lemma Expected.code_of_ne_statementEnd {expected : Expected} (h : expected ≠ .statementEnd) :
    expected.code = "P001" ∨ expected.code = "P003" := by
  cases expected <;> simp_all [Expected.code]

namespace Part

def outcome (part : Part) : Outcome :=
  ⟨part.phrase?.map Phrase.tokens, part.failure?.map Failure.diagnostic⟩

lemma Covers.fits {segment : List Token} {stop : Token} {part : Part} (h : Covers segment stop part)
    (hne : segment ≠ []) : part.outcome.Fits stop segment := by
  cases h with
  | statement hp htokens =>
    rw [outcome, phrase?, failure?, Option.map_some, htokens]
    exact .whole hne
  | truncated hp htokens =>
    rw [htokens]
    exact .cut (List.length_pos_iff.mp hp.tokens_length_pos)
  | rejected hexpected hplace => exact .lost hne hplace (Expected.code_of_ne_statementEnd hexpected)

lemma Covers.isStatement_iff {segment : List Token} {stop : Token} {part : Part}
    (h : Covers segment stop part) : part.isStatement = part.outcome.child.isSome := by
  cases h <;> rfl

/-- Parts and what they make of segments. -/
structure Account (parts : List Part) (segments : List (List Token × Token))
    (outcomes : List Outcome) : Prop where
  fits : List.Forall₂ (fun segment outcome => outcome.Fits segment.2 segment.1) segments outcomes
  errors : (parts.filterMap failure?).map Failure.diagnostic = outcomes.filterMap Outcome.error
  pieces : (parts.filterMap phrase?).map Phrase.tokens = Outcome.pieces segments outcomes
  isStatement : parts.any isStatement = true ↔ ∃ outcome ∈ outcomes, outcome.child.isSome

lemma Account.last {stop : Token} (h : stop.kind = .eof) :
    Account [] [([], stop)] [⟨none, none⟩] where
  fits := .cons .empty .nil
  errors := rfl
  pieces := by simp [Outcome.pieces, h]
  isStatement := by simp

lemma Account.separator {parts : List Part} {segments : List (List Token × Token)}
    {outcomes : List Outcome} (h : Account parts segments outcomes) {token : Token}
    (htoken : token.kind = .semicolon) :
    Account (.separator (.leaf token) :: parts) (([], token) :: segments)
      (⟨none, none⟩ :: outcomes) where
  fits := .cons .empty h.fits
  errors := h.errors
  pieces := by simpa [phrase?, Outcome.pieces, htoken] using h.pieces
  isStatement := by simpa [Part.isStatement] using h.isStatement

/-- A part goes before what is made of nothing up to the same stop. -/
lemma Account.part {parts : List Part} {segments : List (List Token × Token)}
    {outcomes : List Outcome} {segment : List Token} {stop : Token} {part : Part}
    (h : Account parts (([], stop) :: segments) outcomes) (hpart : Covers segment stop part)
    (hne : segment ≠ []) :
    ∃ outcomes, Account (part :: parts) ((segment, stop) :: segments) outcomes := by
  obtain ⟨fits, errors, pieces, isStatement⟩ := h
  cases fits with
  | cons first rest =>
    obtain rfl := first.eq_of_nil rfl
    have hstatement := hpart.isStatement_iff
    refine ⟨part.outcome :: _, .cons (hpart.fits hne) rest, ?_, ?_, ?_⟩
    · have herrors : (parts.filterMap failure?).map Failure.diagnostic = _ := errors
      cases hfailure : part.failure? <;> simp [hfailure, outcome, herrors]
    · have hpieces : (parts.filterMap phrase?).map Phrase.tokens = _ ++ Outcome.pieces segments _ :=
        pieces
      cases hphrase : part.phrase? <;> simp [hphrase, Outcome.pieces, outcome, hpieces]
    · simp only [List.any_cons, Bool.or_eq_true, hstatement, isStatement, List.mem_cons,
        exists_eq_or_imp]
      simp

/-- One step through a package: there is nothing left, a semicolon, or a part that covers the tokens
up to the end of the statement. -/
lemma allWithin_step (mark : Token) (ahead : List Token) {c : Cursor} {tokens later : List Token}
    {stop : Token} (hstop : stop.kind = .eof) (htokens : ∀ token ∈ tokens, token.kind ≠ .eof)
    (hrest : c.rest = tokens ++ stop :: later) :
    (tokens = [] ∧ allWithin (mark :: ahead) c = []) ∨
      (∃ token rest, tokens = token :: rest ∧ token.kind = .semicolon ∧
        c.advance.rest = rest ++ stop :: later ∧
        allWithin (mark :: ahead) c = .separator (.leaf token) :: allWithin ahead c.advance) ∨
      ∃ segment tail, segment ≠ [] ∧ tokens = segment ++ tail ∧
        (∀ token ∈ segment, token.kind.endsStatement = false) ∧ c.Passes segment (next c).2 ∧
        (next c).2.rest = tail ++ stop :: later ∧ (next c).2.kind.endsStatement = true ∧
        Covers segment (next c).2.current (next c).1 ∧
        allWithin (mark :: ahead) c = (next c).1 :: allWithin ahead (next c).2 := by
  cases tokens with
  | nil =>
    have hcurrent : c.current = stop := (List.cons.inj hrest).1
    have hkind : c.kind = .eof := by rw [Cursor.kind, hcurrent, hstop]
    exact .inl ⟨rfl, by simp [allWithin, Cursor.isAtEnd, Cursor.isAt, hkind]⟩
  | cons token tokens =>
    have hcurrent : c.current = token := (List.cons.inj hrest).1
    have hkind : c.kind = token.kind := by rw [Cursor.kind, hcurrent]
    by_cases hsemicolon : token.kind = .semicolon
    · have hpass := Cursor.passes_advance (c := c) (by simp [(List.cons.inj hrest).2])
      have hadvance := hpass.rest
      rw [hrest] at hadvance
      refine .inr (.inl ⟨token, tokens, rfl, hsemicolon, (List.cons.inj hadvance).2.symm, ?_⟩)
      simp [allWithin, Cursor.isAt, hkind, hsemicolon, hcurrent]
    · have heof := htokens token (by simp)
      have hends : c.kind.endsStatement = false := by
        rw [hkind]
        exact TokenKind.endsStatement_eq_false.mpr ⟨hsemicolon, heof⟩
      obtain ⟨segment, hne, hpass, hinside, hstops, hcovers⟩ :=
        next_covers c ⟨stop, by rw [hrest]; simp, by rw [hstop]; rfl⟩ hends
      obtain ⟨tail, htail, hrest'⟩ := Token.exists_tail (hpass.rest.symm.trans hrest) hinside
        (by rw [hstop]; rfl)
      refine .inr (.inr ⟨segment, tail, hne, htail, hinside, hpass, hrest', hstops, hcovers, ?_⟩)
      simp [allWithin, Cursor.isAtEnd, Cursor.isAt, hkind, hsemicolon, heof]

/-- The parts from a cursor on account for all segments up to the end token. -/
lemma exists_account (ahead : List Token) (c : Cursor) (tokens later : List Token) (stop : Token)
    (hstop : stop.kind = .eof) (htokens : ∀ token ∈ tokens, token.kind ≠ .eof)
    (hrest : c.rest = tokens ++ stop :: later) (hahead : tokens.length < ahead.length) :
    ∃ outcomes, Account (allWithin ahead c) (Token.segments stop tokens) outcomes := by
  induction ahead generalizing c tokens with
  | nil => simp at hahead
  | cons mark ahead ih =>
    rcases allWithin_step mark ahead hstop htokens hrest with ⟨rfl, hparts⟩ |
      ⟨token, rest, rfl, hsemicolon, hadvance, hparts⟩ |
      ⟨segment, tail, hne, rfl, hinside, _, hrest', hstops, hcovers, hparts⟩
    · exact hparts ▸ ⟨_, .last hstop⟩
    · obtain ⟨outcomes, haccount⟩ := ih c.advance rest
        (fun other hother => htokens other (List.mem_cons_of_mem _ hother)) hadvance
        (by simpa using hahead)
      rw [hparts, Token.segments, if_pos hsemicolon]
      exact ⟨_, haccount.separator hsemicolon⟩
    · have htail (other) (hother : other ∈ tail) := htokens other (List.mem_append_right _ hother)
      have hpos := List.length_pos_iff.mpr hne
      obtain ⟨outcomes, haccount⟩ := ih (next c).2 tail htail hrest'
        (by simp at hahead; omega)
      obtain ⟨segments, hsegments⟩ := Token.segments_of_ends hrest' hstops htail
      have hplain (other) (hother : other ∈ segment) :=
        (TokenKind.endsStatement_eq_false.mp (hinside other hother)).1
      rw [hsegments] at haccount
      rw [hparts, Token.segments_append hplain hsegments, List.append_nil]
      exact haccount.part hcovers hne

end Part

/-- The children of a package have the tokens of the phrases that they show. -/
lemma Part.terminals_package (parts : List Part) (h : (package parts).AllRegular) :
    let tree := (package parts).toTree
    let pieces := (parts.filterMap phrase?).map Phrase.tokens
    tree.kind tree.root = .package ∧ (tree.children tree.root).map tree.terminals = pieces ∧
      tree.terminals tree.root = pieces.flatten := by
  have hwf := (package parts).toTree_wellFormed
  have hshows := Tree.shows_toTree (package parts)
  refine ⟨hshows.kind_eq, ?_, ?_⟩
  · exact Tree.Shows.map_terminals hwf _ hshows.parts (Phrase.allRegular_node.mp h).2
  · rw [hshows.terminals_eq hwf _ h, package, Phrase.tokens_node, Phrase.tokensAll_eq_flatMap,
      List.flatMap_def]

/-- No token is lost, invented or moved. The tokens before the first end token fall into segments;
each segment is kept, cut off with an error at the first token that is left out, or left out with an
error; and the terminals of the tree are what is kept, with the semicolons. -/
theorem parseTokens_accounts (scanned : List Diagnostic) (tokens : List Token) :
    let segments := Token.segments (Token.endOf tokens) (Token.beforeEnd tokens)
    segments.flatMap (fun (segment, stop) =>
        segment ++ if stop.kind = .semicolon then [stop] else []) = Token.beforeEnd tokens ∧
      ∃ outcomes : List Outcome,
        List.Forall₂ (fun segment outcome => outcome.Fits segment.2 segment.1) segments outcomes ∧
        (parseTokens scanned tokens).diagnostics = scanned ++ outcomes.filterMap Outcome.error ∧
        ((∃ outcome ∈ outcomes, outcome.child.isSome) → (parseTokens scanned tokens).tree.isSome) ∧
        ∀ tree, (parseTokens scanned tokens).tree = some tree →
          tree.kind tree.root = .package ∧
          (tree.children tree.root).map tree.terminals = Outcome.pieces segments outcomes ∧
          tree.terminals tree.root = (Outcome.pieces segments outcomes).flatten := by
  obtain ⟨later, hclosed, hstop⟩ := Token.closed_eq tokens
  refine ⟨Token.flatMap_segments hstop _, ?_⟩
  have heof : ∀ token ∈ Token.beforeEnd tokens, token.kind ≠ .eof := by
    intro token htoken
    have hall := List.all_eq_true.mp List.all_takeWhile token htoken
    simpa using hall
  obtain ⟨outcomes, hfits, herrors, hpieces, hstatement⟩ := Part.exists_account
    (Cursor.ofTokens tokens).rest (.ofTokens tokens) _ later _ hstop heof
    ((Cursor.rest_ofTokens tokens).trans hclosed)
    (by simp [Cursor.rest_ofTokens, hclosed])
  obtain ⟨hdiagnostics, htree⟩ := Parsed.ofParts_eq scanned (Part.all (.ofTokens tokens))
  refine ⟨outcomes, hfits, ?_, ?_, ?_⟩
  · rw [parseTokens, hdiagnostics, ← herrors]
    rfl
  · intro hsome
    have hany : (Part.all (.ofTokens tokens)).any Part.isStatement = true := hstatement.mpr hsome
    rw [parseTokens, htree, hany]
    simp
  · intro tree h
    have hpackage := Part.package_regular (Part.all_built (.ofTokens tokens))
    rw [Parsed.eq_toTree_of_tree h, ← hpieces]
    exact Part.terminals_package _ hpackage

end NullGuard
