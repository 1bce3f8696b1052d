import NullGuard.Proofs.Acceptance
import NullGuard.Proofs.GuardedForms

namespace NullGuard

open Phrase (Mended tokensAll)

/-- Statements and semicolons, where no two statements stand side by side. -/
inductive Arranged : List Phrase → Prop where
  | nil : Arranged []
  | separator {token : Token} {ps : List Phrase} (hkind : token.kind = .semicolon)
      (h : Arranged ps) : Arranged (.leaf token :: ps)
  | statement {p : Phrase} {ps : List Phrase} (hp : Builds (.call .statement) [p])
      (h : Arranged ps)
      (hstop : ps = [] ∨ ∃ token more, token.kind = .semicolon ∧ ps = .leaf token :: more) :
      Arranged (p :: ps)

/-- There is no end of a statement inside of one. -/
lemma Builds.tokens_plain {p : Phrase} (hp : Builds (.call .statement) [p]) :
    ∀ token ∈ p.tokens, token.kind.endsStatement = false := by
  obtain ⟨c, hrest⟩ : ∃ c : Cursor, c.rest = p.tokens ++ [.eof 0] := by
    cases htokens : p.tokens with
    | nil => exact ⟨⟨0, .eof 0, []⟩, rfl⟩
    | cons token tokens => exact ⟨⟨0, token, tokens ++ [.eof 0]⟩, rfl⟩
  have hpass : c.Passes p.tokens ⟨c.position + p.tokens.length, .eof 0, []⟩ := ⟨hrest, rfl⟩
  have hread := Parse.statement_reads hp c _ hpass (.inr rfl)
  obtain ⟨taken, _, hinside, rfl, _⟩ := Parse.Meets.of_ok Parse.statement_makes hread
  exact hinside

namespace Arranged

variable {ps ps' : List Phrase} {spans : List Span}

lemma mended (h : Arranged ps) (hps : List.Forall₂ (Mended spans) ps ps') : Arranged ps' := by
  induction h generalizing ps' with
  | nil =>
    cases hps
    exact .nil
  | separator hkind _ ih =>
    obtain _ | ⟨⟨hmoved⟩, hps⟩ := hps
    exact .separator (hmoved.1.trans hkind) (ih hps)
  | statement hp _ hstop ih =>
    obtain _ | ⟨hp', hps⟩ := hps
    refine .statement (hp.statement_mended hp') (ih hps) ?_
    rcases hstop with rfl | ⟨token, more, hkind, rfl⟩
    · cases hps
      exact .inl rfl
    · obtain _ | ⟨⟨hmoved⟩, hmore⟩ := hps
      exact .inr ⟨_, _, hmoved.1.trans hkind, rfl⟩

/-- Statements with semicolons between them are read back from their tokens. -/
lemma allWithin_eq (h : Arranged ps) {c d : Cursor} (hpass : c.Passes (tokensAll ps) d)
    (hd : d.kind = .eof) (ahead : List Token) (hahead : (tokensAll ps).length ≤ ahead.length) :
    (Part.allWithin ahead c).filterMap Part.phrase? = ps ∧
      (Part.allWithin ahead c).filterMap Part.failure? = [] := by
  induction h generalizing c ahead with
  | nil =>
    obtain rfl := Cursor.passes_nil_iff.mp hpass
    simp [Part.allWithin_of_eof ahead hd]
  | @separator token ps hkind _ ih =>
    obtain ⟨mark, ahead, rfl⟩ := List.exists_cons_of_length_pos (Nat.lt_of_lt_of_le (by simp) hahead)
    obtain ⟨hcurrent, _, hnext⟩ := Cursor.passes_cons_iff.mp hpass
    have hstep : Part.allWithin (mark :: ahead) c =
        .separator (.leaf token) :: Part.allWithin ahead c.advance := by
      simp [Part.allWithin, Cursor.isAt, hpass.kind, hkind, hcurrent]
    obtain ⟨hphrases, hfailures⟩ := ih hnext ahead (by simpa using hahead)
    rw [hstep]
    exact ⟨congrArg _ hphrases, hfailures⟩
  | @statement p ps hp _ hstop ih =>
    have hpos := hp.tokens_length_pos
    rw [Phrase.tokensAll_cons] at hpass hahead
    rw [List.length_append] at hahead
    obtain ⟨mark, ahead, rfl⟩ := List.exists_cons_of_length_pos (by omega : 0 < ahead.length)
    obtain ⟨e, hstatement, hnext⟩ := Cursor.passes_append_iff.mp hpass
    have he : e.kind.endsStatement = true := by
      rcases hstop with rfl | ⟨token, more, hkind, rfl⟩
      · rw [Cursor.passes_nil_iff.mp hnext, hd]
        rfl
      · rw [hnext.kind, hkind]
        rfl
    obtain ⟨hphrases, hfailures⟩ := ih hnext ahead (by simp at hahead; omega)
    rw [Part.allWithin_of_builds hp hp.tokens_plain hstatement he]
    exact ⟨congrArg _ hphrases, hfailures⟩

/-- Where a statement ends, a semicolon comes next, or nothing. -/
lemma of_stop {d : Cursor} (hd : d.kind.endsStatement = true) (ahead : List Token) :
    (Part.allWithin ahead d).filterMap Part.phrase? = [] ∨ ∃ token more,
      token.kind = .semicolon ∧ (Part.allWithin ahead d).filterMap Part.phrase? =
        .leaf token :: more := by
  by_cases hsemicolon : d.kind = .semicolon
  · cases ahead with
    | nil => exact .inl rfl
    | cons mark ahead =>
      refine .inr ⟨d.current, (Part.allWithin ahead d.advance).filterMap Part.phrase?, hsemicolon, ?_⟩
      simp [Part.allWithin, Cursor.isAt, hsemicolon, Part.phrase?]
  · have heof : d.kind = .eof := by
      cases hkind : d.kind <;> simp_all [TokenKind.endsStatement]
    exact .inl (by simp [Part.allWithin_of_eof ahead heof])

/-- What is read without failures is statements with semicolons between them. -/
lemma of_allWithin (ahead : List Token) {c : Cursor} {tokens later : List Token} {stop : Token}
    (hstop : stop.kind = .eof) (htokens : ∀ token ∈ tokens, token.kind ≠ .eof)
    (hrest : c.rest = tokens ++ stop :: later) (hahead : tokens.length < ahead.length)
    (hread : (Part.allWithin ahead c).filterMap Part.failure? = []) :
    Arranged ((Part.allWithin ahead c).filterMap Part.phrase?) ∧
      tokensAll ((Part.allWithin ahead c).filterMap Part.phrase?) = tokens := by
  induction ahead generalizing c tokens with
  | nil => simp at hahead
  | cons mark ahead ih =>
    rcases Part.allWithin_step mark ahead hstop htokens hrest with ⟨rfl, hparts⟩ |
      ⟨token, rest, rfl, hsemicolon, hadvance, hparts⟩ |
      ⟨segment, tail, hne, rfl, _, _, hrest', hstops, hcovers, hparts⟩
    · rw [hparts]
      exact ⟨.nil, rfl⟩
    · rw [hparts] at hread ⊢
      obtain ⟨harranged, heq⟩ := ih (fun other hother => htokens other (by simp [hother])) hadvance
        (by simpa using hahead) hread
      exact ⟨.separator hsemicolon harranged, congrArg _ heq⟩
    · rw [hparts] at hread ⊢
      have hpos := List.length_pos_iff.mpr hne
      generalize Part.next c = result at hread hrest' hstops hcovers ⊢
      obtain ⟨part, d⟩ := result
      cases hcovers with
      | statement hp heq =>
        obtain ⟨harranged, htail⟩ := ih (fun other hother => htokens other (by simp [hother])) hrest'
          (by simp at hahead; omega) hread
        exact ⟨.statement hp harranged (of_stop hstops ahead), heq ▸ congrArg _ htail⟩
      | truncated _ _ => simp [Part.failure?] at hread
      | rejected _ _ => simp [Part.failure?] at hread

end Arranged

section Package

variable {ps ps' : List Phrase} {tokens : List Token}

lemma Arranged.kind_ne_eof (h : Arranged ps) : ∀ token ∈ tokensAll ps, token.kind ≠ .eof := by
  induction h with
  | nil => simp
  | separator hkind _ ih =>
    refine List.forall_mem_cons.mpr ⟨by simp [hkind], ih⟩
  | statement hp _ _ ih =>
    refine List.forall_mem_append.mpr ⟨fun token htoken => ?_, ih⟩
    exact (TokenKind.endsStatement_eq_false.mp (hp.tokens_plain token htoken)).2

/-- Statements with semicolons between them are all that is read where they stand before the end. -/
lemma Arranged.all_eq (h : Arranged ps) (htokens : Token.beforeEnd tokens = tokensAll ps) :
    (Part.all (.ofTokens tokens)).filterMap Part.phrase? = ps ∧
      (Part.all (.ofTokens tokens)).filterMap Part.failure? = [] := by
  obtain ⟨d, hpass, hd⟩ := Cursor.exists_passes_end tokens
  rw [htokens] at hpass
  exact h.allWithin_eq hpass hd _ (Nat.le_of_lt hpass.length_lt)

/-- A package without errors is read back from its tokens. -/
lemma Arranged.parseTokens_eq (h : Arranged ps) (size : Nat) :
    (parseTokens [] (tokensAll ps ++ [.eof size])).diagnostics = [] ∧
      (parseTokens [] (tokensAll ps ++ [.eof size])).tree = some (Phrase.node .package ps).toTree := by
  obtain ⟨hphrases, hfailures⟩ :=
    h.all_eq (Token.beforeEnd_append h.kind_ne_eof (rfl : Token.beforeEnd [.eof size] = []))
  obtain ⟨hdiagnostics, htree⟩ :=
    Parsed.ofParts_eq [] (Part.all (.ofTokens (tokensAll ps ++ [.eof size])))
  rw [hfailures] at hdiagnostics
  refine ⟨hdiagnostics, ?_⟩
  rw [parseTokens, htree, if_neg (by simp [Parsed.hasErrors, hdiagnostics]), Part.package, hphrases]

/-- Tokens that are read without errors are those of statements and semicolons. -/
lemma exists_arranged {size : Nat} (htokens : ∀ token ∈ tokens, token.kind ≠ .eof)
    (hread : (parseTokens [] (tokens ++ [.eof size])).diagnostics = []) :
    ∃ ps, Arranged ps ∧ tokensAll ps = tokens := by
  obtain ⟨later, hclosed, hstop⟩ := Token.closed_eq (tokens ++ [.eof size])
  rw [Token.beforeEnd_append htokens rfl, ← Cursor.rest_ofTokens] at hclosed
  rw [parseTokens, (Parsed.ofParts_eq [] _).1, List.nil_append, List.map_eq_nil_iff] at hread
  exact ⟨_, Arranged.of_allWithin _ hstop htokens hclosed (by simp [hclosed]) hread⟩

end Package

end NullGuard
