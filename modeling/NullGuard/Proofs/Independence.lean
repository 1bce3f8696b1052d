import NullGuard.Proofs.PackageFindings

/-!
# Statements are analysed on their own

Tokens are read the same wherever they stand, up to the semicolon behind them. So the findings of
two texts with a semicolon between them are the findings of the first text and those of the second
one, whatever is wrong with either of them.
-/

namespace NullGuard

/-- What a package keeps of tokens. -/
def Token.phrases (tokens : List Token) : List Phrase :=
  (Part.all (.ofTokens tokens)).filterMap Part.phrase?

lemma Token.likeness_shifted (n : Nat) : Likeness (Shifted n) where
  face_eq := by
    rintro a _ rfl
    rfl
  spells_eq := by
    rintro a _ rfl word
    rfl

lemma Token.map_shift_zero (tokens : List Token) : tokens.map (shift 0) = tokens := by
  have hzero (token : Token) : token.shift 0 = token := rfl
  rw [List.map_congr_left fun token _ => hzero token, List.map_id']

lemma Token.forall₂_shifted (n : Nat) (tokens : List Token) :
    List.Forall₂ (Shifted n) tokens (tokens.map (shift n)) := by
  rw [List.forall₂_map_right_iff, List.forall₂_same]
  intro token _
  rfl

namespace Part

variable {tokens : List Token} {n : Nat}

/-- Tokens with the end of a statement behind them are read as if they were alone. -/
lemma allWithin_shifted (htokens : ∀ token ∈ tokens, token.kind ≠ .eof) (size : Nat) {c e : Cursor}
    (hc : c.Passes (tokens.map (Token.shift n)) e) (he : e.kind.endsStatement = true)
    (ahead : List Token) (hahead : tokens.length ≤ ahead.length) :
    ∃ parts rest, allWithin ahead c = parts ++ allWithin rest e ∧
      ahead.length ≤ rest.length + tokens.length ∧
      List.Forall₂ (Phrase.Alike (Token.Shifted n)) (Token.phrases (tokens ++ [.eof size]))
        (parts.filterMap phrase?) := by
  obtain ⟨f, hd, hf⟩ := Cursor.exists_passes_end (tokens ++ [.eof size])
  rw [Token.beforeEnd_append htokens rfl] at hd
  have hstep := inStep_of_passes (S := fun _ _ => True) (Token.likeness_shifted n)
    (fun _ _ _ => trivial) (Token.forall₂_shifted n tokens) htokens hd hc (by rw [hf]; rfl) he
    trivial
  obtain ⟨parts, parts', rest, rest', hparts, hparts', halike, _, hrest'⟩ :=
    hstep _ ahead (Nat.le_of_lt hd.length_lt) (by rwa [List.length_map])
  rw [List.length_map] at hrest'
  rw [Token.phrases, all, hparts, allWithin_of_eof rest hf, List.append_nil]
  exact ⟨parts', rest', hparts', hrest', phrases_alike halike⟩

end Part

/-- A package keeps of two lists of tokens with a semicolon between them what it keeps of each. -/
lemma Token.exists_phrases_seam {a b : List Token} (ha : ∀ token ∈ a, token.kind ≠ .eof)
    (hb : ∀ token ∈ b, token.kind ≠ .eof) {semicolon : Token} (hkind : semicolon.kind = .semicolon)
    (n size size' size'' : Nat) :
    ∃ ps qs, phrases (a ++ semicolon :: b.map (shift n) ++ [.eof size]) =
        ps ++ .leaf semicolon :: qs ∧
      List.Forall₂ (Phrase.Alike (Shifted 0)) (phrases (a ++ [.eof size'])) ps ∧
      List.Forall₂ (Phrase.Alike (Shifted n)) (phrases (b ++ [.eof size''])) qs := by
  have hb' : ∀ token ∈ b.map (shift n), token.kind ≠ .eof := by
    rw [List.forall_mem_map]
    exact hb
  have hwhole : ∀ token ∈ a ++ semicolon :: b.map (shift n), token.kind ≠ .eof :=
    List.forall_mem_append.mpr ⟨ha, List.forall_mem_cons.mpr ⟨by simp [hkind], hb'⟩⟩
  obtain ⟨f, hpass, hf⟩ :=
    Cursor.exists_passes_end (a ++ semicolon :: b.map (shift n) ++ [.eof size])
  rw [beforeEnd_append hwhole rfl] at hpass
  rw [phrases, Part.all]
  generalize Cursor.ofTokens (a ++ semicolon :: b.map (shift n) ++ [.eof size]) = c at hpass ⊢
  have hlength := hpass.length_lt
  rw [List.length_append, List.length_cons, List.length_map] at hlength
  obtain ⟨e, hce, hef⟩ := Cursor.passes_append_iff.mp hpass
  rw [← map_shift_zero a] at hce
  have hsemicolon : e.kind = .semicolon := hef.kind.trans hkind
  obtain ⟨parts, rest, hparts, hrest, hfirst⟩ := Part.allWithin_shifted ha size' hce
    (by rw [hsemicolon]; rfl) c.rest (by omega)
  obtain ⟨mark, rest, rfl⟩ := List.exists_cons_of_length_pos (by omega : 0 < rest.length)
  rw [List.length_cons] at hrest
  obtain ⟨parts', rest', hparts', _, hsecond⟩ := Part.allWithin_shifted hb size'' hef.advance
    (by rw [hf]; rfl) rest (by omega)
  refine ⟨parts.filterMap Part.phrase?, parts'.filterMap Part.phrase?, ?_, hfirst, hsecond⟩
  rw [hparts, Part.allWithin_of_semicolon hsemicolon, hparts', Part.allWithin_of_eof rest' hf,
    hef.current, List.append_nil, List.filterMap_append]
  rfl

lemma Piece.kind_ne_unclosed {source : String}
    (h : ∀ d ∈ (scan source).diagnostics, d.code ≠ some "S002") :
    ∀ piece ∈ cut source.toList, piece.kind ≠ .unclosed := by
  intro piece hpiece hkind
  obtain ⟨placed, hplaced, rfl⟩ := (mem_iff_place 0).mp hpiece
  have hdiagnostic : placed.diagnostic? =
      some (.errorAt placed.span "string starts here" "unclosed string literal" "S002") := by
    unfold Placed.diagnostic?
    rw [hkind]
  exact h _ (List.mem_filterMap.mpr ⟨placed, hplaced, hdiagnostic⟩) rfl

/-- The findings of a text are those of the statements that are read of it. -/
lemma lint_findings (config : Config) (source : String) : (lint config source).report.findings =
    ((Phrase.node .package (Token.phrases (scan source).tokens)).toTree.lint config).findings := by
  unfold lint parse parseTokens
  simp only [(Parsed.ofParts_eq _ _).2]
  split
  case isTrue hfailed =>
    rw [Bool.and_eq_true, Bool.not_eq_true'] at hfailed
    symm
    apply (Arranged.all _).findings_eq_nil
    intro p hp hkind
    have hany := (Part.any_isStatement_iff _ _).mpr ⟨p, hp, hkind⟩
    rw [← Part.all, hfailed.2] at hany
    cases hany
  case isFalse => rw [Option.map_some, Option.getD_some, Part.package, Token.phrases]

/-- Statements are analysed on their own: a text with another one behind it, after a line end and a
semicolon, has the findings of both, the second ones moved to where the second text stands. -/
theorem lint_findings_append (config : Config) (a b : String)
    (h : ∀ d ∈ (scan a).diagnostics, d.code ≠ some "S002") :
    (lint config (a ++ "\n;" ++ b)).report.findings = (lint config a).report.findings ++
      (lint config b).report.findings.map (Diagnostic.shift (a.utf8ByteSize + 2)) := by
  have htext : (a ++ "\n;" ++ b).toList = a.toList ++ '\n' :: ';' :: b.toList := by
    rw [String.toList_append, String.toList_append, List.append_assoc]
    rfl
  obtain ⟨semicolon, hkind, htokens⟩ : ∃ semicolon : Token, semicolon.kind = .semicolon ∧
      (scan (a ++ "\n;" ++ b)).tokens = Text.tokens a.toList ++
        semicolon :: (Text.tokens b.toList).map (Token.shift (a.utf8ByteSize + 2)) ++
          [.eof (a ++ "\n;" ++ b).utf8ByteSize] := by
    refine ⟨⟨.semicolon, ⟨a.utf8ByteSize + 1, a.utf8ByteSize + 2⟩, ";"⟩, rfl, ?_⟩
    rw [← Text.size_toList a, ← Text.tokens_seam (Piece.kind_ne_unclosed h), ← htext]
    rfl
  obtain ⟨ps, qs, hphrases, hfirst, hsecond⟩ :=
    Token.exists_phrases_seam Text.kind_ne_eof Text.kind_ne_eof hkind (a.utf8ByteSize + 2)
      (a ++ "\n;" ++ b).utf8ByteSize a.utf8ByteSize b.utf8ByteSize
  rw [← htokens] at hphrases
  have hwhole := Arranged.all (scan (a ++ "\n;" ++ b)).tokens
  rw [← Token.phrases, hphrases] at hwhole
  rw [lint_findings, lint_findings, lint_findings, hphrases]
  exact Arranged.findings_seam hkind (Arranged.all _) (Arranged.all _) hwhole hfirst hsecond config

theorem lint_findings_append_broken :
    let a := "SELECT b.x FROM t LEFT JOIN u b ON 1; # )"
    (∀ d ∈ (scan a).diagnostics, d.code ≠ some "S002") ∧
      (scan a).diagnostics.map Diagnostic.code = [some "S001"] ∧
      (lint {} a).report.findings.length = 1 ∧
      (lint {} (a ++ "\n;" ++ a)).report.findings = (lint {} a).report.findings ++
        (lint {} a).report.findings.map (Diagnostic.shift (a.utf8ByteSize + 2)) := by
  intro a
  have hscan : ∀ d ∈ (scan a).diagnostics, d.code ≠ some "S002" := by decide +kernel
  exact ⟨hscan, by decide +kernel, by decide +kernel, lint_findings_append {} a a hscan⟩

end NullGuard
