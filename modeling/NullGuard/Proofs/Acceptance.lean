import Mathlib.Data.List.TakeWhile
import NullGuard.Proofs.Recovery
import NullGuard.Proofs.StatementCompleteness

/-!
# The accepted token lists

A list of tokens without semicolons and end tokens is read as one statement, and nothing is wrong,
exactly if it derives from the statement of the grammar. Soundness of the readers gives one
direction and completeness the other, with the end token behind the list as the place to stop.
-/

namespace NullGuard

section Plain

variable {w : List Token}

lemma Token.beforeEnd_of_plain (h : ∀ token ∈ w, token.kind.endsStatement = false) :
    Token.beforeEnd w = w := by
  refine List.takeWhile_eq_self_iff.mpr fun token htoken => ?_
  simpa using (TokenKind.endsStatement_eq_false.mp (h token htoken)).2

lemma Token.segments_of_plain (stop : Token) (h : ∀ token ∈ w, token.kind.endsStatement = false) :
    Token.segments stop w = [(w, stop)] := by
  have hplain (token) (htoken : token ∈ w) := (TokenKind.endsStatement_eq_false.mp (h token htoken)).1
  simpa using Token.segments_append hplain (rfl : Token.segments stop [] = [([], stop)])

/-- At the end of the tokens there is nothing to read. -/
lemma Part.allWithin_of_eof {c : Cursor} (ahead : List Token) (h : c.kind = .eof) :
    allWithin ahead c = [] := by
  cases ahead with
  | nil => rfl
  | cons mark ahead => simp [allWithin, Cursor.isAtEnd, Cursor.isAt, h]

/-- A statement with its end behind it is read as a part. -/
lemma Part.allWithin_of_builds {p : Phrase} (hp : Builds (.call .statement) [p])
    (hplain : ∀ token ∈ p.tokens, token.kind.endsStatement = false) {c d : Cursor}
    (hpass : c.Passes p.tokens d) (hd : d.kind.endsStatement = true) (mark : Token)
    (ahead : List Token) :
    allWithin (mark :: ahead) c = .statement p :: allWithin ahead d := by
  have hkind : c.kind.endsStatement = false := by
    obtain ⟨token, tokens, htokens⟩ :=
      List.exists_cons_of_ne_nil (List.length_pos_iff.mp hp.tokens_length_pos)
    rw [htokens] at hpass
    rw [hpass.kind]
    exact hplain token (by simp [htokens])
  obtain ⟨hsemicolon, heof⟩ := TokenKind.endsStatement_eq_false.mp hkind
  have hread := Parse.statement_reads hp c d hpass (.inr hd)
  simp [allWithin, Cursor.isAtEnd, Cursor.isAt, hsemicolon, heof, next, hread, hd]

/-- The tokens of a statement are read as this statement alone. -/
lemma Part.all_of_builds {p : Phrase} (hp : Builds (.call .statement) [p])
    (h : ∀ token ∈ p.tokens, token.kind.endsStatement = false) :
    Part.all (.ofTokens p.tokens) = [.statement p] := by
  obtain ⟨d, hpass, hd⟩ := Cursor.exists_passes_end p.tokens
  rw [Token.beforeEnd_of_plain h] at hpass
  rw [Part.all, Cursor.rest, allWithin_of_builds hp h hpass (by rw [hd]; rfl),
    allWithin_of_eof _ hd]

/-- One segment makes one outcome. -/
lemma Part.exists_outcome (h : ∀ token ∈ w, token.kind.endsStatement = false) :
    ∃ (stop : Token) (outcome : Outcome), outcome.Fits stop w ∧
      ((Part.all (.ofTokens w)).filterMap failure?).map Failure.diagnostic =
        outcome.error.toList ∧
      ((Part.all (.ofTokens w)).filterMap phrase?).map Phrase.tokens = outcome.child.toList := by
  obtain ⟨later, hclosed, hstop⟩ := Token.closed_eq w
  rw [Token.beforeEnd_of_plain h, ← Cursor.rest_ofTokens] at hclosed
  have heof (token) (htoken : token ∈ w) := (TokenKind.endsStatement_eq_false.mp (h token htoken)).2
  obtain ⟨outcomes, hfits, herrors, hpieces, _⟩ :=
    Part.exists_account (Cursor.ofTokens w).rest _ w later _ hstop heof hclosed (by simp [hclosed])
  rw [Token.segments_of_plain _ h] at hfits hpieces
  cases hfits with
  | @cons _ outcome _ _ hfits hnil =>
    cases hnil
    refine ⟨_, outcome, hfits, ?_, ?_⟩
    · rw [Part.all, herrors]
      cases herror : outcome.error <;> simp [herror]
    · rw [Part.all, hpieces]
      simp [Outcome.pieces, hstop]

end Plain

/-- The parser accepts exactly its grammar. -/
theorem parseTokens_accepts_iff (w : List Token)
    (h : ∀ token ∈ w, token.kind.endsStatement = false) :
    ((parseTokens [] w).diagnostics = [] ∧
        ∃ tree, (parseTokens [] w).tree = some tree ∧ (tree.children tree.root).length = 1) ↔
      Derives (.call .statement) w := by
  rw [derives_call_iff]
  constructor
  · rintro ⟨hdiagnostics, tree, htree, hchildren⟩
    obtain ⟨stop, outcome, hfits, herrors, hpieces⟩ := Part.exists_outcome h
    have herror : outcome.error = none := by
      rw [parseTokens, (Parsed.ofParts_eq [] _).1, herrors] at hdiagnostics
      simpa using hdiagnostics
    obtain ⟨p, hphrases⟩ : ∃ p, (Part.all (.ofTokens w)).filterMap Part.phrase? = [p] := by
      have hshows := Tree.shows_toTree (Part.package (Part.all (.ofTokens w)))
      rw [Parsed.eq_toTree_of_tree htree] at hchildren
      exact List.length_eq_one_iff.mp (hshows.parts.length_eq.symm.trans hchildren)
    obtain ⟨part, hpart, hphrase⟩ := List.mem_filterMap.mp (hphrases ▸ List.mem_singleton_self p)
    have htokens : p.tokens = w := by
      rw [hphrases] at hpieces
      cases hfits with
      | empty => simp at hpieces
      | whole _ => simpa using hpieces
      | cut _ => cases herror
      | lost _ _ _ => cases herror
    rcases Part.all_built _ part hpart p hphrase with ⟨token, hkind, rfl⟩ | hp
    · have := h token (by simp [← htokens])
      simp [hkind, TokenKind.endsStatement] at this
    · exact ⟨p, hp, htokens⟩
  · rintro ⟨p, hp, rfl⟩
    have hparts := Part.all_of_builds hp h
    obtain ⟨hdiagnostics, htree⟩ := Parsed.ofParts_eq [] [.statement p]
    have hshows := Tree.shows_toTree (Part.package [.statement p])
    rw [parseTokens, hparts]
    exact ⟨hdiagnostics, _, htree.trans (if_neg (by simp [Part.isStatement])),
      hshows.parts.length_eq⟩

/-- The tokens of `SELECT a.FROM REFS b c UNION SELECT *`, in which a keyword is a name, a name is an
operator and an alias stands without its word. -/
def unionTokens : List Token :=
  [⟨.keyword .select, ⟨0, 6⟩, "SELECT"⟩, ⟨.identifier, ⟨7, 8⟩, "a"⟩, ⟨.dot, ⟨8, 9⟩, "."⟩,
    ⟨.keyword .from_, ⟨9, 13⟩, "FROM"⟩, ⟨.identifier, ⟨14, 18⟩, "REFS"⟩,
    ⟨.identifier, ⟨19, 20⟩, "b"⟩, ⟨.identifier, ⟨21, 22⟩, "c"⟩,
    ⟨.keyword .union, ⟨23, 28⟩, "UNION"⟩, ⟨.keyword .select, ⟨29, 35⟩, "SELECT"⟩,
    ⟨.star, ⟨36, 37⟩, "*"⟩]

theorem derives_unionTokens :
    (∀ token ∈ unionTokens, token.kind.endsStatement = false) ∧
      Derives (.call .statement) unionTokens := by
  have hplain : ∀ token ∈ unionTokens, token.kind.endsStatement = false := by decide
  have hone : (parseTokens [] unionTokens).tree.map (fun tree => (tree.children tree.root).length) =
      some 1 := by decide +kernel
  exact ⟨hplain, (parseTokens_accepts_iff unionTokens hplain).mp
    ⟨by decide +kernel, Option.map_eq_some_iff.mp hone⟩⟩

end NullGuard
