import NullGuard.Proofs.MendedPackage

/-!
# Reading again without what was left out

The tokens of a statement that fails are left out, and so are the tokens behind a statement up to its
end. What is read of the tokens without them is the same package, and nothing is wrong with it.
-/

namespace NullGuard

open Phrase (tokensAll)

namespace Part

/-- The place behind a part that begins at a place. -/
def behind (start : Nat) : Part → Nat
  | separator _ => start + 1
  | statement phrase => start + phrase.tokens.length
  | truncated _ failure skipped | rejected failure skipped => failure.place.position + skipped

/-- The places of the tokens that are left out of a part that begins at a place: what is skipped
behind a statement, and all of a statement that fails. -/
def dropped (start : Nat) : Part → List Nat
  | separator _ | statement _ => []
  | truncated _ failure skipped => List.range' failure.place.position skipped
  | rejected failure skipped => List.range' start (failure.place.position + skipped - start)

/-- The places of the tokens that are left out of parts, the first of which begins at a place. -/
def droppedFrom (start : Nat) : List Part → List Nat
  | [] => []
  | part :: parts => part.dropped start ++ droppedFrom (part.behind start) parts

end Part

namespace Token

/-- The tokens from a place on that are not at any of the given places. -/
def without (places : List Nat) : Nat → List Token → List Token
  | _, [] => []
  | place, token :: tokens =>
    if place ∈ places then without places (place + 1) tokens
    else token :: without places (place + 1) tokens

/-- The tokens that are not left out when they are read. -/
def recovered (tokens : List Token) : List Token :=
  without (Part.droppedFrom 0 (Part.all (.ofTokens tokens))) 0 tokens

section Without

variable {places others : List Nat}

lemma without_append (place : Nat) (s t : List Token) :
    without places place (s ++ t) =
      without places place s ++ without places (place + s.length) t := by
  induction s generalizing place with
  | nil => rfl
  | cons token s ih =>
    simp only [List.cons_append, without, ih, List.length_cons]
    rw [show place + 1 + s.length = place + (s.length + 1) by omega]
    split <;> rfl

lemma without_congr (place : Nat) (tokens : List Token)
    (h : ∀ i, place ≤ i → i < place + tokens.length → (i ∈ places ↔ i ∈ others)) :
    without places place tokens = without others place tokens := by
  induction tokens generalizing place with
  | nil => rfl
  | cons token tokens ih =>
    have hrest := ih (place + 1) fun i hi hlt => h i (by omega) (by simp; omega)
    simp only [without, hrest, h place (Nat.le_refl _) (by simp)]

lemma without_of_not_mem {place : Nat} (tokens : List Token)
    (h : ∀ i, place ≤ i → i < place + tokens.length → i ∉ places) :
    without places place tokens = tokens := by
  induction tokens generalizing place with
  | nil => rfl
  | cons token tokens ih =>
    rw [without, if_neg (h place (Nat.le_refl _) (by simp)), ih]
    intro i hi hlt
    exact h i (by omega) (by simp; omega)

lemma without_of_mem {place : Nat} (tokens : List Token)
    (h : ∀ i, place ≤ i → i < place + tokens.length → i ∈ places) :
    without places place tokens = [] := by
  induction tokens generalizing place with
  | nil => rfl
  | cons token tokens ih =>
    rw [without, if_pos (h place (Nat.le_refl _) (by simp))]
    apply ih
    intro i hi hlt
    exact h i (by omega) (by simp; omega)

end Without

end Token

lemma Cursor.position_le_skipStatement (c : Cursor) : c.position ≤ c.skipStatement.position := by
  obtain ⟨position, current, following⟩ := c
  induction following generalizing position current with
  | nil => exact Nat.le_refl _
  | cons next later ih =>
    rw [skipStatement, skipFrom]
    split
    · exact Nat.le_refl _
    · exact Nat.le_trans (Nat.le_succ position) (ih (position + 1) next)

namespace Part

/-- A part ends where the next one begins, and what is left out of it lies behind what is kept. -/
lemma next_dropped (c : Cursor) {segment : List Token} {stop : Token}
    (hpass : c.Passes segment (next c).2) (hcovers : Covers segment stop (next c).1) :
    (next c).1.behind c.position = (next c).2.position ∧
      ∃ kept left, segment = kept ++ left ∧ tokensAll (next c).1.phrase?.toList = kept ∧
        (next c).1.dropped c.position = List.range' (c.position + kept.length) left.length := by
  have hposition := hpass.position
  have hmakes := Parse.statement_makes c
  unfold Parse.MeetsAt at hmakes
  unfold next at hposition hcovers ⊢
  cases hread : Parse.statement c with
  | ok result =>
    obtain ⟨p, after⟩ := result
    simp only [hread] at hmakes hposition hcovers ⊢
    obtain ⟨taken, htaken, _, rfl, _⟩ := hmakes
    have hafter := htaken.position
    by_cases hends : after.kind.endsStatement = true
    · rw [if_pos hends] at hcovers ⊢
      cases hcovers with
      | statement _ htokens =>
        refine ⟨hafter.symm, segment, [], by simp, ?_, rfl⟩
        simp [phrase?, htokens]
    · rw [if_neg hends] at hposition hcovers ⊢
      have hskip := after.position_le_skipStatement
      cases hcovers with
      | truncated _ htokens =>
        refine ⟨Nat.add_sub_of_le hskip, _, _, htokens, by simp [phrase?], ?_⟩
        rw [htokens, List.length_append] at hposition
        rw [dropped, hposition, hafter]
        congr 1
        omega
  | error failure =>
    simp only [hread] at hmakes hposition hcovers ⊢
    have hskip := failure.place.position_le_skipStatement
    refine ⟨Nat.add_sub_of_le hskip, [], segment, rfl, rfl, ?_⟩
    simp only [dropped, List.length_nil, Nat.add_zero]
    congr 1
    omega

section Step

variable {part : Part} {parts : List Part} {start : Nat} {kept left : List Token}

/-- What is left out of a part and the parts behind it, where the tokens of the part are `kept` and
then `left`. -/
lemma mem_droppedFrom_step
    (hdropped : part.dropped start = List.range' (start + kept.length) left.length) (place : Nat) :
    place ∈ droppedFrom start (part :: parts) ↔
      (start + kept.length ≤ place ∧ place < start + kept.length + left.length) ∨
        place ∈ droppedFrom (part.behind start) parts := by
  rw [droppedFrom, hdropped, List.mem_append, List.mem_range'_1]

/-- Nothing is left out before what is left out of a part. -/
lemma not_mem_droppedFrom (hbehind : part.behind start = start + (kept ++ left).length)
    (hdropped : part.dropped start = List.range' (start + kept.length) left.length)
    (hlower : ∀ place ∈ droppedFrom (part.behind start) parts, part.behind start ≤ place)
    {place : Nat} (hplace : place < start + kept.length) :
    place ∉ droppedFrom start (part :: parts) := by
  rw [hbehind, List.length_append] at hlower
  rw [mem_droppedFrom_step hdropped, hbehind, List.length_append]
  rintro (hmem | hmem)
  · omega
  · have := hlower place hmem
    omega

lemma without_part (hbehind : part.behind start = start + (kept ++ left).length)
    (hdropped : part.dropped start = List.range' (start + kept.length) left.length)
    (hlower : ∀ place ∈ droppedFrom (part.behind start) parts, part.behind start ≤ place)
    (tail : List Token) :
    Token.without (droppedFrom start (part :: parts)) start (kept ++ left ++ tail) =
      kept ++ Token.without (droppedFrom (part.behind start) parts) (part.behind start) tail := by
  have hkept : Token.without (droppedFrom start (part :: parts)) start kept = kept :=
    Token.without_of_not_mem kept fun i _ hi => not_mem_droppedFrom hbehind hdropped hlower hi
  have hleft :
      Token.without (droppedFrom start (part :: parts)) (start + kept.length) left = [] := by
    apply Token.without_of_mem
    intro i hle hlt
    exact (mem_droppedFrom_step hdropped i).mpr (.inl ⟨hle, hlt⟩)
  have htail : Token.without (droppedFrom start (part :: parts)) (part.behind start) tail =
      Token.without (droppedFrom (part.behind start) parts) (part.behind start) tail := by
    refine Token.without_congr _ tail fun i hi _ => ?_
    rw [mem_droppedFrom_step hdropped, or_iff_right_iff_imp]
    intro hplace
    rw [hbehind, List.length_append] at hi
    omega
  rw [Token.without_append, Token.without_append, hkept, hleft, List.append_nil, ← hbehind, htail]

lemma droppedFrom_bounds (hbehind : part.behind start = start + (kept ++ left).length)
    (hdropped : part.dropped start = List.range' (start + kept.length) left.length)
    {tail : List Token} (hbounds : ∀ place ∈ droppedFrom (part.behind start) parts,
      part.behind start ≤ place ∧ place < part.behind start + tail.length) :
    ∀ place ∈ droppedFrom start (part :: parts),
      start ≤ place ∧ place < start + (kept ++ left ++ tail).length := by
  intro place hplace
  rw [hbehind, List.length_append] at hbounds
  rw [mem_droppedFrom_step hdropped, hbehind, List.length_append] at hplace
  simp only [List.length_append]
  rcases hplace with hplace | hplace
  · omega
  · have := hbounds place hplace
    omega

end Step

/-- What is not left out of the tokens of parts is the tokens of what is kept. -/
lemma without_droppedFrom (ahead : List Token) {c : Cursor} {tokens later : List Token} {stop : Token}
    (hstop : stop.kind = .eof) (htokens : ∀ token ∈ tokens, token.kind ≠ .eof)
    (hrest : c.rest = tokens ++ stop :: later) (hahead : tokens.length < ahead.length) :
    Token.without (droppedFrom c.position (allWithin ahead c)) c.position tokens =
        tokensAll ((allWithin ahead c).filterMap phrase?) ∧
      ∀ place ∈ droppedFrom c.position (allWithin ahead c),
        c.position ≤ place ∧ place < c.position + tokens.length := by
  induction ahead generalizing c tokens with
  | nil => simp at hahead
  | cons mark ahead ih =>
    rcases allWithin_step mark ahead hstop htokens hrest with ⟨rfl, hparts⟩ |
      ⟨token, rest, rfl, hsemicolon, hadvance, hparts⟩ |
      ⟨segment, tail, hne, rfl, _, hpass, hrest', _, hcovers, hparts⟩
    · rw [hparts]
      simp [Token.without, droppedFrom]
    · have hposition : c.advance.position = c.position + 1 :=
        (Cursor.passes_advance (by rw [(List.cons.inj hrest).2]; simp)).position
      obtain ⟨heq, hbounds⟩ := ih (fun other hother => htokens other (by simp [hother])) hadvance
        (by simpa using hahead)
      rw [hposition] at heq hbounds
      have hbehind : (separator (.leaf token)).behind c.position =
          c.position + ([token] ++ []).length := rfl
      have hdropped : (separator (.leaf token)).dropped c.position =
          List.range' (c.position + [token].length) ([] : List Token).length := rfl
      have hstep := without_part hbehind hdropped (fun place hplace => (hbounds place hplace).1) rest
      rw [hparts]
      exact ⟨hstep.trans (congrArg _ heq), droppedFrom_bounds hbehind hdropped hbounds⟩
    · have hpos := List.length_pos_iff.mpr hne
      obtain ⟨hbehind, kept, left, rfl, hkept, hdropped⟩ := next_dropped c hpass hcovers
      obtain ⟨heq, hbounds⟩ := ih (fun other hother => htokens other (by simp [hother])) hrest'
        (by simp at hahead hpos; omega)
      rw [← hbehind] at heq hbounds
      have hwhole := hbehind.trans hpass.position
      rw [hparts]
      refine ⟨?_, droppedFrom_bounds hwhole hdropped hbounds⟩
      rw [without_part hwhole hdropped fun place hplace => (hbounds place hplace).1, heq, ← hkept]
      cases hphrase : (next c).1.phrase? <;> simp [hphrase]

end Part

lemma Arranged.of_parts (ahead : List Token) {c : Cursor} {tokens later : List Token} {stop : Token}
    (hstop : stop.kind = .eof) (htokens : ∀ token ∈ tokens, token.kind ≠ .eof)
    (hrest : c.rest = tokens ++ stop :: later) :
    Arranged ((Part.allWithin ahead c).filterMap Part.phrase?) := by
  induction ahead generalizing c tokens with
  | nil => exact .nil
  | cons mark ahead ih =>
    rcases Part.allWithin_step mark ahead hstop htokens hrest with ⟨rfl, hparts⟩ |
      ⟨token, rest, rfl, hsemicolon, hadvance, hparts⟩ |
      ⟨segment, tail, hne, rfl, _, _, hrest', hstops, hcovers, hparts⟩
    · exact hparts ▸ .nil
    · rw [hparts]
      exact .separator hsemicolon (ih (fun other hother => htokens other (by simp [hother])) hadvance)
    · have htail := ih (fun other hother => htokens other (by simp [hother])) hrest'
      rw [hparts]
      generalize Part.next c = result at hstops hcovers htail ⊢
      obtain ⟨part, d⟩ := result
      cases hcovers with
      | statement hp _ => exact .statement hp htail (of_stop hstops ahead)
      | truncated hp _ => exact .statement hp htail (of_stop hstops ahead)
      | rejected _ _ => exact htail

section Recovered

variable (tokens : List Token)

lemma Token.kind_ne_eof_of_mem_beforeEnd : ∀ token ∈ Token.beforeEnd tokens, token.kind ≠ .eof := by
  intro token htoken
  have hall := List.all_eq_true.mp List.all_takeWhile token htoken
  simpa using hall

/-- What is kept of tokens is statements with semicolons between them. -/
lemma Arranged.all : Arranged ((Part.all (.ofTokens tokens)).filterMap Part.phrase?) := by
  obtain ⟨later, hclosed, hstop⟩ := Token.closed_eq tokens
  rw [← Cursor.rest_ofTokens] at hclosed
  exact .of_parts _ hstop (Token.kind_ne_eof_of_mem_beforeEnd tokens) hclosed

lemma Token.beforeEnd_dropWhile : Token.beforeEnd (tokens.dropWhile (·.kind ≠ .eof)) = [] := by
  rw [Token.beforeEnd, List.takeWhile_eq_nil_iff]
  intro hpos
  exact List.dropWhile_get_zero_not _ _ hpos

lemma Token.beforeEnd_append_dropWhile :
    Token.beforeEnd tokens ++ tokens.dropWhile (·.kind ≠ .eof) = tokens :=
  List.takeWhile_append_dropWhile

lemma Cursor.position_ofTokens : (Cursor.ofTokens tokens).position = 0 := by
  unfold Cursor.ofTokens
  split <;> rfl

/-- What is not left out before the end is the tokens of what is kept, and nothing is left out behind
the end. -/
lemma Token.without_beforeEnd :
    without (Part.droppedFrom 0 (Part.all (.ofTokens tokens))) 0 (beforeEnd tokens) =
        tokensAll ((Part.all (.ofTokens tokens)).filterMap Part.phrase?) ∧
      ∀ place ∈ Part.droppedFrom 0 (Part.all (.ofTokens tokens)),
        place < (beforeEnd tokens).length := by
  obtain ⟨later, hclosed, hstop⟩ := closed_eq tokens
  rw [← Cursor.rest_ofTokens] at hclosed
  obtain ⟨hkept, hbounds⟩ := Part.without_droppedFrom (Cursor.ofTokens tokens).rest hstop
    (kind_ne_eof_of_mem_beforeEnd tokens) hclosed (by simp [hclosed])
  rw [Cursor.position_ofTokens, ← Part.all] at hkept hbounds
  refine ⟨hkept, fun place hplace => ?_⟩
  have := hbounds place hplace
  omega

/-- Up to the end, the tokens that are not left out are those of what is kept. -/
lemma Token.beforeEnd_recovered : Token.beforeEnd (Token.recovered tokens) =
    tokensAll ((Part.all (.ofTokens tokens)).filterMap Part.phrase?) := by
  obtain ⟨hkept, hbounds⟩ := Token.without_beforeEnd tokens
  have hlater : ∀ i, 0 + (Token.beforeEnd tokens).length ≤ i →
      i ∉ Part.droppedFrom 0 (Part.all (.ofTokens tokens)) := by
    intro i hi hmem
    have := hbounds i hmem
    omega
  have hsplit : Token.recovered tokens =
      tokensAll ((Part.all (.ofTokens tokens)).filterMap Part.phrase?) ++
        tokens.dropWhile (·.kind ≠ .eof) := by
    rw [Token.recovered]
    conv_lhs => arg 3; rw [← Token.beforeEnd_append_dropWhile tokens]
    rw [Token.without_append, hkept, Token.without_of_not_mem _ fun i hi _ => hlater i hi]
  rw [hsplit]
  exact Token.beforeEnd_append (Arranged.all tokens).kind_ne_eof (Token.beforeEnd_dropWhile tokens)

/-- Recovery leaves no trace: without the tokens that it left out, a package is read again as the same
tree, and nothing more is wrong. -/
theorem parseTokens_recovered (scanned : List Diagnostic) (tree : Tree)
    (h : (parseTokens scanned tokens).tree = some tree) :
    (parseTokens scanned (Token.recovered tokens)).diagnostics = scanned ∧
      (parseTokens scanned (Token.recovered tokens)).tree = some tree := by
  obtain ⟨hphrases, hfailures⟩ := (Arranged.all tokens).all_eq (Token.beforeEnd_recovered tokens)
  obtain ⟨hdiagnostics, htree⟩ := Parsed.ofParts_eq scanned (Part.all (.ofTokens tokens))
  obtain ⟨hdiagnostics', htree'⟩ :=
    Parsed.ofParts_eq scanned (Part.all (.ofTokens (Token.recovered tokens)))
  rw [← parseTokens] at hdiagnostics htree hdiagnostics' htree'
  rw [hfailures, List.map_nil, List.append_nil] at hdiagnostics'
  have hany : (Part.all (.ofTokens (Token.recovered tokens))).any Part.isStatement =
      (Part.all (.ofTokens tokens)).any Part.isStatement := by
    rw [Bool.eq_iff_iff, Part.all, Part.all, Part.any_isStatement_iff, Part.any_isStatement_iff,
      ← Part.all, ← Part.all, hphrases]
  refine ⟨hdiagnostics', ?_⟩
  have hpackage : Part.package (Part.all (.ofTokens (Token.recovered tokens))) =
      Part.package (Part.all (.ofTokens tokens)) := congrArg (Phrase.node .package) hphrases
  rw [htree', hany, hpackage, Parsed.eq_toTree_of_tree h, if_neg]
  intro hfailed
  obtain ⟨herrors, hnone⟩ := (Bool.and_eq_true_iff).mp hfailed
  rw [h, hnone, Bool.and_true, if_pos] at htree
  · cases htree
  · simp only [Parsed.hasErrors, hdiagnostics', hdiagnostics, List.any_append, Bool.or_eq_true]
      at herrors ⊢
    exact .inl herrors

end Recovered

/-- The tokens of `x; SELECT *) b; SELECT a`, in which the first statement fails and the second has
tokens behind it. -/
def brokenTokens : List Token :=
  [⟨.identifier, ⟨0, 1⟩, "x"⟩, ⟨.semicolon, ⟨1, 2⟩, ";"⟩, ⟨.keyword .select, ⟨3, 9⟩, "SELECT"⟩,
    ⟨.star, ⟨10, 11⟩, "*"⟩, ⟨.rparen, ⟨11, 12⟩, ")"⟩, ⟨.identifier, ⟨13, 14⟩, "b"⟩,
    ⟨.semicolon, ⟨14, 15⟩, ";"⟩, ⟨.keyword .select, ⟨16, 22⟩, "SELECT"⟩,
    ⟨.identifier, ⟨23, 24⟩, "a"⟩]

theorem parseTokens_recovered_broken : ∃ tree,
    (parseTokens [] brokenTokens).tree = some tree ∧
    (parseTokens [] brokenTokens).diagnostics.map Diagnostic.code = [some "P001", some "P002"] ∧
    (Token.recovered brokenTokens).map Token.text = [";", "SELECT", "*", ";", "SELECT", "a"] ∧
    (parseTokens [] (Token.recovered brokenTokens)).diagnostics = [] ∧
    (parseTokens [] (Token.recovered brokenTokens)).tree = some tree := by
  have hread : (parseTokens [] brokenTokens).tree.isSome := by decide +kernel
  obtain ⟨tree, htree⟩ := Option.isSome_iff_exists.mp hread
  exact ⟨tree, htree, by decide +kernel, by decide +kernel,
    parseTokens_recovered brokenTokens [] tree htree⟩

end NullGuard
