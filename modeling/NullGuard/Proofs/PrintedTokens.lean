import NullGuard.Proofs.TextSeam

/-!
# Printed tokens

The tokens of a text can be printed with single spaces between them, so that blanks, comments and
what cannot be read are gone. No token goes on over a space, whatever stood behind it before, and no
token starts with one. So the printed text has the same tokens and nothing else in it, and is printed
as itself.
-/

namespace NullGuard

namespace Token

variable {tokens tokens' : List Token}

/-- What a token is, apart from its place. -/
def reading (token : Token) : TokenKind × String := (token.kind, token.text)

/-- The texts of tokens with single spaces between them. The end of a text has no text. -/
def print (tokens : List Token) : String :=
  " ".intercalate ((tokens.filter (·.kind ≠ .eof)).map Token.text)

/-- The places of tokens do not matter for printing them. -/
lemma print_congr (h : tokens.map reading = tokens'.map reading) : print tokens = print tokens' := by
  have hreadings (tokens : List Token) : (tokens.filter (·.kind ≠ .eof)).map Token.text =
      ((tokens.map reading).filter (·.1 ≠ .eof)).map Prod.snd := by
    rw [List.filter_map, List.map_map]
    rfl
  rw [print, print, hreadings, hreadings, h]

end Token

namespace Piece

variable {piece : Piece} {pieces : List Piece} {rest rest' : List Char}

def space : Piece := ⟨.blank, [' ']⟩

def spaced : List Piece → List Piece
  | [] => []
  | piece :: pieces => piece :: pieces.flatMap fun next => [space, next]

/-- What a piece is as a token, apart from its place. -/
def reading? (piece : Piece) : Option (TokenKind × String) :=
  piece.tokenKind?.map fun kind => (kind, String.ofList piece.text)

lemma map_reading_tokensFrom (offset : Nat) (pieces : List Piece) :
    (tokensFrom offset pieces).map Token.reading = pieces.filterMap reading? := by
  have hplaced (placed : Placed) : placed.token?.map Token.reading = placed.piece.reading? := by
    unfold Placed.token? reading?
    cases placed.piece.tokenKind? <;> rfl
  induction pieces generalizing offset with
  | nil => rfl
  | cons piece pieces ih =>
    have hpiece := hplaced ⟨⟨offset, offset + piece.size⟩, piece⟩
    rw [List.filterMap_cons, ← ih (offset + piece.size), ← hpiece]
    unfold tokensFrom
    rw [place, List.filterMap_cons]
    cases Placed.token? ⟨⟨offset, offset + piece.size⟩, piece⟩ <;> rfl

section Spaces

/-- A token does not go on over a space or behind the end of the text. -/
lemma unseen_space (h : ∀ c ∈ rest'.head?, c = ' ') : Unseen rest rest' where
  run p hp _ c hc := by
    rw [h c hc]
    simp only [runs, List.mem_cons, List.not_mem_nil, or_false] at hp
    rcases hp with rfl | rfl | rfl <;> rfl
  mark c hc hmark := by
    rw [h c hc] at hmark
    exact absurd hmark (by decide)
  decimal d cs hrest _ := by
    have hdot := h '.' (by simp [hrest])
    exact absurd hdot (by decide)

lemma of_isSome_tokenKind? (h : piece.tokenKind?.isSome = true) :
    piece.Valid ∧ piece.kind ≠ .blank ∧ skipped? piece.kind = none := by
  obtain ⟨kind, text⟩ := piece
  cases kind with
  | blank | comment | unclosed | invalid => cases h
  | _ => simp [Valid, skipped?]

lemma Opens.before_space (h : piece.Opens rest) (htoken : piece.tokenKind?.isSome = true)
    (hrest' : ∀ c ∈ rest'.head?, c = ' ') : piece.Opens rest' := by
  obtain ⟨hvalid, _, hskipped⟩ := of_isSome_tokenKind? htoken
  exact h.unseen (unseen_space hrest') hvalid.1 (by simp [hskipped])

/-- What is no blank does not start with one. -/
lemma Opens.not_isBlank (h : piece.Opens rest) (hkind : piece.kind ≠ .blank) (more : List Char) :
    ∀ c ∈ (piece.text ++ more).head?, Text.isBlank c = false := by
  obtain ⟨c, cs, htext, hfirst⟩ := h
  intro d hd
  obtain rfl : c = d := by simpa [htext] using hd
  by_contra hblank
  rw [Bool.not_eq_false] at hblank
  rw [first, if_pos hblank] at hfirst
  exact hkind (hfirst ▸ rfl)

/-- Tokens with spaces between them are the cut of their text. -/
lemma areCut_spaced (h : ∀ piece ∈ pieces, piece.tokenKind?.isSome = true ∧
    ∃ rest, piece.Opens rest) : AreCut (spaced pieces) := by
  cases pieces with
  | nil => trivial
  | cons piece pieces =>
    induction pieces generalizing piece with
    | nil =>
      obtain ⟨htoken, rest, hopens⟩ := h piece List.mem_cons_self
      exact ⟨hopens.before_space htoken (by simp), trivial⟩
    | cons next pieces ih =>
      obtain ⟨⟨htoken, rest, hopens⟩, hmore⟩ := List.forall_mem_cons.mp h
      obtain ⟨hnext, rest', hopens'⟩ := hmore next List.mem_cons_self
      have hspace : AreCut (space :: spaced (next :: pieces)) :=
        areCut_blank (by simp) (by simp [Text.isBlank]) (ih next hmore)
          (hopens'.not_isBlank (of_isSome_tokenKind? hnext).2.1 _)
      exact ⟨hopens.before_space htoken (by simp [space]), hspace⟩

lemma textOf_spaced (pieces : List Piece) :
    textOf (spaced pieces) = [' '].intercalate (pieces.map Piece.text) := by
  cases pieces with
  | nil => rfl
  | cons piece pieces =>
    induction pieces generalizing piece with
    | nil => simp [spaced, List.intercalate]
    | cons next pieces ih =>
      have hrest := ih next
      rw [List.intercalate] at hrest ⊢
      rw [List.map_cons, List.map_cons, List.intersperse_cons_cons, List.flatten_cons,
        List.flatten_cons, ← List.map_cons, ← hrest]
      rfl

/-- Spaces are no tokens. -/
lemma filterMap_reading?_spaced (pieces : List Piece) :
    (spaced pieces).filterMap reading? = pieces.filterMap reading? := by
  have hspace : reading? space = none := rfl
  have hmore (pieces : List Piece) : (pieces.flatMap fun next => [space, next]).filterMap reading? =
      pieces.filterMap reading? := by
    induction pieces with
    | nil => rfl
    | cons next pieces ih =>
      rw [List.flatMap_cons, List.filterMap_append, ih, List.filterMap_cons_none hspace,
        ← List.filterMap_append, List.singleton_append]
  cases pieces with
  | nil => rfl
  | cons piece pieces => rw [spaced, List.filterMap_cons, hmore, List.filterMap_cons]

lemma mem_spaced (h : piece ∈ spaced pieces) : piece ∈ pieces ∨ piece = space := by
  cases pieces with
  | nil => cases h
  | cons first pieces =>
    rcases List.mem_cons.mp h with rfl | h
    · exact .inl List.mem_cons_self
    · obtain ⟨next, hnext, h⟩ := List.mem_flatMap.mp h
      rcases List.mem_cons.mp h with rfl | h
      · exact .inr rfl
      · obtain rfl := List.mem_singleton.mp h
        exact .inl (List.mem_cons_of_mem _ hnext)

end Spaces

/-- The pieces of a text that are tokens. -/
def tokenPieces (text : List Char) : List Piece := (cut text).filter (·.tokenKind?.isSome)

lemma of_mem_tokenPieces {text : List Char} (h : piece ∈ tokenPieces text) :
    piece.tokenKind?.isSome = true ∧ ∃ rest, piece.Opens rest := by
  obtain ⟨hmem, htoken⟩ := List.mem_filter.mp h
  obtain ⟨placed, hplaced, rfl⟩ := (mem_iff_place 0).mp hmem
  exact ⟨htoken, (Text.of_mem_placedPieces hplaced).2⟩

/-- The texts of tokens are those of their pieces. -/
lemma map_text_tokens (text : List Char) :
    (Text.tokens text).map (·.text.toList) = (tokenPieces text).map Piece.text := by
  have hpieces (pieces : List Piece) : (pieces.filterMap reading?).map (·.2.toList) =
      (pieces.filter (·.tokenKind?.isSome)).map Piece.text := by
    induction pieces with
    | nil => rfl
    | cons piece pieces ih =>
      cases hkind : piece.tokenKind? with
      | none =>
        have hreading : piece.reading? = none := by rw [reading?, hkind]; rfl
        rw [List.filterMap_cons_none hreading, List.filter_cons_of_neg (by simp [hkind]), ih]
      | some kind =>
        have hreading : piece.reading? = some (kind, String.ofList piece.text) := by
          rw [reading?, hkind]
          rfl
        rw [List.filterMap_cons_some hreading, List.filter_cons_of_pos (by simp [hkind]),
          List.map_cons, List.map_cons, ih, String.toList_ofList]
  have hreadings : (Text.tokens text).map (·.text.toList) =
      ((tokensFrom 0 (cut text)).map Token.reading).map (·.2.toList) := by
    rw [List.map_map]
    rfl
  rw [hreadings, map_reading_tokensFrom, hpieces, tokenPieces]

lemma filterMap_reading?_tokenPieces (text : List Char) :
    (tokenPieces text).filterMap reading? = (cut text).filterMap reading? := by
  rw [tokenPieces, List.filterMap_filter]
  apply List.filterMap_congr
  intro piece _
  unfold reading?
  cases piece.tokenKind? <;> rfl

end Piece

lemma map_reading_scan (source : String) : (scan source).tokens.map Token.reading =
    (Piece.cut source.toList).filterMap Piece.reading? ++ [(.eof, "")] := by
  have htokens : (scan source).tokens =
      Piece.tokensFrom 0 (Piece.cut source.toList) ++ [.eof source.utf8ByteSize] := rfl
  rw [htokens, List.map_append, Piece.map_reading_tokensFrom]
  rfl

/-- The printed tokens of a text are its token pieces with spaces between them. -/
lemma toList_print_scan (source : String) : (Token.print (scan source).tokens).toList =
    Piece.textOf (Piece.spaced (Piece.tokenPieces source.toList)) := by
  have hkinds : (scan source).tokens.filter (·.kind ≠ .eof) = Text.tokens source.toList := by
    have htokens : (scan source).tokens = Text.tokens source.toList ++ [.eof source.utf8ByteSize] :=
      rfl
    rw [htokens, List.filter_append, List.filter_eq_self.mpr (by simpa using Text.kind_ne_eof)]
    simp [Token.eof]
  rw [Token.print, hkinds, String.toList_intercalate, List.map_map, Piece.textOf_spaced,
    ← Piece.map_text_tokens]
  rfl

/-- Printing the tokens of a text and scanning what is printed changes nothing: there is nothing
wrong with the printed text, it has the tokens of the text in other places, and it is printed as
itself. -/
theorem scan_print (source : String) :
    let printed := Token.print (scan source).tokens
    (scan printed).diagnostics = [] ∧
      (scan printed).tokens.map Token.reading = (scan source).tokens.map Token.reading ∧
      Token.print (scan printed).tokens = printed := by
  intro printed
  have hcut : Piece.cut printed.toList = Piece.spaced (Piece.tokenPieces source.toList) := by
    rw [toList_print_scan]
    exact Piece.cut_textOf (Piece.areCut_spaced fun _ => Piece.of_mem_tokenPieces)
  have hreadings : (scan printed).tokens.map Token.reading =
      (scan source).tokens.map Token.reading := by
    rw [map_reading_scan, map_reading_scan, hcut, Piece.filterMap_reading?_spaced,
      Piece.filterMap_reading?_tokenPieces]
  refine ⟨?_, hreadings, Token.print_congr hreadings⟩
  rw [scan_diagnostics_eq_nil_iff, hcut]
  intro piece hpiece
  rcases Piece.mem_spaced hpiece with hmem | rfl
  · exact (Piece.of_isSome_tokenKind? (Piece.of_mem_tokenPieces hmem).1).1
  · simp [Piece.Valid, Piece.space]

end NullGuard
