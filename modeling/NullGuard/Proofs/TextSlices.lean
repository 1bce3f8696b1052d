import NullGuard.Proofs.TextSeam
import NullGuard.Proofs.TokenShapes

namespace NullGuard

namespace Piece

variable {piece last : Piece} {pieces ps qs : List Piece} {rest : List Char}

/-- The text behind a piece can be left out from anywhere on. -/
lemma unseen_append (rest more : List Char) : Unseen (rest ++ more) rest where
  run p _ hhead c hc := hhead c (List.mem_head?_append_of_mem_head? hc)
  mark c hc _ := List.mem_head?_append_of_mem_head? hc
  decimal d cs h hd := by
    subst h
    exact ⟨d, cs ++ more, rfl, hd⟩

lemma AreCut.right (h : AreCut (ps ++ qs)) : AreCut qs := by
  induction ps with
  | nil => exact h
  | cons piece ps ih => exact ih h.2

/-- A closed piece stays what it is if the text behind it is left out from anywhere on. -/
lemma Opens.of_append (rest more : List Char) (h : piece.Opens (rest ++ more))
    (hclosed : piece.kind ≠ .unclosed) : piece.Opens rest :=
  h.unseen (unseen_append rest more) hclosed fun _ _ hhead c hc =>
    hhead c (List.mem_head?_append_of_mem_head? hc)

/-- Pieces up to one that is closed are the cut of their own text. -/
lemma AreCut.left (h : AreCut (ps ++ last :: qs)) (hlast : last.kind ≠ .unclosed) :
    AreCut (ps ++ [last]) := by
  induction ps with
  | nil => exact ⟨h.1.of_append [] _ hlast, trivial⟩
  | cons piece ps ih =>
    obtain ⟨hopens, hcut⟩ := h
    refine ⟨.of_append _ (textOf qs) ?_ fun hkind => ?_, ih hcut⟩
    · simpa [List.append_assoc] using hopens
    · -- there is more behind the piece
      obtain ⟨_, _, _, hnil⟩ := hopens.unclosed hkind
      have hlast := hcut.right.1.text_ne_nil
      simp [hlast] at hnil

lemma tokensFrom_singleton (offset : Nat) (piece : Piece) : tokensFrom offset [piece] =
    (Placed.token? ⟨⟨offset, offset + piece.size⟩, piece⟩).toList := by
  rw [tokensFrom, place, place, List.filterMap_cons]
  cases Placed.token? ⟨⟨offset, offset + piece.size⟩, piece⟩ <;> rfl

/-- A piece that is a token takes the bytes of it, and is closed. -/
lemma of_tokensFrom_singleton {offset : Nat} {token : Token}
    (h : tokensFrom offset [piece] = [token]) :
    token.span = ⟨offset, offset + piece.size⟩ ∧ piece.kind ≠ .unclosed := by
  rw [tokensFrom_singleton, Option.toList_eq_singleton_iff] at h
  obtain ⟨kind, hkind, rfl⟩ := Option.map_eq_some_iff.mp h
  refine ⟨rfl, fun hunclosed => ?_⟩
  simp [tokenKind?, hunclosed] at hkind

/-- A token among those of some pieces is that of a piece. -/
lemma exists_piece {offset : Nat} {before after : List Token} {token : Token}
    (h : tokensFrom offset pieces = before ++ token :: after) : ∃ ps piece qs,
      pieces = ps ++ piece :: qs ∧ tokensFrom offset ps = before ∧
      tokensFrom (offset + Text.size (textOf ps)) [piece] = [token] := by
  induction pieces generalizing offset before with
  | nil => simp [tokensFrom, place] at h
  | cons first pieces ih =>
    have hlater (before' : List Token) (hbefore : before = tokensFrom offset [first] ++ before')
        (hrest : tokensFrom (offset + Text.size (textOf [first])) pieces =
          before' ++ token :: after) : ∃ ps piece qs,
          first :: pieces = ps ++ piece :: qs ∧ tokensFrom offset ps = before ∧
          tokensFrom (offset + Text.size (textOf ps)) [piece] = [token] := by
      obtain ⟨ps, piece, qs, rfl, rfl, hpiece⟩ := ih hrest
      refine ⟨first :: ps, piece, qs, rfl, ?_, by simpa [Nat.add_assoc] using hpiece⟩
      rw [hbefore, ← tokensFrom_append, List.singleton_append]
    have hsplit := tokensFrom_append offset [first] pieces
    rw [List.singleton_append, h] at hsplit
    cases htoken : Placed.token? ⟨⟨offset, offset + first.size⟩, first⟩ with
    | none =>
      have hnone : tokensFrom offset [first] = [] := by rw [tokensFrom_singleton, htoken]; rfl
      rw [hnone, List.nil_append] at hsplit
      exact hlater before (by rw [hnone, List.nil_append]) hsplit.symm
    | some token' =>
      have hsome : tokensFrom offset [first] = [token'] := by rw [tokensFrom_singleton, htoken]; rfl
      rw [hsome, List.singleton_append] at hsplit
      cases before with
      | nil =>
        obtain ⟨rfl, _⟩ := List.cons.inj hsplit
        exact ⟨[], first, pieces, rfl, rfl, hsome⟩
      | cons _ before =>
        obtain ⟨rfl, hrest⟩ := List.cons.inj hsplit
        exact hlater before (by rw [hsome, List.singleton_append]) hrest.symm

/-- Some tokens one behind the other are those of some pieces. -/
lemma exists_pieces {before tokens after : List Token} {first last : Token} (hcut : AreCut pieces)
    (h : tokensFrom 0 pieces = before ++ tokens ++ after) (hfirst : tokens.head? = some first)
    (hlast : tokens.getLast? = some last) : ∃ ps slice qs,
      pieces = ps ++ slice ++ qs ∧ AreCut slice ∧ Text.size (textOf ps) = first.span.start ∧
      Text.size (textOf (ps ++ slice)) = last.span.stop ∧
      tokensFrom (Text.size (textOf ps)) slice = tokens := by
  obtain ⟨front, hfront⟩ := List.getLast?_eq_some_iff.mp hlast
  obtain ⟨back, hback⟩ := List.head?_eq_some_iff.mp hfirst
  have hend : tokensFrom 0 pieces = (before ++ front) ++ last :: after := by simp [h, hfront]
  obtain ⟨ps, piece, qs, rfl, hps, hpiece⟩ := exists_piece hend
  rw [Nat.zero_add] at hpiece
  obtain ⟨hstop, hclosed⟩ := of_tokensFrom_singleton hpiece
  have hupto : tokensFrom 0 (ps ++ [piece]) = before ++ tokens := by
    rw [tokensFrom_append, hps, Nat.zero_add, hpiece, List.append_assoc, hfront]
  have hstart : tokensFrom 0 (ps ++ [piece]) = before ++ first :: back := by rw [hupto, hback]
  obtain ⟨ps', piece', qs', heq, hps', hpiece'⟩ := exists_piece hstart
  rw [Nat.zero_add] at hpiece'
  have hcut' := hcut.left hclosed
  rw [heq] at hcut' hupto
  refine ⟨ps', piece' :: qs', qs, ?_, hcut'.right, ?_, ?_, ?_⟩
  · rw [← heq, List.append_assoc, List.singleton_append]
  · rw [(of_tokensFrom_singleton hpiece').1]
  · rw [← heq, hstop]
    simp [size]
  · rw [tokensFrom_append, hps', Nat.zero_add] at hupto
    exact List.append_cancel_left hupto

end Piece

/-- The part of a text from a token up to another one has the tokens that the text has there. -/
theorem Text.exists_slice {text : List Char} {before slice after : List Token} {first last : Token}
    (h : tokens text = before ++ slice ++ after) (hfirst : slice.head? = some first)
    (hlast : slice.getLast? = some last) : ∃ a b c, text = a ++ b ++ c ∧
      size a = first.span.start ∧ size (a ++ b) = last.span.stop ∧
      (tokens b).map (Token.shift (size a)) = slice := by
  obtain ⟨hcut, htext⟩ := Piece.areCut_cut text
  obtain ⟨ps, pieces, qs, hpieces, hslice, hstart, hstop, htokens⟩ :=
    Piece.exists_pieces hcut h hfirst hlast
  refine ⟨Piece.textOf ps, Piece.textOf pieces, Piece.textOf qs, ?_, hstart, ?_, ?_⟩
  · rw [← Piece.textOf_append, ← Piece.textOf_append, ← hpieces, htext]
  · rw [← Piece.textOf_append, hstop]
  · rw [tokens_eq, Piece.cut_textOf hslice, ← Piece.tokensFrom_shift, Nat.zero_add, htokens]

/-- So it is for the scan of a text, with the end of the part behind its tokens. -/
theorem exists_scan_slice {source : String} {before slice after : List Token} {first last : Token}
    (h : Text.tokens source.toList = before ++ slice ++ after) (hfirst : slice.head? = some first)
    (hlast : slice.getLast? = some last) : ∃ a b c : String, source = a ++ b ++ c ∧
      a.utf8ByteSize = first.span.start ∧ (a ++ b).utf8ByteSize = last.span.stop ∧
      (scan b).tokens.map (Token.shift first.span.start) = slice ++ [.eof last.span.stop] := by
  obtain ⟨a, b, c, htext, hstart, hstop, htokens⟩ := Text.exists_slice h hfirst hlast
  have hsource : source = String.ofList a ++ String.ofList b ++ String.ofList c := by
    rw [← String.toList_inj]
    simp [htext]
  have hsize : (Token.eof (String.ofList b).utf8ByteSize).shift first.span.start =
      .eof last.span.stop := by
    rw [← hstop, ← hstart, Text.size_append, Nat.add_comm, ← Text.size_toList, String.toList_ofList]
    rfl
  refine ⟨String.ofList a, String.ofList b, String.ofList c, hsource, ?_, ?_, ?_⟩
  · rw [← Text.size_toList, String.toList_ofList, hstart]
  · rw [← Text.size_toList, String.toList_append, String.toList_ofList, String.toList_ofList, hstop]
  · change (Text.tokens (String.ofList b).toList ++ [_]).map _ = _
    rw [List.map_append, List.map_singleton, hsize, String.toList_ofList, ← hstart, htokens]

end NullGuard
