import Mathlib.Data.String.Basic
import NullGuard.Proofs.TextMending

/-!
# Texts put together

Behind a text without an open string a line end and a semicolon can be put, and then another text.
The pieces of both texts stay what they are, but for blanks, and so the tokens of the whole are those
of the first text, the semicolon, and those of the second text moved by what comes before.
-/

namespace NullGuard

/-- The span `n` bytes further on. -/
def Span.shift (n : Nat) (s : Span) : Span := ⟨s.start + n, s.stop + n⟩

def Token.shift (n : Nat) (token : Token) : Token := { token with span := token.span.shift n }

def Placed.shift (n : Nat) (placed : Placed) : Placed := { placed with span := placed.span.shift n }

namespace Piece

/-- The tokens of pieces that are placed from an offset on. -/
def tokensFrom (offset : Nat) (pieces : List Piece) : List Token :=
  (place offset pieces).filterMap Placed.token?

lemma place_shift (offset n : Nat) (pieces : List Piece) :
    place (offset + n) pieces = (place offset pieces).map (Placed.shift n) := by
  induction pieces generalizing offset with
  | nil => rfl
  | cons piece pieces ih =>
    have hstop : offset + n + piece.size = offset + piece.size + n := by omega
    rw [place, place, List.map_cons, hstop, ih]
    unfold Placed.shift Span.shift
    rfl

lemma tokensFrom_shift (offset n : Nat) (pieces : List Piece) :
    tokensFrom (offset + n) pieces = (tokensFrom offset pieces).map (Token.shift n) := by
  unfold tokensFrom
  rw [place_shift, List.filterMap_map, List.map_filterMap]
  apply List.filterMap_congr
  intro placed _
  unfold Function.comp Placed.token? Placed.shift
  cases placed.piece.tokenKind? <;> rfl

lemma tokensFrom_append (offset : Nat) (pieces pieces' : List Piece) :
    tokensFrom offset (pieces ++ pieces') =
      tokensFrom offset pieces ++ tokensFrom (offset + Text.size (textOf pieces)) pieces' := by
  unfold tokensFrom
  rw [place_append, List.filterMap_append]

lemma tokensFrom_cons_of_blank {piece : Piece} (h : piece.kind = .blank) (offset : Nat)
    (pieces : List Piece) :
    tokensFrom offset (piece :: pieces) = tokensFrom (offset + piece.size) pieces := by
  have htoken : (Placed.mk ⟨offset, offset + piece.size⟩ piece).token? = none := by
    unfold Placed.token? tokenKind?
    rw [h]
    rfl
  unfold tokensFrom
  rw [place, List.filterMap_cons_none htoken]

lemma tokensFrom_cons_semicolon (offset : Nat) (pieces : List Piece) :
    tokensFrom offset (⟨.symbol .semicolon, [';']⟩ :: pieces) =
      ⟨.semicolon, ⟨offset, offset + 1⟩, ";"⟩ :: tokensFrom (offset + 1) pieces := rfl

lemma isBlank_of_first {c : Char} {cs : List Char} (h : (first c cs).kind = .blank) :
    Text.isBlank c = true := by
  rcases first_cases c cs with ⟨hblank, _⟩ | ⟨_, hfirst⟩ | ⟨_, hfirst⟩ | ⟨_, hfirst⟩ | ⟨_, hfirst⟩ |
    ⟨_, hfirst⟩
  · exact hblank
  all_goals rw [hfirst] at h
  · cases h
  · cases h
  · rcases string_kind c cs with hkind | hkind <;> simp [hkind] at h
  · rcases parameter_kind c cs with hkind | hkind <;> simp [hkind] at h
  · rcases symbol_kind (c :: cs) with hkind | hkind | ⟨_, _, hkind⟩ <;> simp [hkind] at h

lemma Opens.isBlank {piece : Piece} {rest : List Char} (h : piece.Opens rest)
    (hkind : piece.kind = .blank) : ∀ c ∈ piece.text, Text.isBlank c = true := by
  obtain ⟨c, cs, htext, hfirst⟩ := h
  have hblank := isBlank_of_first (hfirst ▸ hkind)
  rw [first, if_pos hblank] at hfirst
  subst hfirst
  have hrun := (List.cons.inj htext).2
  rw [htext]
  exact List.forall_mem_cons.mpr ⟨hblank, (takeWhile_append_eq_iff.mp hrun).1⟩

/-- Blanks with something else behind them are one piece. -/
lemma areCut_blank {blanks : List Char} (hne : blanks ≠ [])
    (hblanks : ∀ c ∈ blanks, Text.isBlank c = true) {rest : List Piece} (hrest : AreCut rest)
    (hhead : ∀ c ∈ (textOf rest).head?, Text.isBlank c = false) :
    AreCut (⟨.blank, blanks⟩ :: rest) := by
  refine ⟨?_, hrest⟩
  obtain ⟨c, cs, rfl⟩ := List.exists_cons_of_ne_nil hne
  obtain ⟨hc, hcs⟩ := List.forall_mem_cons.mp hblanks
  refine ⟨c, cs, rfl, ?_⟩
  rw [first, if_pos hc, takeWhile_append_eq_iff.mpr ⟨hcs, hhead⟩]

lemma areCut_newline {blanks : List Char} (hblanks : ∀ c ∈ blanks, Text.isBlank c = true)
    {rest : List Piece} (hrest : AreCut rest)
    (hhead : ∀ c ∈ (textOf rest).head?, Text.isBlank c = false) :
    AreCut (⟨.blank, blanks ++ ['\n']⟩ :: rest) :=
  areCut_blank (by simp) (List.forall_mem_append.mpr ⟨hblanks, by simp [Text.isBlank]⟩) hrest hhead

/-- Other pieces for a text with a line end behind it, with the same tokens. -/
structure ClosedBy (pieces rest pieces' : List Piece) : Prop where
  areCut : AreCut (pieces' ++ rest)
  textOf_eq : textOf pieces' = textOf pieces ++ ['\n']
  tokens_eq : ∀ offset, tokensFrom offset pieces' = tokensFrom offset pieces
  valid : (∀ piece ∈ pieces, piece.Valid) → ∀ piece ∈ pieces', piece.Valid

/-- A piece stays what it is if a line end is put behind the text. Blanks right before the line end
take it in. -/
lemma ClosedBy.cons {piece : Piece} {pieces rest pieces' : List Piece}
    (h : ClosedBy pieces rest pieces') (hopens : piece.Opens (textOf pieces))
    (hunclosed : piece.kind ≠ .unclosed) (hblank : piece.kind = .blank → textOf pieces ≠ []) :
    ClosedBy (piece :: pieces) rest (piece :: pieces') where
  areCut := by
    refine ⟨?_, h.areCut⟩
    change piece.Opens (textOf (pieces' ++ rest))
    rw [textOf_append, h.textOf_eq, List.append_assoc]
    refine hopens.unseen (unseen_newline _ _) hunclosed fun p hp hhead => ?_
    cases htext : textOf pieces with
    | cons c cs =>
      rw [htext] at hhead
      exact hhead
    | nil =>
      rcases of_mem_skipped? hp with ⟨hkind, _⟩ | ⟨_, rfl⟩
      · exact absurd htext (hblank hkind)
      · simp
  textOf_eq := by rw [textOf_cons, h.textOf_eq, textOf_cons, List.append_assoc]
  tokens_eq offset := by
    rw [← List.singleton_append, tokensFrom_append, h.tokens_eq, ← tokensFrom_append]
    rfl
  valid hvalid := by
    obtain ⟨hpiece, hvalid⟩ := List.forall_mem_cons.mp hvalid
    exact List.forall_mem_cons.mpr ⟨hpiece, h.valid hvalid⟩

/-- A line end can be put behind a text without an open string. -/
theorem exists_closedBy {pieces rest : List Piece} (hcut : AreCut pieces)
    (hunclosed : ∀ piece ∈ pieces, piece.kind ≠ .unclosed) (hrest : AreCut rest)
    (hhead : ∀ c ∈ (textOf rest).head?, Text.isBlank c = false) :
    ∃ pieces', ClosedBy pieces rest pieces' := by
  have hnewline (blanks : List Char) : ∀ piece ∈ [⟨.blank, blanks ++ ['\n']⟩], Valid piece := by
    simp [Valid]
  induction pieces with
  | nil =>
    refine ⟨[⟨.blank, [] ++ ['\n']⟩], areCut_newline (by simp) hrest hhead, rfl, fun offset => ?_,
      fun _ => hnewline []⟩
    exact tokensFrom_cons_of_blank rfl offset []
  | cons piece pieces ih =>
    obtain ⟨hopens, hcut⟩ := hcut
    obtain ⟨hpiece, hunclosed⟩ := List.forall_mem_cons.mp hunclosed
    by_cases hlast : piece.kind = .blank ∧ pieces = []
    · obtain ⟨hkind, rfl⟩ := hlast
      refine ⟨[⟨.blank, piece.text ++ ['\n']⟩], areCut_newline (hopens.isBlank hkind) hrest hhead,
        by simp, fun offset => ?_, fun _ => hnewline piece.text⟩
      rw [tokensFrom_cons_of_blank rfl, tokensFrom_cons_of_blank hkind]
      rfl
    · obtain ⟨pieces', h⟩ := ih hcut hunclosed
      refine ⟨piece :: pieces', h.cons hopens hpiece fun hkind htext => hlast ⟨hkind, ?_⟩⟩
      cases pieces with
      | nil => rfl
      | cons next pieces =>
        rw [textOf_cons, List.append_eq_nil_iff] at htext
        exact absurd htext.1 hcut.1.text_ne_nil

end Piece

namespace Text

lemma size_toList (s : String) : size s.toList = s.utf8ByteSize := by
  rw [← String.utf8Len_toList]
  induction s.toList with
  | nil => rfl
  | cons c cs ih => rw [size, ih, String.utf8Len_cons, Nat.add_comm]

lemma tokens_eq (text : List Char) : tokens text = Piece.tokensFrom 0 (Piece.cut text) := rfl

/-- The tokens of two texts with a line end and a semicolon between them. -/
theorem tokens_seam {a b : List Char} (h : ∀ piece ∈ Piece.cut a, piece.kind ≠ .unclosed) :
    tokens (a ++ '\n' :: ';' :: b) =
      tokens a ++ ⟨.semicolon, ⟨size a + 1, size a + 2⟩, ";"⟩ ::
        (tokens b).map (Token.shift (size a + 2)) := by
  obtain ⟨hcut, htext⟩ := Piece.areCut_cut a
  obtain ⟨hcut', htext'⟩ := Piece.areCut_cut b
  have hrest : Piece.AreCut (⟨.symbol .semicolon, [';']⟩ :: Piece.cut b) :=
    ⟨⟨';', [], rfl, rfl⟩, hcut'⟩
  obtain ⟨pieces, hclosed⟩ := Piece.exists_closedBy hcut h hrest (by simp [Text.isBlank])
  have hwhole : Piece.cut (a ++ '\n' :: ';' :: b) =
      pieces ++ ⟨.symbol .semicolon, [';']⟩ :: Piece.cut b := by
    rw [← Piece.cut_textOf hclosed.areCut, Piece.textOf_append, hclosed.textOf_eq, htext,
      Piece.textOf_cons, htext', List.append_assoc]
    rfl
  have hsize : size (Piece.textOf pieces) = size a + 1 := by
    rw [hclosed.textOf_eq, htext, size_append]
    rfl
  rw [tokens_eq, tokens_eq, tokens_eq, hwhole, Piece.tokensFrom_append, hclosed.tokens_eq, hsize,
    Piece.tokensFrom_cons_semicolon, ← Piece.tokensFrom_shift, Nat.zero_add, Nat.zero_add]

end Text

end NullGuard
