import Mathlib.Data.List.Forall2
import NullGuard.Proofs.PieceCuts

/-!
# Putting guards into a text

`Text.mend` puts a call of `ISNULL` around the bytes of some spans of a text. If the spans start and
stop with words, the scan of the new text is that of the old one with the tokens of the calls put in
between, and all other tokens are what they were up to their places.
-/

namespace NullGuard

/-- Whether one of the spans starts where this one starts. -/
def Span.opensIn (spans : List Span) (span : Span) : Bool := spans.any (·.start = span.start)

def Span.closesIn (spans : List Span) (span : Span) : Bool := spans.any (·.stop = span.stop)

namespace Text

/-- What is put behind a span that stops at an offset. -/
def closing (spans : List Span) (offset : Nat) : List Char :=
  if spans.any (·.stop = offset) then [',', ' ', '0', ')'] else []

/-- What is put before a span that starts at an offset. -/
def opening (spans : List Span) (offset : Nat) : List Char :=
  if spans.any (·.start = offset) then ['I', 'S', 'N', 'U', 'L', 'L', '('] else []

/-- A text from an offset on, where `ISNULL(` is put before each of the spans and `, 0)` behind
it. -/
def mend (spans : List Span) : Nat → List Char → List Char
  | offset, [] => closing spans offset
  | offset, c :: cs =>
    closing spans offset ++ opening spans offset ++ c :: mend spans (offset + c.utf8Size) cs

example : mend [⟨7, 10⟩, ⟨12, 15⟩] 0 "SELECT b.x, b.y".toList =
    "SELECT ISNULL(b.x, 0), ISNULL(b.y, 0)".toList := by decide

@[simp]
lemma size_append (cs ds : List Char) : size (cs ++ ds) = size cs + size ds := by
  induction cs with
  | nil => simp [size]
  | cons c cs ih => simp only [List.cons_append, size, ih, Nat.add_assoc]

lemma size_pos {cs : List Char} (h : cs ≠ []) : 0 < size cs := by
  cases cs with
  | nil => exact absurd rfl h
  | cons c cs =>
    have := c.utf8Size_pos
    simp only [size]
    omega

/-- No span starts or stops between two offsets. -/
def Whole (spans : List Span) (start stop : Nat) : Prop :=
  ∀ span ∈ spans, (span.start ≤ start ∨ stop ≤ span.start) ∧ (span.stop ≤ start ∨ stop ≤ span.stop)

lemma Whole.closing_eq {spans : List Span} {start stop offset : Nat} (h : Whole spans start stop)
    (hstart : start < offset) (hstop : offset < stop) :
    closing spans offset = [] ∧ opening spans offset = [] := by
  have hnone : spans.any (·.stop = offset) = false ∧ spans.any (·.start = offset) = false := by
    simp only [List.any_eq_false, decide_eq_true_eq]
    refine ⟨fun span hspan => ?_, fun span hspan => ?_⟩
    · have := (h span hspan).2
      omega
    · have := (h span hspan).1
      omega
  simp [closing, opening, hnone]

/-- Nothing is put inside of a stretch of text in which no span starts or stops. -/
lemma mend_append {spans : List Span} (cs rest : List Char) {start offset : Nat}
    (h : Whole spans start (offset + size cs)) (hoffset : start < offset) :
    mend spans offset (cs ++ rest) = cs ++ mend spans (offset + size cs) rest := by
  induction cs generalizing offset with
  | nil => rfl
  | cons c cs ih =>
    have hpos := c.utf8Size_pos
    simp only [size] at h
    obtain ⟨hclosing, hopening⟩ := h.closing_eq hoffset (by omega)
    rw [List.cons_append, mend, hclosing, hopening, ih (by rwa [Nat.add_assoc]) (by omega)]
    simp only [size, Nat.add_assoc, List.nil_append, List.cons_append]

/-- Before a stretch of text in which no span starts or stops, something can be put. -/
lemma mend_stretch {spans : List Span} {cs : List Char} (hne : cs ≠ []) (rest : List Char)
    {offset : Nat} (h : Whole spans offset (offset + size cs)) :
    mend spans offset (cs ++ rest) = closing spans offset ++ opening spans offset ++ cs ++
      mend spans (offset + size cs) rest := by
  cases cs with
  | nil => exact absurd rfl hne
  | cons c cs =>
    have hpos := c.utf8Size_pos
    simp only [size] at h
    rw [List.cons_append, mend, mend_append cs rest (by rwa [Nat.add_assoc]) (by omega)]
    simp only [size, Nat.add_assoc, List.append_assoc, List.cons_append]

end Text

namespace Piece

def opening : List Piece := [⟨.word, ['I', 'S', 'N', 'U', 'L', 'L']⟩, ⟨.symbol .lparen, ['(']⟩]

def closing : List Piece :=
  [⟨.symbol .comma, [',']⟩, ⟨.blank, [' ']⟩, ⟨.number, ['0']⟩, ⟨.symbol .rparen, [')']⟩]

end Piece

namespace Placed

/-- A piece with what is put before and behind it. -/
def mended (spans : List Span) (placed : Placed) : List Piece :=
  (if placed.span.opensIn spans then Piece.opening else []) ++
    placed.piece :: if placed.span.closesIn spans then Piece.closing else []

lemma textOf_mended (spans : List Span) (placed : Placed) :
    Piece.textOf (placed.mended spans) = Text.opening spans placed.span.start ++
      placed.piece.text ++ Text.closing spans placed.span.stop := by
  unfold mended Text.opening Text.closing Span.opensIn Span.closesIn
  split <;> split <;> simp [Piece.textOf, Piece.opening, Piece.closing]

/-- The spans neither start nor stop inside of the piece, and with it only if it is a word. -/
structure Suits (placed : Placed) (spans : List Span) : Prop where
  whole : Text.Whole spans placed.span.start placed.span.stop
  word : placed.span.opensIn spans = true ∨ placed.span.closesIn spans = true →
    placed.piece.kind = .word

lemma Suits.not_flagged {spans : List Span} {placed : Placed} (h : placed.Suits spans)
    (hkind : placed.piece.kind ≠ .word) :
    placed.span.opensIn spans = false ∧ placed.span.closesIn spans = false := by
  refine ⟨Bool.eq_false_iff.mpr fun hopens => ?_, Bool.eq_false_iff.mpr fun hcloses => ?_⟩
  · exact hkind (h.word (.inl hopens))
  · exact hkind (h.word (.inr hcloses))

end Placed

namespace Piece

variable {spans : List Span} {pieces : List Piece}

/-- The new text is that of the new pieces. -/
lemma mend_textOf (hne : ∀ piece ∈ pieces, piece.text ≠ []) (offset : Nat)
    (h : ∀ placed ∈ place offset pieces, placed.Suits spans) :
    Text.mend spans offset (textOf pieces) = Text.closing spans offset ++
      textOf ((place offset pieces).flatMap (Placed.mended spans)) := by
  induction pieces generalizing offset with
  | nil => simp [Text.mend, place]
  | cons piece pieces ih =>
    obtain ⟨hpiece, hpieces⟩ := List.forall_mem_cons.mp h
    obtain ⟨htext, hne⟩ := List.forall_mem_cons.mp hne
    rw [textOf_cons, Text.mend_stretch htext _ hpiece.whole]
    have hrest := ih hne _ hpieces
    rw [size] at hrest
    rw [hrest, place, List.flatMap_cons, textOf_append, Placed.textOf_mended]
    simp only [List.append_assoc, size]

lemma areCut_opening {rest : List Piece} (h : AreCut rest) : AreCut (opening ++ rest) :=
  ⟨⟨_, _, rfl, rfl⟩, ⟨_, _, rfl, rfl⟩, h⟩

lemma areCut_closing {rest : List Piece} (h : AreCut rest) : AreCut (closing ++ rest) :=
  ⟨⟨_, _, rfl, rfl⟩, ⟨_, _, rfl, rfl⟩, ⟨_, _, rfl, rfl⟩, ⟨_, _, rfl, rfl⟩, h⟩

def Valid (piece : Piece) : Prop := piece.kind ≠ .unclosed ∧ piece.kind ≠ .invalid

/-- One piece more, with what is put before and behind it. -/
lemma areCut_mended_cons {placed : Placed} {behind : List Char} {rest : List Piece}
    (hopens : placed.piece.Opens behind) (hvalid : placed.piece.Valid) (hsuits : placed.Suits spans)
    (hcut : AreCut rest) (halike : Alike behind (textOf rest)) :
    AreCut (placed.mended spans ++ rest) := by
  have hpiece : AreCut (placed.piece ::
      ((if placed.span.closesIn spans then closing else []) ++ rest)) := by
    by_cases hcloses : placed.span.closesIn spans = true
    · rw [if_pos hcloses]
      refine ⟨hopens.of_word (hsuits.word (.inr hcloses)) ?_, areCut_closing hcut⟩
      simp [textOf, closing, Text.isWordPart, Text.isWordStart, Text.isLetter]
    · rw [if_neg hcloses]
      exact ⟨hopens.alike halike hvalid.1, hcut⟩
  unfold Placed.mended
  by_cases hopen : placed.span.opensIn spans = true
  · rw [if_pos hopen]
    exact areCut_opening hpiece
  · rw [if_neg hopen]
    exact hpiece

lemma alike_mended_cons {placed : Placed} {behind : List Char} {rest : List Piece}
    (hopens : placed.piece.Opens behind) (hsuits : placed.Suits spans)
    (halike : Alike behind (textOf rest)) :
    Alike (placed.piece.text ++ behind) (textOf (placed.mended spans ++ rest)) := by
  rw [textOf_append, Placed.textOf_mended]
  obtain ⟨c, cs, htext, hfirst⟩ := id hopens
  by_cases hopen : placed.span.opensIn spans = true
  · have hword := (first_kind c _).1 (hfirst ▸ hsuits.word (.inl hopen))
    have hopening : Text.opening spans placed.span.start = ['I', 'S', 'N', 'U', 'L', 'L', '('] :=
      if_pos hopen
    rw [hopening]
    exact ⟨by simp [htext, hword.2], by simp⟩
  · have hopening : Text.opening spans placed.span.start = [] := if_neg hopen
    rw [hopening, List.nil_append]
    refine ⟨by simp [htext], fun d' cs' hdot hd' => ?_⟩
    have hpiece := hopens.of_dot (by rw [htext] at hdot ⊢; simp at hdot ⊢; exact hdot.1)
    have hcloses := (hsuits.not_flagged (by simp [hpiece])).2
    have hclosing : Text.closing spans placed.span.stop = [] := if_neg (Bool.eq_false_iff.mp hcloses)
    rw [hpiece, hclosing] at hdot
    have hrest : textOf rest = d' :: cs' := by simpa using hdot
    obtain ⟨d, hd, rfl | ⟨_, rfl⟩⟩ := halike.head d' (by simp [hrest])
    · obtain ⟨more, rfl⟩ : ∃ more, behind = d' :: more := by cases behind <;> simp_all
      exact ⟨d', more, by rw [hpiece]; rfl, hd'⟩
    · cases hd'

/-- The new pieces are the cut of the new text. -/
lemma areCut_mended (hcut : AreCut pieces) (hvalid : ∀ piece ∈ pieces, piece.Valid) (offset : Nat)
    (h : ∀ placed ∈ place offset pieces, placed.Suits spans) :
    AreCut ((place offset pieces).flatMap (Placed.mended spans)) ∧
      Alike (textOf pieces) (textOf ((place offset pieces).flatMap (Placed.mended spans))) := by
  induction pieces generalizing offset with
  | nil => exact ⟨trivial, ⟨by simp [place], by simp [place]⟩⟩
  | cons piece pieces ih =>
    obtain ⟨hopens, hcut⟩ := hcut
    obtain ⟨hpiece, hvalid⟩ := List.forall_mem_cons.mp hvalid
    obtain ⟨hsuits, h⟩ := List.forall_mem_cons.mp h
    obtain ⟨hcut', halike⟩ := ih hcut hvalid _ h
    rw [place, List.flatMap_cons]
    exact ⟨areCut_mended_cons hopens hpiece hsuits hcut' halike,
      alike_mended_cons hopens hsuits halike⟩

end Piece

/-- What a token of the new text has to be: one that is put in, or one that was there. -/
inductive Item where
  | added (kind : TokenKind)
  | kept (token : Token)

/-- The same token in another place. -/
def Token.Moved (token token' : Token) : Prop := token'.kind = token.kind ∧ token'.text = token.text

/-- The token is what is asked for. -/
def Item.Fits : Item → Token → Prop
  | added kind, token => token.kind = kind
  | kept old, token => old.Moved token

namespace Item

def opening : List Item := [added (.keyword .isNull), added .lparen]

def closing : List Item := [added .comma, added .number, added .rparen]

end Item

/-- A token with what is put before and behind it. -/
def Token.items (spans : List Span) (token : Token) : List Item :=
  (if token.span.opensIn spans then Item.opening else []) ++
    .kept token :: if token.span.closesIn spans then Item.closing else []

namespace Piece

variable {spans : List Span} {pieces : List Piece}

lemma place_append (offset : Nat) (pieces pieces' : List Piece) :
    place offset (pieces ++ pieces') =
      place offset pieces ++ place (offset + Text.size (textOf pieces)) pieces' := by
  induction pieces generalizing offset with
  | nil => rfl
  | cons piece pieces ih =>
    simp only [List.cons_append, place, ih, textOf_cons, Text.size_append, size, Nat.add_assoc]

/-- The kinds of the tokens of pieces do not depend on where the pieces stand. -/
lemma fits_place (offset : Nat) (pieces : List Piece) :
    List.Forall₂ Item.Fits ((pieces.filterMap tokenKind?).map .added)
      ((place offset pieces).filterMap Placed.token?) := by
  induction pieces generalizing offset with
  | nil => exact .nil
  | cons piece pieces ih =>
    cases hkind : piece.tokenKind? with
    | none => simpa [place, Placed.token?, hkind] using ih _
    | some kind => simpa [place, Placed.token?, hkind, Item.Fits] using ih _

lemma fits_opening (offset : Nat) :
    List.Forall₂ Item.Fits Item.opening ((place offset opening).filterMap Placed.token?) :=
  fits_place offset opening

lemma fits_closing (offset : Nat) :
    List.Forall₂ Item.Fits Item.closing ((place offset closing).filterMap Placed.token?) :=
  fits_place offset closing

/-- The tokens of the new text are those of the old one with what is put in between. -/
lemma fits_mended (offset offset' : Nat)
    (h : ∀ placed ∈ place offset pieces, placed.Suits spans) :
    List.Forall₂ Item.Fits
      (((place offset pieces).filterMap Placed.token?).flatMap (Token.items spans))
      ((place offset' ((place offset pieces).flatMap (Placed.mended spans))).filterMap
        Placed.token?) := by
  induction pieces generalizing offset offset' with
  | nil => exact .nil
  | cons piece pieces ih =>
    obtain ⟨hsuits, h⟩ := List.forall_mem_cons.mp h
    rw [place, List.flatMap_cons, place_append, List.filterMap_append]
    have hrest := ih _ (offset' + Text.size (textOf (Placed.mended spans
      ⟨⟨offset, offset + piece.size⟩, piece⟩))) h
    cases hkind : piece.tokenKind? with
    | none =>
      have hne : piece.kind ≠ .word := by
        intro hword
        simp only [tokenKind?, hword] at hkind
        split at hkind <;> cases hkind
      obtain ⟨hopens, hcloses⟩ := hsuits.not_flagged hne
      have htoken (span : Span) : Placed.token? ⟨span, piece⟩ = none := by
        simp [Placed.token?, hkind]
      rw [List.filterMap_cons_none (htoken _)]
      simpa [Placed.mended, hopens, hcloses, place, htoken] using hrest
    | some kind =>
      have htoken (span : Span) :
          Placed.token? ⟨span, piece⟩ = some ⟨kind, span, String.ofList piece.text⟩ := by
        simp [Placed.token?, hkind]
      rw [List.filterMap_cons_some (htoken _), List.flatMap_cons]
      refine List.rel_append ?_ hrest
      unfold Placed.mended Token.items
      rw [place_append, List.filterMap_append, place, List.filterMap_cons_some (htoken _)]
      refine List.rel_append ?_ (.cons ⟨rfl, rfl⟩ ?_)
      · split
        · exact fits_opening _
        · exact .nil
      · split
        · exact fits_closing _
        · exact .nil

/-- No piece starts before the offset that the pieces are placed from. -/
lemma le_start_of_mem_place {offset : Nat} {placed : Placed} (h : placed ∈ place offset pieces) :
    offset ≤ placed.span.start := by
  induction pieces generalizing offset with
  | nil => cases h
  | cons piece pieces ih =>
    rcases List.mem_cons.mp h with rfl | h
    · exact Nat.le_refl _
    · exact Nat.le_trans (Nat.le_add_right _ _) (ih h)

lemma sorted_place (offset : Nat) (pieces : List Piece) :
    (place offset pieces).Pairwise (·.span.stop ≤ ·.span.start) := by
  induction pieces generalizing offset with
  | nil => exact .nil
  | cons piece pieces ih => exact .cons (fun _ h => le_start_of_mem_place h) (ih _)

lemma mem_iff_place (offset : Nat) {piece : Piece} :
    piece ∈ pieces ↔ ∃ placed ∈ place offset pieces, placed.piece = piece := by
  have hmap : (place offset pieces).map Placed.piece = pieces := by
    induction pieces generalizing offset with
    | nil => rfl
    | cons piece pieces ih => rw [place, List.map_cons, ih]
  rw [← List.mem_map, hmap]

/-- The placed pieces of a cut take some bytes each. -/
lemma of_mem_place (hcut : AreCut pieces) {offset : Nat} {placed : Placed}
    (h : placed ∈ place offset pieces) :
    placed.span.start < placed.span.stop ∧ ∃ rest, placed.piece.Opens rest := by
  induction pieces generalizing offset with
  | nil => cases h
  | cons piece pieces ih =>
    obtain ⟨hopens, hcut⟩ := hcut
    rcases List.mem_cons.mp h with rfl | h
    · exact ⟨Nat.lt_add_of_pos_right (Text.size_pos hopens.text_ne_nil), _, hopens⟩
    · exact ih hcut h

end Piece

/-- Tokens that take some bytes each, one behind the other. -/
structure Token.InOrder (tokens : List Token) : Prop where
  sorted : tokens.Pairwise (·.span.stop ≤ ·.span.start)
  filled : ∀ token ∈ tokens, token.span.start < token.span.stop

namespace Token

variable {tokens tokens' : List Token} {token : Token}

lemma InOrder.of_sublist (h : InOrder tokens) (hsub : tokens'.Sublist tokens) : InOrder tokens' :=
  ⟨h.sorted.sublist hsub, fun token htoken => h.filled token (hsub.subset htoken)⟩

/-- Of two tokens the second both starts and stops behind the first. -/
lemma InOrder.lt_of_append (h : InOrder (tokens ++ tokens')) {other : Token}
    (htoken : token ∈ tokens) (hother : other ∈ tokens') :
    token.span.start < other.span.start ∧ token.span.stop < other.span.stop := by
  have hle := (List.pairwise_append.mp h.sorted).2.2 token htoken other hother
  have hpos := h.filled token (by simp [htoken])
  have hpos' := h.filled other (by simp [hother])
  omega

end Token

namespace Text

variable {text : List Char} {spans : List Span} {placed other : Placed}

def tokens (text : List Char) : List Token := (placedPieces text).filterMap Placed.token?

lemma of_mem_placedPieces (h : placed ∈ placedPieces text) :
    placed.span.start < placed.span.stop ∧ ∃ rest, placed.piece.Opens rest :=
  Piece.of_mem_place (Piece.areCut_cut text).1 h

/-- Pieces do not overlap. -/
lemma apart_of_mem (h : placed ∈ placedPieces text) (h' : other ∈ placedPieces text) :
    placed = other ∨ placed.span.stop ≤ other.span.start ∨ other.span.stop ≤ placed.span.start := by
  have hsorted := Piece.sorted_place 0 (Piece.cut text)
  exact List.Pairwise.forall_of_forall_of_flip
    (R := fun a b : Placed => a = b ∨ a.span.stop ≤ b.span.start ∨ b.span.stop ≤ a.span.start)
    (fun _ _ => .inl rfl) (hsorted.imp fun h => .inr (.inl h)) (hsorted.imp fun h => .inr (.inr h))
    h h'

lemma mem_tokens {token : Token} (h : token ∈ tokens text) :
    ∃ placed ∈ placedPieces text, placed.span = token.span ∧ token.kind ≠ .eof ∧
      (token.kind.isName = true → placed.piece.kind = .word) := by
  obtain ⟨placed, hplaced, htoken⟩ := List.mem_filterMap.mp h
  obtain ⟨_, rest, hopens⟩ := of_mem_placedPieces hplaced
  obtain ⟨kind, hkind, rfl⟩ := Option.map_eq_some_iff.mp htoken
  obtain ⟨hname, hend⟩ := hopens.tokenKind? hkind
  exact ⟨placed, hplaced, rfl, hend, hname⟩

lemma kind_ne_eof : ∀ token ∈ tokens text, token.kind ≠ .eof := by
  intro token htoken
  obtain ⟨_, _, _, hne, _⟩ := mem_tokens htoken
  exact hne

lemma inOrder_tokens (text : List Char) : Token.InOrder (tokens text) where
  sorted := by
    refine List.Pairwise.filterMap _ (fun a b hab token ha token' hb => ?_)
      (Piece.sorted_place 0 (Piece.cut text))
    obtain ⟨_, _, rfl⟩ := Option.map_eq_some_iff.mp ha
    obtain ⟨_, _, rfl⟩ := Option.map_eq_some_iff.mp hb
    exact hab
  filled := by
    intro token htoken
    obtain ⟨placed, hplaced, hspan, _⟩ := mem_tokens htoken
    exact hspan ▸ (of_mem_placedPieces hplaced).1

/-- Spans that start and stop with names. -/
def Named (text : List Char) (spans : List Span) : Prop :=
  ∀ span ∈ spans, ∃ first ∈ tokens text, ∃ last ∈ tokens text, first.kind.isName = true ∧
    last.kind.isName = true ∧ span = ⟨first.span.start, last.span.stop⟩

lemma Named.suits (h : Named text spans) (hplaced : placed ∈ placedPieces text) :
    placed.Suits spans := by
  have hsides (span : Span) (hspan : span ∈ spans) :
      ∃ a ∈ placedPieces text, ∃ b ∈ placedPieces text, a.piece.kind = .word ∧
        b.piece.kind = .word ∧ span.start = a.span.start ∧ span.stop = b.span.stop := by
    obtain ⟨first, hfirst, last, hlast, hname, hname', rfl⟩ := h span hspan
    obtain ⟨a, ha, hspan, _, hword⟩ := mem_tokens hfirst
    obtain ⟨b, hb, hspan', _, hword'⟩ := mem_tokens hlast
    exact ⟨a, ha, b, hb, hword hname, hword' hname', by rw [hspan], by rw [hspan']⟩
  have hpos := (of_mem_placedPieces hplaced).1
  constructor
  · intro span hspan
    obtain ⟨a, ha, b, hb, _, _, hstart, hstop⟩ := hsides span hspan
    have hposa := (of_mem_placedPieces ha).1
    have hposb := (of_mem_placedPieces hb).1
    rcases apart_of_mem hplaced ha with rfl | hapart | hapart <;>
      rcases apart_of_mem hplaced hb with rfl | hapart' | hapart' <;> omega
  · rintro (hopens | hcloses)
    · obtain ⟨span, hspan, hstart⟩ := List.any_eq_true.mp hopens
      obtain ⟨a, ha, b, hb, hword, _, hstart', _⟩ := hsides span hspan
      have hposa := (of_mem_placedPieces ha).1
      rcases apart_of_mem hplaced ha with rfl | hapart
      · exact hword
      · simp only [decide_eq_true_eq] at hstart
        omega
    · obtain ⟨span, hspan, hstop⟩ := List.any_eq_true.mp hcloses
      obtain ⟨a, ha, b, hb, _, hword, _, hstop'⟩ := hsides span hspan
      have hposb := (of_mem_placedPieces hb).1
      rcases apart_of_mem hplaced hb with rfl | hapart
      · exact hword
      · simp only [decide_eq_true_eq] at hstop
        omega

/-- Nothing is put before the whole text, since no span stops there. -/
lemma Named.closing_eq (h : Named text spans) : closing spans 0 = [] := by
  refine if_neg fun hstop => ?_
  obtain ⟨span, hspan, hstop⟩ := List.any_eq_true.mp hstop
  obtain ⟨_, _, last, hlast, _, _, rfl⟩ := h span hspan
  obtain ⟨placed, hplaced, hspan, _⟩ := mem_tokens hlast
  have hpos := (of_mem_placedPieces hplaced).1
  rw [hspan] at hpos
  simp only [decide_eq_true_eq] at hstop
  omega

end Text

lemma Placed.valid_iff {placed : Placed} : placed.piece.Valid ↔ placed.diagnostic? = none := by
  unfold Piece.Valid diagnostic?
  split <;> simp_all

lemma Placed.mended_valid {spans : List Span} {placed : Placed} (h : placed.piece.Valid) :
    ∀ piece ∈ placed.mended spans, piece.Valid := by
  have hopening : ∀ piece ∈ Piece.opening, piece.Valid := by simp [Piece.opening, Piece.Valid]
  have hclosing : ∀ piece ∈ Piece.closing, piece.Valid := by simp [Piece.closing, Piece.Valid]
  unfold mended
  refine List.forall_mem_append.mpr ⟨?_, List.forall_mem_cons.mpr ⟨h, ?_⟩⟩
  · split
    · exact hopening
    · simp
  · split
    · exact hclosing
    · simp

/-- There is nothing wrong with a text that has no pieces that cannot be read. -/
lemma scan_diagnostics_eq_nil_iff {source : String} :
    (scan source).diagnostics = [] ↔ ∀ piece ∈ Piece.cut source.toList, piece.Valid := by
  rw [scan, List.filterMap_eq_nil_iff]
  constructor
  · intro h piece hpiece
    obtain ⟨placed, hplaced, rfl⟩ := (Piece.mem_iff_place 0).mp hpiece
    exact Placed.valid_iff.mpr (h placed hplaced)
  · intro h placed hplaced
    exact Placed.valid_iff.mp (h _ ((Piece.mem_iff_place 0).mpr ⟨placed, hplaced, rfl⟩))

/-- The scan of a text where guards are put in: there is nothing wrong with it, and its tokens are
those of the text with the guards put in. -/
theorem scan_mend {source : String} {spans : List Span} (hread : (scan source).diagnostics = [])
    (hnamed : Text.Named source.toList spans) :
    (scan (String.ofList (Text.mend spans 0 source.toList))).diagnostics = [] ∧
      List.Forall₂ Item.Fits ((Text.tokens source.toList).flatMap (Token.items spans))
        (Text.tokens (Text.mend spans 0 source.toList)) := by
  obtain ⟨hcut, htext⟩ := Piece.areCut_cut source.toList
  have hsuits : ∀ placed ∈ Piece.place 0 (Piece.cut source.toList), placed.Suits spans :=
    fun placed hplaced => hnamed.suits hplaced
  have hvalid := scan_diagnostics_eq_nil_iff.mp hread
  generalize hpieces : (placedPieces source.toList).flatMap (Placed.mended spans) = pieces
  have hmend : Text.mend spans 0 source.toList = Piece.textOf pieces := by
    have hne : ∀ piece ∈ Piece.cut source.toList, piece.text ≠ [] := by
      intro piece hpiece
      obtain ⟨placed, hplaced, rfl⟩ := (Piece.mem_iff_place 0).mp hpiece
      obtain ⟨_, rest, hopens⟩ := Text.of_mem_placedPieces hplaced
      exact hopens.text_ne_nil
    have hmend := Piece.mend_textOf hne 0 hsuits
    rwa [htext, hnamed.closing_eq, List.nil_append, ← placedPieces, hpieces] at hmend
  have hcut' : Piece.cut (Text.mend spans 0 source.toList) = pieces := by
    rw [hmend, Piece.cut_textOf]
    exact hpieces ▸ (Piece.areCut_mended hcut hvalid 0 hsuits).1
  constructor
  · rw [scan_diagnostics_eq_nil_iff, String.toList_ofList, hcut', ← hpieces]
    intro piece hpiece
    obtain ⟨old, hold, hpiece⟩ := List.mem_flatMap.mp hpiece
    exact Placed.mended_valid (hvalid _ ((Piece.mem_iff_place 0).mpr ⟨old, hold, rfl⟩)) _ hpiece
  · rw [Text.tokens, Text.tokens, placedPieces, placedPieces, hcut', ← hpieces]
    exact Piece.fits_mended 0 0 hsuits

end NullGuard
