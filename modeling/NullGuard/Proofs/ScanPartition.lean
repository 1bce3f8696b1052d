import NullGuard.Proofs.TextSeam
import NullGuard.Proofs.TokenShapes

/-!
# A scan divides a text

The tokens of a text and what is told of its unreadable places stand one behind the other, and all
that is not among them is a blank or part of a comment. A token is the longest text from where it
starts that has the shape of a token. A character is told to be invalid only if nothing starts with
it, and a string to be open only if no quote behind it can close it.
-/

namespace NullGuard

/-- A stretch of a text that a scan tells of. -/
inductive Stretch where
  | token (token : Token)
  | diagnostic (diagnostic : Diagnostic)

namespace Stretch

def token? : Stretch → Option Token
  | token t => some t
  | diagnostic _ => none

def diagnostic? : Stretch → Option Diagnostic
  | token _ => none
  | diagnostic d => some d

def span : Stretch → Span
  | token t => t.span
  | diagnostic d => d.anchor.getD .zero

/-- What is told of a stretch is what stands there. -/
inductive Reads (text : List Char) : Stretch → Prop where
  /-- A token, which nothing longer of any shape stands in place of. -/
  | token {token : Token} {before after : List Char}
      (htext : text = before ++ token.text.toList ++ after)
      (hspan : token.span = ⟨Text.size before, Text.size (before ++ token.text.toList)⟩)
      (hfits : token.kind.Fits token.text.toList)
      (hlongest : ∀ (kind : TokenKind) (w : List Char), kind.Fits w →
        w <+: token.text.toList ++ after → w.length ≤ token.text.toList.length) :
      Reads text (.token token)
  /-- A single character that no token, no blank and no comment starts with. -/
  | invalid {diagnostic : Diagnostic} {c : Char} {before after : List Char}
      (htext : text = before ++ [c] ++ after) (hcode : diagnostic.code = some "S001")
      (hspan : diagnostic.anchor = some ⟨Text.size before, Text.size (before ++ [c])⟩)
      (hblank : Text.isBlank c = false) (hcomment : ¬ ['/', '/'] <+: c :: after)
      (hshapes : ∀ (kind : TokenKind) (w : List Char), kind.Fits w → ¬ w <+: c :: after) :
      Reads text (.diagnostic diagnostic)
  /-- A quote with no quote behind it that could close a string. -/
  | unclosed {diagnostic : Diagnostic} {before after : List Char}
      (htext : text = before ++ '"' :: after) (hcode : diagnostic.code = some "S002")
      (hspan : diagnostic.anchor = some ⟨Text.size before, Text.size text⟩)
      (hquotes : Text.Quotable after) : Reads text (.diagnostic diagnostic)

end Stretch

/-- The bytes of a comment, which goes up to the end of its line. No stretch is in it. -/
structure Comment (text : List Char) (stretches : List Stretch) (span : Span) : Prop where
  text : ∃ before body after, text = before ++ '/' :: '/' :: body ++ after ∧ '\n' ∉ body ∧
    (∀ c ∈ after.head?, c = '\n') ∧
    span = ⟨Text.size before, Text.size (before ++ '/' :: '/' :: body)⟩
  apart : ∀ stretch ∈ stretches, stretch.span.stop ≤ span.start ∨ span.stop ≤ stretch.span.start

/-- Stretches that divide a text. -/
structure Divides (text : List Char) (stretches : List Stretch) : Prop where
  reads : ∀ stretch ∈ stretches, stretch.Reads text
  filled : ∀ stretch ∈ stretches, stretch.span.start < stretch.span.stop
  sorted : stretches.Pairwise (·.span.stop ≤ ·.span.start)
  /-- An open string is the last that is told of. -/
  last : ∀ front diagnostic back, stretches = front ++ .diagnostic diagnostic :: back →
    diagnostic.code = some "S002" → back = []
  /-- What is in no stretch is a blank or in a comment. -/
  outside : ∀ before c after, text = before ++ c :: after →
    (∃ stretch ∈ stretches, stretch.span.start ≤ Text.size before ∧
      Text.size (before ++ [c]) ≤ stretch.span.stop) ∨ Text.isBlank c = true ∨
    ∃ span, Comment text stretches span ∧ span.start ≤ Text.size before ∧
      Text.size (before ++ [c]) ≤ span.stop

namespace Piece

variable {pieces : List Piece} {offset : Nat}

/-- A placed piece stands between what is before it and what is behind it. -/
lemma exists_split_of_mem_place (hcut : AreCut pieces) {placed : Placed}
    (h : placed ∈ place offset pieces) : ∃ before after,
      textOf pieces = before ++ placed.piece.text ++ after ∧ placed.piece.Opens after ∧
      placed.span = ⟨offset + Text.size before, offset + Text.size (before ++ placed.piece.text)⟩ := by
  induction pieces generalizing offset with
  | nil => cases h
  | cons piece pieces ih =>
    obtain ⟨hopens, hcut⟩ := hcut
    rcases List.mem_cons.mp h with rfl | h
    · exact ⟨[], textOf pieces, rfl, hopens, rfl⟩
    · obtain ⟨before, after, htext, hopens, hspan⟩ := ih hcut h
      refine ⟨piece.text ++ before, after, by simp [htext], hopens, ?_⟩
      rw [hspan]
      simp only [size, Text.size_append, Nat.add_assoc]

/-- Every character is in a piece. -/
lemma exists_mem_place {before after : List Char} {c : Char}
    (h : textOf pieces = before ++ c :: after) : ∃ placed ∈ place offset pieces,
      c ∈ placed.piece.text ∧ placed.span.start ≤ offset + Text.size before ∧
      offset + Text.size (before ++ [c]) ≤ placed.span.stop := by
  induction pieces generalizing offset before with
  | nil => simp at h
  | cons piece pieces ih =>
    have hbehind (more : List Char) (hbefore : before = piece.text ++ more)
        (hmore : textOf pieces = more ++ c :: after) : ∃ placed ∈ place offset (piece :: pieces),
          c ∈ placed.piece.text ∧ placed.span.start ≤ offset + Text.size before ∧
          offset + Text.size (before ++ [c]) ≤ placed.span.stop := by
      obtain ⟨placed, hplaced, hc, hstart, hstop⟩ := @ih (offset + piece.size) more hmore
      refine ⟨placed, List.mem_cons_of_mem _ hplaced, hc, ?_, ?_⟩
      · simp only [hbefore, Text.size_append, size] at hstart ⊢
        omega
      · simp only [hbefore, Text.size_append, size] at hstop ⊢
        omega
    rw [textOf_cons] at h
    rcases List.append_eq_append_iff.mp h with ⟨more, hbefore, hmore⟩ | ⟨more, hpiece, hmore⟩
    · exact hbehind more hbefore hmore
    · cases more with
      | nil => exact hbehind [] (by simp [hpiece]) hmore.symm
      | cons d more =>
        obtain ⟨rfl, hafter⟩ := List.cons.inj hmore
        refine ⟨⟨⟨offset, offset + piece.size⟩, piece⟩, List.mem_cons_self, by simp [hpiece],
          Nat.le_add_right _ _, ?_⟩
        simp only [size, hpiece, Text.size_append, Text.size]
        omega

end Piece

namespace Placed

variable {text : List Char} {placed : Placed} {stretch : Stretch}

/-- What a scan tells of a piece. -/
def stretch? (placed : Placed) : Option Stretch :=
  (placed.token?.map .token).or (placed.diagnostic?.map .diagnostic)

lemma diagnostic?_of_token? {token : Token} (h : placed.token? = some token) :
    placed.diagnostic? = none := by
  obtain ⟨kind, hkind, _⟩ := Option.map_eq_some_iff.mp h
  unfold Piece.tokenKind? at hkind
  unfold diagnostic?
  split at hkind <;> simp_all

lemma stretch?_bind_token? (placed : Placed) :
    placed.stretch?.bind Stretch.token? = placed.token? := by
  unfold stretch?
  cases placed.token? with
  | some token => rfl
  | none => cases placed.diagnostic? <;> rfl

lemma stretch?_bind_diagnostic? (placed : Placed) :
    placed.stretch?.bind Stretch.diagnostic? = placed.diagnostic? := by
  unfold stretch?
  cases htoken : placed.token? with
  | some token => simp [diagnostic?_of_token? htoken, Stretch.diagnostic?]
  | none => cases placed.diagnostic? <;> rfl

/-- What is told of a piece is a token, or that it cannot be read. -/
lemma stretch?_cases (h : placed.stretch? = some stretch) :
    (∃ kind, placed.piece.tokenKind? = some kind ∧
      stretch = .token ⟨kind, placed.span, String.ofList placed.piece.text⟩) ∨
    ∃ diagnostic, stretch = .diagnostic diagnostic ∧ diagnostic.anchor = some placed.span ∧
      (placed.piece.kind = .invalid ∧ diagnostic.code = some "S001" ∨
        placed.piece.kind = .unclosed ∧ diagnostic.code = some "S002") := by
  unfold stretch? at h
  rcases Option.or_eq_some_iff.mp h with htoken | ⟨_, hdiagnostic⟩
  · obtain ⟨token, hplaced, rfl⟩ := Option.map_eq_some_iff.mp htoken
    obtain ⟨kind, hkind, rfl⟩ := Option.map_eq_some_iff.mp hplaced
    exact .inl ⟨kind, hkind, rfl⟩
  · obtain ⟨diagnostic, hplaced, rfl⟩ := Option.map_eq_some_iff.mp hdiagnostic
    unfold diagnostic? at hplaced
    refine .inr ⟨diagnostic, rfl, ?_⟩
    split at hplaced
    case h_1 hkind =>
      cases hplaced
      exact ⟨rfl, .inr ⟨hkind, rfl⟩⟩
    case h_2 hkind =>
      cases hplaced
      exact ⟨rfl, .inl ⟨hkind, rfl⟩⟩
    case h_3 => cases hplaced

lemma span_of_stretch? (h : placed.stretch? = some stretch) : stretch.span = placed.span := by
  rcases stretch?_cases h with ⟨kind, _, rfl⟩ | ⟨diagnostic, rfl, hanchor, _⟩
  · rfl
  · simp [Stretch.span, hanchor]

/-- Nothing is told of blanks and comments alone. -/
lemma stretch?_eq_none (h : placed.stretch? = none) :
    placed.piece.kind = .blank ∨ placed.piece.kind = .comment := by
  simp only [stretch?, Option.or_eq_none_iff, Option.map_eq_none_iff, token?, diagnostic?] at h
  obtain ⟨htoken, hdiagnostic⟩ := h
  unfold Piece.tokenKind? at htoken
  split at htoken <;> simp_all
  split at htoken <;> cases htoken

end Placed

namespace Text

variable {text : List Char} {placed : Placed}

lemma exists_split_of_mem (h : placed ∈ placedPieces text) : ∃ before after,
    text = before ++ placed.piece.text ++ after ∧ placed.piece.Opens after ∧
      placed.span = ⟨size before, size (before ++ placed.piece.text)⟩ := by
  obtain ⟨hcut, htext⟩ := Piece.areCut_cut text
  obtain ⟨before, after, hsplit, hopens, hspan⟩ := Piece.exists_split_of_mem_place hcut h
  rw [htext] at hsplit
  simp only [Nat.zero_add] at hspan
  exact ⟨before, after, hsplit, hopens, hspan⟩

/-- The stretches of a text that its scan tells of, in order. -/
def stretches (text : List Char) : List Stretch := (placedPieces text).filterMap Placed.stretch?

lemma reads_of_stretch? (h : placed ∈ placedPieces text) {stretch : Stretch}
    (hstretch : placed.stretch? = some stretch) : stretch.Reads text := by
  obtain ⟨before, after, htext, hopens, hspan⟩ := exists_split_of_mem h
  rcases Placed.stretch?_cases hstretch with ⟨kind, hkind, rfl⟩ |
    ⟨diagnostic, rfl, hanchor, ⟨hkind, hcode⟩ | ⟨hkind, hcode⟩⟩
  · have hchars : (String.ofList placed.piece.text).toList = placed.piece.text := String.toList_ofList
    rw [← hchars] at htext hspan
    refine .token htext hspan ?_ ?_ <;> simp only [hchars]
    · exact hopens.fits hkind
    · exact fun kind w hw hbegins => (hopens.longest hw hbegins).2
  · obtain ⟨c, hc, hblank, hcomment⟩ := hopens.invalid hkind
    rw [hc] at htext hspan
    refine .invalid htext hcode (hanchor.trans (congrArg some hspan)) hblank hcomment ?_
    intro kind w hw hbegins
    exact (hopens.longest hw (by rwa [hc])).1 hkind
  · obtain ⟨inside, hinside, hquotable, rfl⟩ := hopens.unclosed hkind
    rw [hinside, List.append_nil] at htext
    refine .unclosed htext hcode ?_ hquotable
    rw [hanchor, hspan, hinside, ← htext]

lemma reads_of_mem_stretches {stretch : Stretch} (h : stretch ∈ stretches text) :
    stretch.Reads text := by
  obtain ⟨placed, hplaced, hstretch⟩ := List.mem_filterMap.mp h
  exact reads_of_stretch? hplaced hstretch

/-- A stretch takes some bytes of the text. -/
lemma filled_of_mem_stretches {stretch : Stretch} (h : stretch ∈ stretches text) :
    stretch.span.start < stretch.span.stop ∧ stretch.span.stop ≤ size text := by
  obtain ⟨placed, hplaced, hstretch⟩ := List.mem_filterMap.mp h
  obtain ⟨before, after, htext, _, hspan⟩ := exists_split_of_mem hplaced
  rw [Placed.span_of_stretch? hstretch]
  refine ⟨(of_mem_placedPieces hplaced).1, ?_⟩
  rw [hspan, htext, size_append (before ++ _)]
  exact Nat.le_add_right _ _

lemma sorted_stretches (text : List Char) :
    (stretches text).Pairwise (·.span.stop ≤ ·.span.start) := by
  refine List.Pairwise.filterMap _ (fun a b hab stretch ha stretch' hb => ?_)
    (Piece.sorted_place 0 (Piece.cut text))
  rw [Placed.span_of_stretch? ha, Placed.span_of_stretch? hb]
  exact hab

/-- Nothing fits in behind an open string, which takes all of the text. -/
lemma eq_nil_of_unclosed {front back : List Stretch} {diagnostic : Diagnostic}
    (h : stretches text = front ++ .diagnostic diagnostic :: back)
    (hcode : diagnostic.code = some "S002") : back = [] := by
  have hstop : (Stretch.diagnostic diagnostic).span.stop = size text := by
    cases reads_of_mem_stretches (h ▸ by simp : .diagnostic diagnostic ∈ stretches text) with
    | invalid _ hcode' => simp [hcode] at hcode'
    | unclosed _ _ hspan => simp [Stretch.span, hspan]
  rw [List.eq_nil_iff_forall_not_mem]
  intro stretch hstretch
  have hlimits := filled_of_mem_stretches (h ▸ by simp [hstretch] : stretch ∈ stretches text)
  have hsorted := sorted_stretches text
  rw [h, List.pairwise_append, List.pairwise_cons] at hsorted
  have hbehind := hsorted.2.1.1 stretch hstretch
  omega

/-- A comment is a piece of its own, so no stretch is in it. -/
lemma comment_of_mem (h : placed ∈ placedPieces text) (hkind : placed.piece.kind = .comment)
    (hnone : placed.stretch? = none) : Comment text (stretches text) placed.span := by
  obtain ⟨front, back, hsplit, hopens, hspan⟩ := exists_split_of_mem h
  obtain ⟨body, hbody, hline, hafter⟩ := hopens.comment hkind
  rw [hbody] at hsplit hspan
  refine ⟨⟨front, body, back, hsplit, hline, hafter, hspan⟩, fun stretch hstretch => ?_⟩
  obtain ⟨other, hother, hsome⟩ := List.mem_filterMap.mp hstretch
  rw [Placed.span_of_stretch? hsome]
  rcases apart_of_mem hother h with rfl | hapart
  · rw [hnone] at hsome
    cases hsome
  · exact hapart

/-- What a scan tells of divides the text. -/
theorem divides_stretches (text : List Char) : Divides text (stretches text) where
  reads _ h := reads_of_mem_stretches h
  filled _ h := (filled_of_mem_stretches h).1
  sorted := sorted_stretches text
  last _ _ _ h hcode := eq_nil_of_unclosed h hcode
  outside := by
    intro before c after htext
    rw [← (Piece.areCut_cut text).2] at htext
    obtain ⟨placed, hplaced, hc, hstart, hstop⟩ := @Piece.exists_mem_place _ 0 _ _ _ htext
    rw [Nat.zero_add] at hstart hstop
    have hmem : placed ∈ placedPieces text := hplaced
    cases hstretch : placed.stretch? with
    | some stretch =>
      refine .inl ⟨stretch, List.mem_filterMap.mpr ⟨placed, hmem, hstretch⟩, ?_⟩
      rw [Placed.span_of_stretch? hstretch]
      exact ⟨hstart, hstop⟩
    | none =>
      obtain ⟨_, _, _, hopens, _⟩ := exists_split_of_mem hmem
      rcases Placed.stretch?_eq_none hstretch with hkind | hkind
      · exact .inr (.inl (hopens.isBlank hkind c hc))
      · exact .inr (.inr ⟨placed.span, comment_of_mem hmem hkind hstretch, hstart, hstop⟩)

end Text

/-- The tokens and the diagnostics of a scan divide the text, and a token for the end is behind all
tokens. -/
theorem scan_divides (source : String) : ∃ stretches, Divides source.toList stretches ∧
    (scan source).tokens = stretches.filterMap Stretch.token? ++ [.eof source.utf8ByteSize] ∧
    (scan source).diagnostics = stretches.filterMap Stretch.diagnostic? := by
  refine ⟨Text.stretches source.toList, Text.divides_stretches _, ?_, ?_⟩
  · simp only [scan, Text.stretches, List.filterMap_filterMap, Placed.stretch?_bind_token?]
  · simp only [scan, Text.stretches, List.filterMap_filterMap, Placed.stretch?_bind_diagnostic?]

end NullGuard
