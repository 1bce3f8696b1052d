import Mathlib.Data.List.TakeWhile
import Mathlib.Tactic.Common
import NullGuard.Token.Scan

/-!
# Cuts of a text

A list of pieces is the cut of its text exactly if each piece is the one that the text from there on
starts with. A piece looks at what is behind it only to see that it cannot go on, so it stays a piece
if the text behind it changes in a way that no piece can see.
-/

namespace NullGuard

namespace Piece

/-- The piece is what a text starts with that has `rest` behind it. -/
def Opens (piece : Piece) (rest : List Char) : Prop :=
  ∃ c cs, piece.text = c :: cs ∧ first c (cs ++ rest) = piece

def textOf (pieces : List Piece) : List Char := pieces.flatMap Piece.text

@[simp]
lemma textOf_nil : textOf [] = [] := rfl

@[simp]
lemma textOf_cons (piece : Piece) (pieces : List Piece) :
    textOf (piece :: pieces) = piece.text ++ textOf pieces := rfl

@[simp]
lemma textOf_append (pieces pieces' : List Piece) :
    textOf (pieces ++ pieces') = textOf pieces ++ textOf pieces' := List.flatMap_append

/-- Each piece is what the text from there on starts with. -/
def AreCut : List Piece → Prop
  | [] => True
  | piece :: pieces => piece.Opens (textOf pieces) ∧ AreCut pieces

section Prefixes

lemma decimals_isPrefix (cs : List Char) : decimals cs <+: cs := by
  unfold decimals
  split
  · split
    · exact (List.prefix_cons_inj _).mpr ((List.prefix_cons_inj _).mpr (List.takeWhile_prefix _))
    · exact List.nil_prefix
  · exact List.nil_prefix

lemma stringRest?_isPrefix {cs rest : List Char} (h : stringRest? cs = some rest) : rest <+: cs := by
  fun_induction stringRest? cs generalizing rest with
  | case1 => cases h
  | case2 cs ih =>
    obtain ⟨rest, hrest, rfl⟩ := Option.map_eq_some_iff.mp h
    exact (List.prefix_cons_inj _).mpr ((List.prefix_cons_inj _).mpr (ih hrest))
  | case3 cs _ =>
    cases h
    exact (List.prefix_cons_inj _).mpr List.nil_prefix
  | case4 c cs _ _ ih =>
    obtain ⟨rest, hrest, rfl⟩ := Option.map_eq_some_iff.mp h
    exact (List.prefix_cons_inj _).mpr (ih hrest)

lemma symbols_ne_nil : ∀ symbol ∈ symbols, symbol.1 ≠ [] := by decide

lemma symbol_isPrefix {text : List Char} (h : text ≠ []) :
    (symbol text).text <+: text ∧ (symbol text).text ≠ [] := by
  unfold symbol
  split
  case isTrue hslashes =>
    refine ⟨List.takeWhile_prefix _, ?_⟩
    obtain ⟨more, rfl⟩ := List.isPrefixOf_iff_prefix.mp hslashes
    simp
  case isFalse =>
    split
    case h_1 spelling kind hfind =>
      have hprefix : spelling.isPrefixOf text = true := by simpa using List.find?_some hfind
      exact ⟨List.isPrefixOf_iff_prefix.mp hprefix,
        symbols_ne_nil _ (List.mem_of_find?_eq_some hfind)⟩
    case h_2 => exact ⟨List.take_prefix _ _, by simpa using h⟩

lemma number_isPrefix (c : Char) (cs : List Char) : (number c cs).text <+: c :: cs := by
  obtain ⟨rest, hrest⟩ := decimals_isPrefix (cs.dropWhile Char.isDigit)
  exact ⟨rest, by simp [number, hrest]⟩

/-- The first piece takes the first character at least, and nothing that is not there. -/
lemma first_isPrefix (c : Char) (cs : List Char) :
    (first c cs).text <+: c :: cs ∧ (first c cs).text ≠ [] := by
  unfold first
  split
  · exact ⟨(List.prefix_cons_inj _).mpr (List.takeWhile_prefix _), by simp⟩
  split
  · exact ⟨(List.prefix_cons_inj _).mpr (List.takeWhile_prefix _), by simp⟩
  split
  · exact ⟨number_isPrefix c cs, by simp [number]⟩
  split
  · unfold string
    split
    case h_1 rest hrest =>
      exact ⟨(List.prefix_cons_inj _).mpr (stringRest?_isPrefix hrest), by simp⟩
    case h_2 => exact ⟨List.prefix_refl _, by simp⟩
  split
  · unfold parameter
    split
    · split
      · exact ⟨(List.prefix_cons_inj _).mpr ((List.prefix_cons_inj _).mpr
          (List.takeWhile_prefix _)), by simp⟩
      · exact ⟨(List.prefix_cons_inj _).mpr List.nil_prefix, by simp⟩
    · exact ⟨List.prefix_refl _, by simp⟩
  · exact symbol_isPrefix (by simp)

/-- The first piece, with all that is behind it. -/
lemma exists_opens_first (c : Char) (cs : List Char) :
    ∃ rest, c :: cs = (first c cs).text ++ rest ∧ (first c cs).Opens rest ∧
      rest.length ≤ cs.length := by
  obtain ⟨⟨rest, hrest⟩, hne⟩ := first_isPrefix c cs
  obtain ⟨d, more, hd⟩ := List.exists_cons_of_ne_nil hne
  rw [hd, List.cons_append, List.cons.injEq] at hrest
  obtain ⟨rfl, rfl⟩ := hrest
  exact ⟨rest, by rw [hd, List.cons_append], ⟨d, more, hd, rfl⟩, by simp⟩

end Prefixes

/-- The pieces that a text is cut into are its cut, and nothing is left out. -/
lemma areCut_cutAtMost (count : Nat) (text : List Char) (h : text.length ≤ count) :
    AreCut (cutAtMost count text) ∧ textOf (cutAtMost count text) = text := by
  induction count generalizing text with
  | zero =>
    obtain rfl := List.eq_nil_of_length_eq_zero (Nat.le_zero.mp h)
    exact ⟨trivial, rfl⟩
  | succ count ih =>
    cases text with
    | nil => exact ⟨trivial, rfl⟩
    | cons c cs =>
      obtain ⟨rest, hrest, hopens, hlength⟩ := exists_opens_first c cs
      have hdrop : (c :: cs).drop (first c cs).text.length = rest := by
        rw [hrest, List.drop_left]
      obtain ⟨hcut, htext⟩ := ih rest (Nat.le_trans hlength (Nat.le_of_succ_le_succ h))
      rw [cutAtMost, hdrop]
      exact ⟨⟨htext.symm ▸ hopens, hcut⟩, by rw [textOf_cons, htext, hrest]⟩

lemma areCut_cut (text : List Char) : AreCut (cut text) ∧ textOf (cut text) = text :=
  areCut_cutAtMost _ text (Nat.le_refl _)

/-- There is one cut of a text only. -/
lemma cut_textOf {pieces : List Piece} (h : AreCut pieces) : cut (textOf pieces) = pieces := by
  suffices hall : ∀ count, (textOf pieces).length ≤ count →
      cutAtMost count (textOf pieces) = pieces from hall _ (Nat.le_refl _)
  induction pieces with
  | nil => intro count _; cases count <;> rfl
  | cons piece pieces ih =>
    intro count hcount
    obtain ⟨⟨c, cs, hpiece, hfirst⟩, hcut⟩ := h
    rw [textOf_cons, hpiece, List.cons_append] at hcount ⊢
    cases count with
    | zero => simp at hcount
    | succ count =>
      have hdrop : (c :: (cs ++ textOf pieces)).drop piece.text.length = textOf pieces := by
        rw [← List.cons_append, ← hpiece, List.drop_left]
      rw [cutAtMost, hfirst, hdrop, ih hcut count]
      simp only [List.length_cons, List.length_append] at hcount
      omega

section Behind

variable {cs rest rest' : List Char}

/-- The text behind a piece changed in a way that the piece cannot see: at most to another word, and
not to the decimal places of a number. -/
structure Alike (rest rest' : List Char) : Prop where
  head : ∀ c' ∈ rest'.head?, ∃ c ∈ rest.head?, c' = c ∨ Text.isWordStart c = true ∧ c' = 'I'
  decimal : ∀ d' cs', rest' = '.' :: d' :: cs' → d'.isDigit = true →
    ∃ d cs, rest = '.' :: d :: cs ∧ d.isDigit = true

/-- What does not come first behind a piece does not come first after the change. -/
lemma Alike.not_head (h : Alike rest rest') {p : Char → Bool}
    (hp : p 'I' = true → ∀ c, Text.isWordStart c = true → p c = true)
    (hrest : ∀ c ∈ rest.head?, p c = false) : ∀ c ∈ rest'.head?, p c = false := by
  intro c' hc'
  obtain ⟨c, hc, rfl | ⟨hstart, rfl⟩⟩ := h.head c' hc'
  · exact hrest c' hc
  · by_contra hne
    have := hp (by simpa using hne) c hstart
    rw [hrest c hc] at this
    cases this

lemma takeWhile_append_eq_iff {p : Char → Bool} :
    (cs ++ rest).takeWhile p = cs ↔
      (∀ c ∈ cs, p c = true) ∧ ∀ c ∈ rest.head?, p c = false := by
  induction cs with
  | nil => cases rest <;> simp
  | cons c cs ih =>
    by_cases hc : p c = true <;> simp [hc, ih]

/-- The characters that tokens run over. -/
def runs : List (Char → Bool) := [Char.isDigit, Text.isWordStart, Text.isWordPart]

/-- The characters that blanks and comments run over. -/
def skipped? : PieceKind → Option (Char → Bool)
  | .blank => some Text.isBlank
  | .comment => some fun c => c ≠ '\n'
  | _ => none

lemma of_mem_skipped? {kind : PieceKind} {p : Char → Bool} (h : p ∈ skipped? kind) :
    kind = .blank ∧ p = Text.isBlank ∨ kind = .comment ∧ p = fun c => decide (c ≠ '\n') := by
  cases kind with
  | blank => exact .inl ⟨rfl, (Option.some.inj h).symm⟩
  | comment => exact .inr ⟨rfl, (Option.some.inj h).symm⟩
  | _ => cases h

/-- The characters that close a string or come second in a symbol. -/
def marks : List Char := ['"', '/', '>', '=']

/-- The text behind a token changed, and what comes first there does not let the token go on if what
came first before did not. -/
structure Unseen (rest rest' : List Char) : Prop where
  run : ∀ p ∈ runs, (∀ c ∈ rest.head?, p c = false) → ∀ c ∈ rest'.head?, p c = false
  mark : ∀ c ∈ rest'.head?, c ∈ marks → c ∈ rest.head?
  decimal : ∀ d' cs', rest' = '.' :: d' :: cs' → d'.isDigit = true →
    ∃ d cs, rest = '.' :: d :: cs ∧ d.isDigit = true

lemma isWordPart_of_isWordStart (c : Char) (h : Text.isWordStart c = true) :
    Text.isWordPart c = true := by
  rw [Text.isWordPart, h, Bool.true_or]

lemma Alike.unseen (h : Alike rest rest') : Unseen rest rest' where
  run := by
    unfold runs
    simp only [List.forall_mem_cons]
    exact ⟨h.not_head (by simp), h.not_head fun _ _ hc => hc,
      h.not_head fun _ => isWordPart_of_isWordStart, by simp⟩
  mark := by
    intro c' hc' hmark
    obtain ⟨c, hc, rfl | ⟨_, rfl⟩⟩ := h.head c' hc'
    · exact hc
    · exact absurd hmark (by decide)
  decimal := h.decimal

/-- A line end that is put behind all of a text is not seen. -/
lemma unseen_newline (rest more : List Char) : Unseen rest (rest ++ '\n' :: more) := by
  cases rest with
  | nil => exact ⟨by simp [runs, Text.isWordPart, Text.isWordStart, Text.isLetter], by simp [marks],
      by simp⟩
  | cons c rest =>
    refine ⟨fun p _ h => h, fun d hd _ => hd, fun d' cs' h hd' => ?_⟩
    cases rest with
    | nil =>
      simp only [List.cons_append, List.nil_append, List.cons.injEq] at h
      obtain ⟨_, rfl, _⟩ := h
      cases hd'
    | cons d rest =>
      simp only [List.cons_append, List.cons.injEq] at h
      obtain ⟨rfl, rfl, _⟩ := h
      exact ⟨d, rest, rfl, hd'⟩

/-- A run of characters ends where it ended before. -/
lemma Unseen.takeWhile_eq (h : Unseen rest rest') {p : Char → Bool} (hp : p ∈ runs)
    (hrun : (cs ++ rest).takeWhile p = cs) : (cs ++ rest').takeWhile p = cs := by
  obtain ⟨hcs, hrest⟩ := takeWhile_append_eq_iff.mp hrun
  exact takeWhile_append_eq_iff.mpr ⟨hcs, h.run p hp hrest⟩

lemma stringRest?_quote (h : '"' ∉ cs.head?) : stringRest? ('"' :: cs) = some ['"'] := by
  cases cs with
  | nil => rfl
  | cons d cs =>
    have hd : d ≠ '"' := by simpa using h
    rw [stringRest?]
    simpa using hd

lemma stringRest?_other {c : Char} (h : c ≠ '"') :
    stringRest? (c :: cs) = (stringRest? cs).map (c :: ·) := by
  rw [stringRest?] <;> simp [h]

lemma stringRest?_ne_nil : stringRest? cs ≠ some [] := by
  fun_cases stringRest? cs <;> simp_all

/-- A string is closed where it was closed before. -/
lemma stringRest?_append (hquote : '"' ∈ rest'.head? → '"' ∈ rest.head?) (cs : List Char)
    (hcs : stringRest? (cs ++ rest) = some cs) : stringRest? (cs ++ rest') = some cs := by
  match cs with
  | [] => exact absurd hcs stringRest?_ne_nil
  | c :: cs =>
    by_cases hc : c = '"'
    · subst hc
      match cs with
      | [] =>
        by_cases hrest : '"' ∈ rest.head?
        · obtain ⟨more, rfl⟩ : ∃ more, rest = '"' :: more := by
            cases rest <;> simp_all
          simp [stringRest?] at hcs
        · exact stringRest?_quote fun hrest' => hrest (hquote hrest')
      | d :: cs =>
        by_cases hd : d = '"'
        · subst hd
          simp only [List.cons_append, stringRest?, Option.map_eq_some_iff, List.cons.injEq,
            true_and, exists_eq_right] at hcs ⊢
          exact stringRest?_append hquote cs hcs
        · -- the quote is not doubled, so nothing is read behind it
          rw [List.cons_append, stringRest?_quote (by simpa using hd)] at hcs
          simp at hcs
    · rw [List.cons_append, stringRest?_other hc] at hcs ⊢
      simp only [Option.map_eq_some_iff, List.cons.injEq, true_and, exists_eq_right] at hcs ⊢
      exact stringRest?_append hquote cs hcs

lemma dropWhile_append_eq {p : Char → Bool} (h : (cs ++ rest).takeWhile p = cs) :
    (cs ++ rest).dropWhile p = rest := by
  have hsplit := List.takeWhile_append_dropWhile (p := p) (l := cs ++ rest)
  rw [h] at hsplit
  exact List.append_cancel_left hsplit

lemma decimals_cases (cs : List Char) :
    decimals cs = [] ∧ (∀ d more, cs = '.' :: d :: more → d.isDigit = false) ∨
      ∃ d more, cs = '.' :: d :: more ∧ d.isDigit = true ∧
        decimals cs = '.' :: d :: more.takeWhile Char.isDigit := by
  unfold decimals
  split
  case h_1 d more =>
    by_cases hd : d.isDigit = true
    · exact .inr ⟨d, more, rfl, hd, by simp [hd]⟩
    · exact .inl ⟨by simp [hd], by simp_all⟩
  case h_2 hcs => exact .inl ⟨rfl, fun d more h => absurd h (hcs d more)⟩

/-- A number ends where it ended before. -/
lemma Unseen.number_eq (h : Unseen rest rest') {c : Char}
    (hcs : (number c (cs ++ rest)).text = c :: cs) :
    number c (cs ++ rest') = number c (cs ++ rest) := by
  have hdigit : Char.isDigit ∈ runs := by simp [runs]
  have hsplit := List.takeWhile_append_dropWhile (p := Char.isDigit) (l := cs ++ rest)
  have hnumber : (cs ++ rest).takeWhile Char.isDigit ++
      decimals ((cs ++ rest).dropWhile Char.isDigit) = cs := by
    simpa [number] using hcs
  rcases decimals_cases ((cs ++ rest).dropWhile Char.isDigit) with ⟨hnone, hdot⟩ |
    ⟨d, more, hdrop, hd, hsome⟩
  · rw [hnone, List.append_nil] at hnumber
    have hrun := h.takeWhile_eq hdigit hnumber
    rw [dropWhile_append_eq hnumber] at hdot
    have hnone' : decimals rest' = [] := by
      rcases decimals_cases rest' with ⟨hnone', _⟩ | ⟨d', more', hrest', hd', _⟩
      · exact hnone'
      · obtain ⟨d, more, hrest, hd⟩ := h.decimal d' more' hrest' hd'
        rw [hdot d more hrest] at hd
        cases hd
    simp only [number, hnumber, hnone, hrun, dropWhile_append_eq hrun, hnone']
  · have hdigits (c : Char) (hc : c ∈ (cs ++ rest).takeWhile Char.isDigit) : c.isDigit = true :=
      List.mem_takeWhile_imp hc
    generalize (cs ++ rest).takeWhile Char.isDigit = digits at hsplit hnumber hdigits
    rw [hsome] at hnumber
    rw [hdrop, ← hnumber, List.append_assoc] at hsplit
    have hmore : more.takeWhile Char.isDigit ++ rest = more := by
      simpa using (List.append_cancel_left hsplit).symm
    have hends (rest'' : List Char)
        (hrun : (more.takeWhile Char.isDigit ++ rest'').takeWhile Char.isDigit =
          more.takeWhile Char.isDigit) :
        number c (cs ++ rest'') = ⟨.number, c :: cs⟩ := by
      have htake : (digits ++ '.' :: d :: (more.takeWhile Char.isDigit ++ rest'')).takeWhile
          Char.isDigit = digits := takeWhile_append_eq_iff.mpr ⟨hdigits, by simp⟩
      have hcs' : cs ++ rest'' = digits ++ '.' :: d :: (more.takeWhile Char.isDigit ++ rest'') := by
        rw [← hnumber, List.append_assoc]
        rfl
      rw [number, hcs', htake, dropWhile_append_eq htake, decimals, if_pos hd, hrun, ← hnumber]
      rfl
    have hrun : (more.takeWhile Char.isDigit ++ rest).takeWhile Char.isDigit =
        more.takeWhile Char.isDigit := by rw [hmore]
    rw [hends rest hrun, hends rest' (h.takeWhile_eq hdigit hrun)]

/-- A spelling of two characters is not there after the change if it was not there before. -/
lemma Unseen.not_isPrefix (h : Unseen rest rest') {spelling longer : List Char} (hne : spelling ≠ [])
    (hlength : longer.length ≤ 2) (hmarks : ∀ c ∈ longer.tail, c ∈ marks)
    (hnot : ¬ longer <+: spelling ++ rest) : ¬ longer <+: spelling ++ rest' := by
  rintro ⟨t, ht⟩
  rcases List.append_eq_append_iff.mp ht with ⟨more, hmore, _⟩ | ⟨more, rfl, hrest'⟩
  · exact hnot ⟨more ++ rest, by rw [hmore, List.append_assoc]⟩
  · have hpos := List.length_pos_iff.mpr hne
    match more, hlength with
    | [], _ => exact hnot ⟨rest, by simp⟩
    | [d], _ =>
      have hd : d ∈ (spelling ++ [d]).tail := by
        rw [List.tail_append_of_ne_nil hne]
        simp
      have hhead := h.mark d (by simp [hrest']) (hmarks d hd)
      obtain ⟨more, rfl⟩ : ∃ more, rest = d :: more := by cases rest <;> simp_all
      exact hnot ⟨more, by simp⟩
    | _ :: _ :: _, hlength =>
      simp only [List.length_append, List.length_cons] at hlength
      omega

lemma symbols_short : ∀ symbol ∈ symbols, symbol.1.length ≤ 2 ∧ ∀ c ∈ symbol.1.tail, c ∈ marks := by
  simp [symbols, marks]

/-- An operator, a punctuation mark or a comment ends where it ended before, and what cannot be read
is not read. -/
lemma Unseen.symbol_eq (h : Unseen rest rest') {c : Char} {piece : Piece}
    (hpiece : symbol (c :: cs ++ rest) = piece) (htext : piece.text = c :: cs)
    (hskipped : ∀ p ∈ skipped? piece.kind, (∀ c ∈ rest.head?, p c = false) →
      ∀ c ∈ rest'.head?, p c = false) : symbol (c :: cs ++ rest') = piece := by
  unfold symbol at hpiece ⊢
  by_cases hslashes : ['/', '/'].isPrefixOf (c :: cs ++ rest) = true
  · rw [if_pos hslashes] at hpiece
    subst hpiece
    have hrun : (c :: cs ++ rest).takeWhile (· ≠ '\n') = c :: cs := htext
    have hslashes' : ['/', '/'].isPrefixOf (c :: cs ++ rest') = true := by
      obtain ⟨more, hmore⟩ := List.isPrefixOf_iff_prefix.mp hslashes
      rw [← hmore] at hrun
      rw [← hrun]
      simp
    obtain ⟨hcs, hrest⟩ := takeWhile_append_eq_iff.mp hrun
    rw [if_pos hslashes', takeWhile_append_eq_iff.mpr ⟨hcs, hskipped _ rfl hrest⟩, hrun]
  · have hslashes' : ¬ ['/', '/'].isPrefixOf (c :: cs ++ rest') = true := by
      rw [List.isPrefixOf_iff_prefix] at hslashes ⊢
      exact h.not_isPrefix (by simp) (by simp) (by simp [marks]) hslashes
    have hnot {entry : List Char × TokenKind} (hentry : entry ∈ symbols)
        (hbefore : entry.1.isPrefixOf (c :: cs ++ rest) = false) :
        entry.1.isPrefixOf (c :: cs ++ rest') = false := by
      obtain ⟨hlength, hmarks⟩ := symbols_short entry hentry
      rw [Bool.eq_false_iff, ne_eq, List.isPrefixOf_iff_prefix] at hbefore ⊢
      exact h.not_isPrefix (by simp) hlength hmarks hbefore
    rw [if_neg hslashes] at hpiece
    rw [if_neg hslashes']
    split at hpiece
    case h_1 spelling kind hfind =>
      subst hpiece
      obtain rfl : spelling = c :: cs := htext
      obtain ⟨_, before, after, hsplit, hbefore⟩ := List.find?_eq_some_iff_append.mp hfind
      have hfind' : symbols.find? (·.1.isPrefixOf (c :: cs ++ rest')) = some (c :: cs, kind) := by
        refine List.find?_eq_some_iff_append.mpr ⟨?_, before, after, hsplit, fun symbol hs => ?_⟩
        · exact List.isPrefixOf_iff_prefix.mpr (List.prefix_append _ _)
        · rw [hnot (by rw [hsplit]; simp [hs]) (by simpa using hbefore symbol hs)]
          rfl
      rw [hfind']
    case h_2 hfind =>
      have hfind' : symbols.find? (·.1.isPrefixOf (c :: cs ++ rest')) = none := by
        rw [List.find?_eq_none] at hfind ⊢
        intro symbol hs
        rw [hnot hs (Bool.eq_false_iff.mpr (hfind symbol hs))]
        exact Bool.false_ne_true
      rw [hfind', ← hpiece]
      rfl

/-- A parameter ends where it ended before, and a sign without a name stays without one. -/
lemma Unseen.parameter_eq (h : Unseen rest rest') {c : Char} {piece : Piece}
    (hpiece : parameter c (cs ++ rest) = piece) (htext : piece.text = c :: cs) :
    parameter c (cs ++ rest') = piece := by
  cases cs with
  | nil =>
    have hinvalid (text : List Char) (hnot : ∀ d ∈ text.head?, Text.isWordStart d = false) :
        parameter c text = ⟨.invalid, [c]⟩ := by
      cases text with
      | nil => rfl
      | cons d ds => rw [parameter, if_neg (by simp [hnot d rfl])]
    have hnot : ∀ d ∈ rest.head?, Text.isWordStart d = false := by
      intro d hd
      subst hpiece
      cases rest with
      | nil => cases hd
      | cons e es =>
        obtain rfl := Option.some.inj hd
        by_contra hstart
        rw [Bool.not_eq_false] at hstart
        simp [parameter, hstart] at htext
    rw [List.nil_append] at hpiece ⊢
    rw [hinvalid rest' (h.run _ (by simp [runs]) hnot), ← hpiece, hinvalid rest hnot]
  | cons d cs =>
    rw [List.cons_append, parameter] at hpiece ⊢
    by_cases hd : Text.isWordStart d = true
    · rw [if_pos hd] at hpiece ⊢
      subst hpiece
      have hrun := (List.cons.inj (List.cons.inj htext).2).2
      rw [h.takeWhile_eq (by simp [runs]) hrun, hrun]
    · rw [if_neg hd] at hpiece
      subst hpiece
      cases htext

/-- A closed piece is a piece also before what it cannot tell from the text behind it. -/
theorem Opens.unseen {piece : Piece} (h : piece.Opens rest) (hu : Unseen rest rest')
    (hunclosed : piece.kind ≠ .unclosed)
    (hskipped : ∀ p ∈ skipped? piece.kind, (∀ c ∈ rest.head?, p c = false) →
      ∀ c ∈ rest'.head?, p c = false) : piece.Opens rest' := by
  obtain ⟨c, cs, htext, hfirst⟩ := h
  refine ⟨c, cs, htext, ?_⟩
  unfold first at hfirst ⊢
  by_cases hblank : Text.isBlank c = true
  · rw [if_pos hblank] at hfirst ⊢
    subst hfirst
    have hrun := (List.cons.inj htext).2
    obtain ⟨hcs, hrest⟩ := takeWhile_append_eq_iff.mp hrun
    rw [takeWhile_append_eq_iff.mpr ⟨hcs, hskipped _ rfl hrest⟩, hrun]
  rw [if_neg hblank] at hfirst ⊢
  by_cases hword : Text.isWordStart c = true
  · rw [if_pos hword] at hfirst ⊢
    subst hfirst
    have hrun := (List.cons.inj htext).2
    rw [hu.takeWhile_eq (by simp [runs]) hrun, hrun]
  rw [if_neg hword] at hfirst ⊢
  by_cases hdigit : c.isDigit = true
  · rw [if_pos hdigit] at hfirst ⊢
    subst hfirst
    exact hu.number_eq htext
  rw [if_neg hdigit] at hfirst ⊢
  by_cases hquote : c = '"'
  · rw [if_pos hquote] at hfirst ⊢
    unfold string at hfirst ⊢
    split at hfirst
    case h_1 string hstring =>
      subst hfirst
      obtain rfl := (List.cons.inj htext).2
      rw [stringRest?_append (fun hhead => hu.mark '"' hhead (by simp [marks])) _ hstring]
    case h_2 => exact absurd (hfirst ▸ rfl) hunclosed
  rw [if_neg hquote] at hfirst ⊢
  by_cases hsign : c = '&'
  · rw [if_pos hsign] at hfirst ⊢
    exact hu.parameter_eq hfirst htext
  rw [if_neg hsign] at hfirst ⊢
  exact hu.symbol_eq hfirst htext hskipped

/-- So it is before the changes that mending makes. -/
theorem Opens.alike {piece : Piece} (h : piece.Opens rest) (ha : Alike rest rest')
    (hunclosed : piece.kind ≠ .unclosed) : piece.Opens rest' := by
  refine h.unseen ha.unseen hunclosed fun p hp => ?_
  rcases of_mem_skipped? hp with ⟨_, rfl⟩ | ⟨_, rfl⟩
  · exact ha.not_head fun hI => absurd hI (by decide)
  · refine ha.not_head fun _ c hc => ?_
    have hne : c ≠ '\n' := by
      rintro rfl
      cases hc
    simpa using hne

lemma string_kind (c : Char) (cs : List Char) :
    (string c cs).kind = .string ∨ (string c cs).kind = .unclosed := by
  unfold string
  split <;> simp

lemma parameter_kind (c : Char) (cs : List Char) :
    (parameter c cs).kind = .parameter ∨ (parameter c cs).kind = .invalid := by
  unfold parameter
  split
  · split <;> simp
  · simp

lemma symbol_cases (text : List Char) :
    ['/', '/'] <+: text ∧ symbol text = ⟨.comment, text.takeWhile (· ≠ '\n')⟩ ∨
      ¬ ['/', '/'] <+: text ∧ ((∃ entry ∈ symbols, symbol text = ⟨.symbol entry.2, entry.1⟩) ∨
        symbol text = ⟨.invalid, text.take 1⟩) := by
  unfold symbol
  rw [← List.isPrefixOf_iff_prefix]
  split
  case isTrue hslashes => exact .inl ⟨hslashes, rfl⟩
  case isFalse hslashes =>
    refine .inr ⟨hslashes, ?_⟩
    split
    case h_1 spelling kind hfind => exact .inl ⟨_, List.mem_of_find?_eq_some hfind, rfl⟩
    case h_2 => exact .inr rfl

lemma symbol_kind (text : List Char) : (symbol text).kind = .comment ∨
    (symbol text).kind = .invalid ∨ ∃ entry ∈ symbols, (symbol text).kind = .symbol entry.2 := by
  rcases symbol_cases text with ⟨_, h⟩ | ⟨_, ⟨entry, hentry, h⟩ | h⟩
  · exact .inl (by rw [h])
  · exact .inr (.inr ⟨entry, hentry, by rw [h]⟩)
  · exact .inr (.inl (by rw [h]))

/-- What a text starts with is told by its first character. -/
lemma first_cases (c : Char) (cs : List Char) :
    Text.isBlank c = true ∧ first c cs = ⟨.blank, c :: cs.takeWhile Text.isBlank⟩ ∨
      Text.isWordStart c = true ∧ first c cs = ⟨.word, c :: cs.takeWhile Text.isWordPart⟩ ∨
      c.isDigit = true ∧ first c cs = number c cs ∨ c = '"' ∧ first c cs = string c cs ∨
      c = '&' ∧ first c cs = parameter c cs ∨
      Text.isBlank c = false ∧ first c cs = symbol (c :: cs) := by
  unfold first
  split
  case isTrue hblank => exact .inl ⟨hblank, rfl⟩
  case isFalse hblank =>
    split
    case isTrue hword => exact .inr (.inl ⟨hword, rfl⟩)
    case isFalse =>
      split
      case isTrue hdigit => exact .inr (.inr (.inl ⟨hdigit, rfl⟩))
      case isFalse =>
        split
        case isTrue hquote => exact .inr (.inr (.inr (.inl ⟨hquote, rfl⟩)))
        case isFalse =>
          split
          case isTrue hsign => exact .inr (.inr (.inr (.inr (.inl ⟨hsign, rfl⟩))))
          case isFalse => simp [hblank]

/-- Words are what starts with a letter, and symbols are those of the table. -/
lemma first_kind (c : Char) (cs : List Char) :
    ((first c cs).kind = .word → Text.isBlank c = false ∧ Text.isWordStart c = true) ∧
      ∀ kind, (first c cs).kind = .symbol kind → ∃ entry ∈ symbols, kind = entry.2 := by
  unfold first
  split
  · simp
  case isFalse hblank =>
    split
    case isTrue hword => simp [hblank, hword]
    case isFalse =>
      split
      · simp [number]
      split
      · rcases string_kind c cs with h | h <;> simp [h]
      split
      · rcases parameter_kind c cs with h | h <;> simp [h]
      · rcases symbol_kind (c :: cs) with h | h | ⟨entry, hentry, h⟩
        · simp [h]
        · simp [h]
        · exact ⟨by simp [h], fun kind hkind => ⟨entry, hentry, by simpa [h] using hkind.symm⟩⟩

lemma symbols_kind : ∀ entry ∈ symbols, entry.2.isName = false ∧ entry.2 ≠ .eof := by decide

/-- Names are words, and no piece is the end of a text. -/
lemma Opens.tokenKind? {piece : Piece} (h : piece.Opens rest) {kind : TokenKind}
    (hkind : piece.tokenKind? = some kind) :
    (kind.isName = true → piece.kind = .word) ∧ kind ≠ .eof := by
  obtain ⟨c, cs, htext, hfirst⟩ := h
  have hsymbol := hfirst ▸ (first_kind c (cs ++ rest)).2
  unfold Piece.tokenKind? at hkind
  split at hkind
  case h_1 hword =>
    refine ⟨fun _ => hword, ?_⟩
    split at hkind <;> cases hkind <;> simp
  case h_5 symbol hpiece =>
    cases hkind
    obtain ⟨entry, hentry, rfl⟩ := hsymbol _ hpiece
    obtain ⟨hname, hend⟩ := symbols_kind entry hentry
    exact ⟨by simp [hname], hend⟩
  all_goals cases hkind <;> simp [TokenKind.isName]

/-- A word is a word before all that a word cannot go on with. -/
lemma Opens.of_word {piece : Piece} (h : piece.Opens rest) (hkind : piece.kind = .word)
    (hrest : ∀ c ∈ rest'.head?, Text.isWordPart c = false) : piece.Opens rest' := by
  obtain ⟨c, cs, htext, hfirst⟩ := h
  obtain ⟨hblank, hword⟩ := (first_kind c _).1 (hfirst ▸ hkind)
  have hpiece (rest : List Char) : first c (cs ++ rest) =
      ⟨.word, c :: (cs ++ rest).takeWhile Text.isWordPart⟩ := by
    simp [first, hblank, hword]
  rw [hpiece] at hfirst
  subst hfirst
  have hrun : (cs ++ rest).takeWhile Text.isWordPart = cs := (List.cons.inj htext).2
  refine ⟨c, cs, htext, ?_⟩
  rw [hpiece, takeWhile_append_eq_iff.mpr ⟨(takeWhile_append_eq_iff.mp hrun).1, hrest⟩, hrun]

/-- A dot that starts a piece is the piece. -/
lemma Opens.of_dot {piece : Piece} (h : piece.Opens rest) (hdot : '.' ∈ piece.text.head?) :
    piece = ⟨.symbol .dot, ['.']⟩ := by
  obtain ⟨c, cs, htext, hfirst⟩ := h
  obtain rfl : c = '.' := by simpa [htext] using hdot
  exact hfirst.symm

lemma Opens.text_ne_nil {piece : Piece} (h : piece.Opens rest) : piece.text ≠ [] := by
  obtain ⟨c, cs, htext, _⟩ := h
  simp [htext]

end Behind

end Piece

end NullGuard
