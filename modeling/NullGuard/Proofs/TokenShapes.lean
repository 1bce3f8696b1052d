import NullGuard.Proofs.PieceCuts

/-!
# Shapes of tokens

Which texts are tokens of a kind is said here by their characters alone, without cutting a text. A
piece that is a token has the shape of its kind, and nothing longer from where it starts has the shape
of any kind. Where the first piece is a character that cannot be read, nothing there has a shape.
-/

namespace NullGuard

namespace Text

/-- A letter or a low line, and then any of these and digits. -/
def IsWord : List Char → Prop
  | [] => False
  | c :: cs => isWordStart c = true ∧ ∀ d ∈ cs, isWordPart d = true

def IsDigits (cs : List Char) : Prop := cs ≠ [] ∧ ∀ d ∈ cs, d.isDigit = true

/-- Digits, and maybe a dot with digits behind it. -/
def IsNumber (cs : List Char) : Prop :=
  ∃ digits, IsDigits digits ∧
    (cs = digits ∨ ∃ places, IsDigits places ∧ cs = digits ++ '.' :: places)

/-- What can stand between the quotes of a string: a quote is there twice. -/
inductive Quotable : List Char → Prop where
  | nil : Quotable []
  | other {c : Char} {cs : List Char} (hc : c ≠ '"') (h : Quotable cs) : Quotable (c :: cs)
  | doubled {cs : List Char} (h : Quotable cs) : Quotable ('"' :: '"' :: cs)

def IsString (cs : List Char) : Prop := ∃ inside, Quotable inside ∧ cs = '"' :: (inside ++ ['"'])

end Text

/-- The texts of tokens of a kind. The end of a text has none. -/
def TokenKind.Fits : TokenKind → List Char → Prop
  | keyword _, cs | identifier, cs => Text.IsWord cs
  | number, cs => Text.IsNumber cs
  | string, cs => Text.IsString cs
  | parameter, cs => ∃ name, Text.IsWord name ∧ cs = '&' :: name
  | eof, _ => False
  | kind, cs => cs = kind.display.toList

namespace Piece

section Classes

variable {c : Char} {cs : List Char}

lemma isBlank_of_isWordStart (h : Text.isWordStart c = true) : Text.isBlank c = false := by
  rw [Bool.eq_false_iff]
  intro hblank
  simp only [Text.isBlank, Bool.or_eq_true, decide_eq_true_eq] at hblank
  rcases hblank with (((rfl | rfl) | rfl) | rfl) | rfl <;> cases h

lemma isBlank_of_isDigit (h : c.isDigit = true) : Text.isBlank c = false := by
  rw [Bool.eq_false_iff]
  intro hblank
  simp only [Text.isBlank, Bool.or_eq_true, decide_eq_true_eq] at hblank
  rcases hblank with (((rfl | rfl) | rfl) | rfl) | rfl <;> cases h

lemma isWordStart_of_isDigit (h : c.isDigit = true) : Text.isWordStart c = false := by
  simp only [Char.isDigit, Bool.and_eq_true, decide_eq_true_eq, ge_iff_le,
    UInt32.le_iff_toNat_le] at h
  have hval : 48 ≤ c.val.toNat ∧ c.val.toNat ≤ 57 := h
  have hne (d : Char) (hd : d.val.toNat < 48 ∨ 57 < d.val.toNat) : c ≠ d := by
    rintro rfl
    omega
  have hlatin : c.isAlpha = false := by
    change (decide (c.val ≥ 'A'.val ∧ c.val ≤ 'Z'.val) ||
      decide (c.val ≥ 'a'.val) && decide (c.val ≤ 'z'.val)) = false
    simp only [Bool.or_eq_false_iff, Bool.and_eq_false_iff, decide_eq_false_iff_not, ge_iff_le,
      UInt32.le_iff_toNat_le]
    have : 'A'.val.toNat = 65 := rfl
    have : 'a'.val.toNat = 97 := rfl
    omega
  have hrussian (d e : Char) (hd : 57 < d.val.toNat) : (decide (d ≤ c) && decide (c ≤ e)) = false := by
    simp only [Bool.and_eq_false_iff, decide_eq_false_iff_not, Char.le_def, UInt32.le_iff_toNat_le]
    omega
  simp [Text.isWordStart, Text.isLetter, hlatin, hrussian 'а' 'я' (by decide),
    hrussian 'А' 'Я' (by decide), hne 'ё' (by decide), hne 'Ё' (by decide), hne '_' (by decide)]

lemma first_of_word (h : Text.isWordStart c = true) :
    first c cs = ⟨.word, c :: cs.takeWhile Text.isWordPart⟩ := by
  simp [first, h, isBlank_of_isWordStart h]

lemma first_of_digit (h : c.isDigit = true) : first c cs = number c cs := by
  simp [first, h, isBlank_of_isDigit h, isWordStart_of_isDigit h]

lemma first_quote : first '"' cs = string '"' cs := rfl

lemma first_sign : first '&' cs = parameter '&' cs := rfl

end Classes

section Longest

variable {c : Char} {cs w : List Char}

lemma length_le_takeWhile {p : Char → Bool} (hw : w <+: cs) (hp : ∀ d ∈ w, p d = true) :
    w.length ≤ (cs.takeWhile p).length := by
  obtain ⟨rest, rfl⟩ := hw
  rw [List.takeWhile_append_of_pos hp, List.length_append]
  exact Nat.le_add_right _ _

/-- A number takes the digits that it starts with and the decimal places behind them. -/
lemma number_text (hc : c.isDigit = true) : (number c cs).text =
    (c :: cs).takeWhile Char.isDigit ++ decimals ((c :: cs).dropWhile Char.isDigit) := by
  simp [number, hc]

lemma longest_number (h : Text.IsNumber w) (hw : w <+: c :: cs) :
    c.isDigit = true ∧ w.length ≤ (number c cs).text.length := by
  obtain ⟨digits, ⟨hne, hdigits⟩, hw'⟩ := h
  have hbegins : digits <+: c :: cs := by
    rcases hw' with rfl | ⟨places, _, rfl⟩
    · exact hw
    · exact (List.prefix_append _ _).trans hw
  have hc : c.isDigit = true := by
    obtain ⟨d, ds, rfl⟩ := List.exists_cons_of_ne_nil hne
    obtain ⟨rfl, _⟩ := List.cons_prefix_cons.mp hbegins
    exact hdigits d (by simp)
  refine ⟨hc, ?_⟩
  rw [number_text hc, List.length_append]
  rcases hw' with rfl | ⟨places, ⟨hplaces, hall⟩, rfl⟩
  · have := length_le_takeWhile hw hdigits
    omega
  · -- the digits end at the dot, so the decimal places are those behind it
    obtain ⟨d, ds, rfl⟩ := List.exists_cons_of_ne_nil hplaces
    obtain ⟨rest, hrest⟩ := hw
    have htake : (digits ++ '.' :: d :: (ds ++ rest)).takeWhile Char.isDigit = digits :=
      takeWhile_append_eq_iff.mpr ⟨hdigits, by simp⟩
    have htext : c :: cs = digits ++ '.' :: d :: (ds ++ rest) := by simp [← hrest]
    obtain ⟨hd, hds⟩ := List.forall_mem_cons.mp hall
    rw [htext, htake, dropWhile_append_eq htake, decimals, if_pos hd]
    have := length_le_takeWhile (List.prefix_append ds rest) hds
    simp only [List.length_append, List.length_cons]
    omega

/-- A string is not closed before a quote that can close it. -/
lemma length_le_stringRest {inside rest : List Char} (h : Text.Quotable inside)
    (hw : inside ++ ['"'] <+: cs) (hrest : stringRest? cs = some rest) :
    (inside ++ ['"']).length ≤ rest.length := by
  induction h generalizing cs rest with
  | nil =>
    have hne : rest ≠ [] := by
      rintro rfl
      exact stringRest?_ne_nil hrest
    exact List.length_pos_iff.mpr hne
  | @other c inside hc _ ih =>
    obtain ⟨more, rfl⟩ := hw
    rw [List.cons_append, List.cons_append, stringRest?_other hc] at hrest
    obtain ⟨rest, hinner, rfl⟩ := Option.map_eq_some_iff.mp hrest
    have := ih (List.prefix_append _ _) hinner
    simpa using this
  | @doubled inside _ ih =>
    obtain ⟨more, rfl⟩ := hw
    rw [List.cons_append, List.cons_append, List.cons_append, List.cons_append, stringRest?] at hrest
    obtain ⟨rest, hinner, rfl⟩ := Option.map_eq_some_iff.mp hrest
    have := ih (List.prefix_append _ _) hinner
    simpa using this

/-- Of two symbols in the table, one that starts the other stands behind it. -/
lemma symbols_ordered : symbols.Pairwise fun a b => ¬ a.1 <+: b.1 := by decide

/-- No other piece starts with a character of a symbol. -/
lemma symbols_plain : ∀ entry ∈ symbols, ∀ c ∈ entry.1, Text.isBlank c = false ∧
    Text.isWordStart c = false ∧ c.isDigit = false ∧ c ≠ '"' ∧ c ≠ '&' := by
  simp [symbols, Text.isBlank, Text.isWordStart, Text.isLetter]

/-- Of the symbols that a text starts with, the one that stands first in the table is the longest. -/
lemma length_le_of_find? {entry found : List Char × TokenKind} (hentry : entry ∈ symbols)
    (hbegins : entry.1 <+: cs) (hfind : symbols.find? (·.1.isPrefixOf cs) = some found) :
    entry.1.length ≤ found.1.length := by
  obtain ⟨hfound, before, behind, hsplit, hbefore⟩ := List.find?_eq_some_iff_append.mp hfind
  rw [List.isPrefixOf_iff_prefix] at hfound
  have hordered := symbols_ordered
  rw [hsplit, List.pairwise_append, List.pairwise_cons] at hordered
  rw [hsplit, List.mem_append, List.mem_cons] at hentry
  rcases hentry with hentry | rfl | hentry
  · have hnot := hbefore entry hentry
    simp [List.isPrefixOf_iff_prefix.mpr hbegins] at hnot
  · exact Nat.le_refl _
  · by_contra hlt
    exact hordered.2.1.1 entry hentry
      (List.prefix_of_prefix_length_le hfound hbegins (Nat.le_of_not_le hlt))

lemma longest_symbol {entry : List Char × TokenKind} (hentry : entry ∈ symbols)
    (hbegins : entry.1 <+: c :: cs) : first c cs = symbol (c :: cs) ∧
      (symbol (c :: cs)).kind ≠ .invalid ∧ entry.1.length ≤ (symbol (c :: cs)).text.length := by
  have hmem : c ∈ entry.1 := by
    obtain ⟨d, ds, hd⟩ := List.exists_cons_of_ne_nil (symbols_ne_nil entry hentry)
    rw [hd, List.cons_prefix_cons] at hbegins
    simp [hd, hbegins.1]
  obtain ⟨hblank, hword, hdigit, hquote, hsign⟩ := symbols_plain entry hentry c hmem
  refine ⟨by simp [first, hblank, hword, hdigit, hquote, hsign], ?_⟩
  unfold symbol
  split
  case isTrue hslashes =>
    obtain ⟨more, hmore⟩ := List.isPrefixOf_iff_prefix.mp hslashes
    have := (symbols_short entry hentry).1
    refine ⟨by simp, ?_⟩
    rw [← hmore]
    simp
    omega
  case isFalse =>
    split
    case h_1 spelling kind hfind => exact ⟨by simp, length_le_of_find? hentry hbegins hfind⟩
    case h_2 hfind =>
      rw [List.find?_eq_none] at hfind
      exact absurd (List.isPrefixOf_iff_prefix.mpr hbegins) (hfind entry hentry)

/-- Nothing that has the shape of a token is longer than the first piece, and where there is such a
thing the first piece can be read. -/
theorem longest_first {kind : TokenKind} (h : kind.Fits w) (hw : w <+: c :: cs) :
    (first c cs).kind ≠ .invalid ∧ w.length ≤ (first c cs).text.length := by
  have hword (h : Text.IsWord w) :
      (first c cs).kind ≠ .invalid ∧ w.length ≤ (first c cs).text.length := by
    cases w with
    | nil => cases h
    | cons d w =>
      obtain ⟨rfl, htail⟩ := List.cons_prefix_cons.mp hw
      rw [first_of_word h.1]
      exact ⟨by simp, Nat.succ_le_succ (length_le_takeWhile htail h.2)⟩
  have hsymbol (hentry : (w, kind) ∈ symbols) :
      (first c cs).kind ≠ .invalid ∧ w.length ≤ (first c cs).text.length := by
    obtain ⟨hfirst, hkind, hlength⟩ := longest_symbol hentry hw
    rw [hfirst]
    exact ⟨hkind, hlength⟩
  cases kind with
  | keyword _ => exact hword h
  | identifier => exact hword h
  | number =>
    obtain ⟨hc, hlength⟩ := longest_number h hw
    rw [first_of_digit hc]
    exact ⟨by simp [number], hlength⟩
  | string =>
    obtain ⟨inside, hinside, rfl⟩ := h
    obtain ⟨rfl, htail⟩ := List.cons_prefix_cons.mp hw
    rw [first_quote, string]
    split
    case h_1 rest hrest => exact ⟨by simp, Nat.succ_le_succ (length_le_stringRest hinside htail hrest)⟩
    case h_2 => exact ⟨by simp, Nat.succ_le_succ htail.length_le⟩
  | parameter =>
    obtain ⟨name, hname, rfl⟩ := h
    obtain ⟨rfl, htail⟩ := List.cons_prefix_cons.mp hw
    cases name with
    | nil => cases hname
    | cons d name =>
      obtain ⟨more, rfl⟩ := htail
      rw [first_sign, List.cons_append, parameter, if_pos hname.1]
      refine ⟨by simp, Nat.succ_le_succ (Nat.succ_le_succ ?_)⟩
      exact length_le_takeWhile (List.prefix_append _ _) hname.2
  | eof => cases h
  | _ =>
    subst h
    exact hsymbol (by decide +kernel)

end Longest

section Kinds

variable {piece : Piece} {c : Char} {cs rest : List Char}

/-- A string that is closed is quoted. -/
lemma quotable_of_stringRest {text : List Char} (h : stringRest? cs = some text) :
    ∃ inside, Text.Quotable inside ∧ text = inside ++ ['"'] := by
  fun_induction stringRest? cs generalizing text with
  | case1 => cases h
  | case2 cs ih =>
    obtain ⟨text, hinner, rfl⟩ := Option.map_eq_some_iff.mp h
    obtain ⟨inside, hinside, rfl⟩ := ih hinner
    exact ⟨_, hinside.doubled, rfl⟩
  | case3 cs _ =>
    cases h
    exact ⟨[], .nil, rfl⟩
  | case4 c cs _ hc ih =>
    obtain ⟨text, hinner, rfl⟩ := Option.map_eq_some_iff.mp h
    obtain ⟨inside, hinside, rfl⟩ := ih hinner
    exact ⟨_, .other (by simpa using hc) hinside, rfl⟩

/-- Without a quote that can close a string, all quotes are there twice. -/
lemma quotable_of_none (h : stringRest? cs = none) : Text.Quotable cs := by
  fun_induction stringRest? cs with
  | case1 => exact .nil
  | case2 cs ih => exact (ih (Option.map_eq_none_iff.mp h)).doubled
  | case3 cs _ => cases h
  | case4 c cs _ hc ih => exact .other (by simpa using hc) (ih (Option.map_eq_none_iff.mp h))

lemma symbols_fit : ∀ entry ∈ symbols, entry.2.Fits entry.1 := by
  simp only [symbols, List.forall_mem_cons, List.not_mem_nil, false_implies, implies_true, and_true,
    TokenKind.Fits, TokenKind.display]
  decide +kernel

lemma isNumber_number (hc : c.isDigit = true) : Text.IsNumber (number c cs).text := by
  rw [number_text hc]
  have hdigits : Text.IsDigits ((c :: cs).takeWhile Char.isDigit) :=
    ⟨by simp [hc], fun d hd => List.mem_takeWhile_imp hd⟩
  refine ⟨_, hdigits, ?_⟩
  rcases decimals_cases ((c :: cs).dropWhile Char.isDigit) with ⟨hnone, _⟩ | ⟨d, more, _, hd, hsome⟩
  · exact .inl (by rw [hnone, List.append_nil])
  · refine .inr ⟨d :: more.takeWhile Char.isDigit, ⟨by simp, ?_⟩, by rw [hsome]⟩
    exact List.forall_mem_cons.mpr ⟨hd, fun e he => List.mem_takeWhile_imp he⟩

/-- A piece that is a token has the shape of its kind. -/
theorem first_fits {kind : TokenKind} (h : (first c cs).tokenKind? = some kind) :
    kind.Fits (first c cs).text := by
  rcases first_cases c cs with ⟨_, hfirst⟩ | ⟨hword, hfirst⟩ | ⟨hdigit, hfirst⟩ | ⟨rfl, hfirst⟩ |
    ⟨rfl, hfirst⟩ | ⟨_, hfirst⟩ <;> rw [hfirst] at h ⊢
  · cases h
  · have hfits : Text.IsWord (c :: cs.takeWhile Text.isWordPart) :=
      ⟨hword, fun d hd => List.mem_takeWhile_imp hd⟩
    simp only [tokenKind?] at h
    split at h <;> cases h <;> exact hfits
  · cases h
    exact isNumber_number hdigit
  · unfold string at h ⊢
    split at h
    case h_1 text htext =>
      cases h
      obtain ⟨inside, hinside, rfl⟩ := quotable_of_stringRest htext
      exact ⟨inside, hinside, rfl⟩
    case h_2 => cases h
  · unfold parameter at h ⊢
    split at h
    case h_1 d cs =>
      split at h
      case isTrue hd =>
        cases h
        have hname : Text.IsWord (d :: cs.takeWhile Text.isWordPart) :=
          ⟨hd, fun e he => List.mem_takeWhile_imp he⟩
        exact ⟨_, hname, by simp [hd]⟩
      case isFalse => cases h
    case h_2 => cases h
  · rcases symbol_cases (c :: cs) with ⟨_, hsymbol⟩ | ⟨_, ⟨entry, hentry, hsymbol⟩ | hsymbol⟩ <;>
      rw [hsymbol] at h ⊢ <;> cases h
    exact symbols_fit entry hentry

lemma Opens.fits (h : piece.Opens rest) {kind : TokenKind} (hkind : piece.tokenKind? = some kind) :
    kind.Fits piece.text := by
  obtain ⟨c, cs, _, rfl⟩ := h
  exact first_fits hkind

lemma Opens.longest (h : piece.Opens rest) {kind : TokenKind} {w : List Char} (hw : kind.Fits w)
    (hbegins : w <+: piece.text ++ rest) :
    piece.kind ≠ .invalid ∧ w.length ≤ piece.text.length := by
  obtain ⟨c, cs, htext, hfirst⟩ := h
  rw [htext, List.cons_append] at hbegins
  have hlongest := longest_first hw hbegins
  rwa [hfirst] at hlongest

/-- A comment starts with two slashes and goes up to the end of its line. -/
lemma Opens.comment (h : piece.Opens rest) (hkind : piece.kind = .comment) :
    ∃ body, piece.text = '/' :: '/' :: body ∧ '\n' ∉ body ∧ ∀ d ∈ rest.head?, d = '\n' := by
  obtain ⟨c, cs, htext, rfl⟩ := h
  rcases first_cases c (cs ++ rest) with ⟨_, hfirst⟩ | ⟨_, hfirst⟩ | ⟨_, hfirst⟩ | ⟨_, hfirst⟩ |
    ⟨_, hfirst⟩ | ⟨_, hfirst⟩ <;> rw [hfirst] at hkind htext ⊢
  · cases hkind
  · cases hkind
  · cases hkind
  · rcases string_kind c (cs ++ rest) with hk | hk <;> simp [hk] at hkind
  · rcases parameter_kind c (cs ++ rest) with hk | hk <;> simp [hk] at hkind
  · rcases symbol_cases (c :: (cs ++ rest)) with ⟨⟨more, hmore⟩, hsymbol⟩ |
      ⟨_, ⟨_, _, hsymbol⟩ | hsymbol⟩ <;> rw [hsymbol] at hkind htext ⊢
    · have hrun := takeWhile_append_eq_iff.mp (by simpa using htext :
        (c :: cs ++ rest).takeWhile (· ≠ '\n') = c :: cs)
      rw [← hmore]
      refine ⟨more.takeWhile (· ≠ '\n'), by simp, fun hmem => ?_, by simpa using hrun.2⟩
      simpa using List.mem_takeWhile_imp hmem
    · cases hkind
    · cases hkind

/-- A string that is not closed takes all of the text. -/
lemma Opens.unclosed (h : piece.Opens rest) (hkind : piece.kind = .unclosed) :
    ∃ inside, piece.text = '"' :: inside ∧ Text.Quotable inside ∧ rest = [] := by
  obtain ⟨c, cs, htext, rfl⟩ := h
  rcases first_cases c (cs ++ rest) with ⟨_, hfirst⟩ | ⟨_, hfirst⟩ | ⟨_, hfirst⟩ | ⟨rfl, hfirst⟩ |
    ⟨_, hfirst⟩ | ⟨_, hfirst⟩ <;> rw [hfirst] at hkind htext ⊢
  · cases hkind
  · cases hkind
  · cases hkind
  · unfold string at hkind htext ⊢
    split at hkind
    case h_1 => cases hkind
    case h_2 hnone =>
      rw [hnone] at htext
      have hall : cs ++ rest = cs := by simpa using htext
      exact ⟨cs ++ rest, rfl, quotable_of_none hnone, by simpa using hall⟩
  · rcases parameter_kind c (cs ++ rest) with hk | hk <;> simp [hk] at hkind
  · rcases symbol_kind (c :: (cs ++ rest)) with hk | hk | ⟨_, _, hk⟩ <;> simp [hk] at hkind

/-- What cannot be read is a single character, and neither a blank nor the start of a comment. -/
lemma Opens.invalid (h : piece.Opens rest) (hkind : piece.kind = .invalid) :
    ∃ c, piece.text = [c] ∧ Text.isBlank c = false ∧ ¬ ['/', '/'] <+: c :: rest := by
  obtain ⟨c, cs, htext, rfl⟩ := h
  rcases first_cases c (cs ++ rest) with ⟨_, hfirst⟩ | ⟨_, hfirst⟩ | ⟨_, hfirst⟩ | ⟨_, hfirst⟩ |
    ⟨rfl, hfirst⟩ | ⟨hblank, hfirst⟩ <;> rw [hfirst] at hkind htext ⊢
  · cases hkind
  · cases hkind
  · cases hkind
  · rcases string_kind c (cs ++ rest) with hk | hk <;> simp [hk] at hkind
  · refine ⟨'&', ?_, by decide, by simp⟩
    unfold parameter at hkind ⊢
    split at hkind
    case h_1 =>
      split at hkind
      case isTrue => cases hkind
      case isFalse hd => simp [hd]
    case h_2 => rfl
  · rcases symbol_cases (c :: (cs ++ rest)) with ⟨_, hsymbol⟩ | ⟨hslashes, ⟨_, _, hsymbol⟩ | hsymbol⟩ <;>
      rw [hsymbol] at hkind htext ⊢
    · cases hkind
    · cases hkind
    · obtain rfl : cs = [] := by simpa using htext
      exact ⟨c, by simp, hblank, by simpa using hslashes⟩

end Kinds

end Piece

end NullGuard
