import NullGuard.Proofs.Independence
import NullGuard.Proofs.TokenShapes
import NullGuard.Text.Lower

/-!
# Letter case

Raising the small letters of a text to capitals raises the texts of its tokens and changes nothing
else in its scan. A letter takes as many bytes in both cases and is part of the same pieces, and all
the characters that have a meaning of their own are no letters.
-/

namespace NullGuard

namespace Text

/-- The small letters of the two alphabets with their capitals. -/
def letterPairs : List (Char × Char) :=
  [('a', 'A'), ('b', 'B'), ('c', 'C'), ('d', 'D'), ('e', 'E'), ('f', 'F'), ('g', 'G'), ('h', 'H'),
    ('i', 'I'), ('j', 'J'), ('k', 'K'), ('l', 'L'), ('m', 'M'), ('n', 'N'), ('o', 'O'), ('p', 'P'),
    ('q', 'Q'), ('r', 'R'), ('s', 'S'), ('t', 'T'), ('u', 'U'), ('v', 'V'), ('w', 'W'), ('x', 'X'),
    ('y', 'Y'), ('z', 'Z'), ('а', 'А'), ('б', 'Б'), ('в', 'В'), ('г', 'Г'), ('д', 'Д'), ('е', 'Е'),
    ('ж', 'Ж'), ('з', 'З'), ('и', 'И'), ('й', 'Й'), ('к', 'К'), ('л', 'Л'), ('м', 'М'), ('н', 'Н'),
    ('о', 'О'), ('п', 'П'), ('р', 'Р'), ('с', 'С'), ('т', 'Т'), ('у', 'У'), ('ф', 'Ф'), ('х', 'Х'),
    ('ц', 'Ц'), ('ч', 'Ч'), ('ш', 'Ш'), ('щ', 'Щ'), ('ъ', 'Ъ'), ('ы', 'Ы'), ('ь', 'Ь'), ('э', 'Э'),
    ('ю', 'Ю'), ('я', 'Я'), ('ё', 'Ё')]

/-- The same character, or the same letter in the other case. -/
def SameLetter (c d : Char) : Prop := c = d ∨ (c, d) ∈ letterPairs ∨ (d, c) ∈ letterPairs

instance : DecidableRel SameLetter := fun c d => inferInstanceAs (Decidable (c = d ∨ _ ∨ _))

/-- Texts that differ in the case of letters only. -/
def Recased (text text' : String) : Prop := List.Forall₂ SameLetter text.toList text'.toList

instance : DecidableRel Recased := fun text text' =>
  inferInstanceAs (Decidable (List.Forall₂ SameLetter text.toList text'.toList))

/-- The capital of a small letter. Every other character stands for itself. -/
def raised (c : Char) : Char := (letterPairs.lookup c).getD c

/-- A text with its small letters raised. -/
def raise (text : String) : String := String.ofList (text.toList.map raised)

section Characters

lemma raised_letterPairs : ∀ pair ∈ letterPairs, raised pair.1 = raised pair.2 := by
  decide +kernel

lemma isWordStart_letterPairs :
    ∀ pair ∈ letterPairs, isWordStart pair.1 = true ∧ isWordStart pair.2 = true := by
  decide +kernel

lemma classes_letterPairs : ∀ pair ∈ letterPairs, pair.1.utf8Size = pair.2.utf8Size ∧
    isBlank pair.1 = isBlank pair.2 ∧ pair.1.isDigit = pair.2.isDigit := by
  decide +kernel

lemma capital_letterPairs : ∀ pair ∈ letterPairs, capital pair.1 = capital pair.2 := by
  decide +kernel

lemma lower_letterPairs : ∀ pair ∈ letterPairs, lower pair.1 = lower pair.2 := by
  decide +kernel

lemma raised_cases (c : Char) : raised c = c ∨ (c, raised c) ∈ letterPairs := by
  unfold raised
  cases hlookup : letterPairs.lookup c with
  | none => exact .inl rfl
  | some d =>
    obtain ⟨_, _, hsplit, _⟩ := List.lookup_eq_some_iff.mp hlookup
    right
    rw [hsplit]
    simp

/-- What is the same for both cases of a letter does not see that a character was raised. -/
lemma apply_raised {α : Type} {f : Char → α} (hf : ∀ pair ∈ letterPairs, f pair.1 = f pair.2)
    (c : Char) : f (raised c) = f c := by
  rcases raised_cases c with hc | hc
  · rw [hc]
  · exact (hf _ hc).symm

lemma raised_of_not_isWordStart {c : Char} (h : isWordStart c = false) : raised c = c := by
  rcases raised_cases c with hc | hc
  · exact hc
  · rw [(isWordStart_letterPairs _ hc).1] at h
    cases h

lemma raised_eq_iff {c d : Char} (h : isWordStart d = false) : raised c = d ↔ c = d := by
  refine ⟨?_, ?_⟩
  · rintro rfl
    rcases raised_cases c with hc | hc
    · exact hc.symm
    · rw [(isWordStart_letterPairs _ hc).2] at h
      cases h
  · rintro rfl
    exact raised_of_not_isWordStart h

lemma SameLetter.raised_eq {c d : Char} (h : SameLetter c d) : raised c = raised d := by
  rcases h with rfl | h | h
  · rfl
  · exact raised_letterPairs _ h
  · exact (raised_letterPairs _ h).symm

@[simp]
lemma utf8Size_raised (c : Char) : (raised c).utf8Size = c.utf8Size :=
  apply_raised (fun pair h => (classes_letterPairs pair h).1) c

@[simp]
lemma isBlank_raised (c : Char) : isBlank (raised c) = isBlank c :=
  apply_raised (fun pair h => (classes_letterPairs pair h).2.1) c

@[simp]
lemma isDigit_raised (c : Char) : (raised c).isDigit = c.isDigit :=
  apply_raised (fun pair h => (classes_letterPairs pair h).2.2) c

@[simp]
lemma isWordStart_raised (c : Char) : isWordStart (raised c) = isWordStart c := by
  apply apply_raised
  intro pair h
  rw [(isWordStart_letterPairs pair h).1, (isWordStart_letterPairs pair h).2]

@[simp]
lemma isWordPart_raised (c : Char) : isWordPart (raised c) = isWordPart c := by
  rw [isWordPart, isWordPart, isWordStart_raised, isDigit_raised]

end Characters

section Texts

variable {text text' : String}

lemma size_map_raised (cs : List Char) : size (cs.map raised) = size cs := by
  induction cs with
  | nil => rfl
  | cons c cs ih => rw [List.map_cons, size, size, utf8Size_raised, ih]

@[simp]
lemma capitals_raise (text : String) : capitals (raise text) = capitals text := by
  unfold capitals raise
  rw [String.toList_ofList, List.flatMap_map]
  exact List.flatMap_congr fun c _ => apply_raised capital_letterPairs c

@[simp]
lemma lowered_raise (text : String) : lowered (raise text) = lowered text := by
  unfold lowered raise
  rw [String.toList_ofList, List.flatMap_map]
  exact List.flatMap_congr fun c _ => apply_raised lower_letterPairs c

lemma Recased.raise_eq (h : Recased text text') : raise text = raise text' := by
  have hchars : text.toList.map raised = text'.toList.map raised :=
    map_eq_map_iff_forall₂.mpr (List.Forall₂.imp (fun _ _ hcd => hcd.raised_eq) h)
  rw [raise, raise, hchars]

end Texts

/-- A run of characters ends at the same place if its class does not see the case of letters. -/
lemma takeWhile_map_raised {p : Char → Bool} (hp : ∀ c, p (raised c) = p c) (cs : List Char) :
    (cs.map raised).takeWhile p = (cs.takeWhile p).map raised := by
  rw [List.takeWhile_map, (funext hp : p ∘ raised = p)]

lemma dropWhile_map_raised {p : Char → Bool} (hp : ∀ c, p (raised c) = p c) (cs : List Char) :
    (cs.map raised).dropWhile p = (cs.dropWhile p).map raised := by
  rw [List.dropWhile_map, (funext hp : p ∘ raised = p)]

/-- A spelling without letters begins a text whatever the case of the text is. -/
lemma isPrefixOf_map_raised {spelling : List Char} (h : ∀ c ∈ spelling, isWordStart c = false)
    (cs : List Char) : spelling.isPrefixOf (cs.map raised) = spelling.isPrefixOf cs := by
  induction spelling generalizing cs with
  | nil => simp
  | cons d spelling ih =>
    rw [List.forall_mem_cons] at h
    cases cs with
    | nil => rfl
    | cons c cs =>
      have heq : (d == raised c) = (d == c) := by
        rw [Bool.eq_iff_iff, beq_iff_eq, beq_iff_eq, eq_comm, raised_eq_iff h.1, eq_comm]
      rw [List.map_cons, List.isPrefixOf, List.isPrefixOf, heq, ih h.2]

end Text

namespace Piece

open Text (raised)

def raise (piece : Piece) : Piece := ⟨piece.kind, piece.text.map raised⟩

lemma decimals_map_raised (cs : List Char) :
    decimals (cs.map raised) = (decimals cs).map raised := by
  have hdot : raised '.' = '.' := Text.raised_of_not_isWordStart rfl
  rcases decimals_cases cs with ⟨hnone, hcs⟩ | ⟨d, more, rfl, hd, hsome⟩
  · rw [hnone, List.map_nil]
    rcases decimals_cases (cs.map raised) with ⟨hnone', _⟩ | ⟨d', more', hmap, hd', _⟩
    · exact hnone'
    · obtain ⟨c, rest, rfl, hc, hrest⟩ := List.map_eq_cons_iff.mp hmap
      obtain ⟨d, more, rfl, rfl, rfl⟩ := List.map_eq_cons_iff.mp hrest
      obtain rfl := (Text.raised_eq_iff rfl).mp hc
      rw [Text.isDigit_raised, hcs d more rfl] at hd'
      cases hd'
  · rw [hsome, List.map_cons, List.map_cons, List.map_cons, List.map_cons, hdot, decimals,
      if_pos (by rwa [Text.isDigit_raised]), Text.takeWhile_map_raised Text.isDigit_raised]

lemma number_raised (c : Char) (cs : List Char) :
    number (raised c) (cs.map raised) = (number c cs).raise := by
  simp only [number, raise, Text.takeWhile_map_raised Text.isDigit_raised,
    Text.dropWhile_map_raised Text.isDigit_raised, decimals_map_raised, List.map_cons,
    List.map_append, List.cons_append]

lemma stringRest?_map_raised (cs : List Char) :
    stringRest? (cs.map raised) = (stringRest? cs).map (List.map raised) := by
  have hquote : raised '"' = '"' := Text.raised_of_not_isWordStart rfl
  have hother {c : Char} (hc : c ≠ '"') : raised c ≠ '"' := mt (Text.raised_eq_iff rfl).mp hc
  fun_induction stringRest? cs with
  | case1 => rfl
  | case2 cs ih => simp [hquote, stringRest?, ih, Function.comp_def]
  | case3 cs hcs =>
    rw [List.map_cons, hquote, stringRest?_quote]
    · simp [hquote]
    · cases cs with
      | nil => simp
      | cons d cs => simpa using hother fun hd => hcs cs (hd ▸ rfl)
  | case4 c cs _ hc ih =>
    rw [List.map_cons, stringRest?_other (hother hc), ih, Option.map_map, Option.map_map]
    rfl

lemma string_raised (c : Char) (cs : List Char) :
    string (raised c) (cs.map raised) = (string c cs).raise := by
  unfold string
  rw [stringRest?_map_raised]
  cases stringRest? cs <;> rfl

lemma parameter_raised (c : Char) (cs : List Char) :
    parameter (raised c) (cs.map raised) = (parameter c cs).raise := by
  cases cs with
  | nil => rfl
  | cons d cs =>
    rw [List.map_cons, parameter, parameter, Text.isWordStart_raised,
      Text.takeWhile_map_raised Text.isWordPart_raised]
    split <;> rfl

lemma symbol_map_raised (cs : List Char) : symbol (cs.map raised) = (symbol cs).raise := by
  have hslashes : ['/', '/'].isPrefixOf (cs.map raised) = ['/', '/'].isPrefixOf cs :=
    Text.isPrefixOf_map_raised (by simp [Text.isWordStart, Text.isLetter]) cs
  have hsymbols : symbols.find? (·.1.isPrefixOf (cs.map raised)) =
      symbols.find? (·.1.isPrefixOf cs) :=
    List.find?_congr fun entry hentry =>
      Text.isPrefixOf_map_raised (fun c hc => (symbols_plain entry hentry c hc).2.1) cs
  have hnewline (c : Char) : decide (raised c ≠ '\n') = decide (c ≠ '\n') := by
    rw [decide_eq_decide, ne_eq, Text.raised_eq_iff rfl]
  unfold symbol
  rw [hslashes, hsymbols, Text.takeWhile_map_raised hnewline]
  split
  · rfl
  · cases hfind : symbols.find? (·.1.isPrefixOf cs) with
    | none => simp [raise, List.map_take]
    | some entry =>
      have hplain := symbols_plain entry (List.mem_of_find?_eq_some hfind)
      have hspelling : entry.1.map raised = entry.1 :=
        (List.map_congr_left fun c hc => Text.raised_of_not_isWordStart (hplain c hc).2.1).trans
          (List.map_id' _)
      simp [raise, hspelling]

/-- A text begins with the same piece whatever the case of its letters is. -/
lemma first_raised (c : Char) (cs : List Char) :
    first (raised c) (cs.map raised) = (first c cs).raise := by
  have hsymbol : symbol (raised c :: cs.map raised) = (symbol (c :: cs)).raise :=
    symbol_map_raised (c :: cs)
  unfold first
  rw [Text.isBlank_raised, Text.isWordStart_raised, Text.isDigit_raised,
    Text.takeWhile_map_raised Text.isBlank_raised, Text.takeWhile_map_raised Text.isWordPart_raised,
    number_raised, string_raised, parameter_raised, hsymbol]
  simp only [Text.raised_eq_iff (d := '"') rfl, Text.raised_eq_iff (d := '&') rfl]
  split
  · rfl
  split
  · rfl
  split
  · rfl
  split
  · rfl
  split <;> rfl

lemma cutAtMost_map_raised (count : Nat) (cs : List Char) :
    cutAtMost count (cs.map raised) = (cutAtMost count cs).map raise := by
  induction count generalizing cs with
  | zero => rfl
  | succ count ih =>
    cases cs with
    | nil => rfl
    | cons c cs =>
      have hlength : (first c cs).raise.text.length = (first c cs).text.length := List.length_map ..
      rw [List.map_cons, cutAtMost, cutAtMost, List.map_cons, first_raised, hlength,
        ← List.map_cons, ← List.map_drop, ih]

lemma cut_map_raised (cs : List Char) : cut (cs.map raised) = (cut cs).map raise := by
  rw [cut, List.length_map, cutAtMost_map_raised, cut]

lemma tokenKind?_raise (piece : Piece) : piece.raise.tokenKind? = piece.tokenKind? := by
  have hlookup : Keyword.lookup (String.ofList (piece.text.map raised)) =
      Keyword.lookup (String.ofList piece.text) := by
    have hraise := Text.capitals_raise (String.ofList piece.text)
    rw [Text.raise, String.toList_ofList] at hraise
    rw [Keyword.lookup, hraise, Keyword.lookup]
  unfold tokenKind? raise
  rw [hlookup]

end Piece

namespace Token

def raise (token : Token) : Token := { token with text := Text.raise token.text }

end Token

namespace Placed

def raise (placed : Placed) : Placed := ⟨placed.span, placed.piece.raise⟩

lemma token?_raise (placed : Placed) : placed.raise.token? = placed.token?.map Token.raise := by
  unfold token? raise
  rw [Piece.tokenKind?_raise, Option.map_map]
  simp [Function.comp_def, Token.raise, Text.raise, Piece.raise]

/-- What cannot be read is no letter. -/
lemma diagnostic?_raise {placed : Placed} {rest : List Char} (h : placed.piece.Opens rest) :
    placed.raise.diagnostic? = placed.diagnostic? := by
  have htext (hkind : placed.piece.kind = .invalid) :
      placed.piece.text.map Text.raised = placed.piece.text := by
    obtain ⟨c, cs, htext, hfirst⟩ := h
    obtain ⟨d, hsingle, _⟩ := Piece.Opens.invalid ⟨c, cs, htext, hfirst⟩ hkind
    obtain ⟨rfl, rfl⟩ := List.cons.inj (htext.symm.trans hsingle)
    have hstart : Text.isWordStart c = false := by
      rw [Bool.eq_false_iff]
      intro hword
      rw [← hfirst, Piece.first_of_word hword] at hkind
      cases hkind
    rw [htext, List.map_singleton, Text.raised_of_not_isWordStart hstart]
  unfold diagnostic? raise Piece.raise
  dsimp only
  split
  · rfl
  · rw [htext ‹_›]
  · rfl

end Placed

lemma Piece.place_map_raise (offset : Nat) (pieces : List Piece) :
    place offset (pieces.map raise) = (place offset pieces).map Placed.raise := by
  induction pieces generalizing offset with
  | nil => rfl
  | cons piece pieces ih =>
    have hsize : piece.raise.size = piece.size := Text.size_map_raised piece.text
    rw [List.map_cons, place, place, List.map_cons, hsize, ih]
    rfl

lemma placedPieces_map_raised (cs : List Char) :
    placedPieces (cs.map Text.raised) = (placedPieces cs).map Placed.raise := by
  rw [placedPieces, Piece.cut_map_raised, Piece.place_map_raise, placedPieces]

/-- Raising the letters of a text raises the texts of its tokens, and its unreadable pieces stay. -/
theorem scan_raise (source : String) :
    (scan (Text.raise source)).tokens = (scan source).tokens.map Token.raise ∧
      (scan (Text.raise source)).diagnostics = (scan source).diagnostics := by
  have hsize : (Text.raise source).utf8ByteSize = source.utf8ByteSize := by
    rw [← Text.size_toList, Text.raise, String.toList_ofList, Text.size_map_raised,
      Text.size_toList]
  have heof : (Token.eof source.utf8ByteSize).raise = .eof source.utf8ByteSize := rfl
  unfold scan
  rw [hsize, Text.raise, String.toList_ofList, placedPieces_map_raised]
  simp only [List.map_append, List.map_singleton, heof, List.filterMap_map, List.map_filterMap]
  refine ⟨?_, ?_⟩
  · congr 1
    exact List.filterMap_congr fun placed _ => placed.token?_raise
  · apply List.filterMap_congr
    intro placed hplaced
    obtain ⟨_, rest, hopens⟩ := Text.of_mem_placedPieces hplaced
    exact Placed.diagnostic?_raise hopens

end NullGuard
