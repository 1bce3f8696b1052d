import NullGuard.Proofs.PackageLockstep

namespace NullGuard

open Phrase (tokensAll)

namespace Token

/-- Tokens that differ in the side of a join at most. -/
structure Turned (a b : Token) : Prop where
  face_eq : a.kind.face = b.kind.face
  span_eq : a.span = b.span
  text_eq : a.text = b.text

lemma Turned.refl (a : Token) : a.Turned a := ⟨rfl, rfl, rfl⟩

lemma likeness_turned : Likeness Turned where
  face_eq h := h.face_eq
  spells_eq := by
    intro a b h word
    have hname : a.kind = .identifier ↔ b.kind = .identifier := by
      rw [← TokenKind.face_eq_iff rfl, h.face_eq, TokenKind.face_eq_iff rfl]
    simp only [spells, hname, h.text_eq]

lemma likeness_eq : Likeness Eq where
  face_eq := by
    rintro a _ rfl
    rfl
  spells_eq := by
    rintro a _ rfl word
    rfl

end Token

/-- If two lists make another one, a place of it is one of the first or one of the second. -/
lemma append_cons_eq_append {α : Type} {s t u v : List α} {a : α} (h : s ++ a :: t = u ++ v) :
    (∃ w, u = s ++ a :: w ∧ t = w ++ v) ∨ ∃ w, s = u ++ w ∧ v = w ++ a :: t := by
  rcases List.append_eq_append_iff.mp h with ⟨w, hw, hv⟩ | hsecond
  · cases w with
    | nil => exact .inr ⟨[], by simpa using hw.symm, hv.symm⟩
    | cons x w =>
      obtain ⟨rfl, rfl⟩ := List.cons.inj hv
      exact .inl ⟨w, hw, rfl⟩
  · exact .inr hsecond

lemma exists_of_length_lt {α : Type} {s t u v : List α} {a : α} (h : s ++ a :: t = u ++ v)
    (hlt : s.length < u.length) : ∃ w, u = s ++ a :: w ∧ t = w ++ v := by
  rcases append_cons_eq_append h with hfirst | ⟨w, rfl, _⟩
  · exact hfirst
  · rw [List.length_append] at hlt
    omega

lemma Cursor.Passes.eq_of_eq_end {c d e : Cursor} {s : List Token} (h : c.Passes s e)
    (h' : d.Passes s e) : c = d := by
  have hposition := h.position.symm.trans h'.position
  exact Cursor.eq_of_rest (h.rest.trans h'.rest.symm) (by omega)

lemma Cursor.Passes.endsStatement_eq_false {c d : Cursor} {s : List Token} (h : c.Passes s d)
    (hne : s ≠ []) (hinside : ∀ token ∈ s, token.kind.endsStatement = false) :
    c.kind.endsStatement = false := by
  obtain ⟨token, s, rfl⟩ := List.exists_cons_of_ne_nil hne
  rw [h.kind, hinside token (by simp)]

namespace Part

lemma Alike.mono {R R' S S' : Token → Token → Prop} (hR : ∀ a b, R a b → R' a b)
    (hS : ∀ a b, S a b → S' a b) {part part' : Part} (h : Alike R S part part') :
    Alike R' S' part part' := by
  cases h with
  | separator h => exact .separator (hR _ _ h)
  | statement h => exact .statement (h.mono hR)
  | truncated h hexpected hplace => exact .truncated (h.mono hR) hexpected (hS _ _ hplace)
  | rejected hexpected hplace => exact .rejected hexpected (hS _ _ hplace)

/-- The tokens that are kept of alike parts are alike. -/
lemma Alike.tokens {R S : Token → Token → Prop} {part part' : Part} (h : Alike R S part part') :
    List.Forall₂ R (tokensAll part.phrase?.toList) (tokensAll part'.phrase?.toList) := by
  cases h with
  | separator h => exact .cons h .nil
  | statement h => simpa [phrase?] using h.tokens
  | truncated h _ _ => simpa [phrase?] using h.tokens
  | rejected _ _ => exact .nil

lemma allWithin_congr {ahead ahead' : List Token} (h : ahead.length = ahead'.length) (c : Cursor) :
    allWithin ahead c = allWithin ahead' c := by
  induction ahead generalizing ahead' c with
  | nil => rw [List.eq_nil_of_length_eq_zero h.symm]
  | cons mark ahead ih =>
    obtain ⟨mark', ahead', rfl⟩ := List.exists_cons_of_length_pos (l := ahead') (by rw [← h]; simp)
    have hlength : ahead.length = ahead'.length := by simpa using h
    simp only [allWithin, ih hlength]

variable {a b : Token} {before after : List Token} {c c' e : Cursor}

lemma endsStatement_turned (hab : a.Turned b) (hc : c.Passes (before ++ a :: after) e)
    (hc' : c'.Passes (before ++ b :: after) e) : c'.kind.endsStatement = c.kind.endsStatement := by
  cases before with
  | nil => rw [hc'.kind, hc.kind, Token.likeness_turned.endsStatement_eq hab]
  | cons first before => rw [Cursor.Passes.kind hc', Cursor.Passes.kind hc]

/-- A part before the place is read as it was. -/
lemma next_before {d d' : Cursor} {segment : List Token} (ha : a.kind.endsStatement = false)
    (hinside : ∀ token ∈ segment, token.kind.endsStatement = false) (hc : c.Passes segment d)
    (hc' : c'.Passes segment d') (hd : d.Passes (before ++ a :: after) e)
    (hd' : d'.Passes (before ++ b :: after) e) (hends : d.kind.endsStatement = true) :
    Alike Eq Eq (next c).1 (next c').1 ∧ (next c').2 = d' := by
  have hcurrent : d.current = d'.current := by
    cases before with
    | nil =>
      rw [hd.kind, ha] at hends
      cases hends
    | cons first before => rw [hd.current, hd'.current]
  have hsame : List.Forall₂ (fun a b => a = b ∧ a.kind.endsStatement = false) segment segment :=
    List.forall₂_same.mpr fun token htoken => ⟨rfl, hinside token htoken⟩
  obtain ⟨hpart, _, hnext⟩ := next_alike Token.likeness_eq (fun _ _ h => h) hsame hc hc' hends
    (by rwa [Cursor.kind, ← hcurrent]) hcurrent
  exact ⟨hpart, hnext⟩

/-- A part that keeps the token at a place is read alike with another side there, up to the same
place. -/
lemma next_turned (hab : a.Turned b) (hinside : ∀ token ∈ before ++ a :: after,
      token.kind.endsStatement = false)
    (hc : c.Passes (before ++ a :: after) (next c).2)
    (hc' : c'.Passes (before ++ b :: after) (next c).2)
    (hends : (next c).2.kind.endsStatement = true)
    (hcovers : Covers (before ++ a :: after) (next c).2.current (next c).1)
    (hkept : before.length < (tokensAll (next c).1.phrase?.toList).length) :
    (next c').2 = (next c).2 ∧ Alike Token.Turned Eq (next c).1 (next c').1 ∧
      ∃ behind, tokensAll (next c).1.phrase?.toList = before ++ a :: behind ∧
        tokensAll (next c').1.phrase?.toList = before ++ b :: behind := by
  obtain ⟨hbefore, hafter⟩ := List.forall_mem_append.mp hinside
  obtain ⟨ha, hafter⟩ := List.forall_mem_cons.mp hafter
  have htokens : List.Forall₂ (fun a b => a.Turned b ∧ a.kind.endsStatement = false)
      (before ++ a :: after) (before ++ b :: after) :=
    List.rel_append (List.forall₂_same.mpr fun x hx => ⟨.refl x, hbefore x hx⟩)
      (.cons ⟨hab, ha⟩ (List.forall₂_same.mpr fun x hx => ⟨.refl x, hafter x hx⟩))
  obtain ⟨halike, _, hnext⟩ := next_alike Token.likeness_turned (fun _ _ h => h) htokens hc hc'
    hends hends (Token.Turned.refl _)
  have hcovers' : Covers (before ++ b :: after) (next c).2.current (next c').1 := by
    have hb : c'.kind.endsStatement = false := by
      rw [endsStatement_turned hab hc hc']
      exact hc.endsStatement_eq_false (by simp) hinside
    obtain ⟨segment, _, hpass, _, _, hcovers'⟩ :=
      next_covers c' ⟨(next c).2.current, by rw [hc'.rest]; simp [Cursor.rest], hends⟩ hb
    rw [hnext] at hpass hcovers'
    rwa [List.append_cancel_right (hpass.rest.symm.trans hc'.rest)] at hcovers'
  refine ⟨hnext, ?_⟩
  have hlength := halike.tokens.length_eq
  generalize (next c).1 = part at hcovers halike hkept hlength
  generalize (next c').1 = part' at hcovers' halike hlength
  cases halike with
  | separator _ => cases hcovers
  | statement hp =>
    cases hcovers with
    | statement _ htokens =>
      cases hcovers' with
      | statement _ htokens' =>
        exact ⟨.statement hp, after, by simpa [phrase?] using htokens,
          by simpa [phrase?] using htokens'⟩
  | rejected _ _ => simp [phrase?] at hkept
  | truncated hp hexpected hplace =>
    cases hcovers with
    | truncated _ htokens =>
      cases hcovers' with
      | truncated _ htokens' =>
        simp only [phrase?, Option.toList_some, Phrase.tokensAll_cons, Phrase.tokensAll_nil,
          List.append_nil] at hkept hlength ⊢
        obtain ⟨behind, hp', hbehind⟩ := exists_of_length_lt htokens hkept
        obtain ⟨behind', hq', hbehind'⟩ := exists_of_length_lt htokens' (hlength ▸ hkept)
        rw [hp', hq'] at hlength
        have hlength : behind.length = behind'.length := by simpa using hlength
        obtain ⟨rfl, hfailing⟩ := List.append_inj (hbehind.symm.trans hbehind') hlength
        exact ⟨.truncated hp rfl (List.cons.inj hfailing).1, behind, hp', hq'⟩

/-- What is read from a place is alike to itself. -/
lemma allWithin_refl {R S : Token → Token → Prop} (hR : ∀ a, R a a) (hS : ∀ a, S a a)
    (ahead : List Token) (c : Cursor) :
    List.Forall₂ (Alike R S) (allWithin ahead c) (allWithin ahead c) := by
  induction ahead generalizing c with
  | nil => exact .nil
  | cons mark ahead ih =>
    have hnext : Alike R S (next c).1 (next c).1 := by
      unfold next
      split
      · split
        · exact .statement (.refl hR _)
        · exact .truncated (.refl hR _) rfl (hS _)
      · exact .rejected rfl (hS _)
    unfold allWithin
    split
    · exact .cons (.separator (hR _)) (ih _)
    · split
      · exact .nil
      · exact .cons hnext (ih _)

/-- Parts that are alike, where one of the tokens that are kept is another one. -/
structure TurnedBehind (a b : Token) (before : List Token) (parts parts' : List Part) : Prop where
  alike : List.Forall₂ (Alike Token.Turned Eq) parts parts'
  tokens : ∃ behind, tokensAll (parts.filterMap phrase?) = before ++ a :: behind ∧
    tokensAll (parts'.filterMap phrase?) = before ++ b :: behind

lemma tokensAll_phrases (part : Part) (parts : List Part) :
    tokensAll ((part :: parts).filterMap phrase?) =
      tokensAll part.phrase?.toList ++ tokensAll (parts.filterMap phrase?) := by
  cases hphrase : part.phrase? <;> simp [hphrase]

lemma TurnedBehind.cons {parts parts' : List Part} (h : TurnedBehind a b before parts parts')
    {part part' : Part} (hpart : Alike Eq Eq part part') :
    TurnedBehind a b (tokensAll part.phrase?.toList ++ before) (part :: parts)
      (part' :: parts') := by
  obtain ⟨halike, behind, htokens, htokens'⟩ := h
  have hsame : tokensAll part'.phrase?.toList = tokensAll part.phrase?.toList :=
    (List.forall₂_eq_eq_eq ▸ hpart.tokens : _ = _).symm
  refine ⟨.cons (hpart.mono (fun a _ h => h ▸ .refl a) fun _ _ h => h) halike, behind, ?_, ?_⟩
  · rw [tokensAll_phrases, htokens, List.append_assoc]
  · rw [tokensAll_phrases, htokens', hsame, List.append_assoc]

lemma TurnedBehind.head {parts : List Part} {part part' : Part}
    (hparts : List.Forall₂ (Alike Token.Turned Eq) parts parts)
    (hpart : Alike Token.Turned Eq part part')
    (htokens : ∃ behind, tokensAll part.phrase?.toList = before ++ a :: behind ∧
      tokensAll part'.phrase?.toList = before ++ b :: behind) :
    TurnedBehind a b before (part :: parts) (part' :: parts) := by
  obtain ⟨behind, htokens, htokens'⟩ := htokens
  refine ⟨.cons hpart hparts, behind ++ tokensAll (parts.filterMap phrase?), ?_, ?_⟩
  · rw [tokensAll_phrases, htokens]
    simp
  · rw [tokensAll_phrases, htokens']
    simp

section Step

variable {part part' : Part} {parts parts' : List Part} {start : Nat} {tail : List Token}

/-- A part of the same tokens before the others. -/
lemma TurnedBehind.step (kept left : List Token) (hpart : Alike Eq Eq part part')
    (hkept : tokensAll part.phrase?.toList = kept)
    (hbehind : part.behind start = start + (kept ++ left).length)
    (hdropped : part.dropped start = List.range' (start + kept.length) left.length)
    (hlower : ∀ place ∈ droppedFrom (part.behind start) parts, part.behind start ≤ place)
    (hplace : start + (kept ++ left ++ tail).length ∉ droppedFrom start (part :: parts))
    (h : part.behind start + tail.length ∉ droppedFrom (part.behind start) parts →
      TurnedBehind a b
        (Token.without (droppedFrom (part.behind start) parts) (part.behind start) tail) parts
        parts') :
    TurnedBehind a b
      (Token.without (droppedFrom start (part :: parts)) start (kept ++ left ++ tail))
      (part :: parts) (part' :: parts') := by
  rw [without_part hbehind hdropped hlower, ← hkept]
  apply TurnedBehind.cons (h _) hpart
  intro hmem
  apply hplace
  rw [mem_droppedFrom_step hdropped]
  right
  rwa [List.length_append, ← Nat.add_assoc, ← hbehind]

/-- A part that holds the token, before others that stay as they are. -/
lemma TurnedBehind.inside (hab : a.Turned b)
    (hinside : ∀ token ∈ before ++ a :: after, token.kind.endsStatement = false)
    (hc : c.Passes (before ++ a :: after) (next c).2)
    (hc' : c'.Passes (before ++ b :: after) (next c).2)
    (hends : (next c).2.kind.endsStatement = true)
    (hcovers : Covers (before ++ a :: after) (next c).2.current (next c).1)
    (hparts : List.Forall₂ (Alike Token.Turned Eq) parts parts)
    (hlower : ∀ place ∈ droppedFrom ((next c).1.behind c.position) parts,
      (next c).1.behind c.position ≤ place)
    (hplace : c.position + before.length ∉ droppedFrom c.position ((next c).1 :: parts)) :
    (next c').2 = (next c).2 ∧
      TurnedBehind a b
        (Token.without (droppedFrom c.position ((next c).1 :: parts)) c.position before)
        ((next c).1 :: parts) ((next c').1 :: parts) := by
  obtain ⟨hbehind, kept, left, hsegment, htaken, hdropped⟩ := next_dropped c hc hcovers
  have hwhole := hbehind.trans hc.position
  rw [hsegment] at hwhole
  -- the token is not left out, so it is one of those that the part keeps
  have hlt : before.length < kept.length := by
    by_contra hge
    apply hplace
    have hlength := congrArg List.length hsegment
    rw [mem_droppedFrom_step hdropped]
    simp only [List.length_append, List.length_cons] at hlength
    omega
  obtain ⟨hnext, hpart, htokens⟩ := next_turned hab hinside hc hc' hends hcovers (htaken ▸ hlt)
  refine ⟨hnext, ?_⟩
  rw [Token.without_of_not_mem before fun i _ hi =>
    not_mem_droppedFrom hwhole hdropped hlower (by omega)]
  exact .head hparts hpart htokens

end Step

/-- With another side at a place whose token is kept, all parts are read alike, and the token stands
at the same place among those that are kept. -/
theorem allWithin_turned (hab : a.Turned b) (hside : a.kind.isSide = true)
    {ahead ahead' : List Token} (hahead : ahead.length = ahead'.length)
    (htokens : ∀ token ∈ before ++ a :: after, token.kind ≠ .eof)
    (hc : c.Passes (before ++ a :: after) e) (hc' : c'.Passes (before ++ b :: after) e)
    (he : e.kind = .eof) (henough : (before ++ a :: after).length < ahead.length)
    (hkept : c.position + before.length ∉ droppedFrom c.position (allWithin ahead c)) :
    TurnedBehind a b
      (Token.without (droppedFrom c.position (allWithin ahead c)) c.position before)
      (allWithin ahead c) (allWithin ahead' c') := by
  have hends : a.kind.endsStatement = false := by
    revert hside
    cases a.kind <;> simp [TokenKind.isSide, TokenKind.endsStatement]
  induction ahead generalizing ahead' before c c' with
  | nil => simp at henough
  | cons mark ahead ih =>
    obtain ⟨mark', ahead', rfl⟩ := List.exists_cons_of_length_pos (by rw [← hahead]; simp)
    have hahead : ahead.length = ahead'.length := by simpa using hahead
    rcases allWithin_step mark ahead he htokens hc.rest with ⟨hnil, _⟩ |
      ⟨token, rest, hsplit, hsemicolon, hadvance, hparts⟩ |
      ⟨segment, tail, hne, hsplit, hinside, hpass, htail, hstops, hcovers, hparts⟩
    · simp at hnil
    · cases before with
      | nil =>
        obtain ⟨rfl, _⟩ := List.cons.inj hsplit
        rw [hsemicolon] at hends
        cases hends
      | cons first before =>
        obtain ⟨rfl, rfl⟩ := List.cons.inj hsplit
        have hposition : c.advance.position = c.position + 1 :=
          (Cursor.passes_advance hc.following_ne_nil).position
        have htokens' : ∀ token ∈ before ++ a :: after, token.kind ≠ .eof :=
          fun token htoken => htokens token (by simp_all)
        have henough' : (before ++ a :: after).length < ahead.length := by simpa using henough
        obtain ⟨_, hbounds⟩ := without_droppedFrom ahead he htokens' hadvance henough'
        have hrest := ih hahead htokens' hc.advance hc'.advance henough'
        rw [hposition] at hbounds hrest
        rw [hparts] at hkept ⊢
        rw [allWithin_of_semicolon (hc'.kind.trans hsemicolon), hc'.current]
        exact TurnedBehind.step [first] [] (.separator rfl) rfl rfl rfl
          (fun place hplace => (hbounds place hplace).1) hkept hrest
    · obtain ⟨d, hd, hde⟩ := Cursor.passes_append_iff.mp (hsplit ▸ hc)
      obtain rfl := hd.unique hpass
      obtain ⟨hbehind, kept, left, hsegment, htaken, hdropped⟩ := next_dropped c hpass hcovers
      have hpos := List.length_pos_iff.mpr hne
      have htail' : ∀ token ∈ tail, token.kind ≠ .eof :=
        fun token htoken => htokens token (hsplit ▸ by simp [htoken])
      have henough' : tail.length < ahead.length := by
        rw [hsplit, List.length_append, List.length_cons] at henough
        omega
      obtain ⟨_, hbounds⟩ := without_droppedFrom ahead he htail' htail henough'
      rw [← hbehind] at hbounds
      have hlower := fun place hplace => (hbounds place hplace).1
      have hinside' : c'.kind.endsStatement = false := by
        rw [endsStatement_turned hab hc hc', hpass.endsStatement_eq_false hne hinside]
      rw [hparts] at hkept ⊢
      rw [allWithin_of_inside hinside']
      rcases append_cons_eq_append hsplit with ⟨inner, rfl, rfl⟩ | ⟨before, rfl, rfl⟩
      · -- the token is one of those of this part
        rw [← List.cons_append, ← List.append_assoc] at hc'
        obtain ⟨d', hd', hde'⟩ := Cursor.passes_append_iff.mp hc'
        obtain rfl := hde'.eq_of_eq_end hde
        obtain ⟨hnext, hturned⟩ := TurnedBehind.inside hab hinside hpass hd' hstops hcovers
          (allWithin_refl .refl (fun _ => rfl) _ _) hlower hkept
        rw [hnext, ← allWithin_congr hahead]
        exact hturned
      · -- the token is behind this part, which is read just as it was
        rw [List.append_assoc] at hc'
        obtain ⟨d', hd', hde'⟩ := Cursor.passes_append_iff.mp hc'
        obtain ⟨hpart, hnext⟩ := next_before hends hinside hpass hd' hde hde' hstops
        have hrest := ih hahead htail' hde hde' henough'
        rw [← hbehind] at hrest
        rw [hnext]
        subst hsegment
        exact TurnedBehind.step kept left hpart htaken (hbehind.trans hpass.position) hdropped hlower
          hkept hrest

end Part

namespace Token

variable {a b : Token}

/-- The places of the tokens that are left out when they are read. -/
def droppedPlaces (tokens : List Token) : List Nat :=
  Part.droppedFrom 0 (Part.all (.ofTokens tokens))

lemma Turned.ne_eof (hab : a.Turned b) (hside : a.kind.isSide = true) : b.kind ≠ .eof := by
  intro hb
  rw [← likeness_turned.kind_iff hab .eof rfl] at hb
  rw [hb] at hside
  cases hside

/-- Behind a side of a join, tokens are closed the same way whatever the side is. -/
lemma closed_turned (before after : List Token) (hab : a.Turned b) (hside : a.kind.isSide = true) :
    ∃ rest, closed (before ++ a :: after) = before ++ a :: rest ∧
      closed (before ++ b :: after) = before ++ b :: rest := by
  have ha : a.kind ≠ .eof := (Turned.refl a).ne_eof hside
  cases hlast : after.getLast? with
  | none =>
    rw [List.getLast?_eq_none_iff.mp hlast]
    refine ⟨[.eof a.span.stop], ?_, ?_⟩
    · simp [closed, ha]
    · simp [closed, hab.ne_eof hside, hab.span_eq]
  | some last =>
    refine ⟨if last.kind = .eof then after else after ++ [.eof last.span.stop], ?_, ?_⟩ <;>
      by_cases hkind : last.kind = .eof <;>
      simp [closed, hlast, hkind, List.getLast?_cons]

end Token

/-- With another side at a place whose token is kept, all parts are read alike, and the token stands
at the same place among those that are kept. -/
theorem Part.all_turned {a b : Token} {before : List Token} (after : List Token) (hab : a.Turned b)
    (hside : a.kind.isSide = true) (hbefore : ∀ token ∈ before, token.kind ≠ .eof)
    (hkept : before.length ∉ Token.droppedPlaces (before ++ a :: after)) :
    Part.TurnedBehind a b
      (Token.without (Token.droppedPlaces (before ++ a :: after)) 0 before)
      (Part.all (.ofTokens (before ++ a :: after)))
      (Part.all (.ofTokens (before ++ b :: after))) := by
  have hend : Token.beforeEnd (before ++ a :: after) = before ++ a :: Token.beforeEnd after := by
    have ha : a.kind ≠ .eof := (Token.Turned.refl a).ne_eof hside
    rw [Token.beforeEnd, List.takeWhile_append_of_pos (by simpa using hbefore),
      List.takeWhile_cons_of_pos (by simpa using ha), Token.beforeEnd]
  obtain ⟨later, hclosed, hstop⟩ := Token.closed_eq (before ++ a :: after)
  obtain ⟨rest, hrest, hrest'⟩ := Token.closed_turned before after hab hside
  have htokens := Token.kind_ne_eof_of_mem_beforeEnd (before ++ a :: after)
  rw [hend] at hclosed htokens
  obtain rfl : rest = Token.beforeEnd after ++ Token.endOf (before ++ a :: after) :: later := by
    simpa using hrest.symm.trans hclosed
  rw [← Cursor.rest_ofTokens] at hrest hrest'
  have hc : (Cursor.ofTokens (before ++ a :: after)).Passes (before ++ a :: Token.beforeEnd after)
      ⟨(before ++ a :: Token.beforeEnd after).length, Token.endOf (before ++ a :: after), later⟩ :=
    ⟨by rw [hrest]; simp [Cursor.rest], by rw [Cursor.position_ofTokens, Nat.zero_add]⟩
  have hc' : (Cursor.ofTokens (before ++ b :: after)).Passes (before ++ b :: Token.beforeEnd after)
      ⟨(before ++ a :: Token.beforeEnd after).length, Token.endOf (before ++ a :: after), later⟩ :=
    ⟨by rw [hrest']; simp [Cursor.rest], by simp [Cursor.position_ofTokens]⟩
  have hlength : (Cursor.ofTokens (before ++ a :: after)).rest.length =
      (Cursor.ofTokens (before ++ b :: after)).rest.length := by
    rw [hrest, hrest']
    simp
  have hwhole := Part.allWithin_turned hab hside hlength htokens hc hc' hstop hc.length_lt
  rw [Cursor.position_ofTokens, Nat.zero_add] at hwhole
  exact hwhole hkept

end NullGuard
