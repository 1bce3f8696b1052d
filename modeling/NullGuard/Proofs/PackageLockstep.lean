import NullGuard.Proofs.ReaderLockstep
import NullGuard.Proofs.Replay

namespace NullGuard

/-- A relation between tokens that the grammar cannot tell apart. -/
structure Token.Likeness (R : Token → Token → Prop) : Prop where
  face_eq : ∀ {a b}, R a b → a.kind.face = b.kind.face
  spells_eq : ∀ {a b}, R a b → ∀ word, a.spells word = b.spells word

namespace Token.Likeness

variable {R : Token → Token → Prop} {a b : Token}

lemma endsStatement_eq (h : Likeness R) (hab : R a b) :
    a.kind.endsStatement = b.kind.endsStatement := by
  rw [← TokenKind.endsStatement_face, h.face_eq hab, TokenKind.endsStatement_face]

lemma kind_iff (h : Likeness R) (hab : R a b) (kind : TokenKind) (hkind : kind.isSide = false) :
    a.kind = kind ↔ b.kind = kind := by
  rw [← TokenKind.face_eq_iff hkind, h.face_eq hab, TokenKind.face_eq_iff hkind]

end Token.Likeness

/-- The pairing of statements that end at two places, by a relation that the grammar cannot tell. -/
def Pairing.of {R : Token → Token → Prop} (h : Token.Likeness R) {left right : Cursor}
    (hleft : left.kind.endsStatement = true) (hright : right.kind.endsStatement = true) :
    Pairing where
  alike a b := R a b ∧ a.kind.endsStatement = false
  left := left
  right := right
  face_eq halike := h.face_eq halike.1
  spells_eq halike := h.spells_eq halike.1
  inside halike := halike.2
  left_ends := hleft
  right_ends := hright

namespace Phrase

variable {R S : Token → Token → Prop}

mutual

lemma Alike.mono (h : ∀ a b, R a b → S a b) {p q : Phrase} (hpq : p.Alike R q) : p.Alike S q := by
  cases hpq with
  | leaf htoken => exact .leaf (h _ _ htoken)
  | @node kind ps qs hparts => exact .node (Alike.mono_all h hparts)

lemma Alike.mono_all (h : ∀ a b, R a b → S a b) {ps qs : List Phrase}
    (hpq : List.Forall₂ (Alike R) ps qs) : List.Forall₂ (Alike S) ps qs := by
  cases hpq with
  | nil => exact .nil
  | cons hfirst hrest => exact .cons (Alike.mono h hfirst) (Alike.mono_all h hrest)

end

mutual

lemma Alike.refl (h : ∀ a, R a a) (p : Phrase) : p.Alike R p := by
  cases p with
  | leaf token => exact .leaf (h token)
  | node kind parts => exact .node (Alike.refl_all h parts)

lemma Alike.refl_all (h : ∀ a, R a a) (ps : List Phrase) : List.Forall₂ (Alike R) ps ps := by
  cases ps with
  | nil => exact .nil
  | cons p ps => exact .cons (Alike.refl h p) (Alike.refl_all h ps)

end

mutual

lemma Alike.tokens {p q : Phrase} (h : p.Alike R q) : List.Forall₂ R p.tokens q.tokens := by
  cases h with
  | leaf htoken => exact .cons htoken .nil
  | node hparts => exact Alike.tokensAll hparts

lemma Alike.tokensAll {ps qs : List Phrase} (h : List.Forall₂ (Alike R) ps qs) :
    List.Forall₂ R (tokensAll ps) (tokensAll qs) := by
  cases h with
  | nil => exact .nil
  | cons hfirst hrest =>
    rw [tokensAll_cons, tokensAll_cons]
    exact List.rel_append (Alike.tokens hfirst) (Alike.tokensAll hrest)

end

end Phrase

lemma Failure.diagnostic_eq {failure failure' : Failure}
    (hexpected : failure.expected = failure'.expected)
    (hkind : failure.place.current.kind = failure'.place.current.kind)
    (hspan : failure.place.current.span = failure'.place.current.span) :
    failure.diagnostic = failure'.diagnostic := by
  unfold diagnostic message Cursor.errorHere Cursor.kind
  rw [hexpected, hkind, hspan]

/-- Going over tokens inside of a statement up to its end is what skipping does. -/
lemma Cursor.skipStatement_eq {c e : Cursor} {tokens : List Token} (hpass : c.Passes tokens e)
    (hinside : ∀ token ∈ tokens, token.kind.endsStatement = false)
    (he : e.kind.endsStatement = true) : c.skipStatement = e := by
  induction tokens generalizing c with
  | nil =>
    rw [passes_nil_iff.mp hpass]
    unfold skipStatement
    cases hfollowing : e.following with
    | nil => rw [skipFrom, ← hfollowing]
    | cons next later =>
      unfold kind at he
      rw [skipFrom, if_pos he, ← hfollowing]
  | cons token tokens ih =>
    have hnext := ih hpass.advance fun other hother => hinside other (by simp [hother])
    have hcurrent := hinside token (by simp)
    rw [← hpass.current] at hcurrent
    obtain ⟨next, later, hfollowing⟩ := List.exists_cons_of_ne_nil hpass.following_ne_nil
    rw [← hnext, skipStatement, skipStatement, advance, hfollowing, skipFrom, hcurrent]
    rfl

lemma Pairing.Beside.skipStatement_eq {P : Pairing} {n : Nat} {c d : Cursor} (h : P.Beside n c d) :
    c.skipStatement = P.left ∧ d.skipStatement = P.right := by
  obtain ⟨u, v, halike, _, hc, hd⟩ := h
  constructor
  · refine Cursor.skipStatement_eq hc (fun token htoken => ?_) P.left_ends
    obtain ⟨other, _, hother⟩ := exists_right_of_forall₂ halike token htoken
    exact P.inside hother
  · refine Cursor.skipStatement_eq hd (fun token htoken => ?_) P.right_ends
    obtain ⟨other, _, hother⟩ := exists_left_of_forall₂ halike token htoken
    rw [← Pairing.test_eq hother _ TokenKind.endsStatement_face]
    exact P.inside hother

namespace Part

variable {R S : Token → Token → Prop}

/-- Parts that are alike: phrases of the same constructs, and failures of the same kind at tokens that
go together. -/
inductive Alike (R S : Token → Token → Prop) : Part → Part → Prop where
  | separator {a b : Token} (h : R a b) : Alike R S (.separator (.leaf a)) (.separator (.leaf b))
  | statement {p q : Phrase} (h : p.Alike R q) : Alike R S (.statement p) (.statement q)
  | truncated {p q : Phrase} {failure failure' : Failure} {skipped skipped' : Nat} (h : p.Alike R q)
      (hexpected : failure.expected = failure'.expected)
      (hplace : S failure.place.current failure'.place.current) :
      Alike R S (.truncated p failure skipped) (.truncated q failure' skipped')
  | rejected {failure failure' : Failure} {skipped skipped' : Nat}
      (hexpected : failure.expected = failure'.expected)
      (hplace : S failure.place.current failure'.place.current) :
      Alike R S (.rejected failure skipped) (.rejected failure' skipped')

/-- A statement and its end are read alike where alike tokens lead to the end. -/
lemma next_alike (hR : Token.Likeness R) (hRS : ∀ a b, R a b → S a b) {c d e e' : Cursor}
    {u v : List Token} (huv : List.Forall₂ (fun a b => R a b ∧ a.kind.endsStatement = false) u v)
    (hc : c.Passes u e) (hd : d.Passes v e') (he : e.kind.endsStatement = true)
    (he' : e'.kind.endsStatement = true) (hstop : S e.current e'.current) :
    Alike R S (next c).1 (next d).1 ∧ (next c).2 = e ∧ (next d).2 = e' := by
  have hbeside : (Pairing.of hR he he').Beside u.length c d := ⟨u, v, huv, rfl, hc, hd⟩
  have hcurrent {n : Nat} {c d : Cursor} (h : (Pairing.of hR he he').Beside n c d) :
      S c.current d.current := by
    cases n with
    | zero =>
      rw [h.eq_ends.1, h.eq_ends.2]
      exact hstop
    | succ n => exact hRS _ _ h.step.1.1
  have hlike {p q : Phrase} (h : (Pairing.of hR he he').Like p q) : p.Alike R q :=
    h.mono fun _ _ halike => halike.1
  have hagree := Pairing.statement_agree hbeside
  unfold next
  generalize Parse.statement c = result at hagree
  generalize Parse.statement d = result' at hagree
  cases hagree with
  | @ok p q c' d' n hvalue hplaces _ =>
    cases n with
    | zero =>
      obtain ⟨rfl, rfl⟩ := hplaces.eq_ends
      have hends := hplaces.ends
      simp only [hends.1, hends.2, if_true]
      exact ⟨.statement (hlike hvalue), trivial, trivial⟩
    | succ n =>
      have hinside : c'.kind.endsStatement = false := hplaces.step.1.2
      have hinside' : d'.kind.endsStatement = false := by
        rw [← hplaces.test_eq _ TokenKind.endsStatement_face]
        exact hinside
      simp only [hinside, hinside', Bool.false_eq_true, if_false]
      exact ⟨.truncated (hlike hvalue) rfl (hcurrent hplaces), hplaces.skipStatement_eq⟩
  | error hplaces => exact ⟨.rejected rfl (hcurrent hplaces), hplaces.skipStatement_eq⟩

/-- Alike tokens up to the first end of a statement among them. -/
lemma exists_segment (hR : Token.Likeness R) {u v : List Token} (h : List.Forall₂ R u v) :
    ∃ s s' t t', u = s ++ t ∧ v = s' ++ t' ∧
      List.Forall₂ (fun a b => R a b ∧ a.kind.endsStatement = false) s s' ∧ List.Forall₂ R t t' ∧
      (∀ token ∈ t.head?, token.kind.endsStatement = true) ∧
      ∀ token ∈ t'.head?, token.kind.endsStatement = true := by
  induction h with
  | nil => exact ⟨[], [], [], [], rfl, rfl, .nil, .nil, by simp, by simp⟩
  | @cons a b u v hab huv ih =>
    cases hends : a.kind.endsStatement with
    | true =>
      refine ⟨[], [], a :: u, b :: v, rfl, rfl, .nil, .cons hab huv, by simp [hends], ?_⟩
      simp [← hR.endsStatement_eq hab, hends]
    | false =>
      obtain ⟨s, s', t, t', rfl, rfl, hs, ht, hhead⟩ := ih
      exact ⟨a :: s, b :: s', t, t', rfl, rfl, .cons ⟨hab, hends⟩ hs, ht, hhead⟩

lemma ends_of_head {c e : Cursor} {t : List Token} (hpass : c.Passes t e)
    (hhead : ∀ token ∈ t.head?, token.kind.endsStatement = true)
    (he : e.kind.endsStatement = true) : c.kind.endsStatement = true := by
  cases t with
  | nil => rwa [Cursor.passes_nil_iff.mp hpass]
  | cons token t =>
    rw [hpass.kind]
    exact hhead token (by simp)

lemma current_of_passes (hRS : ∀ a b, R a b → S a b) {c d e e' : Cursor} {t t' : List Token}
    (ht : List.Forall₂ R t t') (hc : c.Passes t e) (hd : d.Passes t' e')
    (hstop : S e.current e'.current) : S c.current d.current := by
  cases ht with
  | nil =>
    rw [Cursor.passes_nil_iff.mp hc, Cursor.passes_nil_iff.mp hd]
    exact hstop
  | cons hab _ =>
    rw [hc.current, hd.current]
    exact hRS _ _ hab

lemma allWithin_of_semicolon {c : Cursor} (h : c.kind = .semicolon) (mark : Token)
    (ahead : List Token) :
    allWithin (mark :: ahead) c = .separator (.leaf c.current) :: allWithin ahead c.advance := by
  rw [allWithin, if_pos (Cursor.isAt_iff.mpr h)]

lemma allWithin_of_inside {c : Cursor} (h : c.kind.endsStatement = false) (mark : Token)
    (ahead : List Token) :
    allWithin (mark :: ahead) c = (next c).1 :: allWithin ahead (next c).2 := by
  obtain ⟨hsemicolon, heof⟩ := TokenKind.endsStatement_eq_false.mp h
  rw [allWithin, if_neg (mt Cursor.isAt_iff.mp hsemicolon), Cursor.isAtEnd,
    if_neg (mt Cursor.isAt_iff.mp heof)]

/-- From two places up to two others, with `m` and `m'` tokens between them, the parts are alike. -/
def InStep (R S : Token → Token → Prop) (m m' : Nat) (c d e e' : Cursor) : Prop :=
  ∀ ahead ahead' : List Token, m ≤ ahead.length → m' ≤ ahead'.length →
    ∃ parts parts' rest rest',
      allWithin ahead c = parts ++ allWithin rest e ∧
      allWithin ahead' d = parts' ++ allWithin rest' e' ∧ List.Forall₂ (Alike R S) parts parts' ∧
      ahead.length ≤ rest.length + m ∧ ahead'.length ≤ rest'.length + m'

lemma InStep.refl (c d : Cursor) : InStep R S 0 0 c d c d := by
  intro ahead ahead' _ _
  exact ⟨[], [], ahead, ahead', rfl, rfl, .nil, by simp, by simp⟩

lemma InStep.cons {part part' : Part} {m m' n n' : Nat} {c d f f' e e' : Cursor}
    (h : InStep R S n n' f f' e e') (hpart : Alike R S part part')
    (hc : ∀ mark ahead, allWithin (mark :: ahead) c = part :: allWithin ahead f)
    (hd : ∀ mark ahead, allWithin (mark :: ahead) d = part' :: allWithin ahead f')
    (hm : n < m) (hm' : n' < m') : InStep R S m m' c d e e' := by
  intro ahead ahead' hahead hahead'
  obtain ⟨mark, ahead, rfl⟩ := List.exists_cons_of_length_pos (by omega : 0 < ahead.length)
  obtain ⟨mark', ahead', rfl⟩ := List.exists_cons_of_length_pos (by omega : 0 < ahead'.length)
  rw [List.length_cons] at hahead hahead' ⊢
  obtain ⟨parts, parts', rest, rest', hparts, hparts', halike, hrest, hrest'⟩ :=
    h ahead ahead' (by omega) (by omega)
  refine ⟨part :: parts, part' :: parts', rest, rest', ?_, ?_, .cons hpart halike, by omega, ?_⟩
  · rw [hc, hparts, List.cons_append]
  · rw [hd, hparts', List.cons_append]
  · rw [List.length_cons]
    omega

/-- Alike tokens up to an end on each side fall into alike parts, whatever comes behind. -/
theorem inStep_of_passes (hR : Token.Likeness R) (hRS : ∀ a b, R a b → S a b) {c d e e' : Cursor}
    {u v : List Token} (huv : List.Forall₂ R u v) (heof : ∀ token ∈ u, token.kind ≠ .eof)
    (hc : c.Passes u e) (hd : d.Passes v e') (he : e.kind.endsStatement = true)
    (he' : e'.kind.endsStatement = true) (hstop : S e.current e'.current) :
    InStep R S u.length v.length c d e e' := by
  induction hlength : u.length using Nat.strongRecOn generalizing u v c d with
  | ind n ih =>
    subst hlength
    cases huv with
    | nil =>
      rw [Cursor.passes_nil_iff.mp hc, Cursor.passes_nil_iff.mp hd]
      exact .refl e e'
    | @cons a b u v hab huv =>
      have hkind : c.kind = a.kind := hc.kind
      have hkind' : d.kind = b.kind := hd.kind
      by_cases hsemicolon : a.kind = .semicolon
      · have hrest := ih u.length (by simp) huv (fun token htoken => heof token (by simp [htoken]))
          hc.advance hd.advance rfl
        have hcurrent : R c.current d.current := by
          rw [hc.current, hd.current]
          exact hab
        exact hrest.cons (.separator hcurrent) (allWithin_of_semicolon (hkind.trans hsemicolon))
          (allWithin_of_semicolon (hkind'.trans ((hR.kind_iff hab _ rfl).mp hsemicolon))) (by simp)
          (by simp)
      · -- a statement begins here, and the tokens behind it are a shorter stretch
        have hinside : a.kind.endsStatement = false :=
          TokenKind.endsStatement_eq_false.mpr ⟨hsemicolon, heof a (by simp)⟩
        obtain ⟨s, s', t, t', hu, hv, hs, ht, hhead, hhead'⟩ := exists_segment hR (.cons hab huv)
        have hpos : 0 < s.length := by
          rw [List.length_pos_iff]
          rintro rfl
          rw [hhead a (by rw [← List.nil_append t, ← hu]; rfl)] at hinside
          cases hinside
        have hpos' : 0 < s'.length := hs.length_eq ▸ hpos
        rw [hu] at hc heof ih ⊢
        rw [hv] at hd ⊢
        obtain ⟨f, hcf, hfe⟩ := Cursor.passes_append_iff.mp hc
        obtain ⟨f', hdf, hfe'⟩ := Cursor.passes_append_iff.mp hd
        obtain ⟨hpart, hnext, hnext'⟩ := next_alike hR hRS hs hcf hdf (ends_of_head hfe hhead he)
          (ends_of_head hfe' hhead' he') (current_of_passes hRS ht hfe hfe' hstop)
        have hrest := ih t.length (by simp; omega) ht
          (fun token htoken => heof token (by simp [htoken])) hfe hfe' rfl
        rw [← hnext, ← hnext'] at hrest
        exact hrest.cons hpart (allWithin_of_inside (hkind ▸ hinside))
          (allWithin_of_inside (hkind' ▸ hR.endsStatement_eq hab ▸ hinside)) (by simp; omega)
          (by simp; omega)

/-- Tokens that are alike up to the first end tokens fall into alike parts, whatever comes
behind. -/
lemma all_alike_of_closed (hR : Token.Likeness R) {tokens tokens' u v later later' : List Token}
    {stop stop' : Token} (hclosed : Token.closed tokens = u ++ stop :: later)
    (hclosed' : Token.closed tokens' = v ++ stop' :: later') (huv : List.Forall₂ R u v)
    (hstops : R stop stop') (heof : ∀ token ∈ u, token.kind ≠ .eof) (hstop : stop.kind = .eof) :
    List.Forall₂ (Alike R R) (all (.ofTokens tokens)) (all (.ofTokens tokens')) := by
  rw [← Cursor.rest_ofTokens] at hclosed hclosed'
  unfold all
  generalize Cursor.ofTokens tokens = c at hclosed
  generalize Cursor.ofTokens tokens' = d at hclosed'
  obtain ⟨e, hc, he⟩ : ∃ e, c.Passes u e ∧ e.current = stop :=
    ⟨⟨_, stop, later⟩, ⟨hclosed, rfl⟩, rfl⟩
  obtain ⟨e', hd, he'⟩ : ∃ e', d.Passes v e' ∧ e'.current = stop' :=
    ⟨⟨_, stop', later'⟩, ⟨hclosed', rfl⟩, rfl⟩
  have hend : e.kind = .eof := by rw [Cursor.kind, he, hstop]
  have hend' : e'.kind = .eof := by
    rw [Cursor.kind, he']
    exact (hR.kind_iff hstops .eof rfl).mp hstop
  obtain ⟨parts, parts', rest, rest', hparts, hparts', halike, _⟩ := inStep_of_passes hR
    (fun _ _ hab => hab) huv heof hc hd (by rw [hend]; rfl) (by rw [hend']; rfl)
    (he ▸ he' ▸ hstops) c.rest d.rest (Nat.le_of_lt hc.length_lt) (Nat.le_of_lt hd.length_lt)
  rw [hparts, hparts', allWithin_of_eof rest hend, allWithin_of_eof rest' hend', List.append_nil,
    List.append_nil]
  exact halike

/-- Tokens that are alike from the first to the last fall into alike parts. -/
theorem all_alike (hR : Token.Likeness R) {tokens tokens' : List Token}
    (h : List.Forall₂ R (Token.closed tokens) (Token.closed tokens')) :
    List.Forall₂ (Alike R R) (all (.ofTokens tokens)) (all (.ofTokens tokens')) := by
  obtain ⟨later, hclosed, hstop⟩ := Token.closed_eq tokens
  rw [hclosed] at h
  obtain ⟨v, w, huv, hw, hclosed'⟩ := forall₂_append_left.mp h
  obtain ⟨stop', later', hstops, _, rfl⟩ := List.forall₂_cons_left_iff.mp hw
  exact all_alike_of_closed hR hclosed hclosed' huv hstops
    (Token.kind_ne_eof_of_mem_beforeEnd tokens) hstop

section Contents

variable {parts parts' : List Part}

lemma phrases_alike (h : List.Forall₂ (Alike R S) parts parts') :
    List.Forall₂ (Phrase.Alike R) (parts.filterMap phrase?) (parts'.filterMap phrase?) := by
  refine List.rel_filterMap (fun part part' halike => ?_) h
  cases halike with
  | separator h => exact .some (.leaf h)
  | statement h => exact .some h
  | truncated h _ _ => exact .some h
  | rejected _ _ => exact .none

lemma failures_alike (h : List.Forall₂ (Alike R S) parts parts') :
    List.Forall₂ (fun failure failure' : Failure => failure.expected = failure'.expected ∧
        S failure.place.current failure'.place.current)
      (parts.filterMap failure?) (parts'.filterMap failure?) := by
  refine List.rel_filterMap (fun part part' halike => ?_) h
  cases halike with
  | separator _ => exact .none
  | statement _ => exact .none
  | truncated _ hexpected hplace => exact .some ⟨hexpected, hplace⟩
  | rejected hexpected hplace => exact .some ⟨hexpected, hplace⟩

lemma any_isStatement_eq (h : List.Forall₂ (Alike R S) parts parts') :
    parts.any isStatement = parts'.any isStatement := by
  induction h with
  | nil => rfl
  | cons halike _ ih =>
    rw [List.any_cons, List.any_cons, ih]
    cases halike <;> rfl

end Contents

end Part

/-- Where the same is missing at the same tokens, the same is told. -/
lemma Parsed.diagnostics_alike {R : Token → Token → Prop} {parts parts' : List Part}
    (h : List.Forall₂ (Part.Alike R Eq) parts parts') (scanned : List Diagnostic) :
    (ofParts scanned parts).diagnostics = (ofParts scanned parts').diagnostics := by
  rw [(ofParts_eq scanned parts).1, (ofParts_eq scanned parts').1, List.append_cancel_left_eq]
  apply map_eq_map_iff_forall₂.mpr
  apply (Part.failures_alike h).imp
  rintro failure failure' ⟨hexpected, hplace⟩
  exact Failure.diagnostic_eq hexpected (by rw [hplace]) (by rw [hplace])

end NullGuard
