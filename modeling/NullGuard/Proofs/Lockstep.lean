import Mathlib.Data.List.Forall2
import NullGuard.Proofs.ReadBack

/-!
# Reading in step

Two readers go over tokens that are alike, up to the end of a statement on each side. They make the
same choices, since these are made by kinds and contextual words, and give values that are alike or
fail at places that lie side by side. What comes behind the ends is never looked at, so the two sides
may go on in different ways. No choice is made by which side of a join a word names, so the words for
the sides need not be the same.
-/

namespace NullGuard

namespace TokenKind

def isSide : TokenKind → Bool
  | keyword .inner | keyword .left | keyword .right | keyword .full => true
  | _ => false

/-- What choices are made by: the kind, where the sides of joins are taken for one. -/
def face (kind : TokenKind) : TokenKind := if kind.isSide then keyword .inner else kind

/-- Whether the kind stands inside of statements and is told apart from all others. -/
def isDistinct (kind : TokenKind) : Bool := !kind.endsStatement && !kind.isSide

variable {kind other : TokenKind}

lemma endsStatement_of_isDistinct (h : kind.isDistinct = true) : kind.endsStatement = false := by
  simp only [isDistinct, Bool.and_eq_true, Bool.not_eq_true'] at h
  exact h.1

lemma face_eq_iff (h : kind.isSide = false) : other.face = kind ↔ other = kind := by
  unfold face
  split
  case isTrue hside =>
    refine iff_of_false ?_ ?_ <;> rintro rfl
    · cases h
    · simp [h] at hside
  case isFalse => exact Iff.rfl

lemma endsStatement_face (kind : TokenKind) : kind.face.endsStatement = kind.endsStatement := by
  revert kind
  decide

/-- What is said of kinds that are told apart depends on the face. -/
lemma test_face {test : TokenKind → Bool} (h : ∀ kind, test kind = true → kind.isDistinct = true)
    (kind : TokenKind) : test kind.face = test kind := by
  have hside (side : TokenKind) (hs : side.isSide = true) : test side = false := by
    by_contra htest
    have hdistinct := h side (by simpa using htest)
    simp [isDistinct, hs] at hdistinct
  unfold face
  split
  case isTrue hs => rw [hside _ rfl, hside _ hs]
  case isFalse => rfl

end TokenKind

variable {α α' β β' : Type}

/-- Which tokens of two statements are alike, and where the statements end. -/
structure Pairing where
  alike : Token → Token → Prop
  left : Cursor
  right : Cursor
  face_eq : ∀ {a b}, alike a b → a.kind.face = b.kind.face
  spells_eq : ∀ {a b}, alike a b → ∀ word, a.spells word = b.spells word
  inside : ∀ {a b}, alike a b → a.kind.endsStatement = false
  left_ends : left.kind.endsStatement = true
  right_ends : right.kind.endsStatement = true

/-- Phrases of the same constructs, of tokens that go together. -/
inductive Phrase.Alike (alike : Token → Token → Prop) : Phrase → Phrase → Prop where
  | leaf {a b : Token} (h : alike a b) : Alike alike (.leaf a) (.leaf b)
  | node {kind : NodeKind} {ps qs : List Phrase} (h : List.Forall₂ (Alike alike) ps qs) :
      Alike alike (.node kind ps) (.node kind qs)

namespace Pairing

variable {P : Pairing} {n k : Nat} {c d : Cursor}

/-- Phrases of the same constructs, of tokens that are alike. -/
abbrev Like (P : Pairing) : Phrase → Phrase → Prop := Phrase.Alike P.alike

abbrev LikeAll (P : Pairing) : List Phrase → List Phrase → Prop := List.Forall₂ P.Like

/-- From two places there are `n` pairs of alike tokens up to the ends. -/
def Beside (P : Pairing) (n : Nat) (c d : Cursor) : Prop :=
  ∃ u v, List.Forall₂ P.alike u v ∧ u.length = n ∧ c.Passes u P.left ∧ d.Passes v P.right

namespace Beside

lemma eq_ends (h : P.Beside 0 c d) : c = P.left ∧ d = P.right := by
  obtain ⟨u, v, halike, hlength, hc, hd⟩ := h
  cases halike with
  | nil => exact ⟨Cursor.passes_nil_iff.mp hc, Cursor.passes_nil_iff.mp hd⟩
  | cons => simp at hlength

lemma ends (h : P.Beside 0 c d) : c.kind.endsStatement = true ∧ d.kind.endsStatement = true := by
  rw [h.eq_ends.1, h.eq_ends.2]
  exact ⟨P.left_ends, P.right_ends⟩

/-- Where a token of the statement is left, it is alike on both sides, and so is what follows. -/
lemma step (h : P.Beside (n + 1) c d) : P.alike c.current d.current ∧
    c.following ≠ [] ∧ d.following ≠ [] ∧ P.Beside n c.advance d.advance := by
  obtain ⟨u, v, halike, hlength, hc, hd⟩ := h
  cases halike with
  | nil => simp at hlength
  | cons hfirst hrest =>
    rw [hc.current, hd.current]
    exact ⟨hfirst, hc.following_ne_nil, hd.following_ne_nil, _, _, hrest, Nat.succ.inj hlength,
      hc.advance, hd.advance⟩

lemma le_following (h : P.Beside n c d) : n ≤ c.following.length ∧ n ≤ d.following.length := by
  obtain ⟨u, v, halike, rfl, hc, hd⟩ := h
  refine ⟨hc.length_le_following, ?_⟩
  rw [halike.length_eq]
  exact hd.length_le_following

end Beside

/-- A test of places that is answered alike inside of statements, and denied at their ends. -/
structure Settles (P : Pairing) (wanted : Cursor → Bool) : Prop where
  inside : ∀ n c d, P.Beside (n + 1) c d → wanted c = wanted d
  ends : ∀ c : Cursor, c.kind.endsStatement = true → wanted c = false

/-- Two results are alike: values that are alike, with fewer than `bound` tokens left, or failures of
the same kind at places that lie side by side. -/
inductive Agree (P : Pairing) (bound : Nat) (V : α → β → Prop) :
    Except Failure (α × Cursor) → Except Failure (β × Cursor) → Prop where
  | ok {a : α} {b : β} {c d : Cursor} {n : Nat} (hvalue : V a b) (hbeside : P.Beside n c d)
      (hn : n < bound) : Agree P bound V (.ok (a, c)) (.ok (b, d))
  | error {expected : Expected} {c d : Cursor} {n : Nat} (hbeside : P.Beside n c d) :
      Agree P bound V (.error ⟨expected, c⟩) (.error ⟨expected, d⟩)

/-- Two readers do alike wherever fewer than `k` tokens of the statement are left. -/
def Run (P : Pairing) (k : Nat) (x : Parse α) (y : Parse β) (V : α → β → Prop) : Prop :=
  ∀ n c d, n < k → P.Beside n c d → P.Agree (n + 1) V (x c) (y d)

/-- Two readers do alike wherever fewer than `k` tokens of the statement are left, and take one at
least. -/
def Step (P : Pairing) (k : Nat) (x : Parse α) (y : Parse β) (V : α → β → Prop) : Prop :=
  ∀ n c d, n < k → P.Beside n c d → P.Agree n V (x c) (y d)

section Rules

variable {V : α → β → Prop} {W : α' → β' → Prop} {x : Parse α} {y : Parse β}
  {f : α → Parse α'} {g : β → Parse β'}

lemma Agree.mono {bound bound' : Nat} {r : Except Failure (α × Cursor)}
    {s : Except Failure (β × Cursor)} (h : P.Agree bound V r s) (hle : bound ≤ bound') :
    P.Agree bound' V r s := by
  cases h with
  | ok hvalue hbeside hn => exact .ok hvalue hbeside (Nat.lt_of_lt_of_le hn hle)
  | error hbeside => exact .error hbeside

lemma Agree.ite {bound : Nat} {p q : Prop} [Decidable p] [Decidable q] {x' : Parse α} {y' : Parse β}
    (hpq : p ↔ q) (hx : p → P.Agree bound V (x c) (y d)) (hy : P.Agree bound V (x' c) (y' d)) :
    P.Agree bound V ((if p then x else x') c) ((if q then y else y') d) := by
  by_cases hp : p
  · rw [if_pos hp, if_pos (hpq.mp hp)]
    exact hx hp
  · rw [if_neg hp, if_neg (mt hpq.mpr hp)]
    exact hy

lemma Agree.bind {bound bound' : Nat} (hx : P.Agree bound V (x c) (y d))
    (hf : ∀ a b, V a b → ∀ n c d, n < bound → P.Beside n c d → P.Agree bound' W (f a c) (g b d)) :
    P.Agree bound' W ((x >>= f) c) ((y >>= g) d) := by
  generalize hr : x c = r at hx
  generalize hs : y d = s at hx
  cases hx with
  | ok hvalue hbeside hn =>
    rw [Parse.bind_of_ok hr, Parse.bind_of_ok hs]
    exact hf _ _ hvalue _ _ _ hn hbeside
  | error hbeside =>
    rw [Parse.bind_of_error hr, Parse.bind_of_error hs]
    exact .error hbeside

lemma Step.mono {j : Nat} (h : P.Step k x y V) (hle : j ≤ k) : P.Step j x y V := by
  intro n c d hn
  exact h n c d (Nat.lt_of_lt_of_le hn hle)

lemma Step.run (h : P.Step k x y V) : P.Run k x y V := by
  intro n c d hn hbeside
  exact (h n c d hn hbeside).mono (Nat.le_succ n)

/-- What takes a token does alike also where one token less is left. -/
lemma Step.after (h : P.Step (k + 1) x y V) : P.Run k x y V := (h.mono (Nat.le_succ k)).run

lemma Run.bind (hx : P.Run k x y V) (hf : ∀ a b, V a b → P.Run k (f a) (g b) W) :
    P.Run k (x >>= f) (y >>= g) W := by
  intro n c d hn hbeside
  apply (hx n c d hn hbeside).bind
  intro a b hvalue m c' d' hm hbeside'
  exact (hf a b hvalue m c' d' (by omega) hbeside').mono (by omega)

/-- Behind a token that was taken, one token less is left to be read alike. -/
lemma Step.bind (hx : P.Step (k + 1) x y V) (hf : ∀ a b, V a b → P.Run k (f a) (g b) W) :
    P.Step (k + 1) (x >>= f) (y >>= g) W := by
  intro n c d hn hbeside
  apply (hx n c d hn hbeside).bind
  intro a b hvalue m c' d' hm hbeside'
  exact (hf a b hvalue m c' d' (by omega) hbeside').mono (by omega)

lemma Run.bind_step (hx : P.Run k x y V) (hf : ∀ a b, V a b → P.Step k (f a) (g b) W) :
    P.Step k (x >>= f) (y >>= g) W := by
  intro n c d hn hbeside
  apply (hx n c d hn hbeside).bind
  intro a b hvalue m c' d' hm hbeside'
  exact (hf a b hvalue m c' d' (by omega) hbeside').mono (by omega)

lemma Run.pure {a : α} {b : β} (h : V a b) : P.Run k (Pure.pure a) (Pure.pure b) V := by
  intro n c d _ hbeside
  exact .ok h hbeside (Nat.lt_succ_self n)

/-- What is read by the tokens ahead is alike if it is alike at places that lie side by side. -/
lemma Run.get_bind {f : Cursor → Parse α} {g : Cursor → Parse β}
    (h : ∀ n c d, n < k → P.Beside n c d → P.Agree (n + 1) V (f c c) (g d d)) :
    P.Run k (get >>= f) (get >>= g) V := h

lemma Step.get_bind {f : Cursor → Parse α} {g : Cursor → Parse β}
    (h : ∀ n c d, n < k → P.Beside n c d → P.Agree n V (f c c) (g d d)) :
    P.Step k (get >>= f) (get >>= g) V := h

end Rules

section Tests

variable {wanted : Cursor → Bool}

lemma Settles.eq (h : P.Settles wanted) (hbeside : P.Beside n c d) : wanted c = wanted d := by
  cases n with
  | zero => rw [h.ends c hbeside.ends.1, h.ends d hbeside.ends.2]
  | succ n => exact h.inside n c d hbeside

lemma Settles.iff (h : P.Settles wanted) (hbeside : P.Beside n c d) :
    wanted c = true ↔ wanted d = true := by
  rw [h.eq hbeside]

lemma test_eq {a b : Token} (h : P.alike a b) (test : TokenKind → Bool)
    (htest : ∀ kind, test kind.face = test kind) : test a.kind = test b.kind := by
  rw [← htest, P.face_eq h, htest]

lemma kind_iff {a b : Token} (h : P.alike a b) (kind : TokenKind) (hkind : kind.isSide = false) :
    a.kind = kind ↔ b.kind = kind := by
  rw [← TokenKind.face_eq_iff hkind, P.face_eq h, TokenKind.face_eq_iff hkind]

lemma Beside.test_eq (h : P.Beside (n + 1) c d) (test : TokenKind → Bool)
    (htest : ∀ kind, test kind.face = test kind) : test c.kind = test d.kind :=
  Pairing.test_eq h.step.1 test htest

lemma settles_face {test : TokenKind → Bool}
    (hinside : ∀ kind, test kind = true → kind.endsStatement = false)
    (htest : ∀ kind, test kind.face = test kind) : P.Settles fun c => test c.kind where
  inside n c d hbeside := hbeside.test_eq test htest
  ends c hc := by
    cases hkind : test c.kind with
    | false => rfl
    | true => rw [hinside _ hkind] at hc; cases hc

lemma settles_kind (test : TokenKind → Bool)
    (h : ∀ kind, test kind = true → kind.isDistinct = true) : P.Settles fun c => test c.kind :=
  settles_face (fun kind hkind => TokenKind.endsStatement_of_isDistinct (h kind hkind))
    (TokenKind.test_face h)

lemma settles_isAt {kind : TokenKind} (h : kind.isDistinct = true) :
    P.Settles (·.isAt kind) := by
  apply settles_kind (· = kind)
  intro other hother
  rw [of_decide_eq_true hother, h]

lemma settles_isAtAny {kinds : List TokenKind} (h : ∀ kind ∈ kinds, kind.isDistinct = true) :
    P.Settles (·.isAtAny kinds) := by
  apply settles_kind kinds.contains
  intro kind hkind
  exact h kind (List.contains_iff_mem.mp hkind)

lemma settles_isAtWord (word : ContextWord) : P.Settles (·.isAtWord word) where
  inside n c d hbeside := P.spells_eq hbeside.step.1 word
  ends c hc := by
    unfold Cursor.isAtWord Token.spells
    unfold Cursor.kind at hc
    cases hkind : c.current.kind <;> simp_all [TokenKind.endsStatement]

/-- The kind of the next token is the same on both sides, or ends the statement on both. -/
lemma Beside.nextKind_eq (h : P.Beside (n + 1) c d) (test : TokenKind → Bool)
    (htest : test .semicolon = test .eof) (hface : ∀ kind, test kind.face = test kind) :
    test c.nextKind = test d.nextKind := by
  obtain ⟨_, hc, hd, hnext⟩ := h.step
  rw [(Cursor.passes_advance hc).nextKind_single, (Cursor.passes_advance hd).nextKind_single]
  cases n with
  | zero =>
    obtain ⟨hends, hends'⟩ := hnext.ends
    cases hc : c.advance.kind <;> cases hd : d.advance.kind <;>
      simp_all [TokenKind.endsStatement]
  | succ n => exact hnext.test_eq test hface

lemma Settles.and_next (h : P.Settles wanted) (test : TokenKind → Bool)
    (htest : test .semicolon = test .eof) (hface : ∀ kind, test kind.face = test kind) :
    P.Settles fun c => wanted c && test c.nextKind where
  inside n c d hbeside := by rw [h.inside n c d hbeside, hbeside.nextKind_eq test htest hface]
  ends c hc := by rw [h.ends c hc, Bool.false_and]

end Tests

section Combinators

open Parse

variable {wanted : Cursor → Bool} {V : α → β → Prop}

/-- A token is taken on both sides, and they are alike, or on none. -/
lemma takeIf_cases (h : P.Settles wanted) (hbeside : P.Beside n c d) :
    (takeIf wanted c = .ok (none, c) ∧ takeIf wanted d = .ok (none, d)) ∨
      ∃ m, m < n ∧ P.Beside m c.advance d.advance ∧ P.alike c.current d.current ∧
        takeIf wanted c = .ok (some c.current, c.advance) ∧
        takeIf wanted d = .ok (some d.current, d.advance) := by
  cases hwanted : wanted c with
  | false =>
    have hd := h.eq hbeside
    rw [hwanted] at hd
    exact .inl ⟨takeIf_of_not_wanted hwanted, takeIf_of_not_wanted hd.symm⟩
  | true =>
    cases n with
    | zero =>
      rw [h.ends c hbeside.ends.1] at hwanted
      cases hwanted
    | succ n =>
      obtain ⟨halike, hc, hd, hnext⟩ := hbeside.step
      exact .inr ⟨n, Nat.lt_succ_self n, hnext, halike, takeIf_of_wanted hwanted hc,
        takeIf_of_wanted ((h.iff hbeside).mp hwanted) hd⟩

lemma takeIf_agree (h : P.Settles wanted) {bound : Nat} {f : Option Token → Parse α}
    {g : Option Token → Parse β} (hbeside : P.Beside n c d)
    (hnone : P.Agree bound V (f none c) (g none d))
    (hsome : ∀ a b m c' d', P.alike a b → m < n → P.Beside m c' d' →
      P.Agree bound V (f (some a) c') (g (some b) d')) :
    P.Agree bound V ((takeIf wanted >>= f) c) ((takeIf wanted >>= g) d) := by
  rcases takeIf_cases h hbeside with ⟨hc, hd⟩ | ⟨m, hm, hnext, halike, hc, hd⟩
  · rw [bind_of_ok hc, bind_of_ok hd]
    exact hnone
  · rw [bind_of_ok hc, bind_of_ok hd]
    exact hsome _ _ m _ _ halike hm hnext

lemma require_step (h : P.Settles wanted) (expected : Expected) :
    P.Step k (require wanted expected) (require wanted expected) P.Like := by
  intro n c d _ hbeside
  apply takeIf_agree h hbeside
  · exact .error hbeside
  · intro a b m c' d' halike hm hnext
    exact .ok (.leaf halike) hnext hm

lemma expectAs_step {kind : TokenKind} (h : kind.isDistinct = true) (expected : Expected) :
    P.Step k (expectAs kind expected) (expectAs kind expected) P.Like :=
  require_step (settles_isAt h) expected

lemma expect_step {kind : TokenKind} (h : kind.isDistinct = true) :
    P.Step k (expect kind) (expect kind) P.Like :=
  expectAs_step h _

lemma keyword_step (word : Keyword) (h : (TokenKind.keyword word).isDistinct = true) :
    P.Step k (keyword word) (keyword word) P.Like :=
  expect_step h

lemma optional_run (h : P.Settles wanted) :
    P.Run k (optional wanted) (optional wanted) P.LikeAll := by
  intro n c d _ hbeside
  apply takeIf_agree h hbeside
  · exact .ok .nil hbeside (Nat.lt_succ_self n)
  · intro a b m c' d' halike hm hnext
    exact .ok (.cons (.leaf halike) .nil) hnext (by omega)

lemma optionalLed_run {item item' : Token → Parse (List Phrase)} (h : P.Settles wanted)
    (hitem : ∀ a b, P.alike a b →
      P.Run k (item a) (item' b) P.LikeAll) :
    P.Run k (optionalLed wanted item) (optionalLed wanted item')
      P.LikeAll := by
  intro n c d hn hbeside
  apply takeIf_agree h hbeside
  · exact .ok .nil hbeside (Nat.lt_succ_self n)
  · intro a b m c' d' halike hm hnext
    exact (hitem a b halike m c' d' (by omega) hnext).mono (by omega)

/-- A loop goes on alike, if the tokens that bound it do not run out before the statement. -/
lemma manyLedWithin_agree {item : Token → Parse α} {item' : Token → Parse β} (h : P.Settles wanted)
    (hitem : ∀ a b, P.alike a b → P.Run k (item a) (item' b) V) {ahead ahead' : List Token}
    (hn : n < k) (hbeside : P.Beside n c d) (hahead : n ≤ ahead.length)
    (hahead' : n ≤ ahead'.length) :
    P.Agree (n + 1) (List.Forall₂ V) (manyLedWithin wanted item ahead c)
      (manyLedWithin wanted item' ahead' d) := by
  induction n using Nat.strongRecOn generalizing c d ahead ahead' with
  | ind n ih =>
    cases n with
    | zero =>
      rw [manyLedWithin_of_not_wanted (h.ends c hbeside.ends.1),
        manyLedWithin_of_not_wanted (h.ends d hbeside.ends.2)]
      exact .ok .nil hbeside (Nat.lt_succ_self 0)
    | succ n =>
      obtain ⟨_, ahead, rfl⟩ := List.exists_cons_of_length_pos (Nat.lt_of_lt_of_le (by simp) hahead)
      obtain ⟨_, ahead', rfl⟩ := List.exists_cons_of_length_pos (Nat.lt_of_lt_of_le (by simp) hahead')
      rw [List.length_cons] at hahead hahead'
      apply takeIf_agree h hbeside
      · exact .ok .nil hbeside (by omega)
      · intro a b m c₁ d₁ halike hm hnext
        apply (hitem a b halike m c₁ d₁ (by omega) hnext).bind
        intro first first' hfirst i c₂ d₂ hi hnext'
        apply (ih i (by omega) (by omega) hnext' (by omega) (by omega)).bind
        intro more more' hmore j c₃ d₃ hj hlast
        exact .ok (.cons hfirst hmore) hlast (by omega)

lemma manyLed_run {item : Token → Parse α} {item' : Token → Parse β} (h : P.Settles wanted)
    (hitem : ∀ a b, P.alike a b → P.Run k (item a) (item' b) V) :
    P.Run k (manyLed wanted item) (manyLed wanted item') (List.Forall₂ V) := by
  apply Run.get_bind
  intro n c d hn hbeside
  exact manyLedWithin_agree h hitem hn hbeside hbeside.le_following.1 hbeside.le_following.2

variable {item item' : Parse (List Phrase)}

lemma one_run {item item' : Parse Phrase} (h : P.Run k item item' P.Like) :
    P.Run k (one item) (one item') P.LikeAll :=
  h.bind fun _ _ hp => .pure (.cons hp .nil)

lemma manyBehind_run {kind : TokenKind} (hkind : kind.isDistinct = true)
    (h : P.Run k item item' P.LikeAll) :
    P.Run k (manyBehind kind item) (manyBehind kind item')
      P.LikeAll := by
  have hitem (a b) (halike : P.alike a b) : P.Run k
      (do let phrases ← item; return .leaf a :: phrases)
      (do let phrases ← item'; return .leaf b :: phrases) P.LikeAll :=
    h.bind fun _ _ hps => .pure (.cons (.leaf halike) hps)
  exact (manyLed_run (settles_isAt hkind) hitem).bind fun _ _ hgroups =>
    .pure (List.rel_flatten hgroups)

lemma commaSeparated_run (h : P.Run k item item' P.LikeAll) :
    P.Run k (commaSeparated item) (commaSeparated item') P.LikeAll :=
  h.bind fun _ _ hfirst => (manyBehind_run rfl h).bind fun _ _ hmore =>
    .pure (List.rel_append hfirst hmore)

end Combinators

end Pairing

end NullGuard
