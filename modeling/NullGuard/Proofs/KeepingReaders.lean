import Mathlib.Computability.MyhillNerode
import NullGuard.Proofs.Readers

/-!
# Readers that keep to a language

The token lists of a form are a language that is put together from the languages of its parts. A
reader keeps to a language if what it takes is a word of it when the reader is done, and the
beginning of a word when it fails. The rules for the combinators follow the way readers are put
together; behind a failure, any word of what was still to be read completes the beginning.
-/

namespace NullGuard

open scoped Computability

variable {α β : Type}

instance : Nonempty Token := ⟨.eof 0⟩

instance : Nonempty Phrase := ⟨.leaf (.eof 0)⟩

namespace Form

variable {a b item first more operand : Form} {kind : NodeKind} {w : List Token}

def words (form : Form) : Language Token := {w | Derives form w}

lemma mem_words {form : Form} : w ∈ form.words ↔ Derives form w := Iff.rfl

lemma mem_words_token {accepts : Token → Bool} {token : Token} (h : accepts token = true) :
    [token] ∈ (Form.token accepts).words := Derives.token h

lemma mem_words_tok {kind : TokenKind} {token : Token} (h : decide (token.kind = kind) = true) :
    [token] ∈ (tok kind).words := Derives.token h

/-- A class of tokens is part of a form that has each of them as a word. -/
lemma mem_words_of_token {accepts : Token → Bool} {form : Form}
    (h : ∀ token, accepts token = true → [token] ∈ form.words) :
    ∀ w ∈ (Form.token accepts).words, w ∈ form.words := by
  rintro w ⟨haccepts⟩
  exact h _ haccepts

@[simp]
lemma words_empty : empty.words = 1 := by
  ext w
  constructor
  · rintro ⟨⟩
    rfl
  · rintro ⟨⟩
    exact .empty

@[simp]
lemma words_append : (a ++ b).words = a.words * b.words := by
  ext w
  constructor
  · rintro ⟨⟩
    exact Language.append_mem_mul ‹_› ‹_›
  · intro h
    obtain ⟨v, hv, u, hu, rfl⟩ := Language.mem_mul.mp h
    exact .seq hv hu

@[simp]
lemma words_or : (a ||| b).words = a.words + b.words := by
  ext w
  constructor
  · rintro ⟨⟩
    · exact .inl ‹_›
    · exact .inr ‹_›
  · rintro (h | h)
    · exact .first h
    · exact .second h

@[simp]
lemma words_many : (many item).words = item.words∗ := by
  ext w
  rw [Language.mem_kstar]
  constructor
  · intro h
    rw [mem_words] at h
    generalize hform : many item = form at h
    induction h with
    | none => exact ⟨[], rfl, by simp⟩
    | more hv _ _ ih =>
      cases hform
      obtain ⟨groups, rfl, hgroups⟩ := ih rfl
      exact ⟨_ :: groups, rfl, List.forall_mem_cons.mpr ⟨hv, hgroups⟩⟩
    | _ => cases hform
  · rintro ⟨groups, rfl, hgroups⟩
    exact Derives.many_of_forall hgroups

@[simp]
lemma words_node : (node kind item).words = item.words := by
  ext w
  constructor
  · rintro ⟨⟩
    assumption
  · exact .node

lemma words_call {construct : Construct} : (call construct).words = construct.form.words := by
  ext w
  constructor
  · rintro ⟨⟩
    assumption
  · exact .call

@[simp]
lemma words_extended : (extended kind first more).words = first.words * more.words := by
  rw [← words_append]
  ext w
  constructor
  · rintro ⟨⟩
    assumption
  · exact .extended

@[simp]
lemma words_chain {operator : TokenKind → Bool} : (chain kind operator operand).words =
    operand.words * ((Form.token (operator ·.kind)).words * operand.words)∗ := by
  rw [← words_append, ← words_many, ← words_append]
  ext w
  constructor
  · rintro ⟨⟩
    assumption
  · exact .chain

@[simp]
lemma words_led {operator : TokenKind} :
    (led kind operator operand).words = (tok operator).words∗ * operand.words := by
  rw [← words_many, ← words_append]
  ext w
  constructor
  · rintro ⟨⟩
    assumption
  · exact .led

@[simp]
lemma words_opt : (opt item).words = 1 + item.words := by
  rw [opt, words_or, words_empty]

@[simp]
lemma words_list :
    (list item).words = item.words * ((tok .comma).words * item.words)∗ := by
  rw [list, words_append, words_many, words_append]

end Form

namespace Parse

/-- From the cursor on, the reader takes a word of the language, or fails behind the beginning of
one. -/
def KeepsToAt (reader : Parse α) (c : Cursor) (words : Language Token) : Prop :=
  match reader c with
  | .ok (_, d) => ∃ taken ∈ words, c.Passes taken d
  | .error failure => ∃ taken later, taken ++ later ∈ words ∧ c.Passes taken failure.place

/-- The reader takes words of the language, or fails behind beginnings of them. -/
def KeepsTo (reader : Parse α) (words : Language Token) : Prop := ∀ c, reader.KeepsToAt c words

section Rules

variable {x y : Parse α} {c : Cursor} {L M : Language Token}

/-- Wherever a reader stops, there is a word of its language. -/
lemma KeepsTo.exists_mem (h : x.KeepsTo L) : ∃ w, w ∈ L := by
  have hat := h (.ofTokens [])
  unfold KeepsToAt at hat
  split at hat
  · obtain ⟨taken, hmem, _⟩ := hat
    exact ⟨taken, hmem⟩
  · obtain ⟨taken, later, hmem, _⟩ := hat
    exact ⟨taken ++ later, hmem⟩

lemma KeepsToAt.mono (h : x.KeepsToAt c L) (hwords : ∀ w ∈ L, w ∈ M) :
    x.KeepsToAt c M := by
  unfold KeepsToAt at h ⊢
  split at h
  · obtain ⟨taken, hmem, hpass⟩ := h
    exact ⟨taken, hwords taken hmem, hpass⟩
  · obtain ⟨taken, later, hmem, hpass⟩ := h
    exact ⟨taken, later, hwords _ hmem, hpass⟩

lemma KeepsTo.mono (h : x.KeepsTo L) (hwords : ∀ w ∈ L, w ∈ M) : x.KeepsTo M := fun c =>
  (h c).mono hwords

lemma KeepsTo.of_eq (heq : L = M) (h : x.KeepsTo L) : x.KeepsTo M := heq ▸ h

lemma KeepsTo.inl (h : x.KeepsTo L) : x.KeepsTo (L + M) := h.mono fun _ hw => .inl hw

lemma KeepsTo.inr (h : x.KeepsTo M) : x.KeepsTo (L + M) := h.mono fun _ hw => .inr hw

/-- One reader behind the other. If the first fails, the beginning that it took is completed by a
word for each of the two. -/
lemma KeepsToAt.bind [Nonempty α] {f : α → Parse β} (hx : x.KeepsToAt c L)
    (hf : ∀ a, (f a).KeepsTo M) : (x >>= f).KeepsToAt c (L * M) := by
  unfold KeepsToAt at hx ⊢
  cases hxc : x c with
  | error failure =>
    rw [bind_of_error hxc]
    simp only [hxc] at hx ⊢
    obtain ⟨taken, later, hmem, hpass⟩ := hx
    obtain ⟨w, hw⟩ := (hf (Classical.arbitrary α)).exists_mem
    refine ⟨taken, later ++ w, ?_, hpass⟩
    rw [← List.append_assoc]
    exact Language.append_mem_mul hmem hw
  | ok result =>
    obtain ⟨a, d⟩ := result
    rw [bind_of_ok hxc]
    simp only [hxc] at hx
    obtain ⟨taken, hmem, hpass⟩ := hx
    have hd := hf a d
    unfold KeepsToAt at hd
    split at hd
    · obtain ⟨more, hmore, hpass'⟩ := hd
      exact ⟨taken ++ more, Language.append_mem_mul hmem hmore, hpass.trans hpass'⟩
    · obtain ⟨more, later, hmore, hpass'⟩ := hd
      refine ⟨taken ++ more, later, ?_, hpass.trans hpass'⟩
      rw [List.append_assoc]
      exact Language.append_mem_mul hmem hmore

lemma KeepsTo.bind [Nonempty α] {f : α → Parse β} (hx : x.KeepsTo L)
    (hf : ∀ a, (f a).KeepsTo M) : (x >>= f).KeepsTo (L * M) := fun c => (hx c).bind hf

lemma KeepsTo.pure {a : α} : (pure a : Parse α).KeepsTo 1 := by
  intro c
  exact ⟨[], rfl, .refl c⟩

/-- Nothing is the beginning of any word. -/
lemma KeepsTo.refuse {expected : Expected} {w : List Token} (h : w ∈ L) :
    (Parse.refuse expected : Parse α).KeepsTo L := by
  intro c
  exact ⟨[], w, h, .refl c⟩

lemma KeepsTo.get_bind_at {f : Cursor → Parse α} (h : ∀ c, (f c).KeepsToAt c L) :
    ((get : Parse Cursor) >>= f).KeepsTo L := h

lemma KeepsTo.get_bind {f : Cursor → Parse α} (h : ∀ c, (f c).KeepsTo L) :
    ((get : Parse Cursor) >>= f).KeepsTo L := fun c => h c c

lemma KeepsTo.ite {p : Prop} [Decidable p] (hx : x.KeepsTo L) (hy : y.KeepsTo L) :
    (if p then x else y).KeepsTo L := by
  split
  · exact hx
  · exact hy

/-- What stands behind the rest of a word is the rest of a longer one. -/
lemma mem_leftQuotient_mul {v w : List Token} (h : w ∈ L.leftQuotient v * M) :
    w ∈ (L * M).leftQuotient v := by
  obtain ⟨u, hu, t, ht, rfl⟩ := Language.mem_mul.mp h
  have hfirst : v ++ u ∈ L := hu
  rw [Language.mem_leftQuotient, ← List.append_assoc]
  exact Language.append_mem_mul hfirst ht

/-- What is read behind a mark, as a part of what is read with it. -/
lemma KeepsTo.behind {K : Language Token} {mark : Token} (hmark : [mark] ∈ K) (hwords : K * L = M)
    (h : x.KeepsTo L) : x.KeepsTo (M.leftQuotient [mark]) := by
  refine h.mono fun w hw => ?_
  rw [← hwords]
  exact Language.append_mem_mul hmark hw

end Rules

section Tokens

variable {wanted : Cursor → Bool} {accepts : Token → Bool} {c : Cursor} {L : Language Token}

/-- What goes on by a token that may be taken keeps to a language if it does so without the token,
and behind the token keeps to the words that begin with it. -/
lemma takeIf_bind_keepsAt {f : Option Token → Parse α}
    (h : wanted c = true → accepts c.current = true) (hnone : (f none).KeepsTo L)
    (hsome : ∀ mark, accepts mark = true → (f (some mark)).KeepsTo (L.leftQuotient [mark])) :
    (takeIf wanted >>= f).KeepsToAt c L := by
  rcases takeIf_eq wanted c with hskip | ⟨htake, hwanted, hne⟩
  · unfold KeepsToAt
    rw [bind_of_ok hskip]
    exact hnone c
  · have hpass := Cursor.passes_advance hne
    have hbehind := hsome c.current (h hwanted) c.advance
    unfold KeepsToAt at hbehind ⊢
    rw [bind_of_ok htake]
    split at hbehind
    · obtain ⟨taken, hmem, hpass'⟩ := hbehind
      exact ⟨c.current :: taken, hmem, hpass.trans hpass'⟩
    · obtain ⟨taken, later, hmem, hpass'⟩ := hbehind
      exact ⟨c.current :: taken, later, hmem, hpass.trans hpass'⟩

lemma takeIf_bind_keeps {f : Option Token → Parse α} (h : Selects wanted accepts)
    (hnone : (f none).KeepsTo L)
    (hsome : ∀ mark, accepts mark = true → (f (some mark)).KeepsTo (L.leftQuotient [mark])) :
    (takeIf wanted >>= f).KeepsTo L :=
  fun c => takeIf_bind_keepsAt (h.accepts_current c) hnone hsome

lemma require_keepsAt {expected : Expected} (h : wanted c = true → accepts c.current = true)
    {token : Token} (htoken : accepts token = true) :
    (require wanted expected).KeepsToAt c (Form.token accepts).words := by
  refine takeIf_bind_keepsAt h (.refuse (Form.mem_words_token htoken)) fun mark hmark => ?_
  exact .behind (Form.mem_words_token hmark) (mul_one _) .pure

lemma require_keeps {expected : Expected} (h : Selects wanted accepts) {token : Token}
    (htoken : accepts token = true) :
    (require wanted expected).KeepsTo (Form.token accepts).words := fun c =>
  require_keepsAt (h.accepts_current c) htoken

lemma expectAs_keeps (kind : TokenKind) (expected : Expected) :
    (expectAs kind expected).KeepsTo (Form.tok kind).words := fun _ =>
  require_keepsAt id (decide_eq_true rfl : decide ((⟨kind, .zero, ""⟩ : Token).kind = kind) = true)

lemma expect_keeps (kind : TokenKind) : (expect kind).KeepsTo (Form.tok kind).words :=
  expectAs_keeps kind _

lemma keyword_keeps (word : Keyword) : (keyword word).KeepsTo (Form.word word).words :=
  expect_keeps _

lemma optional_keeps (h : Selects wanted accepts) :
    (optional wanted).KeepsTo (1 + (Form.token accepts).words) := by
  refine takeIf_bind_keeps h (.inl .pure) fun mark hmark => ?_
  refine KeepsTo.pure.mono ?_
  rintro w ⟨⟩
  exact .inr (Form.mem_words_token hmark)

lemma optionalLed_keeps {item : Token → Parse (List Phrase)} (h : Selects wanted accepts)
    (hitem : ∀ mark, accepts mark = true → (item mark).KeepsTo (L.leftQuotient [mark])) :
    (optionalLed wanted item).KeepsTo (1 + L) :=
  takeIf_bind_keeps h (.inl .pure) fun mark hmark => (hitem mark hmark).mono fun _ hw => .inr hw

lemma manyLedWithin_keeps [Nonempty α] {item : Token → Parse α} (h : Selects wanted accepts)
    (hitem : ∀ mark, accepts mark = true → (item mark).KeepsTo (L.leftQuotient [mark]))
    (ahead : List Token) : (manyLedWithin wanted item ahead).KeepsTo L∗ := by
  have hdone : (pure [] : Parse (List α)).KeepsTo L∗ := by
    refine KeepsTo.pure.mono ?_
    rintro w rfl
    exact Language.nil_mem_kstar L
  induction ahead with
  | nil => exact hdone
  | cons _ ahead ih =>
    refine takeIf_bind_keeps h hdone fun mark hmark => ?_
    refine ((hitem mark hmark).bind fun _ => ih.bind fun _ => .pure).mono fun w hw => ?_
    rw [mul_one] at hw
    have hle : L * L∗ ≤ L∗ := mul_kstar_le_kstar
    exact hle (mem_leftQuotient_mul hw)

/-- A loop keeps to any number of words that its items keep to. -/
lemma manyLed_keeps [Nonempty α] {item : Token → Parse α} (h : Selects wanted accepts)
    (hitem : ∀ mark, accepts mark = true → (item mark).KeepsTo (L.leftQuotient [mark])) :
    (manyLed wanted item).KeepsTo L∗ :=
  .get_bind fun c => manyLedWithin_keeps h hitem c.following

end Tokens

section Sequences

variable {L : Language Token}

lemma one_keeps {item : Parse Phrase} (h : item.KeepsTo L) : (one item).KeepsTo L :=
  .of_eq (mul_one L) (h.bind fun _ => .pure)

lemma manyBehind_keeps {kind : TokenKind} {item : Parse (List Phrase)} (h : item.KeepsTo L)
    (hkind : kind.endsStatement = false) :
    (manyBehind kind item).KeepsTo ((Form.tok kind).words * L)∗ := by
  refine .of_eq (mul_one _) (KeepsTo.bind (manyLed_keeps (selects_isAt hkind) fun mark hmark =>
    .behind (Form.mem_words_tok hmark) ?_ (h.bind fun _ => .pure)) fun _ => .pure)
  rw [mul_one]

lemma commaSeparated_keeps {item : Parse (List Phrase)} (h : item.KeepsTo L) :
    (commaSeparated item).KeepsTo (L * ((Form.tok .comma).words * L)∗) := by
  refine .of_eq ?_ (h.bind fun _ => (manyBehind_keeps h rfl).bind fun _ => .pure)
  rw [mul_one]

end Sequences

end Parse

end NullGuard
