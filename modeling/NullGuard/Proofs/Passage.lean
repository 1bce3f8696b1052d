import Mathlib.Tactic.Common
import NullGuard.Query.Package

/-!
# Passages of cursors

`c.Passes tokens d` says that the tokens from `c` on are `tokens` and then those from `d` on. All
that is proved of readers is said by passages: what a reader takes, where it stops, and where it
fails.
-/

namespace NullGuard

/-- Going on from `c` over exactly `tokens` leads to `d`. -/
structure Cursor.Passes (c : Cursor) (tokens : List Token) (d : Cursor) : Prop where
  rest : c.rest = tokens ++ d.rest
  position : d.position = c.position + tokens.length

namespace Cursor

variable {c d e : Cursor} {s t : List Token} {token : Token}

lemma isAt_iff {kind : TokenKind} : c.isAt kind = true ↔ c.kind = kind := decide_eq_true_iff

lemma eq_of_rest (hr : c.rest = d.rest) (hp : c.position = d.position) : c = d := by
  obtain ⟨n, x, xs⟩ := c
  obtain ⟨m, y, ys⟩ := d
  simp only [rest, List.cons.injEq] at hr hp
  obtain ⟨rfl, rfl⟩ := hr
  rw [hp]

lemma Passes.refl (c : Cursor) : c.Passes [] c := ⟨rfl, rfl⟩

lemma Passes.trans (h : c.Passes s d) (h' : d.Passes t e) : c.Passes (s ++ t) e where
  rest := by rw [h.rest, h'.rest, List.append_assoc]
  position := by rw [h'.position, h.position, List.length_append, Nat.add_assoc]

@[simp]
lemma passes_nil_iff : c.Passes [] d ↔ c = d := by
  constructor
  · intro h
    exact eq_of_rest h.rest h.position.symm
  · rintro rfl
    exact .refl c

/-- A passage can be broken off at any place: there is always a token to stand on. -/
lemma passes_append_iff : c.Passes (s ++ t) e ↔ ∃ d, c.Passes s d ∧ d.Passes t e := by
  constructor
  · intro h
    have hrest := h.rest
    have hposition := h.position
    obtain ⟨x, xs, hx⟩ : ∃ x xs, t ++ e.rest = x :: xs := by
      cases t with
      | nil => exact ⟨_, _, rfl⟩
      | cons x xs => exact ⟨_, _, rfl⟩
    refine ⟨⟨c.position + s.length, x, xs⟩, ⟨?_, rfl⟩, ⟨?_, ?_⟩⟩
    · rw [hrest, List.append_assoc, hx]
      rfl
    · rw [hx]
      rfl
    · rw [hposition, List.length_append, Nat.add_assoc]
  · rintro ⟨d, hs, ht⟩
    exact hs.trans ht

/-- The first token of a passage is the current one, and there is a next one to move to. -/
lemma passes_cons_iff :
    c.Passes (token :: t) e ↔ c.current = token ∧ c.following ≠ [] ∧ c.advance.Passes t e := by
  obtain ⟨n, x, xs⟩ := c
  constructor
  · rintro ⟨hr, hp⟩
    simp only [rest, List.cons_append, List.cons.injEq] at hr
    obtain ⟨rfl, rfl⟩ := hr
    obtain ⟨y, ys, hy⟩ : ∃ y ys, t ++ e.current :: e.following = y :: ys := by
      cases t with
      | nil => exact ⟨_, _, rfl⟩
      | cons y ys => exact ⟨_, _, rfl⟩
    refine ⟨rfl, by simp, ?_, ?_⟩
    · simp only [advance, hy, rest]
    · simp only [advance, hy]
      simp only [List.length_cons] at hp
      omega
  · rintro ⟨rfl, hne, hr, hp⟩
    obtain ⟨y, ys, rfl⟩ := List.exists_cons_of_ne_nil hne
    refine ⟨?_, ?_⟩
    · simpa only [advance, rest, List.cons_append, List.cons.injEq, true_and] using hr
    · simp only [advance] at hp
      simp only [List.length_cons]
      omega

lemma Passes.current (h : c.Passes (token :: t) d) : c.current = token := (passes_cons_iff.mp h).1

lemma Passes.following_ne_nil (h : c.Passes (token :: t) d) : c.following ≠ [] :=
  (passes_cons_iff.mp h).2.1

lemma Passes.advance (h : c.Passes (token :: t) d) : c.advance.Passes t d :=
  (passes_cons_iff.mp h).2.2

lemma passes_advance (h : c.following ≠ []) : c.Passes [c.current] c.advance :=
  passes_cons_iff.mpr ⟨rfl, h, .refl _⟩

lemma Passes.unique (h : c.Passes s d) (h' : c.Passes s e) : d = e :=
  eq_of_rest (List.append_cancel_left (h.rest.symm.trans h'.rest))
    (h.position.trans h'.position.symm)

lemma Passes.length_following (h : c.Passes s d) :
    c.following.length = s.length + d.following.length := by
  have hrest := congrArg List.length h.rest
  simp only [Cursor.rest, List.length_cons, List.length_append] at hrest
  omega

/-- There are fewer tokens in a passage than from its beginning on. -/
lemma Passes.length_lt (h : c.Passes s d) : s.length < c.rest.length := by
  rw [h.rest, List.length_append, Cursor.rest, List.length_cons]
  omega

lemma Passes.length_le_following (h : c.Passes s d) : s.length ≤ c.following.length := by
  rw [h.length_following]
  exact Nat.le_add_right _ _

/-- The token that a passage of two tokens or more has in the second place. -/
lemma Passes.nextKind {next : Token} (h : c.Passes (token :: next :: t) d) :
    c.nextKind = next.kind := by
  have hr := h.rest
  simp only [Cursor.nextKind, kindAhead, hr, List.cons_append, List.getElem?_cons_succ,
    List.getElem?_cons_zero]

/-- Behind a passage of one token the next kind is the kind that it leads to. -/
lemma Passes.nextKind_single (h : c.Passes [token] d) : c.nextKind = d.kind := by
  have hr : c.rest = token :: d.current :: d.following := h.rest
  simp only [Cursor.nextKind, kindAhead, hr, List.getElem?_cons_succ, List.getElem?_cons_zero,
    Cursor.kind]

lemma Passes.kind (h : c.Passes (token :: t) d) : c.kind = token.kind := by
  rw [Cursor.kind, h.current]

/-- A cursor that is reached without going past the end of a statement. -/
def Reaches (c d : Cursor) : Prop :=
  ∃ taken, c.Passes taken d ∧ ∀ token ∈ taken, token.kind.endsStatement = false

lemma Reaches.refl (c : Cursor) : c.Reaches c := ⟨[], .refl c, by simp⟩

lemma Reaches.trans (h : c.Reaches d) (h' : d.Reaches e) : c.Reaches e := by
  obtain ⟨s, hs, hin⟩ := h
  obtain ⟨t, ht, hin'⟩ := h'
  refine ⟨s ++ t, hs.trans ht, ?_⟩
  intro token hmem
  rcases List.mem_append.mp hmem with hmem | hmem
  · exact hin token hmem
  · exact hin' token hmem

/-- A statement ends at the cursor or ahead of it. -/
def EndsAhead (c : Cursor) : Prop := ∃ token ∈ c.rest, token.kind.endsStatement = true

lemma Passes.endsAhead (h : c.Passes t e) (he : e.kind.endsStatement = true) : c.EndsAhead := by
  refine ⟨e.current, ?_, he⟩
  rw [h.rest]
  exact List.mem_append_right _ List.mem_cons_self

/-- Tokens inside of a statement that lie ahead are passed, and the statement ends behind them. -/
lemma EndsAhead.exists_passes (h : c.EndsAhead) (ht : t <+: c.rest)
    (hinside : ∀ token ∈ t, token.kind.endsStatement = false) :
    ∃ d, c.Passes t d ∧ d.EndsAhead := by
  obtain ⟨later, hlater⟩ := ht
  obtain ⟨stop, hmem, hends⟩ := h
  have hstop : stop ∈ later := by
    rw [← hlater] at hmem
    rcases List.mem_append.mp hmem with hmem | hmem
    · rw [hinside stop hmem] at hends
      cases hends
    · exact hmem
  cases later with
  | nil => cases hstop
  | cons next later =>
    exact ⟨⟨c.position + t.length, next, later⟩, ⟨hlater.symm, rfl⟩, stop, hstop, hends⟩

lemma EndsAhead.advance (h : c.EndsAhead) (hinside : c.kind.endsStatement = false) :
    c.following ≠ [] ∧ c.advance.EndsAhead := by
  have hcurrent : ∀ token ∈ [c.current], token.kind.endsStatement = false := by
    rintro token htoken
    rw [List.mem_singleton.mp htoken]
    exact hinside
  obtain ⟨d, hpass, hd⟩ := h.exists_passes ⟨c.following, rfl⟩ hcurrent
  obtain ⟨_, hne, hadvance⟩ := passes_cons_iff.mp hpass
  rw [passes_nil_iff.mp hadvance]
  exact ⟨hne, hd⟩

end Cursor

namespace Phrase

mutual

def tokens : Phrase → List Token
  | .leaf token => [token]
  | .node _ parts => tokensAll parts

def tokensAll : List Phrase → List Token
  | [] => []
  | phrase :: phrases => phrase.tokens ++ tokensAll phrases

end

@[simp]
lemma tokens_leaf (token : Token) : (Phrase.leaf token).tokens = [token] := rfl

@[simp]
lemma tokens_node (kind : NodeKind) (parts : List Phrase) :
    (Phrase.node kind parts).tokens = tokensAll parts := rfl

@[simp]
lemma tokensAll_nil : tokensAll [] = [] := rfl

@[simp]
lemma tokensAll_cons (phrase : Phrase) (phrases : List Phrase) :
    tokensAll (phrase :: phrases) = phrase.tokens ++ tokensAll phrases := rfl

@[simp]
lemma tokensAll_append (left right : List Phrase) :
    tokensAll (left ++ right) = tokensAll left ++ tokensAll right := by
  induction left with
  | nil => rfl
  | cons phrase phrases ih => simp only [List.cons_append, tokensAll_cons, ih, List.append_assoc]

lemma tokensAll_flatten (groups : List (List Phrase)) :
    tokensAll groups.flatten = groups.flatMap tokensAll := by
  induction groups with
  | nil => rfl
  | cons group groups ih => simp only [List.flatten_cons, tokensAll_append, ih, List.flatMap_cons]

lemma tokensAll_eq_flatMap (phrases : List Phrase) : tokensAll phrases = phrases.flatMap tokens := by
  induction phrases with
  | nil => rfl
  | cons phrase phrases ih => rw [tokensAll_cons, ih, List.flatMap_cons]

/-- A token standing for itself adds nothing else. -/
lemma tokensAll_map_leaf (tokens : List Token) : tokensAll (tokens.map .leaf) = tokens := by
  induction tokens with
  | nil => rfl
  | cons token tokens ih =>
    rw [List.map_cons, tokensAll_cons, ih, tokens_leaf, List.singleton_append]

/-- What a phrase is: the kind of its construct, or a terminal. -/
def kind : Phrase → NodeKind
  | .leaf token => .terminal token.kind
  | .node kind _ => kind

@[simp]
lemma kind_leaf (token : Token) : (Phrase.leaf token).kind = .terminal token.kind := rfl

@[simp]
lemma kind_node (k : NodeKind) (parts : List Phrase) : (Phrase.node k parts).kind = k := rfl

end Phrase

end NullGuard
