import NullGuard.Proofs.Numbering
import NullGuard.Proofs.TextMending

namespace NullGuard

/-- The span lies inside of another one. -/
def Span.Within (inner outer : Span) : Prop :=
  outer.start ≤ inner.start ∧ inner.stop ≤ outer.stop

namespace Token

variable {tokens front : List Token} {token first last : Token}

/-- The bytes from the first token up to the last one. -/
def reach (tokens : List Token) : Span :=
  ⟨(tokens.head?.map (·.span.start)).getD 0, (tokens.getLast?.map (·.span.stop)).getD 0⟩

lemma reach_eq (hfirst : tokens.head? = some first) (hlast : tokens.getLast? = some last) :
    reach tokens = ⟨first.span.start, last.span.stop⟩ := by
  simp [reach, hfirst, hlast]

lemma exists_ends (h : tokens ≠ []) : ∃ first last, tokens.head? = some first ∧
    tokens.getLast? = some last ∧ first ∈ tokens ∧ last ∈ tokens :=
  ⟨tokens.head h, tokens.getLast h, List.head?_eq_some_head h, List.getLast?_eq_some_getLast h,
    List.head_mem h, List.getLast_mem h⟩

/-- Tokens with others behind them reach as far as both together. -/
lemma InOrder.cover_reach (h : InOrder (front ++ tokens)) (hfront : front ≠ [])
    (htokens : tokens ≠ []) : (reach front).cover (reach tokens) = reach (front ++ tokens) := by
  obtain ⟨a, b, ha, hb, hamem, hbmem⟩ := exists_ends hfront
  obtain ⟨c, d, hc, hd, hcmem, hdmem⟩ := exists_ends htokens
  have hstart := (h.lt_of_append hamem hcmem).1
  have hstop := (h.lt_of_append hbmem hdmem).2
  rw [reach_eq ha hb, reach_eq hc hd,
    reach_eq (List.mem_head?_append_of_mem_head? ha) (List.mem_getLast?_append_of_mem_getLast? hd),
    Span.cover, Nat.min_eq_left (Nat.le_of_lt hstart), Nat.max_eq_right (Nat.le_of_lt hstop)]

/-- Tokens that stand together reach no further than all. -/
lemma InOrder.within_of_isInfix (h : InOrder tokens) (hne : front ≠ [])
    (htogether : front <:+: tokens) : (reach front).Within (reach tokens) := by
  obtain ⟨before, after, rfl⟩ := htogether
  have hbefore : (reach front).Within (reach (before ++ front)) := by
    by_cases hnil : before = []
    · rw [hnil]
      exact ⟨Nat.le_refl _, Nat.le_refl _⟩
    · rw [← (h.of_sublist (List.sublist_append_left _ _)).cover_reach hnil hne]
      exact ⟨Nat.min_le_right _ _, Nat.le_max_right _ _⟩
  have hafter : (reach (before ++ front)).Within (reach (before ++ front ++ after)) := by
    by_cases hnil : after = []
    · rw [hnil, List.append_nil]
      exact ⟨Nat.le_refl _, Nat.le_refl _⟩
    · rw [← h.cover_reach (by simp [hne]) hnil]
      exact ⟨Nat.min_le_left _ _, Nat.le_max_left _ _⟩
  exact ⟨Nat.le_trans hafter.1 hbefore.1, Nat.le_trans hbefore.2 hafter.2⟩

lemma InOrder.reach_lt (h : InOrder tokens) (hne : tokens ≠ []) :
    (reach tokens).start < (reach tokens).stop := by
  obtain ⟨first, last, hfirst, hlast, hmem, _⟩ := exists_ends hne
  obtain ⟨more, rfl⟩ := List.head?_eq_some_iff.mp hfirst
  have hfirst : [first] <:+: first :: more := ⟨[], more, rfl⟩
  have hwithin := h.within_of_isInfix (by simp) hfirst
  exact Nat.lt_of_le_of_lt hwithin.1 (Nat.lt_of_lt_of_le (h.filled first hmem) hwithin.2)

lemma InOrder.reach_le (h : InOrder (front ++ tokens)) (hfront : front ≠ [])
    (htokens : tokens ≠ []) : (reach front).stop ≤ (reach tokens).start := by
  obtain ⟨a, b, ha, hb, _, hbmem⟩ := exists_ends hfront
  obtain ⟨c, d, hc, hd, hcmem, _⟩ := exists_ends htokens
  rw [reach_eq ha hb, reach_eq hc hd]
  exact (List.pairwise_append.mp h.sorted).2.2 b hbmem c hcmem

end Token

namespace Phrase

open Token

lemma Solid.tokens_ne_nil {p : Phrase} (h : p.Solid) : p.tokens ≠ [] := by
  cases p with
  | leaf token => simp
  | node kind parts =>
    obtain ⟨hne, hparts⟩ := solid_node.mp h
    cases parts with
    | nil => exact absurd rfl hne
    | cons q parts =>
      have hq := (hparts q List.mem_cons_self).tokens_ne_nil
      simp [hq]

mutual

/-- A phrase takes the bytes from its first token up to its last one. -/
lemma span_eq_reach (p : Phrase) (hsolid : p.Solid) (h : InOrder p.tokens) :
    p.span = reach p.tokens := by
  cases p with
  | leaf token => rfl
  | node kind parts =>
    obtain ⟨hne, hparts⟩ := solid_node.mp hsolid
    cases parts with
    | nil => exact absurd rfl hne
    | cons q parts =>
      obtain ⟨hq, hparts⟩ := List.forall_mem_cons.mp hparts
      rw [tokens_node, tokensAll_cons] at h ⊢
      have hfirst := span_eq_reach q hq (h.of_sublist (List.sublist_append_left _ _))
      rw [span, spanAll, widen, Option.map_none, Option.getD_none, hfirst,
        spanAll_eq_reach parts hparts hq.tokens_ne_nil h, Option.getD_some]

lemma spanAll_eq_reach (ps : List Phrase) (hsolid : ∀ p ∈ ps, p.Solid) {front : List Token}
    (hne : front ≠ []) (h : InOrder (front ++ tokensAll ps)) :
    spanAll (some (reach front)) ps = some (reach (front ++ tokensAll ps)) := by
  cases ps with
  | nil => rw [spanAll, tokensAll_nil, List.append_nil]
  | cons p ps =>
    obtain ⟨hp, hps⟩ := List.forall_mem_cons.mp hsolid
    rw [tokensAll_cons, ← List.append_assoc] at h ⊢
    have hfront := h.of_sublist (List.sublist_append_left _ _)
    have hspan := span_eq_reach p hp (hfront.of_sublist (List.sublist_append_right _ _))
    rw [spanAll, widen, Option.map_some, Option.getD_some, hspan,
      hfront.cover_reach hne hp.tokens_ne_nil, spanAll_eq_reach ps hps (by simp [hne]) h]

end

/-- A part of a phrase takes some bytes, from its first token up to its last one, inside of the
phrase. -/
lemma span_of_part {kind : NodeKind} {parts : List Phrase} {q : Phrase}
    (hsolid : ∀ p ∈ parts, p.Solid) (h : InOrder (Phrase.node kind parts).tokens) (hq : q ∈ parts) :
    q.span = reach q.tokens ∧ q.span.start < q.span.stop ∧
      q.span.Within (Phrase.node kind parts).span := by
  have hne := (hsolid q hq).tokens_ne_nil
  have hpart : q.tokens <:+: (Phrase.node kind parts).tokens :=
    (Has.part hq (.refl q)).isInfix_tokens
  have horder := h.of_sublist hpart.sublist
  have hnode : (Phrase.node kind parts).Solid := solid_node.mpr ⟨List.ne_nil_of_mem hq, hsolid⟩
  rw [span_eq_reach q (hsolid q hq) horder, span_eq_reach _ hnode h]
  exact ⟨rfl, horder.reach_lt hne, h.within_of_isInfix hne hpart⟩

/-- Phrases one behind the other do not overlap. -/
lemma pairwise_span {ps : List Phrase} (hsolid : ∀ p ∈ ps, p.Solid) (h : InOrder (tokensAll ps)) :
    (ps.map span).Pairwise (·.stop ≤ ·.start) := by
  induction ps with
  | nil => exact .nil
  | cons p ps ih =>
    obtain ⟨hp, hps⟩ := List.forall_mem_cons.mp hsolid
    rw [tokensAll_cons] at h
    have hrest := h.of_sublist (List.sublist_append_right _ _)
    rw [List.map_cons, List.pairwise_cons, List.forall_mem_map]
    refine ⟨fun q hq => ?_, ih hps hrest⟩
    have hsub : q.tokens.Sublist (tokensAll ps) := by
      rw [tokensAll_eq_flatMap, List.flatMap_def]
      exact List.sublist_flatten_of_mem (List.mem_map_of_mem hq)
    have hboth := h.of_sublist ((List.Sublist.refl p.tokens).append hsub)
    rw [span_eq_reach p hp (hboth.of_sublist (List.sublist_append_left _ _)),
      span_eq_reach q (hps q hq) (hboth.of_sublist (List.sublist_append_right _ _))]
    exact hboth.reach_le hp.tokens_ne_nil (hps q hq).tokens_ne_nil

end Phrase

end NullGuard
