import NullGuard.Proofs.PhraseSpans
import NullGuard.Proofs.Recovery
import NullGuard.Proofs.TextSlices

namespace NullGuard

namespace Part

/-- What is kept of a segment stands at its beginning. -/
lemma Covers.isPrefix_tokens {segment : List Token} {stop : Token} {part : Part} {p : Phrase}
    (h : Covers segment stop part) (hp : part.phrase? = some p) : p.tokens <+: segment := by
  cases h with
  | statement _ htokens =>
    cases hp
    exact ⟨[], by rw [List.append_nil, htokens]⟩
  | truncated _ htokens =>
    cases hp
    exact ⟨_, htokens.symm⟩
  | rejected => cases hp

/-- The tokens of what is kept are tokens of the package in their order, and those of each statement
stand together. -/
lemma allWithin_kept (ahead : List Token) {c : Cursor} {tokens later : List Token} {stop : Token}
    (hstop : stop.kind = .eof) (htokens : ∀ token ∈ tokens, token.kind ≠ .eof)
    (hrest : c.rest = tokens ++ stop :: later) :
    (Phrase.tokensAll ((allWithin ahead c).filterMap phrase?)).Sublist tokens ∧
      ∀ p ∈ (allWithin ahead c).filterMap phrase?, p.tokens <:+: tokens := by
  induction ahead generalizing c tokens with
  | nil => simp [allWithin]
  | cons mark ahead ih =>
    rcases allWithin_step mark ahead hstop htokens hrest with ⟨rfl, hparts⟩ |
      ⟨token, rest, rfl, _, hadvance, hparts⟩ |
      ⟨segment, tail, _, rfl, _, _, hrest', _, hcovers, hparts⟩
    · simp [hparts]
    · obtain ⟨hsub, htogether⟩ :=
        ih (fun other hother => htokens other (List.mem_cons_of_mem _ hother)) hadvance
      have hkept : (separator (.leaf token)).phrase? = some (.leaf token) := rfl
      rw [hparts, List.filterMap_cons_some hkept, Phrase.tokensAll_cons, Phrase.tokens_leaf]
      refine ⟨hsub.cons_cons token, List.forall_mem_cons.mpr ⟨⟨[], rest, rfl⟩, fun p hp => ?_⟩⟩
      exact (htogether p hp).trans (List.suffix_cons token rest).isInfix
    · obtain ⟨hsub, htogether⟩ :=
        ih (fun other hother => htokens other (List.mem_append_right _ hother)) hrest'
      have htail (p) (hp : p ∈ (allWithin ahead (next c).2).filterMap phrase?) :
          p.tokens <:+: segment ++ tail :=
        (htogether p hp).trans (List.suffix_append segment tail).isInfix
      rw [hparts]
      cases hphrase : (next c).1.phrase? with
      | none =>
        rw [List.filterMap_cons_none hphrase]
        exact ⟨hsub.trans (List.sublist_append_right _ _), htail⟩
      | some p =>
        have hkept := hcovers.isPrefix_tokens hphrase
        rw [List.filterMap_cons_some hphrase, Phrase.tokensAll_cons]
        refine ⟨hkept.sublist.append hsub, List.forall_mem_cons.mpr ⟨?_, htail⟩⟩
        exact hkept.isInfix.trans (List.prefix_append segment tail).isInfix

end Part

/-- A text is read from its first token on up to its end. -/
lemma Cursor.rest_scan (source : String) : (Cursor.ofTokens (scan source).tokens).rest =
    Text.tokens source.toList ++ [.eof source.utf8ByteSize] :=
  (rest_ofTokens _).trans (Token.closed_scan source)

/-- What a text is read as: phrases one behind the other whose tokens stand together in the text. -/
lemma exists_kept {source : String} {tree : Tree} (h : (parse source).tree = some tree) :
    ∃ ps, tree = (Phrase.node .package ps).toTree ∧ (Phrase.node .package ps).AllRegular ∧
      (∀ p ∈ ps, p.Solid) ∧ (Phrase.tokensAll ps).Sublist (Text.tokens source.toList) ∧
      ∀ p ∈ ps, p.tokens <:+: Text.tokens source.toList := by
  have hbuilt := Part.all_built (.ofTokens (scan source).tokens)
  obtain ⟨hsub, htogether⟩ := Part.allWithin_kept _ rfl Text.kind_ne_eof (Cursor.rest_scan source)
  refine ⟨_, Parsed.eq_toTree_of_tree h, Part.package_regular hbuilt, fun p hp => ?_, hsub,
    htogether⟩
  obtain ⟨part, hpart, hphrase⟩ := List.mem_filterMap.mp hp
  exact (hbuilt part hpart).solid hphrase

namespace Tree

variable {ps : List Phrase} {id child : Nat}

/-- All parts of what is shown in a package of solid phrases are solid. -/
lemma solid_of_has {kind kind' : NodeKind} {parts : List Phrase} (hsolid : ∀ p ∈ ps, p.Solid)
    (h : (Phrase.node kind ps).Has (.node kind' parts)) : ∀ p ∈ parts, p.Solid := by
  cases h with
  | refl => exact hsolid
  | part hp hhas =>
    intro q hq k qs hqs
    exact hsolid _ hp k qs (hhas.trans (.part hq hqs))

/-- A node below the root is shown by a phrase inside of one of the parts, next to others in its
parent. -/
lemma exists_shows_below {kind : NodeKind} (h : child < (Phrase.node kind ps).toTree.size)
    (hroot : child ≠ (Phrase.node kind ps).toTree.root) :
    let tree := (Phrase.node kind ps).toTree
    ∃ parent parentKind parts q, tree.parent child = some parent ∧
      tree.Shows parent (.node parentKind parts) ∧ q ∈ parts ∧ tree.Shows child q ∧
      (Phrase.node kind ps).Has (.node parentKind parts) ∧ ∃ p ∈ ps, p.Has q := by
  intro tree
  have hwf := (Phrase.node kind ps).toTree_wellFormed
  obtain ⟨parent, hparent⟩ := Option.isSome_iff_exists.mp (hwf.parent_of_ne_root child h hroot)
  have hchild := hwf.child_of_parent hparent
  obtain ⟨r, hhas, hshows⟩ := exists_shows_toTree _ (lt_size_of_child hchild)
  cases r with
  | leaf token =>
    rw [hshows.leaf.1] at hchild
    cases hchild
  | node parentKind parts =>
    obtain ⟨q, hq, hshowsq⟩ := hshows.exists_part hchild
    refine ⟨parent, parentKind, parts, q, hparent, hshows, hq, hshowsq, hhas, ?_⟩
    cases hhas with
    | refl => exact ⟨q, hq, .refl q⟩
    | @part _ _ p _ hp hhas => exact ⟨p, hp, hhas.trans (.part hq (.refl q))⟩

/-- The children of a node do not overlap. -/
lemma pairwise_children {kind : NodeKind} (hsolid : ∀ p ∈ ps, p.Solid)
    (horder : Token.InOrder (Phrase.tokensAll ps)) (id : Nat) :
    let tree := (Phrase.node kind ps).toTree
    (tree.children id).Pairwise fun a b => (tree.span a).stop ≤ (tree.span b).start := by
  intro tree
  by_cases hid : id < tree.size
  · obtain ⟨q, hhas, hshows⟩ := exists_shows_toTree _ hid
    cases q with
    | leaf token =>
      rw [hshows.leaf.1]
      exact .nil
    | node kind' parts =>
      have hspans : (tree.children id).map tree.span = parts.map Phrase.span :=
        map_eq_map_iff_forall₂.mpr (hshows.parts.imp fun _ _ h => h.span_eq)
      rw [← List.pairwise_map (R := fun s t : Span => s.stop ≤ t.start), hspans]
      exact Phrase.pairwise_span (solid_of_has hsolid hhas)
        (horder.of_sublist hhas.isInfix_tokens.sublist)
  · rw [children_of_size_le (Nat.le_of_not_lt hid)]
    exact .nil

end Tree

/-- A node other than the root takes the bytes of some tokens that stand together in the text, inside
of its parent. -/
lemma exists_reach {source : String} {tree : Tree} (h : (parse source).tree = some tree) {id : Nat}
    (hid : id < tree.size) (hroot : id ≠ tree.root) :
    ∃ parent tokens, tree.parent id = some parent ∧ tokens ≠ [] ∧
      tokens <:+: Text.tokens source.toList ∧ tree.span id = Token.reach tokens ∧
      (tree.span id).start < (tree.span id).stop ∧ (tree.span id).Within (tree.span parent) := by
  obtain ⟨ps, rfl, _, hsolid, hsub, htogether⟩ := exists_kept h
  have horder := (Text.inOrder_tokens source.toList).of_sublist hsub
  obtain ⟨parent, _, _, q, hparent, hshows, hq, hshowsq, hhas, p, hp, hpq⟩ :=
    Tree.exists_shows_below hid hroot
  have hparts := Tree.solid_of_has hsolid hhas
  obtain ⟨hspan, hfilled, hwithin⟩ := Phrase.span_of_part hparts
    (horder.of_sublist hhas.isInfix_tokens.sublist) hq
  rw [← hshows.span_eq] at hwithin
  rw [hshowsq.span_eq]
  exact ⟨parent, q.tokens, hparent, (hparts q hq).tokens_ne_nil,
    hpq.isInfix_tokens.trans (htogether p hp), hspan, hfilled, hwithin⟩

/-- The spans of nodes are faithful. The children of a node do not overlap. A node other than the
root reaches from its first terminal up to its last one, inside of its parent, and the text under
its span has its terminals as tokens. -/
theorem node_spans_faithful {source : String} {tree : Tree} (h : (parse source).tree = some tree) :
    (∀ id, (tree.children id).Pairwise fun a b => (tree.span a).stop ≤ (tree.span b).start) ∧
      ∀ id < tree.size, id ≠ tree.root →
        (∃ first last, (tree.terminals id).head? = some first ∧
          (tree.terminals id).getLast? = some last ∧
          tree.span id = ⟨first.span.start, last.span.stop⟩) ∧
        (tree.span id).start < (tree.span id).stop ∧
        (∃ parent, tree.parent id = some parent ∧ (tree.span id).Within (tree.span parent)) ∧
        ∃ before slice after : String, source = before ++ slice ++ after ∧
          tree.span id = ⟨before.utf8ByteSize, (before ++ slice).utf8ByteSize⟩ ∧
          (scan slice).tokens.map (Token.shift (tree.span id).start) =
            tree.terminals id ++ [.eof (tree.span id).stop] := by
  obtain ⟨ps, rfl, hregular, hsolid, hsub, htogether⟩ := exists_kept h
  have horder := (Text.inOrder_tokens source.toList).of_sublist hsub
  have hwf := (Phrase.node .package ps).toTree_wellFormed
  refine ⟨Tree.pairwise_children hsolid horder, fun id hid hroot => ?_⟩
  obtain ⟨parent, kind, parts, q, hparent, hshows, hq, hshowsq, hhas, p, hp, hpq⟩ :=
    Tree.exists_shows_below hid hroot
  have hparts := Tree.solid_of_has hsolid hhas
  obtain ⟨hspan, hfilled, hwithin⟩ := Phrase.span_of_part hparts
    (horder.of_sublist hhas.isInfix_tokens.sublist) hq
  have hterminals : (Phrase.node .package ps).toTree.terminals id = q.tokens :=
    hshowsq.terminals_eq hwf q fun k qs hqs => hregular k qs (hhas.trans (.part hq hqs))
  obtain ⟨first, last, hfirst, hlast, _⟩ := Token.exists_ends (hparts q hq).tokens_ne_nil
  obtain ⟨before, after, htokens⟩ := hpq.isInfix_tokens.trans (htogether p hp)
  obtain ⟨a, b, c, hsource, hstart, hstop, hslice⟩ := exists_scan_slice htokens.symm hfirst hlast
  rw [Token.reach_eq hfirst hlast] at hspan
  rw [← hshows.span_eq, hspan] at hwithin
  rw [hspan] at hfilled
  rw [hterminals, hshowsq.span_eq, hspan]
  exact ⟨⟨first, last, hfirst, hlast, rfl⟩, hfilled, ⟨parent, hparent, hwithin⟩, a, b, c, hsource,
    by rw [hstart, hstop], hslice⟩

/-- A text with a character that cannot be read, a comment, and a statement that is left out. -/
def unreadableText : String := "SELECT a.x é, b // ;\nFROM t a ) ; SELECT"

theorem node_spans_faithful_unreadableText : ∃ tree, (parse unreadableText).tree = some tree ∧
    (parse unreadableText).hasErrors = true ∧ tree.kind 14 = .selectList ∧
    (tree.span 14).Within (tree.span 22) ∧
    ∃ before slice after : String, unreadableText = before ++ slice ++ after ∧
      before.utf8ByteSize = 7 ∧ (before ++ slice).utf8ByteSize = 16 ∧
      (scan slice).tokens.map (Token.shift 7) = tree.terminals 14 ++ [.eof 16] := by
  have hread : ((parse unreadableText).hasErrors && (parse unreadableText).tree.any fun tree =>
      tree.kind 14 = .selectList ∧ 14 < tree.size ∧ 14 ≠ tree.root ∧ tree.parent 14 = some 22 ∧
      tree.span 14 = ⟨7, 16⟩) = true := by
    decide +kernel
  simp only [Bool.and_eq_true, Option.any_eq_true, decide_eq_true_eq] at hread
  obtain ⟨herrors, tree, htree, hkind, hsize, hroot, hparent, hspan⟩ := hread
  obtain ⟨_, _, ⟨parent, hparent', hwithin⟩, before, slice, after, hsource, hsizes, hslice⟩ :=
    (node_spans_faithful htree).2 14 hsize hroot
  rw [hparent, Option.some.injEq] at hparent'
  rw [hspan] at hsizes hslice
  obtain ⟨hbefore, hafter⟩ := Span.mk.inj hsizes
  exact ⟨tree, htree, herrors, hkind, hparent' ▸ hwithin, before, slice, after, hsource,
    hbefore.symm, hafter.symm, hslice⟩

end NullGuard
