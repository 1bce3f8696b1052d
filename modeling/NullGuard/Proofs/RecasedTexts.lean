import NullGuard.Proofs.Indistinct
import NullGuard.Proofs.LetterCase

namespace NullGuard

namespace Text

lemma sameIgnoringCase_of_raise_eq {a b a' b' : String} (ha : raise a = raise a')
    (hb : raise b = raise b') : sameIgnoringCase a b = sameIgnoringCase a' b' := by
  unfold sameIgnoringCase
  rw [← lowered_raise a, ← lowered_raise b, ha, hb, lowered_raise, lowered_raise]

end Text

namespace Token

/-- Tokens of one kind at one place whose texts differ in the case of letters only. -/
structure Recased (a b : Token) : Prop where
  kind_eq : a.kind = b.kind
  span_eq : a.span = b.span
  text_eq : Text.raise a.text = Text.raise b.text

namespace Recased

lemma of_raise_eq {a b : Token} (h : a.raise = b.raise) : Recased a b where
  kind_eq := (congrArg kind h :)
  span_eq := (congrArg span h :)
  text_eq := (congrArg text h :)

lemma likeness : Likeness Recased where
  face_eq h := congrArg TokenKind.face h.kind_eq
  spells_eq := by
    intro a b h word
    unfold spells ContextWord.lookup
    rw [h.kind_eq, ← Text.capitals_raise a.text, h.text_eq, Text.capitals_raise]

lemma carries : Carries Recased (fun name name' => Text.raise name = Text.raise name') Eq where
  kind_eq h := h.kind_eq
  text h _ := h.text_eq
  span h := h.span_eq
  cover hs ht := by rw [hs, ht]

end Recased

end Token

/-- The nodes of alike packages stand at the same places if their tokens do. -/
lemma Arranged.span_eq {ps qs : List Phrase} {R : Token → Token → Prop}
    {same : String → String → Prop} (hR : Token.Carries R same Eq) (hps : Arranged ps)
    (h : List.Forall₂ (Phrase.Alike R) ps qs) (id : Nat) :
    (Phrase.node .package qs).toTree.span id = (Phrase.node .package ps).toTree.span id := by
  have hsize := Phrase.Alike.sizeAll_eq h
  rcases Nat.lt_trichotomy id (Phrase.sizeAll ps) with hlt | rfl | hgt
  · have hspan :=
      (Phrase.Alike.node_alike hR h hps.solid (Phrase.Alike.lieAll_package h) hlt).span
    rw [Phrase.relocate_zero] at hspan
    exact hspan.symm
  · have hroot (rs : List Phrase) : (Phrase.node .package rs).toTree.span (Phrase.sizeAll rs) =
        (Phrase.node .package rs).span := (Tree.shows_toTree (.node .package rs)).span_eq
    rw [hroot, ← hsize, hroot]
    rcases List.eq_nil_or_concat' ps with rfl | ⟨_, _, rfl⟩
    · rw [List.forall₂_nil_left_iff.mp h]
    · exact (Phrase.Alike.span_rel hR (.node h)
        (Phrase.solid_node.mpr ⟨by simp, hps.solid⟩)).symm
  · have hout {rs : List Phrase} (hrs : Phrase.sizeAll rs < id) :
        (Phrase.node .package rs).toTree.size ≤ id := by
      rwa [Phrase.size_toTree, Phrase.size, Phrase.inside]
    unfold Tree.span
    rw [Tree.node_of_size_le (hout hgt), Tree.node_of_size_le (hout (hsize ▸ hgt))]

namespace Diagnostic

def places (d : Diagnostic) : Option Span × List Span := (d.anchor, d.related.map Label.span)

end Diagnostic

namespace Tree

/-- Trees with the same nodes at the same places. -/
structure SameNodes (tree tree' : Tree) : Prop extends tree.SameLinks tree' where
  span_eq : ∀ id, tree'.span id = tree.span id

variable {tree : Tree} {config : Config}

lemma Tells.places_eq {flagged : NodeId × List NodeId} {finding : Diagnostic}
    (h : tree.Tells config flagged finding) :
    finding.places = (some (tree.span flagged.1), flagged.2.map tree.span) := by
  obtain ⟨_, review, hreview, hcolumns, rfl⟩ := h
  rw [Diagnostic.places, tree.related_finding _ _ (join_notMem_columns hreview), hcolumns]
  rfl

lemma Reports.places_eq {flagged : List (NodeId × List NodeId)} (h : tree.Reports config flagged) :
    (tree.lint config).findings.map Diagnostic.places =
      flagged.map fun f => (some (tree.span f.1), f.2.map tree.span) := by
  apply map_eq_map_iff_forall₂.mpr
  exact h.findings.flip.imp fun _ _ htells => Tells.places_eq htells

end Tree

namespace Text.Recased

variable {source source' : String}

lemma scan_diagnostics_eq (h : Text.Recased source source') :
    (scan source').diagnostics = (scan source).diagnostics := by
  rw [← (scan_raise source').2, ← h.raise_eq, (scan_raise source).2]

lemma forall₂_tokens (h : Text.Recased source source') :
    List.Forall₂ Token.Recased (scan source).tokens (scan source').tokens := by
  have htokens : (scan source).tokens.map Token.raise = (scan source').tokens.map Token.raise := by
    rw [← (scan_raise source).1, h.raise_eq, (scan_raise source').1]
  exact (map_eq_map_iff_forall₂.mp htokens).imp fun _ _ => Token.Recased.of_raise_eq

lemma forall₂_parts (h : Text.Recased source source') :
    List.Forall₂ (Part.Alike Token.Recased Token.Recased)
      (Part.all (.ofTokens (scan source).tokens)) (Part.all (.ofTokens (scan source').tokens)) := by
  apply Part.all_alike Token.Recased.likeness
  rw [Token.closed_scan, Token.closed_scan]
  exact h.forall₂_tokens

lemma parse_diagnostics_eq (h : Text.Recased source source') :
    (parse source').diagnostics = (parse source).diagnostics := by
  have hparts := h.forall₂_parts
  unfold parse parseTokens
  rw [(Parsed.ofParts_eq _ _).1, (Parsed.ofParts_eq _ _).1, h.scan_diagnostics_eq]
  generalize Part.all (.ofTokens (scan source).tokens) = parts at hparts
  generalize Part.all (.ofTokens (scan source').tokens) = parts' at hparts
  have hfailures : (parts.filterMap Part.failure?).map Failure.diagnostic =
      (parts'.filterMap Part.failure?).map Failure.diagnostic := by
    apply map_eq_map_iff_forall₂.mpr
    apply (Part.failures_alike hparts).imp
    rintro failure failure' ⟨hexpected, hplace⟩
    exact Failure.diagnostic_eq hexpected hplace.kind_eq hplace.span_eq
  rw [hfailures]

/-- The packages that are read of the texts have the same nodes, and the same columns of the same
joins are reported of them. -/
lemma package (h : Text.Recased source source') :
    let tree := (Phrase.node .package (Token.phrases (scan source).tokens)).toTree
    let tree' := (Phrase.node .package (Token.phrases (scan source').tokens)).toTree
    tree.SameNodes tree' ∧
      ∀ config, ∃ flagged, tree.Reports config flagged ∧ tree'.Reports config flagged := by
  have hphrases := Part.phrases_alike h.forall₂_parts
  obtain ⟨hlinks, hreports⟩ := Arranged.sameLinks Token.Recased.carries
    Text.sameIgnoringCase_of_raise_eq (Arranged.all _) (Arranged.all _) hphrases
  exact ⟨⟨hlinks, Arranged.span_eq Token.Recased.carries (Arranged.all _) hphrases⟩, hreports⟩

lemma parse_tree_rel (h : Text.Recased source source') :
    Option.Rel Tree.SameNodes (parse source).tree (parse source').tree := by
  have herrors : (parse source').hasErrors = (parse source).hasErrors := by
    rw [Parsed.hasErrors, h.parse_diagnostics_eq, Parsed.hasErrors]
  unfold parse parseTokens at herrors ⊢
  rw [(Parsed.ofParts_eq _ _).2, (Parsed.ofParts_eq _ _).2, herrors,
    ← Part.any_isStatement_eq h.forall₂_parts]
  split
  · exact .none
  · exact .some h.package.1

lemma lint_places_eq (h : Text.Recased source source') (config : Config) :
    (lint config source').report.findings.map Diagnostic.places =
      (lint config source).report.findings.map Diagnostic.places := by
  obtain ⟨hnodes, hreports⟩ := h.package
  obtain ⟨flagged, hreport, hreport'⟩ := hreports config
  rw [lint_findings, lint_findings, hreport.places_eq, hreport'.places_eq, funext hnodes.span_eq]

end Text.Recased

/-- The case of letters makes no difference, wherever they stand. The tokens have the same kinds and
places, the same is wrong with the text and with what is read of it, the trees have the same nodes,
and the findings point to the same places in the same order. -/
theorem recased_texts_alike {source source' : String} (h : Text.Recased source source') :
    (scan source').tokens.map (fun token => (token.kind, token.span)) =
        (scan source).tokens.map (fun token => (token.kind, token.span)) ∧
      (scan source').diagnostics = (scan source).diagnostics ∧
      (parse source').diagnostics = (parse source).diagnostics ∧
      Option.Rel Tree.SameNodes (parse source).tree (parse source').tree ∧
      ∀ config, (lint config source').report.findings.map Diagnostic.places =
        (lint config source).report.findings.map Diagnostic.places := by
  refine ⟨?_, h.scan_diagnostics_eq, h.parse_diagnostics_eq, h.parse_tree_rel, h.lint_places_eq⟩
  symm
  apply map_eq_map_iff_forall₂.mpr
  apply h.forall₂_tokens.imp
  intro token token' htoken
  rw [htoken.kind_eq, htoken.span_eq]

theorem recased_texts_alike_mixed :
    let small := "выбрать ё.ж, \"й\" # из t left join u ё on 1 // z"
    let mixed := "ВыбратЬ Ё.ж, \"Й\" # ИЗ T Left joIN u ё ON 1 // Z"
    Text.Recased small mixed ∧ (scan mixed).diagnostics = (scan small).diagnostics ∧
      Option.Rel Tree.SameNodes (parse small).tree (parse mixed).tree ∧
      (scan small).diagnostics.map Diagnostic.code = [some "S001"] ∧
      (lint {} mixed).report.findings.map Diagnostic.places = [(some ⟨36, 55⟩, [⟨15, 20⟩])] := by
  intro small mixed
  have h : Text.Recased small mixed := by decide +kernel
  obtain ⟨_, hscan, _, htree, hplaces⟩ := recased_texts_alike h
  have hsmall : (scan small).diagnostics.map Diagnostic.code = [some "S001"] ∧
      (lint {} small).report.findings.map Diagnostic.places =
        [(some ⟨36, 55⟩, [⟨15, 20⟩])] := by decide +kernel
  exact ⟨h, hscan, htree, hsmall.1, (hplaces {}).trans hsmall.2⟩

end NullGuard
