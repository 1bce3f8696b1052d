import NullGuard.Proofs.AlikeTrees
import NullGuard.Proofs.FlaggedJoins

/-!
# Texts that make no difference

The grammar and the check look at the kinds of tokens. Of the text of a name they ask only which
contextual word it spells and whether it is the same as another name. Lists of tokens that agree in
this are read as the same tree, and the same columns of the same joins are reported.
-/

namespace NullGuard

namespace Token

/-- Lists of tokens that agree in kinds, in the contextual words that their names spell, and in which
of their names are the same. -/
structure Indistinct (tokens tokens' : List Token) : Prop where
  kinds : tokens.map kind = tokens'.map kind
  words : ∀ x ∈ tokens.zip tokens', x.1.kind = .identifier →
    ContextWord.lookup x.1.text = ContextWord.lookup x.2.text
  names : ∀ x ∈ tokens.zip tokens', ∀ y ∈ tokens.zip tokens',
    x.1.kind = .identifier → y.1.kind = .identifier →
      Text.sameIgnoringCase x.1.text y.1.text = Text.sameIgnoringCase x.2.text y.2.text

/-- Tokens of one kind; names also have to stand at the same place of the lists. -/
def Matched (tokens tokens' : List Token) (a b : Token) : Prop :=
  a.kind = b.kind ∧ (a.kind = .identifier → (a, b) ∈ tokens.zip tokens')

/-- The texts of names at the same place of the lists. -/
def Renamed (tokens tokens' : List Token) (name name' : String) : Prop :=
  ∃ x ∈ tokens.zip tokens', x.1.kind = .identifier ∧ x.1.text = name ∧ x.2.text = name'

/-- The end tokens that close two lists go together if the lists do. -/
lemma forall₂_closed {R : Token → Token → Prop} (hkind : ∀ a b, R a b → a.kind = b.kind)
    (heof : ∀ n m, R (eof n) (eof m)) {tokens tokens' : List Token}
    (h : List.Forall₂ R tokens tokens') : List.Forall₂ R (closed tokens) (closed tokens') := by
  rcases List.eq_nil_or_concat' tokens with rfl | ⟨u, a, rfl⟩
  · obtain rfl := List.forall₂_nil_left_iff.mp h
    exact .cons (heof 0 0) .nil
  · obtain ⟨v, w, huv, hw, rfl⟩ := forall₂_append_left.mp h
    obtain ⟨b, _, hab, hnil, rfl⟩ := List.forall₂_cons_left_iff.mp hw
    obtain rfl := List.forall₂_nil_left_iff.mp hnil
    unfold closed
    rw [List.getLast?_concat, List.getLast?_concat]
    simp only [← hkind a b hab]
    split
    · exact h
    · exact List.rel_append h (.cons (heof _ _) .nil)

namespace Indistinct

variable {tokens tokens' : List Token}

lemma forall₂_matched (h : Indistinct tokens tokens') :
    List.Forall₂ (Matched tokens tokens') tokens tokens' := by
  have hkinds : List.Forall₂ Eq (tokens.map kind) (tokens'.map kind) := by
    rw [h.kinds]
    exact List.forall₂_refl _
  rw [List.forall₂_map_left_iff, List.forall₂_map_right_iff] at hkinds
  obtain ⟨hlength, hzip⟩ := List.forall₂_iff_zip.mp hkinds
  exact List.forall₂_iff_zip.mpr ⟨hlength, fun hab => ⟨hzip hab, fun _ => hab⟩⟩

lemma forall₂_closed (h : Indistinct tokens tokens') :
    List.Forall₂ (Matched tokens tokens') (closed tokens) (closed tokens') := by
  apply Token.forall₂_closed (fun a b hab => hab.1) _ h.forall₂_matched
  intro n m
  exact ⟨rfl, fun hname => by cases hname⟩

lemma likeness (h : Indistinct tokens tokens') : Likeness (Matched tokens tokens') where
  face_eq hab := congrArg TokenKind.face hab.1
  spells_eq := by
    intro a b hab word
    unfold spells
    rw [← hab.1]
    by_cases hname : a.kind = .identifier
    · rw [h.words (a, b) (hab.2 hname) hname]
    · simp [hname]

lemma carries (tokens tokens' : List Token) :
    Carries (Matched tokens tokens') (Renamed tokens tokens') fun _ _ => True where
  kind_eq hab := hab.1
  text := by
    intro a b hab hname
    exact ⟨(a, b), hab.2 hname, hname, rfl, rfl⟩
  span _ := trivial
  cover _ _ := trivial

lemma renamed_eq (h : Indistinct tokens tokens') {a b a' b' : String}
    (ha : Renamed tokens tokens' a a') (hb : Renamed tokens tokens' b b') :
    Text.sameIgnoringCase a b = Text.sameIgnoringCase a' b' := by
  obtain ⟨x, hx, hname, rfl, rfl⟩ := ha
  obtain ⟨y, hy, hname', rfl, rfl⟩ := hb
  exact h.names x hx y hy hname hname'

end Indistinct

end Token

namespace Diagnostic

/-- A diagnostic with all that it says but where. -/
def unplaced (d : Diagnostic) : Diagnostic :=
  { d with labels := d.labels.map fun label => { label with span := .zero } }

lemma any_isError_map_unplaced (ds : List Diagnostic) :
    (ds.map unplaced).any isError = ds.any isError := by
  rw [List.any_map]
  rfl

end Diagnostic

lemma Failure.unplaced_eq {failure failure' : Failure}
    (hexpected : failure.expected = failure'.expected)
    (hkind : failure.place.current.kind = failure'.place.current.kind) :
    failure.diagnostic.unplaced = failure'.diagnostic.unplaced := by
  unfold diagnostic message Cursor.errorHere Cursor.kind
  rw [hexpected, hkind]
  rfl

namespace Tree

/-- Trees with the same nodes, but for spans and texts. -/
structure SameLinks (tree tree' : Tree) : Prop where
  root_eq : tree'.root = tree.root
  size_eq : tree'.size = tree.size
  kind_eq : ∀ id, tree'.kind id = tree.kind id
  parent_eq : ∀ id, tree'.parent id = tree.parent id
  children_eq : ∀ id, tree'.children id = tree.children id

/-- Linting a tree comes to its end, and its findings are about these joins and columns. -/
structure Reports (tree : Tree) (config : Config) (flagged : List (NodeId × List NodeId)) :
    Prop where
  error : (tree.lint config).error = none
  joins : tree.flaggedJoins config = flagged
  findings : List.Forall₂ (tree.Tells config) flagged (tree.lint config).findings

variable {tree tree' : Tree} {same : String → String → Prop}

lemma Shaped.reports (h : tree.Shaped) (config : Config) :
    tree.Reports config (tree.flaggedJoins config) :=
  ⟨(h.lint_eq config).1, rfl, h.forall₂_tells config⟩

namespace Embeds

/-- A tree that lies in another one under its own numbers is the same if the root is. -/
lemma sameLinks (h : tree.Embeds id same tree') (hsize : tree'.size = tree.size)
    (hroots : tree'.root = tree.root)
    (hroot : tree'.children tree.root = tree.children tree.root) : tree.SameLinks tree' := by
  have hnode (i : Nat) : tree'.kind i = tree.kind i ∧ tree'.parent i = tree.parent i ∧
      tree'.children i = tree.children i := by
    by_cases hkind : tree.kind i = .package
    · by_cases hi : i < tree.size
      · obtain rfl := (h.shaped.package_iff hi).mp hkind
        refine ⟨?_, ?_, hroot⟩
        · rw [h.shaped.kind_root, ← hroots, h.shaped'.kind_root]
        · rw [h.shaped.parent_root, ← hroots, h.shaped'.parent_root]
      · have hnode : tree'.node i = tree.node i := by
          rw [node_of_size_le (by omega), node_of_size_le (by omega)]
        unfold kind parent children
        rw [hnode]
        exact ⟨rfl, rfl, rfl⟩
    · refine ⟨h.kind_eq hkind, (h.parent_eq hkind).trans ?_, (h.children_eq hkind).trans ?_⟩
      · exact Option.map_id_apply
      · exact List.map_id _
  exact ⟨hroots, hsize, fun i => (hnode i).1, fun i => (hnode i).2.1, fun i => (hnode i).2.2⟩

lemma flaggedJoins_eq (h : tree.Embeds id same tree') (hlinks : tree.SameLinks tree')
    (config : Config) : tree'.flaggedJoins config = tree.flaggedJoins config := by
  have hflagged (i : Nat) : tree'.flagged? config i = tree.flagged? config i := by
    by_cases hkind : tree.kind i = .package
    · unfold flagged?
      rw [hlinks.kind_eq, if_neg (by simp [hkind]), if_neg (by simp [hkind])]
    · have hmap : tree'.flagged? config (id i) = _ := h.flagged?_map hkind
      rwa [List.map_id_fun, Prod.map_id, Option.map_id] at hmap
  have hbelow : tree'.descendants tree.root = tree.descendants tree.root := by
    rw [h.shaped'.descendants_eq, h.shaped.descendants_eq, hlinks.children_eq]
    apply List.flatMap_congr
    intro child hchild
    have hmap := h.descendants_map (h.shaped.kind_child_ne hchild)
    rw [List.map_id] at hmap
    rw [← hmap]
    rfl
  unfold flaggedJoins
  rw [hlinks.root_eq, hbelow]
  apply List.filterMap_congr
  intro i _
  exact hflagged i

end Embeds

end Tree

lemma Phrase.relocate_zero (ps : List Phrase) : relocate ps 0 (sizeAll ps) = id := by
  funext i
  unfold relocate
  split
  · simp [*]
  · rfl

/-- Alike phrases lie under the same numbers in the trees of their packages. -/
lemma Phrase.Alike.lieAll_package {R : Token → Token → Prop} {ps qs : List Phrase}
    (h : List.Forall₂ (Alike R) ps qs) :
    LieAll (Phrase.node .package qs).toTree.nodes.toList 0 (some (sizeAll ps)) qs :=
  Alike.sizeAll_eq h ▸ Phrase.lieAll_package qs

namespace Arranged

variable {ps qs : List Phrase} {R : Token → Token → Prop} {same : String → String → Prop}
  {moved : Span → Span → Prop}

/-- Packages of alike phrases are laid out as the same tree, and the same is reported of them. -/
lemma sameLinks (hR : Token.Carries R same moved)
    (hsame : ∀ {a b a' b' : String}, same a a' → same b b' →
      Text.sameIgnoringCase a b = Text.sameIgnoringCase a' b')
    (hps : Arranged ps) (hqs : Arranged qs) (h : List.Forall₂ (Phrase.Alike R) ps qs) :
    (Phrase.node .package ps).toTree.SameLinks (Phrase.node .package qs).toTree ∧
      ∀ config, ∃ flagged, (Phrase.node .package ps).toTree.Reports config flagged ∧
        (Phrase.node .package qs).toTree.Reports config flagged := by
  have hlies := Phrase.Alike.lieAll_package h
  have hembeds := (embeds hR hsame hps h hqs.shaped hlies (Nat.le_refl _)).1
  rw [Phrase.relocate_zero] at hembeds
  have hsize : (Phrase.node .package qs).toTree.size = (Phrase.node .package ps).toTree.size := by
    rw [Phrase.size_toTree, Phrase.size_toTree, Phrase.size, Phrase.size, Phrase.inside,
      Phrase.inside, Phrase.Alike.sizeAll_eq h]
  have hroot : (Phrase.node .package qs).toTree.children (Phrase.sizeAll ps) =
      (Phrase.node .package ps).toTree.children (Phrase.sizeAll ps) := by
    have hnumbers : Phrase.numbers (0 + 0) qs = (Phrase.numbers 0 ps).map id :=
      Phrase.Alike.numbers_eq h fun _ _ _ => rfl
    rw [List.map_id] at hnumbers
    rw [Phrase.children_package, ← Phrase.Alike.sizeAll_eq h, Phrase.children_package]
    exact hnumbers
  have hlinks := hembeds.sameLinks hsize (Phrase.Alike.sizeAll_eq h) hroot
  refine ⟨hlinks, fun config => ⟨_, hps.shaped.reports config, ?_⟩⟩
  rw [← hembeds.flaggedJoins_eq hlinks config]
  exact hqs.shaped.reports config

end Arranged

/-- Reading and linting tell two lists of tokens apart only by their kinds, by the contextual words
that names spell and by which names are the same. -/
theorem parseTokens_indistinct {tokens tokens' : List Token} (h : Token.Indistinct tokens tokens')
    (scanned : List Diagnostic) :
    (parseTokens scanned tokens).diagnostics.map Diagnostic.unplaced =
        (parseTokens scanned tokens').diagnostics.map Diagnostic.unplaced ∧
      Option.Rel (fun tree tree' => tree.SameLinks tree' ∧
          ∀ config, ∃ flagged, tree.Reports config flagged ∧ tree'.Reports config flagged)
        (parseTokens scanned tokens).tree (parseTokens scanned tokens').tree := by
  have hparts := Part.all_alike h.likeness h.forall₂_closed
  obtain ⟨hdiagnostics, htree⟩ := Parsed.ofParts_eq scanned (Part.all (.ofTokens tokens))
  obtain ⟨hdiagnostics', htree'⟩ := Parsed.ofParts_eq scanned (Part.all (.ofTokens tokens'))
  rw [← parseTokens] at hdiagnostics htree hdiagnostics' htree'
  have hunplaced : (parseTokens scanned tokens).diagnostics.map Diagnostic.unplaced =
      (parseTokens scanned tokens').diagnostics.map Diagnostic.unplaced := by
    rw [hdiagnostics, hdiagnostics', List.map_append, List.map_append, List.map_map, List.map_map]
    congr 1
    rw [← List.forall₂_eq_eq_eq, List.forall₂_map_left_iff, List.forall₂_map_right_iff]
    apply (Part.failures_alike hparts).imp
    rintro failure failure' ⟨hexpected, hplace⟩
    exact Failure.unplaced_eq hexpected hplace.1
  have herrors : (parseTokens scanned tokens').hasErrors =
      (parseTokens scanned tokens).hasErrors := by
    unfold Parsed.hasErrors
    rw [← Diagnostic.any_isError_map_unplaced, ← hunplaced, Diagnostic.any_isError_map_unplaced]
  refine ⟨hunplaced, ?_⟩
  rw [htree, htree', herrors, ← Part.any_isStatement_eq hparts]
  split
  · exact .none
  · exact .some (Arranged.sameLinks (Token.Indistinct.carries tokens tokens') h.renamed_eq
      (Arranged.all tokens) (Arranged.all tokens') (Part.phrases_alike hparts))

/-- The tokens of `ВЫБРАТЬ P.y ИЗ t ЛЕВОЕ СОЕДИНЕНИЕ u p ПО 2`, without their places. -/
def renamedTokens : List Token :=
  [⟨.keyword .select, .zero, "ВЫБРАТЬ"⟩, ⟨.identifier, .zero, "P"⟩, ⟨.dot, .zero, "."⟩,
    ⟨.identifier, .zero, "y"⟩, ⟨.keyword .from_, .zero, "ИЗ"⟩, ⟨.identifier, .zero, "t"⟩,
    ⟨.keyword .left, .zero, "ЛЕВОЕ"⟩, ⟨.keyword .join, .zero, "СОЕДИНЕНИЕ"⟩,
    ⟨.identifier, .zero, "u"⟩, ⟨.identifier, .zero, "p"⟩, ⟨.keyword .on, .zero, "ПО"⟩,
    ⟨.number, .zero, "2"⟩]

theorem parseTokens_renamedTokens : Token.Indistinct leftJoinTokens renamedTokens ∧
    ((parseTokens [] leftJoinTokens).tree.map fun tree => tree.flaggedJoins {}) =
      some [(24, [4])] ∧
    Option.Rel (fun tree tree' => tree.SameLinks tree' ∧
        ∀ config, ∃ flagged, tree.Reports config flagged ∧ tree'.Reports config flagged)
      (parseTokens [] leftJoinTokens).tree (parseTokens [] renamedTokens).tree := by
  have h : Token.Indistinct leftJoinTokens renamedTokens :=
    ⟨by decide, by decide +kernel, by decide +kernel⟩
  exact ⟨h, by decide +kernel, (parseTokens_indistinct h []).2⟩

end NullGuard
