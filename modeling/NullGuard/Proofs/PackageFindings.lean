import NullGuard.Proofs.AlikeTrees
import NullGuard.Proofs.FlaggedJoins
import NullGuard.Proofs.TextSeam

namespace NullGuard

def Label.shift (n : Nat) (label : Label) : Label := { label with span := label.span.shift n }

def Diagnostic.shift (n : Nat) (d : Diagnostic) : Diagnostic :=
  { d with labels := d.labels.map (Label.shift n) }

/-- The same token `n` bytes further on. -/
def Token.Shifted (n : Nat) (token token' : Token) : Prop := token' = token.shift n

lemma Diagnostic.shift_zero (d : Diagnostic) : d.shift 0 = d := by
  have hlabel (label : Label) : label.shift 0 = label := rfl
  unfold shift
  rw [List.map_congr_left fun label _ => hlabel label, List.map_id']

lemma Token.carries_shifted (n : Nat) :
    Carries (Shifted n) Eq fun span span' => span' = span.shift n where
  kind_eq := by
    rintro a _ rfl
    rfl
  text := by
    rintro a _ rfl _
    rfl
  span := by
    rintro a _ rfl
    rfl
  cover := by
    rintro s _ t _ rfl rfl
    unfold Span.cover Span.shift
    simp only [Nat.add_min_add_right, Nat.add_max_add_right]

namespace Phrase

def Joinless (p : Phrase) : Prop := ∀ parts, ¬p.Has (.node .join parts)

@[simp]
lemma joinless_leaf (token : Token) : (leaf token).Joinless := fun _ => not_leaf_has_node

@[simp]
lemma joinless_node {kind : NodeKind} {parts : List Phrase} :
    (node kind parts).Joinless ↔ kind ≠ .join ∧ ∀ p ∈ parts, p.Joinless := by
  constructor
  · intro h
    refine ⟨?_, fun p hp qs hhas => h qs (.part hp hhas)⟩
    rintro rfl
    exact h parts (.refl _)
  · rintro ⟨hkind, hparts⟩ qs hhas
    cases hhas with
    | refl => exact hkind rfl
    | part hp hhas => exact hparts _ hp qs hhas

end Phrase

namespace Tree

variable {tree tree' : Tree} {f : NodeId → NodeId} {config : Config} {id n : Nat}

/-- The findings about nodes and all below them. -/
def foundFrom (tree : Tree) (config : Config) (ids : List NodeId) : List Diagnostic :=
  (ids.flatMap fun id => id :: tree.descendants id).filterMap (tree.found? config)

lemma foundFrom_append (config : Config) (ids ids' : List NodeId) :
    tree.foundFrom config (ids ++ ids') =
      tree.foundFrom config ids ++ tree.foundFrom config ids' := by
  unfold foundFrom
  rw [List.flatMap_append, List.filterMap_append]

lemma Shaped.foundFrom_children (h : tree.Shaped) {id : Nat} (hkind : tree.kind id ≠ .join) :
    tree.foundFrom config [id] = tree.foundFrom config (tree.children id) := by
  have hfound : tree.found? config id = none := by rw [found?, if_neg hkind]
  unfold foundFrom
  rw [List.flatMap_singleton, List.filterMap_cons_none hfound, h.descendants_eq]

mutual

/-- Without joins there are no findings. -/
lemma Shaped.foundFrom_joinless (h : tree.Shaped) (p : Phrase) {base : Nat} {parent : Option NodeId}
    (hlies : p.Lies tree.nodes.toList base parent) (hp : p.Joinless) :
    tree.foundFrom config [base + p.inside] = [] := by
  have hnode : tree.node (base + p.inside) = p.top base parent := hlies.node_eq
  have hkind : tree.kind (base + p.inside) = p.kind := by rw [kind, hnode, Phrase.top_kind]
  cases p with
  | leaf token =>
    rw [h.foundFrom_children (by simp [hkind]), children, hnode]
    rfl
  | node kind parts =>
    obtain ⟨hjoin, hparts⟩ := Phrase.joinless_node.mp hp
    rw [h.foundFrom_children (by rw [hkind]; exact hjoin), Phrase.inside, hlies.children_eq]
    exact h.foundFrom_allJoinless parts hlies.parts hparts

lemma Shaped.foundFrom_allJoinless (h : tree.Shaped) (ps : List Phrase) {base : Nat}
    {parent : Option NodeId} (hlies : Phrase.LieAll tree.nodes.toList base parent ps)
    (hps : ∀ p ∈ ps, p.Joinless) : tree.foundFrom config (Phrase.numbers base ps) = [] := by
  cases ps with
  | nil => rfl
  | cons p ps =>
    obtain ⟨hp, hps⟩ := List.forall_mem_cons.mp hps
    rw [Phrase.numbers, ← List.singleton_append, foundFrom_append,
      h.foundFrom_joinless p hlies.head hp, h.foundFrom_allJoinless ps hlies.tail hps,
      List.append_nil]

end

lemma Shaped.findings_eq (h : tree.Shaped) (config : Config) :
    (tree.lint config).findings = tree.foundFrom config (tree.children tree.root) := by
  rw [← h.foundFrom_children (by simp [h.kind_root]), (h.lint_eq config).2, foundFrom,
    List.flatMap_singleton]

lemma Shaped.kind_of_mem_descendants (h : tree.Shaped) {d : Nat} (hd : d ∈ tree.descendants id) :
    tree.kind d ≠ .package := by
  induction id using Nat.strongRecOn with
  | ind id ih =>
    rw [h.descendants_eq] at hd
    obtain ⟨child, hchild, hd⟩ := List.mem_flatMap.mp hd
    rcases List.mem_cons.mp hd with rfl | hd
    · exact h.kind_child_ne hchild
    · exact ih child (h.child_lt hchild) hd

lemma Shaped.kind_of_mem_columns (h : tree.Shaped) {review : JoinReview}
    (hj : tree.kind id = .join) (hreview : tree.reviewJoin config id = .ok review) {c : Nat}
    (hc : c ∈ review.columns) : tree.kind c = .column := by
  obtain ⟨query, hq⟩ := h.exists_query hj
  obtain ⟨review', hreview', _, hcolumns⟩ := h.exists_review config hj hq
  obtain rfl : review = review' := Except.ok.inj (hreview.symm.trans hreview')
  obtain ⟨region, root, _, hexposed⟩ := ((hcolumns c).mp hc).exposed
  exact hexposed.kind

namespace Embeds

/-- The finding about a join is the same in the other tree, at its new place. -/
lemma found?_shift (h : tree.Embeds f Eq tree')
    (hspan : ∀ id, tree.kind id ≠ .package → tree'.span (f id) = (tree.span id).shift n)
    (hid : tree.kind id ≠ .package) :
    tree'.found? config (f id) = (tree.found? config id).map (Diagnostic.shift n) := by
  have hkind := h.kind_eq hid
  by_cases hj : tree.kind id = .join
  · obtain ⟨review, review', hreview, hreview', hcolumns, haliases⟩ := h.reviewJoin_map config hj
    rw [List.forall₂_eq_eq_eq] at haliases
    have hlabels : review'.columns.map (fun c => (⟨.secondary, tree'.span c, "+1"⟩ : Label)) =
        (review.columns.map fun c => ⟨.secondary, tree.span c, "+1"⟩).map (Label.shift n) := by
      rw [hcolumns, List.map_map, List.map_map]
      apply List.map_congr_left
      intro c hc
      have hcolumn := h.shaped.kind_of_mem_columns hj hreview hc
      rw [Function.comp_apply, hspan c (by simp [hcolumn])]
      rfl
    have hfinding : tree'.finding config (f id) review'.aliases review'.columns =
        (tree.finding config id review.aliases review.columns).shift n := by
      unfold finding Diagnostic.shift
      rw [marked_eq (join_notMem_columns hreview'), marked_eq (join_notMem_columns hreview),
        hlabels, hspan id hid, h.joinKind?_eq hid, haliases]
      rfl
    rw [found?_of_review hj hreview, found?_of_review (hkind.trans hj) hreview', reviewFinding?,
      reviewFinding?, hfinding, hcolumns]
    cases review.columns <;> rfl
  · rw [found?, found?, if_neg hj, hkind, if_neg hj, Option.map_none]

lemma foundFrom_shift (h : tree.Embeds f Eq tree')
    (hspan : ∀ id, tree.kind id ≠ .package → tree'.span (f id) = (tree.span id).shift n)
    {ids : List NodeId} (hids : ∀ id ∈ ids, tree.kind id ≠ .package) :
    tree'.foundFrom config (ids.map f) = (tree.foundFrom config ids).map (Diagnostic.shift n) := by
  have hbelow : ((ids.map f).flatMap fun id => id :: tree'.descendants id) =
      (ids.flatMap fun id => id :: tree.descendants id).map f := by
    rw [List.flatMap_map, List.map_flatMap]
    apply List.flatMap_congr
    intro id hid
    rw [h.descendants_map (hids id hid), List.map_cons]
  unfold foundFrom
  rw [hbelow, List.filterMap_map, List.map_filterMap]
  apply List.filterMap_congr
  intro d hd
  apply h.found?_shift hspan
  obtain ⟨id, hid, hd⟩ := List.mem_flatMap.mp hd
  rcases List.mem_cons.mp hd with rfl | hd
  · exact hids _ hid
  · exact h.shaped.kind_of_mem_descendants hd

end Embeds

end Tree

namespace Arranged

variable {ps qs whole : List Phrase} {n : Nat}

lemma findings_eq (hps : Arranged ps) (config : Config) :
    ((Phrase.node .package ps).toTree.lint config).findings =
      (Phrase.node .package ps).toTree.foundFrom config (Phrase.numbers 0 ps) := by
  rw [hps.shaped.findings_eq]
  exact congrArg _ (Phrase.children_package ps)

/-- The findings about statements that lie in a tree are those of the statements alone. -/
lemma foundFrom_lieAll (hps : Arranged ps) (h : List.Forall₂ (Phrase.Alike (Token.Shifted n)) ps qs)
    (config : Config) {tree : Tree} (htree : tree.Shaped) {moves parent : Nat}
    (hqs : Phrase.LieAll tree.nodes.toList moves (some parent) qs)
    (hparent : Phrase.sizeAll ps + moves ≤ parent) :
    tree.foundFrom config (Phrase.numbers moves qs) =
      ((Phrase.node .package ps).toTree.lint config).findings.map (Diagnostic.shift n) := by
  have hsame {a b a' b' : String} (ha : a = a') (hb : b = b') :
      Text.sameIgnoringCase a b = Text.sameIgnoringCase a' b' := by rw [ha, hb]
  obtain ⟨hembeds, hspan⟩ := embeds (Token.carries_shifted n) hsame hps h htree hqs hparent
  have hnumbers : Phrase.numbers (0 + moves) qs =
      (Phrase.numbers 0 ps).map (Phrase.relocate ps moves parent) :=
    Phrase.Alike.numbers_eq h fun i _ hi => Phrase.relocate_of_lt (by omega)
  rw [Nat.zero_add] at hnumbers
  rw [hps.findings_eq, hnumbers]
  apply hembeds.foundFrom_shift hspan
  intro id hid
  rw [← Phrase.children_package] at hid
  exact hps.shaped.kind_child_ne hid

lemma foundFrom_between (hps : Arranged ps) (hwhole : Arranged whole) (before behind : List Phrase)
    (heq : whole = before ++ qs ++ behind)
    (h : List.Forall₂ (Phrase.Alike (Token.Shifted n)) ps qs) (config : Config) :
    (Phrase.node .package whole).toTree.foundFrom config
        (Phrase.numbers (Phrase.sizeAll before) qs) =
      ((Phrase.node .package ps).toTree.lint config).findings.map (Diagnostic.shift n) := by
  subst heq
  have hqs := (Phrase.lieAll_package (before ++ qs ++ behind)).append.1.append.2
  rw [Nat.zero_add] at hqs
  apply hps.foundFrom_lieAll h config hwhole.shaped hqs
  rw [Phrase.sizeAll_append, Phrase.sizeAll_append, ← Phrase.Alike.sizeAll_eq h]
  omega

/-- Semicolons alone have no findings. -/
lemma findings_eq_nil (hps : Arranged ps) (h : ∀ p ∈ ps, p.kind.token? ≠ none) (config : Config) :
    ((Phrase.node .package ps).toTree.lint config).findings = [] := by
  have hjoinless : ∀ p ∈ ps, p.Joinless := by
    intro p hp
    rcases hps.built (.statement p) (List.mem_map_of_mem hp) p rfl with ⟨token, _, rfl⟩ | hstatement
    · exact Phrase.joinless_leaf token
    · exact absurd hstatement.statement_kind (h p hp)
  rw [hps.findings_eq]
  exact hps.shaped.foundFrom_allJoinless ps (Phrase.lieAll_package ps) hjoinless

/-- The findings of two packages with a semicolon between them. -/
theorem findings_seam {rs ts : List Phrase} {semicolon : Token} (hkind : semicolon.kind = .semicolon)
    (hps : Arranged ps) (hts : Arranged ts) (hwhole : Arranged (qs ++ .leaf semicolon :: rs))
    (hfirst : List.Forall₂ (Phrase.Alike (Token.Shifted 0)) ps qs)
    (hsecond : List.Forall₂ (Phrase.Alike (Token.Shifted n)) ts rs) (config : Config) :
    ((Phrase.node .package (qs ++ .leaf semicolon :: rs)).toTree.lint config).findings =
      ((Phrase.node .package ps).toTree.lint config).findings ++
        ((Phrase.node .package ts).toTree.lint config).findings.map (Diagnostic.shift n) := by
  have hseparator : Arranged [.leaf semicolon] := .separator hkind .nil
  have hsame : List.Forall₂ (Phrase.Alike (Token.Shifted 0)) [.leaf semicolon] [.leaf semicolon] :=
    .cons (.leaf rfl) .nil
  have hleft := hps.foundFrom_between hwhole [] (.leaf semicolon :: rs) rfl hfirst config
  have hmiddle := hseparator.foundFrom_between hwhole qs rs (by simp) hsame config
  have hright := hts.foundFrom_between hwhole (qs ++ [.leaf semicolon]) [] (by simp) hsecond config
  rw [List.map_congr_left fun d _ => d.shift_zero, List.map_id'] at hleft
  rw [hseparator.findings_eq_nil (by simp [NodeKind.token?]), List.map_nil] at hmiddle
  have hnumbers : Phrase.numbers 0 (qs ++ .leaf semicolon :: rs) =
      Phrase.numbers (Phrase.sizeAll []) qs ++
        (Phrase.numbers (Phrase.sizeAll qs) [.leaf semicolon] ++
          Phrase.numbers (Phrase.sizeAll (qs ++ [.leaf semicolon])) rs) := by
    rw [Phrase.numbers_append, ← List.singleton_append, Phrase.numbers_append, Nat.zero_add,
      Phrase.sizeAll_append]
    rfl
  rw [hwhole.findings_eq, hnumbers, Tree.foundFrom_append, Tree.foundFrom_append, hleft, hmiddle,
    hright, List.nil_append]

end Arranged

end NullGuard
