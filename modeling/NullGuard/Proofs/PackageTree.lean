import NullGuard.Proofs.NodeShape
import NullGuard.Proofs.ReaderSoundness

namespace NullGuard

/-- A statement is no terminal. -/
lemma Builds.statement_kind {p : Phrase} (hp : Builds (.call .statement) [p]) :
    p.kind.token? = none := by
  obtain ⟨first, more, hfirst, _, heq⟩ := builds_extended.mp (builds_call.mp hp)
  split at heq
  · subst heq
    rcases builds_or.mp hfirst with hquery | hquery <;>
      obtain ⟨parts, _, heq⟩ := builds_node.mp hquery <;>
      obtain rfl := List.singleton_inj.mp heq <;> rfl
  · obtain rfl := List.singleton_inj.mp heq
    rfl

namespace Part

/-- What a package keeps of a part is a semicolon or a statement of the grammar. -/
def Built (part : Part) : Prop :=
  ∀ p, part.phrase? = some p →
    (∃ token : Token, token.kind = .semicolon ∧ p = .leaf token) ∨ Builds (.call .statement) [p]

lemma next_built (c : Cursor) : (next c).1.Built := by
  unfold next
  cases hread : Parse.statement c with
  | ok result =>
    obtain ⟨p, after⟩ := result
    obtain ⟨taken, _, _, _, hp⟩ := Parse.Meets.of_ok Parse.statement_makes hread
    dsimp only
    split <;> rintro q ⟨⟩ <;> exact .inr hp
  | error failure => rintro q ⟨⟩

lemma allWithin_built (ahead : List Token) (c : Cursor) :
    ∀ part ∈ allWithin ahead c, part.Built := by
  induction ahead generalizing c with
  | nil => simp [allWithin]
  | cons mark ahead ih =>
    rw [allWithin]
    split
    case isTrue hsemicolon =>
      refine List.forall_mem_cons.mpr ⟨?_, ih _⟩
      rintro p ⟨⟩
      exact .inl ⟨c.current, Cursor.isAt_iff.mp hsemicolon, rfl⟩
    case isFalse =>
      split
      · simp
      · exact List.forall_mem_cons.mpr ⟨next_built c, ih _⟩

lemma all_built (c : Cursor) : ∀ part ∈ all c, part.Built := allWithin_built _ c

lemma next_isStatement_iff (c : Cursor) : (next c).1.isStatement = true ↔
    ∃ p, (next c).1.phrase? = some p ∧ p.kind.token? = none := by
  unfold next
  cases hread : Parse.statement c with
  | ok result =>
    obtain ⟨p, after⟩ := result
    obtain ⟨taken, _, _, _, hp⟩ := Parse.Meets.of_ok Parse.statement_makes hread
    dsimp only
    split <;> simp [isStatement, phrase?, hp.statement_kind]
  | error failure => simp [isStatement, phrase?]

/-- There is a statement among the parts exactly if something other than semicolons is kept. -/
lemma any_isStatement_iff (ahead : List Token) (c : Cursor) :
    (allWithin ahead c).any isStatement = true ↔
      ∃ p ∈ (allWithin ahead c).filterMap phrase?, p.kind.token? = none := by
  induction ahead generalizing c with
  | nil => simp [allWithin]
  | cons mark ahead ih =>
    rw [allWithin]
    split
    case isTrue => simp [isStatement, phrase?, ih, NodeKind.token?]
    case isFalse =>
      split
      · simp
      · have hnext := next_isStatement_iff c
        rw [List.any_cons, Bool.or_eq_true, hnext, ih]
        cases hphrase : (next c).1.phrase? <;> simp [hphrase]

lemma package_regular {parts : List Part} (h : ∀ part ∈ parts, part.Built) :
    (package parts).AllRegular := by
  refine Phrase.regular_of_suits rfl rfl (by simp) fun p hp => ?_
  obtain ⟨part, hpart, hphrase⟩ := List.mem_filterMap.mp hp
  rcases h part hpart p hphrase with ⟨token, _, rfl⟩ | hp
  · exact Phrase.suits_leaf token .package
  · exact hp.suits (hp.allRegular rfl) rfl rfl p (by simp)

end Part

/-- A tree shows what the parts of its package are. -/
theorem Parsed.ofParts_eq (scanned : List Diagnostic) (parts : List Part) :
    (ofParts scanned parts).diagnostics =
        scanned ++ (parts.filterMap Part.failure?).map Failure.diagnostic ∧
      (ofParts scanned parts).tree =
        if (ofParts scanned parts).hasErrors && !parts.any Part.isStatement then none
        else some (Part.package parts).toTree := by
  unfold ofParts ofFinished hasErrors
  simp only [Builder.finish_lay, List.append_nil, Except.toOption]
  exact ⟨trivial, trivial⟩

/-- A tree that is read is that of the package of all parts. -/
lemma Parsed.eq_toTree_of_tree {scanned : List Diagnostic} {tokens : List Token} {tree : Tree}
    (h : (parseTokens scanned tokens).tree = some tree) :
    tree = (Part.package (Part.all (.ofTokens tokens))).toTree := by
  rw [parseTokens, (Parsed.ofParts_eq scanned _).2] at h
  split at h
  · cases h
  · exact (Option.some.inj h).symm

namespace Tree

variable {tree : Tree}

/-- The terminals from a node on down in the order of the text, as tokens. -/
def terminals (tree : Tree) (id : NodeId) : List Token :=
  (id :: tree.descendants id).filterMap fun id =>
    (tree.tokenKind? id).map fun kind => ⟨kind, tree.span id, (tree.node id).text⟩

lemma terminals_eq (h : tree.WellFormed) {id : Nat} (hkind : tree.tokenKind? id = none) :
    tree.terminals id = (tree.children id).flatMap tree.terminals := by
  have hbelow (ids : List NodeId) :
      (ids.flatMap fun child => child :: tree.descendants child).filterMap (fun id =>
          (tree.tokenKind? id).map fun kind => (⟨kind, tree.span id, (tree.node id).text⟩ : Token)) =
        ids.flatMap tree.terminals := by
    induction ids with
    | nil => rfl
    | cons child ids ih =>
      rw [List.flatMap_cons, List.filterMap_append, ih, List.flatMap_cons, terminals]
  rw [terminals, List.filterMap_cons_none (by rw [hkind]; rfl), h.descendants_eq id, hbelow]

mutual

/-- The terminals of a node are the tokens of the phrase that it shows. -/
lemma Shows.terminals_eq (h : tree.WellFormed) {id : Nat} (p : Phrase) (hp : tree.Shows id p)
    (hregular : p.AllRegular) : tree.terminals id = p.tokens := by
  cases p with
  | leaf token =>
    have hkind : tree.tokenKind? id = some token.kind := by rw [tokenKind?, hp.kind_eq]; rfl
    rw [terminals, h.descendants_eq id, hp.leaf.1]
    simp [hkind, hp.span_eq, hp.leaf.2, Phrase.span]
  | node kind parts =>
    obtain ⟨hnode, hparts⟩ := Phrase.allRegular_node.mp hregular
    have hkind : tree.tokenKind? id = none := by
      rw [tokenKind?, hp.kind_eq]
      exact hnode.token?_eq_none
    rw [Tree.terminals_eq h hkind, Phrase.tokens_node, Phrase.tokensAll_eq_flatMap, List.flatMap_def,
      List.flatMap_def, Shows.map_terminals h parts hp.parts hparts]

lemma Shows.map_terminals (h : tree.WellFormed) {ids : List NodeId} (parts : List Phrase)
    (hparts : List.Forall₂ tree.Shows ids parts) (hregular : ∀ p ∈ parts, p.AllRegular) :
    ids.map tree.terminals = parts.map Phrase.tokens := by
  cases hparts with
  | nil => rfl
  | @cons id p ids parts hp hparts =>
    rw [List.map_cons, List.map_cons, Shows.terminals_eq h p hp (hregular p (by simp)),
      Shows.map_terminals h parts hparts fun q hq => hregular q (by simp [hq])]

end

end Tree

end NullGuard
