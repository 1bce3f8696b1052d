import NullGuard.Proofs.PhraseSpans

namespace NullGuard

lemma forall₂_append_left {α β : Type*} {R : α → β → Prop} {as bs : List α} {cs : List β} :
    List.Forall₂ R (as ++ bs) cs ↔
      ∃ left right, List.Forall₂ R as left ∧ List.Forall₂ R bs right ∧ cs = left ++ right := by
  constructor
  · intro h
    induction as generalizing cs with
    | nil => exact ⟨[], cs, .nil, h, rfl⟩
    | cons a as ih =>
      obtain ⟨c, cs, hc, hcs, rfl⟩ := List.forall₂_cons_left_iff.mp h
      obtain ⟨left, right, hleft, hright, rfl⟩ := ih hcs
      exact ⟨c :: left, right, .cons hc hleft, hright, rfl⟩
  · rintro ⟨left, right, hleft, hright, rfl⟩
    exact List.rel_append hleft hright

namespace Item

variable {tokens : List Token}

lemma eq_of_opening (h : List.Forall₂ Fits opening tokens) :
    ∃ word left, tokens = [word, left] := by
  rcases h with _ | ⟨_, _ | ⟨_, ⟨⟩⟩⟩
  exact ⟨_, _, rfl⟩

lemma eq_of_closing (h : List.Forall₂ Fits closing tokens) :
    ∃ comma zero right, tokens = [comma, zero, right] := by
  rcases h with _ | ⟨_, _ | ⟨_, _ | ⟨_, ⟨⟩⟩⟩⟩
  exact ⟨_, _, _, rfl⟩

end Item

namespace Phrase

/-- Whether the phrase is an operand that is a column at one of the spans. -/
def isColumnAt (spans : List Span) : Phrase → Bool
  | .node .statement [.node .column parts] => (Phrase.node .column parts).span ∈ spans
  | _ => false

/-- Whether the phrase holds nothing but a column at one of the spans. -/
def isMarked (spans : List Span) : Phrase → Bool
  | .node _ [operand] => operand.isColumnAt spans
  | _ => false

variable {spans : List Span}

lemma isMarked_iff {p : Phrase} : p.isMarked spans = true ↔ ∃ kind parts,
    p = .node kind [.node .statement [.node .column parts]] ∧
      (Phrase.node .column parts).span ∈ spans := by
  constructor
  · intro h
    unfold isMarked at h
    split at h
    case h_1 kind operand =>
      unfold isColumnAt at h
      split at h
      case h_1 parts => exact ⟨kind, parts, rfl, by simpa using h⟩
      case h_2 => cases h
    case h_2 => cases h
  · rintro ⟨kind, parts, rfl, h⟩
    simpa [isMarked, isColumnAt] using h

/-- The phrase with all marked phrases in it put into calls of `ISNULL`. -/
inductive Mended (spans : List Span) : Phrase → Phrase → Prop where
  | leaf {token token' : Token} (h : token.Moved token') : Mended spans (.leaf token) (.leaf token')
  | node {kind : NodeKind} {parts parts' : List Phrase}
      (hmark : (Phrase.node kind parts).isMarked spans = false)
      (h : List.Forall₂ (Mended spans) parts parts') :
      Mended spans (.node kind parts) (.node kind parts')
  | guard {kind : NodeKind} {parts parts' : List Phrase} {word left comma zero right : Token}
      (hmark : (Phrase.node kind parts).isMarked spans = true)
      (h : List.Forall₂ (Mended spans) parts parts')
      (hopening : List.Forall₂ Item.Fits Item.opening [word, left])
      (hclosing : List.Forall₂ Item.Fits Item.closing [comma, zero, right]) :
      Mended spans (.node kind parts) (.node kind [.leaf word, .leaf left, .node kind parts',
        .leaf comma, .node kind [.node .statement [.leaf zero]], .leaf right])

mutual

/-- What the tokens of the new phrase have to be. -/
def items (spans : List Span) : Phrase → List Item
  | .leaf token => [.kept token]
  | .node kind parts =>
    if (Phrase.node kind parts).isMarked spans then
      Item.opening ++ itemsAll spans parts ++ Item.closing
    else itemsAll spans parts

def itemsAll (spans : List Span) : List Phrase → List Item
  | [] => []
  | phrase :: phrases => phrase.items spans ++ itemsAll spans phrases

end

mutual

/-- Tokens that fit are those of a new phrase. -/
lemma exists_mended (p : Phrase) {tokens : List Token}
    (h : List.Forall₂ Item.Fits (p.items spans) tokens) :
    ∃ p', Mended spans p p' ∧ p'.tokens = tokens := by
  cases p with
  | leaf token =>
    obtain ⟨token', _, hmoved, hnil, rfl⟩ := List.forall₂_cons_left_iff.mp h
    cases hnil
    exact ⟨.leaf token', .leaf hmoved, rfl⟩
  | node kind parts =>
    rw [items] at h
    split at h
    case isTrue hmark =>
      obtain ⟨_, _, hfront, hclosing, rfl⟩ := forall₂_append_left.mp h
      obtain ⟨_, _, hopening, hparts, rfl⟩ := forall₂_append_left.mp hfront
      obtain ⟨parts', hparts', rfl⟩ := exists_mendedAll parts hparts
      obtain ⟨word, left, rfl⟩ := Item.eq_of_opening hopening
      obtain ⟨comma, zero, right, rfl⟩ := Item.eq_of_closing hclosing
      exact ⟨_, .guard hmark hparts' hopening hclosing, by simp⟩
    case isFalse hmark =>
      obtain ⟨parts', hparts, htokens⟩ := exists_mendedAll parts h
      exact ⟨.node kind parts', .node (by simpa using hmark) hparts, htokens⟩

lemma exists_mendedAll (ps : List Phrase) {tokens : List Token}
    (h : List.Forall₂ Item.Fits (itemsAll spans ps) tokens) :
    ∃ ps', List.Forall₂ (Mended spans) ps ps' ∧ tokensAll ps' = tokens := by
  cases ps with
  | nil =>
    cases h
    exact ⟨[], .nil, rfl⟩
  | cons p ps =>
    obtain ⟨_, _, hp, hps, rfl⟩ := forall₂_append_left.mp h
    obtain ⟨p', hp', rfl⟩ := exists_mended p hp
    obtain ⟨ps', hps', rfl⟩ := exists_mendedAll ps hps
    exact ⟨p' :: ps', .cons hp' hps', rfl⟩

end

end Phrase

section Agreement

variable {spans : List Span} {tokens tokens' : List Token} {token : Token}

lemma builds_path {ps : List Phrase} (h : Builds .path ps) : ∃ tokens : List Token,
    ps = tokens.map .leaf ∧ ∀ hne : tokens ≠ [], (tokens.getLast hne).kind.isName = true := by
  obtain ⟨groups, hgroups, rfl⟩ := builds_many.mp h
  clear h
  induction groups with
  | nil => exact ⟨[], rfl, by simp⟩
  | cons group groups ih =>
    obtain ⟨hgroup, hgroups⟩ := List.forall_mem_cons.mp hgroups
    obtain ⟨tokens, htokens, hlast⟩ := ih hgroups
    obtain ⟨_, _, ⟨dot, _, rfl⟩, ⟨name, hname, rfl⟩, rfl⟩ := by
      simpa only [builds_append, builds_tok, builds_token] using hgroup
    refine ⟨dot :: name :: tokens, by simp [htokens], fun _ => ?_⟩
    cases tokens with
    | nil => exact hname
    | cons next tokens => simpa using hlast (by simp)

/-- A column is tokens, of which the first and the last are names. -/
lemma builds_column {parts : List Phrase} (h : Builds .column [.node .column parts]) :
    ∃ (first : Token) (rest : List Token), parts = (first :: rest).map .leaf ∧
      first.kind.isName = true ∧ ((first :: rest).getLast (by simp)).kind.isName = true := by
  simp only [Form.column, builds_node, List.cons.injEq, Phrase.node.injEq, true_and, and_true] at h
  obtain ⟨_, hparts, rfl⟩ := h
  obtain ⟨_, _, hfirst, hpath, rfl⟩ := builds_append.mp hparts
  obtain ⟨first, hkind, rfl⟩ := builds_tok.mp hfirst
  obtain ⟨rest, rfl, hlast⟩ := builds_path hpath
  have hname : first.kind.isName = true := by rw [hkind]; rfl
  refine ⟨first, rest, rfl, hname, ?_⟩
  cases rest with
  | nil => exact hname
  | cons next rest => simpa using hlast (by simp)

lemma Construct.only_column (construct : Construct) : Form.Only .column .column construct.form := by
  cases construct with
  | expression context =>
    have hwrapper : context.wrapper ≠ .column := by cases context <;> simp [Context.wrapper]
    have avoided {form : Form} (h : form.avoids .column = true) : Form.Only .column .column form :=
      Form.only_of_avoids h
    have hoperand : Form.Only .column .column (.operand context) :=
      ⟨⟨⟨⟨avoided rfl, fun _ => rfl, avoided rfl⟩, avoided rfl⟩, trivial⟩, trivial⟩
    have hadditive : Form.Only .column .column (.additive context) := by
      refine ⟨hwrapper, hwrapper, hwrapper, ⟨⟨?_, ?_⟩, ?_⟩, fun h => absurd h hwrapper, nofun,
        hoperand⟩
      all_goals exact avoided (by cases context <;> rfl)
    refine ⟨hwrapper, hwrapper, hwrapper, hwrapper, hadditive, trivial, ?_⟩
    exact ⟨⟨⟨⟨trivial, hadditive⟩, avoided rfl⟩, avoided rfl⟩, avoided rfl, ⟨avoided rfl,
      ⟨⟨trivial, hadditive⟩, trivial⟩, hadditive⟩, trivial, hadditive⟩
  | statement => exact Form.only_of_avoids rfl
  | source => exact Form.only_of_avoids rfl

namespace Phrase

lemma mem_tokensAll_of_mem {p : Phrase} {ps : List Phrase} (hp : p ∈ ps) (h : token ∈ p.tokens) :
    token ∈ tokensAll ps := by
  rw [tokensAll_eq_flatMap]
  exact List.mem_flatMap_of_mem hp h

/-- All columns in a phrase are those of the grammar. -/
def ColumnsBuilt (p : Phrase) : Prop :=
  ∀ parts, p.Has (.node .column parts) → Builds .column [.node .column parts]

/-- A marked phrase is the tokens of a column, and its span goes from the first to the last. -/
lemma exists_column_of_isMarked {q : Phrase} (hmark : q.isMarked spans = true)
    (hcolumns : q.ColumnsBuilt) (horder : Token.InOrder q.tokens) :
    ∃ (kind : NodeKind) (first : Token) (rest : List Token),
      q = .node kind [.node .statement [.node .column ((first :: rest).map .leaf)]] ∧
      q.tokens = first :: rest ∧ first.kind.isName = true ∧
      ((first :: rest).getLast (by simp)).kind.isName = true ∧ q.span ∈ spans ∧
      q.span = ⟨first.span.start, ((first :: rest).getLast (by simp)).span.stop⟩ := by
  obtain ⟨kind, parts, rfl, hspan⟩ := isMarked_iff.mp hmark
  have hcolumn := hcolumns parts (.part List.mem_cons_self (.part List.mem_cons_self (.refl _)))
  obtain ⟨first, rest, rfl, hfirst, hlast⟩ := builds_column hcolumn
  have htokens : tokensAll [.node .statement [.node .column ((first :: rest).map .leaf)]] =
      first :: rest := by simp [tokensAll_map_leaf]
  refine ⟨kind, first, rest, rfl, htokens, hfirst, hlast, hspan, ?_⟩
  have hsolid : (Phrase.node kind
      [.node .statement [.node .column ((first :: rest).map .leaf)]]).Solid := by
    simp [solid_node, solid_leaf]
  rw [span_eq_reach _ hsolid horder, tokens_node, htokens]
  exact Token.reach_eq rfl (List.getLast?_eq_some_getLast _)

/-- Phrases whose tokens are in order, and where each of the spans is that of a marked phrase or
away from all tokens. -/
structure Settled (spans : List Span) (ps : List Phrase) : Prop where
  columns : ∀ p ∈ ps, p.ColumnsBuilt
  order : Token.InOrder (tokensAll ps)
  spans : ∀ span ∈ spans, (∃ p ∈ ps, ∃ q, p.Has q ∧ q.isMarked spans = true ∧ q.span = span) ∨
    ∀ token ∈ tokensAll ps, token.span.start ≠ span.start ∧ token.span.stop ≠ span.stop

namespace Settled

variable {kind : NodeKind} {p : Phrase} {ps : List Phrase}

/-- The span of a marked phrase starts and stops with tokens of it. -/
lemma ends_of_has (h : Settled spans ps) (hp : p ∈ ps) {q : Phrase} (hq : p.Has q)
    (hmark : q.isMarked spans = true) : ∃ first ∈ p.tokens, ∃ last ∈ p.tokens,
      first.kind.isName = true ∧ last.kind.isName = true ∧
      q.span = ⟨first.span.start, last.span.stop⟩ := by
  have hsub : p.tokens.Sublist (tokensAll ps) := by
    rw [tokensAll_eq_flatMap, List.flatMap_def]
    exact List.sublist_flatten_of_mem (List.mem_map_of_mem hp)
  have hcolumns : q.ColumnsBuilt := fun parts hhas => h.columns p hp parts (hq.trans hhas)
  obtain ⟨_, first, rest, _, htokens, hfirst, hlast, _, hspan⟩ := exists_column_of_isMarked hmark
    hcolumns ((h.order.of_sublist hsub).of_sublist hq.isInfix_tokens.sublist)
  refine ⟨first, hq.isInfix_tokens.subset ?_, _, hq.isInfix_tokens.subset ?_, hfirst, hlast, hspan⟩
  · simp [htokens]
  · rw [htokens]
    exact List.getLast_mem _

lemma parts (h : Settled spans [.node kind ps])
    (hmark : (Phrase.node kind ps).isMarked spans = false) : Settled spans ps where
  columns p hp parts hhas := h.columns _ List.mem_cons_self parts (.part hp hhas)
  order := by simpa using h.order
  spans span hspan := by
    rcases h.spans span hspan with ⟨_, hp, q, hhas, hq, rfl⟩ | haway
    · obtain rfl := List.mem_singleton.mp hp
      cases hhas with
      | refl => rw [hmark] at hq; cases hq
      | part hp hhas => exact .inl ⟨_, hp, q, hhas, hq, rfl⟩
    · exact .inr (by simpa using haway)

lemma head (h : Settled spans (p :: ps)) : Settled spans [p] where
  columns := by simpa using h.columns p List.mem_cons_self
  order := h.order.of_sublist (by simp)
  spans span hspan := by
    rcases h.spans span hspan with ⟨p', hp', q, hhas, hq, rfl⟩ | haway
    · rcases List.mem_cons.mp hp' with rfl | hp'
      · exact .inl ⟨p', List.mem_singleton_self _, q, hhas, hq, rfl⟩
      · obtain ⟨first, hfirst, last, hlast, _, _, hspan⟩ := h.ends_of_has (by simp [hp']) hhas hq
        refine .inr fun token htoken => ?_
        have hstart := h.order.lt_of_append (by simpa using htoken)
          (mem_tokensAll_of_mem hp' hfirst)
        have hstop := h.order.lt_of_append (by simpa using htoken) (mem_tokensAll_of_mem hp' hlast)
        rw [hspan]
        exact ⟨Nat.ne_of_lt hstart.1, Nat.ne_of_lt hstop.2⟩
    · exact .inr fun token htoken => haway token (by simp at htoken; simp [htoken])

lemma tail (h : Settled spans (p :: ps)) : Settled spans ps where
  columns := (List.forall_mem_cons.mp h.columns).2
  order := h.order.of_sublist (by simp)
  spans span hspan := by
    rcases h.spans span hspan with ⟨p', hp', q, hhas, hq, rfl⟩ | haway
    · rcases List.mem_cons.mp hp' with rfl | hp'
      · obtain ⟨first, hfirst, last, hlast, _, _, hspan⟩ := h.ends_of_has (by simp) hhas hq
        refine .inr fun token htoken => ?_
        have hstart := h.order.lt_of_append hfirst htoken
        have hstop := h.order.lt_of_append hlast htoken
        rw [hspan]
        exact ⟨Nat.ne_of_gt hstart.1, Nat.ne_of_gt hstop.2⟩
      · exact .inl ⟨p', hp', q, hhas, hq, rfl⟩
    · exact .inr fun token htoken => haway token (by simp [htoken])

end Settled

lemma items_of_away {token : Token} (h : ∀ span ∈ spans,
    token.span.start ≠ span.start ∧ token.span.stop ≠ span.stop) :
    token.items spans = [.kept token] := by
  have hopens : token.span.opensIn spans = false := by
    refine List.any_eq_false.mpr fun span hspan => ?_
    simpa using (h span hspan).1.symm
  have hcloses : token.span.closesIn spans = false := by
    refine List.any_eq_false.mpr fun span hspan => ?_
    simpa using (h span hspan).2.symm
  simp [Token.items, hopens, hcloses]

/-- Where only the first token opens a span and only the last closes one, the tokens are put into a
call as a whole. -/
lemma flatMap_items {first : Token} {rest : List Token} (horder : Token.InOrder (first :: rest))
    (hopens : ∀ token ∈ rest, token.span.opensIn spans = false)
    (hcloses : ∀ token ∈ first :: rest, token.span.closesIn spans =
      decide (token.span.stop = ((first :: rest).getLast (by simp)).span.stop)) :
    (first :: rest).flatMap (Token.items spans) =
      (if first.span.opensIn spans then Item.opening else []) ++
        (first :: rest).map .kept ++ Item.closing := by
  induction rest generalizing first with
  | nil => simp [Token.items, hcloses first]
  | cons next rest ih =>
    have hlt := (show Token.InOrder ([first] ++ next :: rest) from horder).lt_of_append
      (List.mem_singleton_self _) (List.getLast_mem (List.cons_ne_nil next rest))
    have hfirst : first.span.closesIn spans = false := by
      rw [hcloses first List.mem_cons_self, decide_eq_false_iff_not, List.getLast_cons_cons]
      exact Nat.ne_of_lt hlt.2
    have hrest := ih (horder.of_sublist (List.sublist_cons_self _ _))
      (fun token htoken => hopens token (by simp [htoken]))
      (fun token htoken => hcloses token (List.mem_cons_of_mem _ htoken))
    rw [List.flatMap_cons, hrest, Token.items, hfirst, hopens next List.mem_cons_self]
    simp

lemma isMarked_of_has_leaf {q : Phrase} (h : (Phrase.leaf token).Has q) :
    q.isMarked spans = false := by
  cases h
  rfl

/-- There is nothing marked inside of a marked phrase. -/
lemma isMarked_of_has_operand {q : Phrase}
    (h : (Phrase.node .statement [.node .column (tokens.map .leaf)]).Has q) :
    q.isMarked spans = false := by
  rcases h with _ | ⟨hp, h⟩
  · rfl
  obtain rfl := List.mem_singleton.mp hp
  rcases h with _ | ⟨hp, h⟩
  · rcases tokens with _ | ⟨_, _ | _⟩ <;> rfl
  · obtain ⟨token, _, rfl⟩ := List.mem_map.mp hp
    exact isMarked_of_has_leaf h

lemma items_operand (tokens : List Token) :
    (Phrase.node .statement [.node .column (tokens.map .leaf)]).items spans = tokens.map .kept := by
  have hleaves : itemsAll spans (tokens.map .leaf) = tokens.map .kept := by
    induction tokens with
    | nil => rfl
    | cons token tokens ih => rw [List.map_cons, itemsAll, ih]; rfl
  have hcolumn : (Phrase.node .column (tokens.map .leaf)).isMarked spans = false :=
    isMarked_of_has_operand (.part List.mem_cons_self (.refl _))
  rw [items, if_neg (by simp [isMarked_of_has_operand (.refl _)]), itemsAll, items,
    if_neg (by simp [hcolumn]), hleaves, itemsAll, List.append_nil]

lemma items_eq_of_isMarked {p : Phrase} (h : Settled spans [p]) (hmark : p.isMarked spans = true) :
    p.items spans = p.tokens.flatMap (Token.items spans) := by
  have horder : Token.InOrder p.tokens := by simpa using h.order
  obtain ⟨kind, first, rest, heq, htokens, _, _, hmem, hspan⟩ := exists_column_of_isMarked hmark
    (h.columns p List.mem_cons_self) horder
  rw [htokens] at horder
  have hspans (span : Span) (hspan : span ∈ spans) : span = p.span ∨
      ∀ token ∈ first :: rest, token.span.start ≠ span.start ∧ token.span.stop ≠ span.stop := by
    rcases h.spans span hspan with ⟨_, hp, q, hhas, hq, rfl⟩ | haway
    · obtain rfl := List.mem_singleton.mp hp
      rw [heq] at hhas
      rcases hhas with _ | ⟨hp, hhas⟩
      · exact .inl (by rw [heq])
      · obtain rfl := List.mem_singleton.mp hp
        rw [isMarked_of_has_operand hhas] at hq
        cases hq
    · exact .inr fun token htoken => haway token (by simpa [htokens] using htoken)
  have hopens (token : Token) (htoken : token ∈ first :: rest) :
      token.span.opensIn spans = decide (token.span.start = first.span.start) := by
    rw [Bool.eq_iff_iff, decide_eq_true_eq, Span.opensIn, List.any_eq_true]
    simp only [decide_eq_true_eq]
    constructor
    · rintro ⟨span, hmem, hstart⟩
      rcases hspans span hmem with rfl | haway
      · rw [← hstart, hspan]
      · exact absurd hstart.symm (haway token htoken).1
    · exact fun hstart => ⟨p.span, hmem, by rw [hspan, hstart]⟩
  have hcloses (token : Token) (htoken : token ∈ first :: rest) : token.span.closesIn spans =
      decide (token.span.stop = ((first :: rest).getLast (by simp)).span.stop) := by
    rw [Bool.eq_iff_iff, decide_eq_true_eq, Span.closesIn, List.any_eq_true]
    simp only [decide_eq_true_eq]
    constructor
    · rintro ⟨span, hmem, hstop⟩
      rcases hspans span hmem with rfl | haway
      · rw [← hstop, hspan]
      · exact absurd hstop.symm (haway token htoken).2
    · exact fun hstop => ⟨p.span, hmem, by rw [hspan, hstop]⟩
  rw [htokens, flatMap_items horder ?_ hcloses, hopens first List.mem_cons_self]
  · rw [heq] at hmark ⊢
    rw [items, if_pos hmark, itemsAll, items_operand, itemsAll]
    simp
  · intro token htoken
    have hlt := (show Token.InOrder ([first] ++ rest) from horder).lt_of_append
      (List.mem_singleton_self _) htoken
    rw [hopens token (by simp [htoken]), decide_eq_false_iff_not]
    exact Nat.ne_of_gt hlt.1

mutual

/-- What the tokens have to be, by the phrase and by its tokens one by one. -/
lemma items_eq (p : Phrase) (h : Settled spans [p]) :
    p.items spans = p.tokens.flatMap (Token.items spans) := by
  cases p with
  | leaf token =>
    have haway : token.items spans = [.kept token] := by
      refine items_of_away fun span hspan => ?_
      rcases h.spans span hspan with ⟨_, hp, q, hhas, hq, _⟩ | haway
      · obtain rfl := List.mem_singleton.mp hp
        rw [isMarked_of_has_leaf hhas] at hq
        cases hq
      · exact haway token (by simp)
    simp [items, haway]
  | node kind parts =>
    rw [items]
    split
    case isTrue hmark =>
      rw [← items_eq_of_isMarked h hmark, items, if_pos hmark]
    case isFalse hmark => exact itemsAll_eq parts (h.parts (by simpa using hmark))

lemma itemsAll_eq (ps : List Phrase) (h : Settled spans ps) :
    itemsAll spans ps = (tokensAll ps).flatMap (Token.items spans) := by
  cases ps with
  | nil => rfl
  | cons p ps =>
    rw [itemsAll, items_eq p h.head, itemsAll_eq ps h.tail, tokensAll_cons, List.flatMap_append]

end

end Phrase

end Agreement

end NullGuard
