import NullGuard.Proofs.TreeShape

/-!
# Precedence

An expression binds as tightly as the operator that makes it, and tightest if there is none outside
of brackets. How tightly it binds is read off the kinds of its parts. The operands of an operator
bind at least as tightly as their side of it asks for: a left operand as the operator itself, so
that operators of one level go from left to right, and a right operand more tightly. All
expressions of trees that are read are made like this, and they are wrapped like their operands.
-/

namespace NullGuard

namespace TokenKind

/-- How tightly an operator binds that stands behind its first operand. What is neither a connective
nor arithmetic makes a predicate. -/
def levelBehind : TokenKind → Nat
  | keyword .or => 1
  | keyword .and => 2
  | plus | minus => 5
  | star | slash => 6
  | _ => 4

/-- How tightly an expression binds that a token begins. -/
def levelBefore : TokenKind → Nat
  | keyword .not => 3
  | minus => 7
  | _ => 8

end TokenKind

/-- How tightly an expression binds, by the kinds of its parts. -/
def NodeKind.level : List NodeKind → Nat
  | .terminal token :: _ => token.levelBefore
  | _ :: .terminal token :: _ => token.levelBehind
  | _ => 8

/-- Behind an operand, it is the operator that says how tightly an expression binds. -/
lemma NodeKind.level_behind {operand : NodeKind} (h : operand.token? = none) (token : TokenKind)
    (rest : List NodeKind) : level (operand :: .terminal token :: rest) = token.levelBehind := by
  cases operand with
  | terminal _ => cases h
  | _ => rfl

lemma NodeKind.token?_of_isBoundary {kind : NodeKind} (h : kind.isBoundaryStatement = true) :
    kind.token? = none := by
  cases kind with
  | terminal _ => cases h
  | _ => rfl

abbrev Grade := NodeKind × Nat

/-- The grade of a terminal. -/
def Grade.mark (token : TokenKind) : Grade := (.terminal token, 8)

open Grade (mark)

/-- Whether a value is in a list, in a range, or like a pattern. -/
inductive Inclusion (kind : NodeKind) : List Grade → Prop where
  | list {n : Nat} : Inclusion kind [mark (.keyword .in_), (.expressionList, n)]
  | subquery {n : Nat} : Inclusion kind [mark (.keyword .in_), (.subquery, n)]
  | hierarchyList {n : Nat} :
      Inclusion kind [mark (.keyword .in_), mark .identifier, (.expressionList, n)]
  | hierarchySubquery {n : Nat} :
      Inclusion kind [mark (.keyword .in_), mark .identifier, (.subquery, n)]
  | range {low high : Nat} (hlow : 5 ≤ low) (hhigh : 5 ≤ high) :
      Inclusion kind [mark (.keyword .between), (kind, low), mark (.keyword .and), (kind, high)]
  | pattern {n : Nat} (h : 5 ≤ n) : Inclusion kind [mark (.keyword .like), (kind, n)]

/-- What a predicate says of the value before it. -/
inductive Test (kind : NodeKind) : List Grade → Prop where
  | comparison {operator : TokenKind} {right : Nat} (hoperator : operator.isComparison = true)
      (hright : 5 ≤ right) : Test kind [mark operator, (kind, right)]
  | null : Test kind [mark (.keyword .is), mark (.keyword .null)]
  | notNull : Test kind [mark (.keyword .is), mark (.keyword .not), mark (.keyword .null)]
  | reference {n : Nat} : Test kind [mark .identifier, (.table, n)]
  | membership {grades : List Grade} (h : Inclusion kind grades) : Test kind grades
  | noMembership {grades : List Grade} (h : Inclusion kind grades) :
      Test kind (mark (.keyword .not) :: grades)

/-- The grades of the parts of an expression that is wrapped by a kind and binds by a level. -/
inductive Ranked (kind : NodeKind) : List Grade → Nat → Prop where
  | disjunction {left right : Nat} (hleft : 1 ≤ left) (hright : 2 ≤ right) :
      Ranked kind [(kind, left), mark (.keyword .or), (kind, right)] 1
  | conjunction {left right : Nat} (hleft : 2 ≤ left) (hright : 3 ≤ right) :
      Ranked kind [(kind, left), mark (.keyword .and), (kind, right)] 2
  | negation {n : Nat} (h : 3 ≤ n) : Ranked kind [mark (.keyword .not), (kind, n)] 3
  | predicate {left : Nat} {grades : List Grade} (hleft : 5 ≤ left) (h : Test kind grades) :
      Ranked kind ((kind, left) :: grades) 4
  | sum {operator : TokenKind} {left right : Nat} (hoperator : operator = .plus ∨ operator = .minus)
      (hleft : 5 ≤ left) (hright : 6 ≤ right) :
      Ranked kind [(kind, left), mark operator, (kind, right)] 5
  | product {operator : TokenKind} {left right : Nat}
      (hoperator : operator = .star ∨ operator = .slash) (hleft : 6 ≤ left) (hright : 7 ≤ right) :
      Ranked kind [(kind, left), mark operator, (kind, right)] 6
  | negative {n : Nat} (h : 7 ≤ n) : Ranked kind [mark .minus, (kind, n)] 7
  | bracketed {n : Nat} : Ranked kind [mark .lparen, (kind, n), mark .rparen] 8
  | guard {value replacement : Nat} : Ranked kind [mark (.keyword .isNull), mark .lparen,
      (kind, value), mark .comma, (kind, replacement), mark .rparen] 8
  | operand {n : Nat} : Ranked kind [(.statement, n)] 8

section Ranks

variable {kind : NodeKind} {grades : List Grade} {n : Nat}

/-- A test begins with a token that makes a predicate. -/
lemma Test.head (h : Test kind grades) :
    ∃ token rest, grades = mark token :: rest ∧ token.levelBehind = 4 := by
  cases h with
  | @comparison operator _ hoperator _ =>
    refine ⟨_, _, rfl, ?_⟩
    revert hoperator
    cases operator <;> simp [TokenKind.isComparison, TokenKind.levelBehind]
  | membership h => cases h <;> exact ⟨_, _, rfl, rfl⟩
  | _ => exact ⟨_, _, rfl, rfl⟩

lemma Inclusion.kind_eq (h : Inclusion kind grades) :
    ∀ g ∈ grades, g.1.isBoundaryStatement = true → g.1 = kind := by
  cases h <;> simp [mark, NodeKind.isBoundaryStatement]

lemma Test.kind_eq (h : Test kind grades) :
    ∀ g ∈ grades, g.1.isBoundaryStatement = true → g.1 = kind := by
  cases h with
  | membership h => exact h.kind_eq
  | noMembership h =>
    rintro g (_ | ⟨_, hg⟩) hboundary
    · cases hboundary
    · exact h.kind_eq g hg hboundary
  | _ => simp [mark, NodeKind.isBoundaryStatement]

/-- The operands of an expression are wrapped like the expression. -/
lemma Ranked.kind_eq (h : Ranked kind grades n) :
    ∀ g ∈ grades, g.1.isBoundaryStatement = true → g.1 = kind := by
  cases h with
  | predicate hleft h =>
    rintro g (_ | ⟨_, hg⟩) hboundary
    · rfl
    · exact h.kind_eq g hg hboundary
  | _ => simp [mark, NodeKind.isBoundaryStatement]

end Ranks

namespace Phrase

def level : Phrase → Nat
  | .leaf _ => 8
  | .node _ parts => NodeKind.level (parts.map kind)

def grade (p : Phrase) : Grade := (p.kind, p.level)

/-- A phrase is wrapped by a kind and binds at least by a level. -/
structure Binds (kind : NodeKind) (n : Nat) (p : Phrase) : Prop where
  kind_eq : p.kind = kind
  le_level : n ≤ p.level

variable {kind : NodeKind} {n m : Nat} {p : Phrase}

lemma grade_leaf (token : Token) : (Phrase.leaf token).grade = mark token.kind := rfl

lemma map_fst_grade (ps : List Phrase) : (ps.map grade).map Prod.fst = ps.map Phrase.kind := by
  rw [List.map_map]
  rfl

lemma Binds.mono (h : p.Binds kind n) (hle : m ≤ n) : p.Binds kind m :=
  ⟨h.kind_eq, Nat.le_trans hle h.le_level⟩

lemma Binds.grade_eq (h : p.Binds kind n) : p.grade = (kind, p.level) := by
  rw [grade, h.kind_eq]

end Phrase

lemma Token.kind_of_spells (token : Token) {word : ContextWord} (h : token.spells word = true) :
    token.kind = .identifier := by
  simp only [spells, Bool.and_eq_true, decide_eq_true_eq] at h
  exact h.1

namespace Builds

open Phrase (Binds)

variable {kind : NodeKind} {operand : Form} {n m : Nat} {p : Phrase}

/-- A chain binds by its operators, if it is not a single operand. -/
lemma binds_chain {operator : TokenKind → Bool} (hkind : kind.token? = none)
    (hoperand : ∀ q, Builds operand [q] → q.Binds kind n) (hle : m ≤ n)
    (hoperator : ∀ token, operator token = true → m ≤ token.levelBehind)
    (h : Builds (.chain kind operator operand) [p]) : p.Binds kind m := by
  obtain ⟨start, pairs, hstart, hpairs, hp⟩ := builds_chain.mp h
  obtain rfl := List.singleton_inj.mp hp
  rcases List.eq_nil_or_concat' pairs with rfl | ⟨before, last, rfl⟩
  · exact (hoperand start hstart).mono hle
  · -- the last operator makes the node, with the chain before it as the left operand
    have hleft : (Phrase.chained kind start before).Binds kind 0 := by
      refine ⟨?_, Nat.zero_le _⟩
      rcases Phrase.kind_chained kind start before with hk | hk
      · exact hk.trans (hoperand start hstart).kind_eq
      · exact hk
    have hnode : Phrase.chained kind start (before ++ [last]) =
        .node kind [Phrase.chained kind start before, .leaf last.1, last.2] := by
      rw [Phrase.chained, List.foldl_append]
      rfl
    rw [hnode]
    refine ⟨rfl, ?_⟩
    rw [Phrase.level, List.map_cons, hleft.kind_eq]
    refine le_of_le_of_eq (hoperator last.1.kind ?_) (NodeKind.level_behind hkind _ _).symm
    exact (hpairs last (by simp)).1

/-- What is behind operators binds by them, if there are any. -/
lemma binds_led {operator : TokenKind} (hoperand : ∀ q, Builds operand [q] → q.Binds kind n)
    (hle : m ≤ n) (hoperator : m ≤ operator.levelBefore)
    (h : Builds (.led kind operator operand) [p]) : p.Binds kind m := by
  obtain ⟨operators, inmost, hoperators, hinmost, hp⟩ := builds_led.mp h
  obtain rfl := List.singleton_inj.mp hp
  cases operators with
  | nil => exact (hoperand inmost hinmost).mono hle
  | cons mark operators =>
    refine ⟨rfl, ?_⟩
    have hmark : mark.kind = operator := hoperators mark (by simp)
    change m ≤ mark.kind.levelBefore
    rwa [hmark]

end Builds

section Layers

open Phrase (Binds)

variable {context : Context} {p : Phrase}

lemma Context.token?_wrapper (context : Context) : context.wrapper.token? = none := by
  cases context <;> rfl

lemma Builds.binds_primary (h : Builds (.primary context) [p]) : p.Binds context.wrapper 8 := by
  simp only [Form.primary, builds_or] at h
  rcases h with ((h | h) | h) | h
  · obtain ⟨_, hparts, hp⟩ := builds_node.mp h
    obtain rfl := List.singleton_inj.mp hp
    simp only [builds_append, builds_word, builds_tok] at hparts
    obtain ⟨_, _, ⟨_, _, ⟨_, _, ⟨_, _, ⟨_, _, ⟨word, hword, rfl⟩, _, rfl⟩, _, rfl⟩, _, rfl⟩, _,
      rfl⟩, _, rfl⟩ := hparts
    refine ⟨rfl, ?_⟩
    change 8 ≤ word.kind.levelBefore
    rw [hword]
    decide
  · obtain ⟨_, hparts, hp⟩ := builds_node.mp h
    obtain rfl := List.singleton_inj.mp hp
    obtain ⟨_, _, rfl⟩ := builds_node.mp hparts
    exact ⟨rfl, Nat.le_refl _⟩
  · obtain ⟨_, hparts, hp⟩ := builds_node.mp h
    obtain rfl := List.singleton_inj.mp hp
    simp only [builds_append, builds_tok] at hparts
    obtain ⟨_, _, ⟨_, _, ⟨opening, hopening, rfl⟩, _, rfl⟩, _, rfl⟩ := hparts
    refine ⟨rfl, ?_⟩
    change 8 ≤ opening.kind.levelBefore
    rw [hopening]
    decide
  · obtain ⟨_, hparts, hp⟩ := builds_node.mp h
    obtain rfl := List.singleton_inj.mp hp
    obtain ⟨_, _, rfl⟩ := builds_node.mp hparts
    exact ⟨rfl, Nat.le_refl _⟩

lemma Builds.binds_factor (h : Builds (.factor context) [p]) : p.Binds context.wrapper 7 :=
  h.binds_led (fun _ => binds_primary) (by decide) (by decide)

lemma Builds.binds_term (h : Builds (.term context) [p]) : p.Binds context.wrapper 6 := by
  refine h.binds_chain context.token?_wrapper (fun _ => binds_factor) (by decide) ?_
  intro token htoken
  simp only [Bool.or_eq_true, decide_eq_true_eq] at htoken
  rcases htoken with rfl | rfl <;> decide

lemma Builds.binds_additive (h : Builds (.additive context) [p]) : p.Binds context.wrapper 5 := by
  refine h.binds_chain context.token?_wrapper (fun _ => binds_term) (by decide) ?_
  intro token htoken
  simp only [Bool.or_eq_true, decide_eq_true_eq] at htoken
  rcases htoken with rfl | rfl <;> decide

lemma Builds.exists_additive {ps : List Phrase} (h : Builds (.additive context) ps) :
    ∃ p : Phrase, p.Binds context.wrapper 5 ∧ ps = [p] := by
  obtain ⟨_, _, _, _, rfl⟩ := builds_chain.mp h
  exact ⟨_, binds_additive h, rfl⟩

lemma builds_inList_grades {ps : List Phrase} (h : Builds (.inList context) ps) :
    ∃ n, ps.map Phrase.grade = [(.subquery, n)] ∨ ps.map Phrase.grade = [(.expressionList, n)] := by
  simp only [Form.inList, builds_or, Form.subquery, builds_node] at h
  rcases h with ⟨qs, _, rfl⟩ | ⟨qs, _, rfl⟩
  · exact ⟨_, .inl rfl⟩
  · exact ⟨_, .inr rfl⟩

lemma Builds.membership_grades {ps : List Phrase} (h : Builds (.membership context) ps) :
    Inclusion context.wrapper (ps.map Phrase.grade) := by
  simp only [Form.membership, builds_or, builds_append, builds_word, builds_opt, builds_token] at h
  rcases h with
    (⟨_, _, ⟨_, _, ⟨word, hword, rfl⟩, hhierarchy, rfl⟩, hlist, rfl⟩ |
      ⟨_, _, ⟨_, _, ⟨_, _, ⟨word, hword, rfl⟩, hlow, rfl⟩, ⟨conjunction, hand, rfl⟩, rfl⟩, hhigh,
        rfl⟩) |
      ⟨_, _, ⟨word, hword, rfl⟩, hpattern, rfl⟩
  · obtain ⟨n, hgrades⟩ := builds_inList_grades hlist
    rcases hhierarchy with rfl | ⟨hierarchy, hspells, rfl⟩
    · rcases hgrades with hgrades | hgrades
      · simpa [hgrades, Phrase.grade_leaf, hword] using Inclusion.subquery
      · simpa [hgrades, Phrase.grade_leaf, hword] using Inclusion.list
    · have hkind : hierarchy.kind = .identifier := hierarchy.kind_of_spells hspells
      rcases hgrades with hgrades | hgrades
      · simpa [hgrades, Phrase.grade_leaf, hword, hkind] using Inclusion.hierarchySubquery
      · simpa [hgrades, Phrase.grade_leaf, hword, hkind] using Inclusion.hierarchyList
  · obtain ⟨low, hbelow, rfl⟩ := hlow.exists_additive
    obtain ⟨high, habove, rfl⟩ := hhigh.exists_additive
    simpa [Phrase.grade_leaf, hword, hand, hbelow.grade_eq, habove.grade_eq] using
      Inclusion.range hbelow.le_level habove.le_level
  · obtain ⟨pattern, hbinds, rfl⟩ := hpattern.exists_additive
    simpa [Phrase.grade_leaf, hword, hbinds.grade_eq] using Inclusion.pattern hbinds.le_level

lemma Builds.test_grades {ps : List Phrase} (h : Builds (.test context) ps) :
    Test context.wrapper (ps.map Phrase.grade) := by
  simp only [Form.test, builds_or, builds_append, builds_word, builds_opt, builds_token,
    Form.referencedTable, builds_node] at h
  rcases h with
    ((⟨_, _, ⟨operator, hoperator, rfl⟩, hright, rfl⟩ |
      ⟨_, _, ⟨_, _, ⟨is, his, rfl⟩, hnot, rfl⟩, ⟨null, hnull, rfl⟩, rfl⟩) |
      ⟨_, _, ⟨refs, hrefs, rfl⟩, ⟨table, _, rfl⟩, rfl⟩) |
      ⟨_, _, hnot, hmembership, rfl⟩
  · obtain ⟨right, hbinds, rfl⟩ := hright.exists_additive
    simpa [Phrase.grade_leaf, hbinds.grade_eq] using Test.comparison hoperator hbinds.le_level
  · rcases hnot with rfl | ⟨not, hnot, rfl⟩
    · simpa [Phrase.grade_leaf, his, hnull] using Test.null
    · simpa [Phrase.grade_leaf, his, hnull, hnot] using Test.notNull
  · rw [List.singleton_append, List.map_cons, Phrase.grade_leaf, refs.kind_of_spells hrefs]
    exact .reference
  · rcases hnot with rfl | ⟨not, hnot, rfl⟩
    · exact .membership hmembership.membership_grades
    · simpa [Phrase.grade_leaf, hnot] using Test.noMembership hmembership.membership_grades

/-- The level of a value with a test behind it. -/
lemma level_predicate {value : Phrase} {ps : List Phrase} (hvalue : value.kind = context.wrapper)
    (h : Test context.wrapper (ps.map Phrase.grade)) :
    NodeKind.level ((value :: ps).map Phrase.kind) = 4 := by
  obtain ⟨token, rest, hgrades, hlevel⟩ := h.head
  have hkinds : ps.map Phrase.kind = .terminal token :: rest.map Prod.fst := by
    rw [← Phrase.map_fst_grade, hgrades]
    rfl
  rw [List.map_cons, hvalue, hkinds, NodeKind.level_behind context.token?_wrapper, hlevel]

lemma Builds.binds_predicate (h : Builds (.predicate context) [p]) : p.Binds context.wrapper 4 := by
  obtain ⟨_, tested, hvalue, htest, hp⟩ := builds_extended.mp h
  obtain ⟨value, hbinds, rfl⟩ := hvalue.exists_additive
  rcases builds_opt.mp htest with rfl | htest
  · obtain rfl := List.singleton_inj.mp hp
    exact hbinds.mono (by decide)
  · have htest := htest.test_grades
    obtain ⟨token, rest, hgrades, -⟩ := htest.head
    have hne : tested.isEmpty = false := by
      cases tested with
      | nil => cases hgrades
      | cons _ _ => rfl
    rw [hne] at hp
    obtain rfl := List.singleton_inj.mp hp
    refine ⟨rfl, ?_⟩
    exact Nat.le_of_eq (level_predicate hbinds.kind_eq htest).symm

lemma Builds.binds_negation (h : Builds (.negation context) [p]) : p.Binds context.wrapper 3 :=
  h.binds_led (fun _ => binds_predicate) (by decide) (by decide)

lemma Builds.binds_conjunction (h : Builds (.conjunction context) [p]) :
    p.Binds context.wrapper 2 := by
  refine h.binds_chain context.token?_wrapper (fun _ => binds_negation) (by decide) ?_
  intro token htoken
  obtain rfl := of_decide_eq_true htoken
  decide

lemma Builds.binds_expression (h : Builds (.expression context) [p]) :
    p.Binds context.wrapper 1 := by
  refine h.binds_chain context.token?_wrapper (fun _ => binds_conjunction) (by decide) ?_
  intro token htoken
  obtain rfl := of_decide_eq_true htoken
  decide

lemma Builds.exists_expr {ps : List Phrase} (h : Builds (.expr context) ps) :
    ∃ p : Phrase, p.Binds context.wrapper 1 ∧ ps = [p] := by
  have hexpression := builds_call.mp h
  obtain ⟨_, _, _, _, rfl⟩ := builds_chain.mp hexpression
  exact ⟨_, binds_expression hexpression, rfl⟩

end Layers

namespace Form

open Phrase (Binds)

/-- All expressions that a form makes by itself are ranked. -/
def Ranks (maker : Form) : Prop :=
  ∀ ⦃kind : NodeKind⦄ ⦃parts : List Phrase⦄, maker.Makes kind parts →
    kind.isBoundaryStatement = true →
    Ranked kind (parts.map Phrase.grade) (NodeKind.level (parts.map Phrase.kind))

variable {kind : NodeKind} {operand form : Form} {n m : Nat} {context : Context}

lemma ranks_chain {operator : TokenKind → Bool} (hkind : kind.token? = none)
    (hleft : ∀ q, Builds (.chain kind operator operand) [q] → q.Binds kind n)
    (hright : ∀ q, Builds operand [q] → q.Binds kind m)
    (hranked : ∀ token left right, operator token = true → n ≤ left → m ≤ right →
      Ranked kind [(kind, left), mark token, (kind, right)] token.levelBehind) :
    (chain kind operator operand).Ranks := by
  intro _ _ hmakes _
  cases hmakes with
  | @chain _ _ _ left right mark hl hmark hr =>
    have hlevel : NodeKind.level ([left, .leaf mark, right].map Phrase.kind) =
        mark.kind.levelBehind := by
      rw [List.map_cons, (hleft left hl).kind_eq]
      exact NodeKind.level_behind hkind _ _
    have hgrades : [left, .leaf mark, right].map Phrase.grade =
        [(kind, left.level), Grade.mark mark.kind, (kind, right.level)] := by
      simp [(hleft left hl).grade_eq, (hright right hr).grade_eq, Phrase.grade_leaf]
    rw [hlevel, hgrades]
    exact hranked _ _ _ hmark (hleft left hl).le_level (hright right hr).le_level

lemma ranks_led {operator : TokenKind}
    (hinner : ∀ q, Builds (.led kind operator operand) [q] → q.Binds kind n)
    (hranked : ∀ inner, n ≤ inner →
      Ranked kind [mark operator, (kind, inner)] operator.levelBefore) :
    (led kind operator operand).Ranks := by
  intro _ _ hmakes _
  cases hmakes with
  | @led _ _ _ inner mark hmark h =>
    have hgrades : [.leaf mark, inner].map Phrase.grade =
        [Grade.mark operator, (kind, inner.level)] := by
      simp [(hinner inner h).grade_eq, Phrase.grade_leaf, hmark]
    have hlevel : NodeKind.level ([.leaf mark, inner].map Phrase.kind) = operator.levelBefore := by
      rw [← hmark]
      rfl
    rw [hlevel, hgrades]
    exact hranked _ (hinner inner h).le_level

lemma ranks_factor : (factor context).Ranks :=
  ranks_led (fun _ => Builds.binds_factor) fun _ => .negative

lemma ranks_term : (term context).Ranks := by
  refine ranks_chain context.token?_wrapper (fun _ => Builds.binds_term)
    (fun _ => Builds.binds_factor) ?_
  intro token left right htoken hleft hright
  simp only [Bool.or_eq_true, decide_eq_true_eq] at htoken
  have hlevel : token.levelBehind = 6 := by rcases htoken with rfl | rfl <;> rfl
  rw [hlevel]
  exact .product htoken hleft hright

lemma ranks_additive : (additive context).Ranks := by
  refine ranks_chain context.token?_wrapper (fun _ => Builds.binds_additive)
    (fun _ => Builds.binds_term) ?_
  intro token left right htoken hleft hright
  simp only [Bool.or_eq_true, decide_eq_true_eq] at htoken
  have hlevel : token.levelBehind = 5 := by rcases htoken with rfl | rfl <;> rfl
  rw [hlevel]
  exact .sum htoken hleft hright

lemma ranks_predicate : (predicate context).Ranks := by
  intro _ _ hmakes _
  cases hmakes with
  | extended hvalue htest hne =>
    obtain ⟨value, hbinds, rfl⟩ := hvalue.exists_additive
    have htest := ((builds_opt.mp htest).resolve_left hne).test_grades
    rw [List.singleton_append, level_predicate hbinds.kind_eq htest, List.map_cons, hbinds.grade_eq]
    exact .predicate hbinds.le_level htest

lemma ranks_negation : (negation context).Ranks :=
  ranks_led (fun _ => Builds.binds_negation) fun _ => .negation

lemma ranks_conjunction : (conjunction context).Ranks := by
  refine ranks_chain context.token?_wrapper (fun _ => Builds.binds_conjunction)
    (fun _ => Builds.binds_negation) ?_
  intro token left right htoken hleft hright
  obtain rfl := of_decide_eq_true htoken
  exact .conjunction hleft hright

lemma ranks_expression : (expression context).Ranks := by
  refine ranks_chain context.token?_wrapper (fun _ => Builds.binds_expression)
    (fun _ => Builds.binds_conjunction) ?_
  intro token left right htoken hleft hright
  obtain rfl := of_decide_eq_true htoken
  exact .disjunction hleft hright

lemma ranks_guardCall : (guardCall context).Ranks := by
  intro _ _ hmakes _
  cases hmakes with
  | node h =>
    simp only [builds_append, builds_word, builds_tok] at h
    obtain ⟨_, _, ⟨_, _, ⟨_, _, ⟨_, _, ⟨_, _, ⟨word, hword, rfl⟩, ⟨opening, hopening, rfl⟩, rfl⟩,
      hvalue, rfl⟩, ⟨comma, hcomma, rfl⟩, rfl⟩, hreplacement, rfl⟩, ⟨closing, hclosing, rfl⟩,
      rfl⟩ := h
    obtain ⟨value, hbinds, rfl⟩ := hvalue.exists_expr
    obtain ⟨replacement, hbinds', rfl⟩ := hreplacement.exists_expr
    simpa [Phrase.grade_leaf, hword, hopening, hcomma, hclosing, hbinds.grade_eq, hbinds'.grade_eq,
      NodeKind.level, TokenKind.levelBefore] using Ranked.guard

lemma ranks_bracketed : (bracketed context).Ranks := by
  intro _ _ hmakes _
  cases hmakes with
  | node h =>
    simp only [builds_append, builds_tok] at h
    obtain ⟨_, _, ⟨_, _, ⟨opening, hopening, rfl⟩, hvalue, rfl⟩, ⟨closing, hclosing, rfl⟩, rfl⟩ := h
    obtain ⟨value, hbinds, rfl⟩ := hvalue.exists_expr
    simpa [Phrase.grade_leaf, hopening, hclosing, hbinds.grade_eq, NodeKind.level,
      TokenKind.levelBefore] using
      Ranked.bracketed

lemma ranks_wrapped : (wrapped context operand).Ranks := by
  intro _ _ hmakes _
  cases hmakes with
  | node h =>
    obtain ⟨parts, _, rfl⟩ := builds_node.mp h
    exact .operand

/-- What makes no expressions ranks them. -/
lemma all_ranks (h : form.Made (·.isBoundaryStatement) fun _ _ => False) : form.All Ranks := by
  refine h.all.mono fun maker hmaker kind parts hmakes hkind => ?_
  obtain ⟨_, hfalse, _⟩ := hmaker hkind hmakes
  exact hfalse.elim

lemma ranks_node (h : kind.isBoundaryStatement = false) : (node kind form).Ranks := by
  intro _ _ hmakes hkind
  cases hmakes with
  | node _ => cases h.symm.trans hkind

lemma all_primary : (primary context).All Ranks := by
  have hsubquery : subquery.All Ranks := all_ranks (by decide)
  have hoperand : (operand context).All Ranks := all_ranks (by cases context <;> decide)
  have hguard : (guardCall context).All Ranks :=
    ⟨ranks_guardCall, all_ranks (by cases context <;> decide)⟩
  have hbracketed : (bracketed context).All Ranks :=
    ⟨ranks_bracketed, all_ranks (by cases context <;> decide)⟩
  exact ⟨⟨⟨hguard, ranks_wrapped, ranks_node rfl, hsubquery⟩, hbracketed⟩, ranks_wrapped,
    ranks_node rfl, hoperand⟩

lemma all_additive : (additive context).All Ranks :=
  ⟨ranks_additive, ranks_term, ranks_factor, all_primary⟩

lemma all_test : (test context).All Ranks := by
  have hlist : (inList context).All Ranks := all_ranks (by cases context <;> decide)
  have hmembership : (membership context).All Ranks :=
    ⟨⟨⟨⟨trivial, trivial, trivial⟩, hlist⟩, ⟨⟨trivial, all_additive⟩, trivial⟩, all_additive⟩,
      trivial, all_additive⟩
  exact ⟨⟨⟨⟨trivial, all_additive⟩, all_ranks (by decide)⟩, all_ranks (by decide)⟩,
    ⟨trivial, trivial⟩, hmembership⟩

/-- All expressions are made by forms that rank them. -/
lemma all_form (construct : Construct) : construct.form.All Ranks := by
  cases construct with
  | expression context =>
    exact ⟨ranks_expression, ranks_conjunction, ranks_negation, ranks_predicate, all_additive,
      trivial, all_test⟩
  | statement => exact all_ranks (by decide)
  | source => exact all_ranks (by decide)

end Form

namespace Tree

def level (tree : Tree) (id : NodeId) : Nat := NodeKind.level ((tree.children id).map tree.kind)

def grade (tree : Tree) (id : NodeId) : Grade := (tree.kind id, tree.level id)

variable {tree : Tree} {id : NodeId}

lemma Shows.grade_eq {p : Phrase} (h : tree.Shows id p) : tree.grade id = p.grade := by
  refine Prod.ext h.kind_eq ?_
  cases p with
  | leaf token =>
    change NodeKind.level ((tree.children id).map tree.kind) = 8
    rw [h.leaf.1]
    rfl
  | node kind parts =>
    change NodeKind.level ((tree.children id).map tree.kind) = _
    rw [h.map_kind]
    rfl

lemma Shows.map_grade {kind : NodeKind} {parts : List Phrase}
    (h : tree.Shows id (.node kind parts)) :
    (tree.children id).map tree.grade = parts.map Phrase.grade := by
  have hparts := h.parts
  generalize tree.children id = ids at hparts
  clear h
  induction hparts with
  | nil => rfl
  | cons hp _ ih => rw [List.map_cons, List.map_cons, hp.grade_eq, ih]

end Tree

/-- The operands of all expressions bind as tightly as their operator asks for, on either side of
it, and are expressions of the same kind. -/
theorem Parsed.ranked_expressions {scanned : List Diagnostic} {tokens : List Token} {tree : Tree}
    (h : (parseTokens scanned tokens).tree = some tree) {id : NodeId}
    (hid : (tree.kind id).isBoundaryStatement = true) :
    Ranked (tree.kind id) ((tree.children id).map tree.grade) (tree.level id) ∧
      ∀ child ∈ tree.children id, (tree.kind child).isBoundaryStatement = true →
        tree.kind child = tree.kind id := by
  have htree := eq_toTree_of_tree h
  have hranked : Ranked (tree.kind id) ((tree.children id).map tree.grade) (tree.level id) := by
    subst htree
    generalize hk : (Part.package _).toTree.kind id = kind at hid ⊢
    have hne : kind ≠ .package := by
      rintro rfl
      cases hid
    obtain ⟨qs, hhas, hshows⟩ := Part.exists_shows hk hne (NodeKind.token?_of_isBoundary hid)
    obtain ⟨p, hbuilds, hhas⟩ := Part.exists_builds hne (Part.all_built _) hhas
    obtain ⟨maker, hranks, hmakes⟩ :=
      hbuilds.exists_makes Form.all_form trivial p (by simp) hhas
    rw [hshows.map_grade, Tree.level, hshows.map_kind]
    exact hranks hmakes hid
  refine ⟨hranked, fun child hchild hboundary => ?_⟩
  exact hranked.kind_eq _ (List.mem_map_of_mem hchild) hboundary

/-- `SELECT NOT a - -2 * b > 1 OR c`, with operators of nearly all levels. -/
def mixedTokens : List Token :=
  [⟨.keyword .select, ⟨0, 6⟩, "SELECT"⟩, ⟨.keyword .not, ⟨7, 10⟩, "NOT"⟩,
    ⟨.identifier, ⟨11, 12⟩, "a"⟩, ⟨.minus, ⟨13, 14⟩, "-"⟩, ⟨.minus, ⟨15, 16⟩, "-"⟩,
    ⟨.number, ⟨16, 17⟩, "2"⟩, ⟨.star, ⟨18, 19⟩, "*"⟩, ⟨.identifier, ⟨20, 21⟩, "b"⟩,
    ⟨.gt, ⟨22, 23⟩, ">"⟩, ⟨.number, ⟨24, 25⟩, "1"⟩, ⟨.keyword .or, ⟨26, 28⟩, "OR"⟩,
    ⟨.identifier, ⟨29, 30⟩, "c"⟩]

theorem Parsed.ranked_expressions_mixed : ∃ tree,
    (parseTokens [] mixedTokens).tree = some tree ∧
    [30, 24, 23, 18, 17, 11, 10].map tree.level = [1, 3, 4, 5, 6, 7, 8] ∧
    ∀ id ∈ [30, 24, 23, 18, 17, 11, 10],
      Ranked (tree.kind id) ((tree.children id).map tree.grade) (tree.level id) := by
  have hchecked : ((parseTokens [] mixedTokens).tree.map fun tree =>
      ([30, 24, 23, 18, 17, 11, 10].map tree.level,
        [30, 24, 23, 18, 17, 11, 10].all fun id => (tree.kind id).isBoundaryStatement)) =
        some ([1, 3, 4, 5, 6, 7, 8], true) := by decide +kernel
  obtain ⟨tree, htree, hchecked⟩ := Option.map_eq_some_iff.mp hchecked
  obtain ⟨hlevels, hboundary⟩ := Prod.mk.inj hchecked
  refine ⟨tree, htree, hlevels, fun id hid => ?_⟩
  exact (ranked_expressions htree (List.all_eq_true.mp hboundary id hid)).1

end NullGuard
