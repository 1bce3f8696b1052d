import NullGuard.Proofs.FormLanguage
import NullGuard.Proofs.Layout

/-!
# The shape of nodes

Which kinds of nodes stand below which, and how often, is read off the forms of the grammar by
computation. `Builds.regular` carries it over to all nodes of all phrases that are built.
-/

namespace NullGuard

namespace NodeKind

/-- Whether a node can have a child of a kind. -/
def allows : NodeKind → NodeKind → Bool
  | _, terminal _ => true
  | package, kind | subquery, kind => [query, temporaryTableQuery, union].contains kind
  | query, kind | temporaryTableQuery, kind =>
    [limitations, selectList, temporaryTable, dataSources, whereClause, groupBy, having,
      orderBy].contains kind
  | union, kind => [query, temporaryTableQuery].contains kind
  | selectList, kind => kind = selectedField
  | selectedField, kind => [selectStatement, aliasClause].contains kind
  | dataSources, kind => kind = dataSource
  | dataSource, kind => [subquery, dataSource, table, aliasClause, join].contains kind
  | join, kind => [dataSource, joinExpression].contains kind
  | joinExpression, kind => kind = joinStatement
  | whereClause, kind => kind = whereExpression
  | whereExpression, kind => kind = whereStatement
  | table, kind | groupBy, kind | having, kind | orderBy, kind => kind = clauseStatement
  | functionCall, kind | caseExpression, kind | expressionList, kind => kind.isBoundaryStatement
  | statement, kind => [subquery, column, functionCall, caseExpression].contains kind
  | selectStatement, kind | whereStatement, kind | joinStatement, kind | clauseStatement, kind =>
    kind.isBoundaryStatement || [statement, table, subquery, expressionList].contains kind
  | _, _ => false

/-- The kinds of which a node has one child at most. -/
def once : NodeKind → List NodeKind
  | query | temporaryTableQuery => [selectList, whereClause]
  | join => [dataSource, joinExpression]
  | whereClause => [whereExpression]
  | _ => []

lemma allows_terminal (kind : NodeKind) (token : TokenKind) : kind.allows (.terminal token) = true := by
  cases kind <;> rfl

lemma eq_statement_of_allows_column {kind : NodeKind} (h : kind.allows column = true) :
    kind = statement := by
  cases kind <;> first | rfl | exact (Bool.false_ne_true h).elim

lemma eq_selectedField_of_allows {kind : NodeKind} (h : selectList.allows kind = true)
    (hkind : kind.token? = none) : kind = selectedField := by
  cases kind <;> first
    | rfl
    | exact (Bool.false_ne_true h).elim
    | exact (Option.some_ne_none _ hkind).elim

lemma eq_whereClause_of_allows {kind : NodeKind} (h : kind.allows whereExpression = true) :
    kind = whereClause := by
  cases kind <;> first | rfl | exact (Bool.false_ne_true h).elim

lemma eq_join_of_allows {kind : NodeKind} (h : kind.allows joinExpression = true) :
    kind = join := by
  cases kind <;> first | rfl | exact (Bool.false_ne_true h).elim

lemma eq_dataSource_of_allows {kind : NodeKind} (h : kind.allows join = true) :
    kind = dataSource := by
  cases kind <;> first | rfl | exact (Bool.false_ne_true h).elim

/-- Whether the kind is one of those between a join and its query. -/
def isInFrom : NodeKind → Bool
  | join | dataSource | dataSources => true
  | _ => false

lemma isQuery_of_isInFrom {kind : NodeKind} (h : kind.isInFrom = true) : kind.isQuery = false := by
  revert h
  cases kind <;> simp [isInFrom, isQuery]

lemma isQuery_or_isInFrom_of_allows {kind child : NodeKind} (hchild : child.isInFrom = true)
    (h : kind.allows child = true) : kind.isQuery = true ∨ kind.isInFrom = true := by
  have hcases : child = join ∨ child = dataSource ∨ child = dataSources := by
    revert hchild
    cases child <;> simp [isInFrom]
  rcases hcases with rfl | rfl | rfl <;> cases kind <;> first
    | exact .inl rfl
    | exact .inr rfl
    | exact (Bool.false_ne_true h).elim

lemma boundary_of_allows_statement {kind : NodeKind} (h : kind.allows statement = true) :
    kind.isBoundaryStatement = true := by
  cases kind <;> first | rfl | exact (Bool.false_ne_true h).elim

lemma token?_of_once {kind k : NodeKind} (h : k ∈ kind.once) : k.token? = none := by
  have hall : ∀ k ∈ kind.once, k.token? = none := by cases kind <;> simp [once, token?]
  exact hall k h

end NodeKind

namespace Form

/-- Whether the phrases that the form builds, without what is in them, are of a class. Tokens are
not asked. -/
def tops (test : NodeKind → Bool) : Form → Bool
  | token _ | empty => true
  | seq first second | either first second => first.tops test && second.tops test
  | many item => item.tops test
  | node kind _ => test kind
  | chain kind _ operand | led kind _ operand => test kind && operand.tops test
  | extended kind first _ => test kind && first.tops test
  | call (.expression context) => test context.wrapper
  | call .statement => test .query && test .temporaryTableQuery && test .union
  | call .source => test .dataSource

/-- How often a kind is among the phrases that the form builds, where two stands for any number. -/
def most (kind : NodeKind) : Form → Nat
  | token _ | empty => 0
  | seq first second => first.most kind + second.most kind
  | either first second => max (first.most kind) (second.most kind)
  | many item => if item.most kind = 0 then 0 else 2
  | node k _ => if k = kind then 1 else 0
  | chain k _ operand | led k _ operand => max (if k = kind then 1 else 0) (operand.most kind)
  | extended k first _ => max (if k = kind then 1 else 0) (first.most kind)
  | call (.expression context) => if context.wrapper = kind then 1 else 0
  | call .statement => if [NodeKind.query, .temporaryTableQuery, .union].contains kind then 1 else 0
  | call .source => if kind = .dataSource then 1 else 0

/-- Whether all nodes that are made in the form have parts of the right kinds. -/
def regular : Form → Bool
  | token _ | empty | call _ => true
  | seq first second | either first second => first.regular && second.regular
  | many item => item.regular
  | node kind parts =>
    kind.token?.isNone && parts.tops kind.allows && kind.once.all (fun k => parts.most k ≤ 1) &&
      (kind ≠ .statement || parts.single) && (parts.single || parts.tops (· ≠ .statement)) &&
      parts.regular
  | chain kind _ operand | led kind _ operand =>
    kind.isBoundaryStatement && operand.tops kind.allows && operand.tops (· ≠ .statement) &&
      operand.regular
  | extended kind first more =>
    kind.token?.isNone && kind.once.isEmpty && kind ≠ .statement && first.tops kind.allows &&
      more.tops kind.allows && first.tops (· ≠ .statement) && more.tops (· ≠ .statement) &&
      first.regular && more.regular

end Form

lemma Construct.regular_form (construct : Construct) : construct.form.regular = true := by
  cases construct with
  | expression context => cases context <;> rfl
  | statement => rfl
  | source => rfl

section Tops

variable {test : NodeKind → Bool}

@[simp]
lemma Form.tops_append (a b : Form) : (a ++ b).tops test = (a.tops test && b.tops test) := rfl

@[simp]
lemma Form.tops_or (a b : Form) : (a ||| b).tops test = (a.tops test && b.tops test) := rfl

lemma Construct.tops_form (construct : Construct) :
    construct.form.tops test = (Form.call construct).tops test := by
  cases construct with
  | expression context =>
    simp [Construct.form, Form.tops, Form.expression, Form.conjunction, Form.negation,
      Form.predicate, Form.additive, Form.term, Form.factor, Form.primary, Form.guardCall,
      Form.wrapped, Form.bracketed]
  | statement => simp [Construct.form, Form.tops, Form.statement, Form.query, Bool.and_comm]
  | source => rfl

lemma Phrase.kind_chained (kind : NodeKind) (start : Phrase) (pairs : List (Token × Phrase)) :
    (Phrase.chained kind start pairs).kind = start.kind ∨
      (Phrase.chained kind start pairs).kind = kind := by
  induction pairs generalizing start with
  | nil => exact .inl rfl
  | cons pair pairs ih => exact .inr ((ih _).elim id id)

lemma Phrase.kind_behind (kind : NodeKind) (operators : List Token) (inmost : Phrase) :
    (Phrase.behind kind operators inmost).kind = inmost.kind ∨
      (Phrase.behind kind operators inmost).kind = kind := by
  cases operators with
  | nil => exact .inl rfl
  | cons operator operators => exact .inr rfl

/-- What is built is of the class that the form shows. -/
lemma Builds.tops {form : Form} {ps : List Phrase} (h : Builds form ps)
    (htest : ∀ token, test (.terminal token) = true) (hform : form.tops test = true) :
    ∀ p ∈ ps, test p.kind = true := by
  induction h with
  | token _ => simpa using htest _
  | empty => simp
  | seq _ _ iha ihb =>
    simp only [Form.tops, Bool.and_eq_true] at hform
    simp only [List.mem_append]
    rintro p (hp | hp)
    · exact iha hform.1 p hp
    · exact ihb hform.2 p hp
  | first _ ih =>
    simp only [Form.tops, Bool.and_eq_true] at hform
    exact ih hform.1
  | second _ ih =>
    simp only [Form.tops, Bool.and_eq_true] at hform
    exact ih hform.2
  | many groups _ ih =>
    simp only [List.mem_flatten]
    rintro p ⟨group, hgroup, hp⟩
    exact ih group hgroup hform p hp
  | node _ => simpa [Form.tops] using hform
  | @chain kind _ _ start pairs _ _ _ ih _ =>
    simp only [Form.tops, Bool.and_eq_true] at hform
    have hstart : test start.kind = true := ih hform.2 start (by simp)
    rcases Phrase.kind_chained kind start pairs with hkind | hkind
    · simpa [hkind] using hstart
    · simpa [hkind] using hform.1
  | @led kind _ _ operators inmost _ _ ih =>
    simp only [Form.tops, Bool.and_eq_true] at hform
    have hinmost : test inmost.kind = true := ih hform.2 inmost (by simp)
    rcases Phrase.kind_behind kind operators inmost with hkind | hkind
    · simpa [hkind] using hinmost
    · simpa [hkind] using hform.1
  | plain _ _ ih _ =>
    simp only [Form.tops, Bool.and_eq_true] at hform
    exact ih hform.2
  | extended _ _ _ _ _ =>
    simp only [Form.tops, Bool.and_eq_true] at hform
    simpa using hform.1
  | call _ ih =>
    rw [← Construct.tops_form] at hform
    exact ih hform

end Tops

section Most

variable {k : NodeKind}

@[simp]
lemma Form.most_or (a b : Form) : (a ||| b).most k = max (a.most k) (b.most k) := rfl

lemma Construct.most_form (construct : Construct) :
    construct.form.most k = (Form.call construct).most k := by
  cases construct with
  | expression context =>
    simp [Construct.form, Form.most, Form.expression, Form.conjunction, Form.negation,
      Form.predicate, Form.additive, Form.term, Form.factor, Form.primary, Form.guardCall,
      Form.wrapped, Form.bracketed]
  | statement => cases k <;> rfl
  | source => simp [Construct.form, Form.most, Form.source, eq_comm]

/-- What is built has a kind at most as often as the form shows. -/
lemma Builds.countP_le {form : Form} {ps : List Phrase} (h : Builds form ps) (hk : k.token? = none)
    (hform : form.most k ≤ 1) : ps.countP (·.kind = k) ≤ form.most k := by
  induction h with
  | @token _ token _ =>
    have hne : NodeKind.terminal token.kind ≠ k := by
      rintro rfl
      cases hk
    simp [hne]
  | empty => simp
  | seq _ _ iha ihb =>
    simp only [Form.most] at hform ⊢
    have ha := iha (by omega)
    have hb := ihb (by omega)
    rw [List.countP_append]
    omega
  | first _ ih =>
    simp only [Form.most] at hform ⊢
    have := ih (by omega)
    omega
  | second _ ih =>
    simp only [Form.most] at hform ⊢
    have := ih (by omega)
    omega
  | @many item groups _ ih =>
    simp only [Form.most] at hform ⊢
    by_cases hzero : Form.most k item = 0
    · have hgroup (group) (hg : group ∈ groups) : group.countP (·.kind = k) = 0 := by
        have := ih group hg (by omega)
        omega
      rw [if_pos hzero, Nat.le_zero, List.countP_eq_zero]
      intro p hp
      obtain ⟨group, hg, hp⟩ := List.mem_flatten.mp hp
      exact List.countP_eq_zero.mp (hgroup group hg) p hp
    · rw [if_neg hzero] at hform
      omega
  | node _ =>
    simp only [Form.most]
    split <;> simp_all
  | @chain kind _ _ start pairs _ _ _ ih _ =>
    simp only [Form.most] at hform ⊢
    have hstart := ih (by omega)
    rcases Phrase.kind_chained kind start pairs with hkind | hkind
    · simp only [List.countP_singleton, hkind] at hstart ⊢
      omega
    · simp only [List.countP_singleton, hkind, decide_eq_true_eq]
      omega
  | @led kind _ _ operators inmost _ _ ih =>
    simp only [Form.most] at hform ⊢
    have hinmost := ih (by omega)
    rcases Phrase.kind_behind kind operators inmost with hkind | hkind
    · simp only [List.countP_singleton, hkind] at hinmost ⊢
      omega
    · simp only [List.countP_singleton, hkind, decide_eq_true_eq]
      omega
  | plain _ _ ih _ =>
    simp only [Form.most] at hform ⊢
    have := ih (by omega)
    omega
  | @extended kind =>
    by_cases hkind : kind = k
    · simp only [Form.most, if_pos hkind]
      exact Nat.le_trans List.countP_le_length (Nat.le_max_left 1 _)
    · simp [Form.most, hkind]
  | call _ ih =>
    rw [← Construct.most_form] at hform ⊢
    exact ih hform

end Most

/-- A node with the parts that the grammar gives it. -/
structure Regular (kind : NodeKind) (parts : List Phrase) : Prop where
  token?_eq_none : kind.token? = none
  allows : ∀ p ∈ parts, kind.allows p.kind = true
  once : ∀ k ∈ kind.once, parts.countP (·.kind = k) ≤ 1
  /-- A plain operand is nothing but its one part. -/
  single : kind = .statement → parts.length = 1
  /-- A plain operand is all that there is in what it stands in. -/
  alone : ∀ p ∈ parts, p.kind = .statement → parts.length = 1

def Phrase.AllRegular (p : Phrase) : Prop :=
  ∀ kind parts, p.Has (.node kind parts) → Regular kind parts

namespace Phrase

lemma allRegular_leaf (token : Token) : (Phrase.leaf token).AllRegular := by
  rintro kind parts ⟨⟩

lemma allRegular_node {kind : NodeKind} {parts : List Phrase} :
    (Phrase.node kind parts).AllRegular ↔ Regular kind parts ∧ ∀ p ∈ parts, p.AllRegular := by
  constructor
  · intro h
    exact ⟨h _ _ (.refl _), fun p hp k qs hhas => h k qs (.part hp hhas)⟩
  · rintro ⟨hnode, hparts⟩ k qs hhas
    cases hhas with
    | refl => exact hnode
    | part hp hhas => exact hparts _ hp k qs hhas

end Phrase

/-- A regular phrase that may be one of several parts of a node. -/
structure Phrase.Suits (p : Phrase) (kind : NodeKind) : Prop where
  regular : p.AllRegular
  allows : kind.allows p.kind = true
  ne_statement : p.kind ≠ .statement

namespace Phrase

variable {kind : NodeKind} {start inmost : Phrase}

lemma suits_leaf (token : Token) (kind : NodeKind) : (Phrase.leaf token).Suits kind :=
  ⟨allRegular_leaf token, kind.allows_terminal token.kind, by simp⟩

lemma regular_of_suits {parts : List Phrase} (hkind : kind.token? = none) (honce : kind.once = [])
    (hne : kind ≠ .statement) (hparts : ∀ p ∈ parts, p.Suits kind) :
    (Phrase.node kind parts).AllRegular := by
  refine allRegular_node.mpr ⟨⟨hkind, fun p hp => (hparts p hp).allows, ?_, ?_, ?_⟩,
    fun p hp => (hparts p hp).regular⟩
  · simp [honce]
  · exact fun h => absurd h hne
  · exact fun p hp h => absurd h (hparts p hp).ne_statement

/-- A node of operators and operands is itself an operand. -/
lemma suits_boundary {parts : List Phrase} (hkind : kind.isBoundaryStatement = true)
    (hparts : ∀ p ∈ parts, p.Suits kind) : (Phrase.node kind parts).Suits kind := by
  have hall : kind.token? = none ∧ kind.once = [] ∧ kind ≠ .statement ∧ kind.allows kind = true := by
    revert hkind
    cases kind <;> simp [NodeKind.isBoundaryStatement, NodeKind.token?, NodeKind.once,
      NodeKind.allows]
  obtain ⟨htoken, honce, hne, hself⟩ := hall
  exact ⟨regular_of_suits htoken honce hne hparts, hself, hne⟩

lemma suits_chained {pairs : List (Token × Phrase)} (hkind : kind.isBoundaryStatement = true)
    (hstart : start.Suits kind) (hpairs : ∀ pair ∈ pairs, pair.2.Suits kind) :
    (chained kind start pairs).Suits kind := by
  induction pairs generalizing start with
  | nil => exact hstart
  | cons pair pairs ih =>
    refine ih (suits_boundary hkind ?_) fun q hq => hpairs q (by simp [hq])
    simp [hstart, suits_leaf, hpairs pair]

lemma suits_behind {operators : List Token} (hkind : kind.isBoundaryStatement = true)
    (hinmost : inmost.Suits kind) : (behind kind operators inmost).Suits kind := by
  induction operators with
  | nil => exact hinmost
  | cons operator operators ih =>
    refine suits_boundary hkind ?_
    simp only [List.mem_cons, List.not_mem_nil, or_false]
    rintro p (rfl | rfl)
    · exact suits_leaf operator kind
    · exact ih

end Phrase

/-- What is built by a form with suitable tops is suitable. -/
lemma Builds.suits {form : Form} {ps : List Phrase} {kind : NodeKind} (h : Builds form ps)
    (hregular : ∀ p ∈ ps, p.AllRegular) (hallows : form.tops kind.allows = true)
    (hne : form.tops (fun k => k ≠ .statement) = true) : ∀ p ∈ ps, p.Suits kind := by
  intro p hp
  refine ⟨hregular p hp, h.tops kind.allows_terminal hallows p hp, ?_⟩
  simpa using h.tops (fun _ => by simp) hne p hp

/-- All nodes of what a form of the grammar builds are regular. -/
theorem Builds.allRegular {form : Form} {ps : List Phrase} (h : Builds form ps)
    (hform : form.regular = true) : ∀ p ∈ ps, p.AllRegular := by
  induction h with
  | token _ => simpa using Phrase.allRegular_leaf _
  | empty => simp
  | seq _ _ iha ihb =>
    simp only [Form.regular, Bool.and_eq_true] at hform
    simp only [List.mem_append]
    rintro p (hp | hp)
    · exact iha hform.1 p hp
    · exact ihb hform.2 p hp
  | first _ ih =>
    simp only [Form.regular, Bool.and_eq_true] at hform
    exact ih hform.1
  | second _ ih =>
    simp only [Form.regular, Bool.and_eq_true] at hform
    exact ih hform.2
  | many groups _ ih =>
    simp only [List.mem_flatten]
    rintro p ⟨group, hgroup, hp⟩
    exact ih group hgroup hform p hp
  | @node kind parts ps h ih =>
    simp only [Form.regular, Bool.and_eq_true, Option.isNone_iff_eq_none, Bool.or_eq_true,
      List.all_eq_true, decide_eq_true_eq] at hform
    obtain ⟨⟨⟨⟨⟨hkind, hallows⟩, honce⟩, hsingle⟩, halone⟩, hparts⟩ := hform
    have hlength (hs : parts.single = true) : ps.length = 1 := by
      obtain ⟨p, rfl⟩ := h.exists_single hs
      rfl
    simp only [List.mem_singleton, forall_eq, Phrase.allRegular_node]
    refine ⟨⟨hkind, h.tops kind.allows_terminal hallows, ?_, ?_, ?_⟩, ih hparts⟩
    · intro k hk
      exact Nat.le_trans (h.countP_le (NodeKind.token?_of_once hk) (honce k hk)) (honce k hk)
    · intro hstatement
      exact hlength (hsingle.resolve_left (by simpa using hstatement))
    · intro p hp hpkind
      rcases halone with hs | htops
      · exact hlength hs
      · have := h.tops (fun _ => by simp) htops p hp
        simp [hpkind] at this
  | @chain kind _ operand start pairs hstart _ hright ihstart ihright =>
    simp only [Form.regular, Bool.and_eq_true] at hform
    obtain ⟨⟨⟨hkind, hallows⟩, hne⟩, hoperand⟩ := hform
    have hall := Phrase.suits_chained hkind
      (hstart.suits (ihstart hoperand) hallows hne start (by simp))
      fun pair hpair => (hright pair hpair).suits (ihright pair hpair hoperand) hallows hne pair.2
        (by simp)
    simpa using hall.regular
  | @led kind _ operand operators inmost _ h ih =>
    simp only [Form.regular, Bool.and_eq_true] at hform
    obtain ⟨⟨⟨hkind, hallows⟩, hne⟩, hoperand⟩ := hform
    have hall : (Phrase.behind kind operators inmost).Suits kind :=
      Phrase.suits_behind hkind (h.suits (ih hoperand) hallows hne inmost (by simp))
    simpa using hall.regular
  | plain _ _ ih _ =>
    simp only [Form.regular, Bool.and_eq_true] at hform
    exact ih hform.1.2
  | @extended kind first more ps qs h hmore _ ih ihmore =>
    simp only [Form.regular, Bool.and_eq_true, Option.isNone_iff_eq_none, List.isEmpty_iff,
      decide_eq_true_eq] at hform
    obtain ⟨⟨⟨⟨⟨⟨⟨⟨hkind, honce⟩, hstatement⟩, hallows⟩, hallows'⟩, hne⟩, hne'⟩, hfirst⟩, hmore'⟩ :=
      hform
    have hall : (Phrase.node kind (ps ++ qs)).AllRegular := by
      refine Phrase.regular_of_suits hkind honce hstatement ?_
      simp only [List.mem_append]
      rintro p (hp | hp)
      · exact h.suits (ih hfirst) hallows hne p hp
      · exact hmore.suits (ihmore hmore') hallows' hne' p hp
    simpa using hall
  | call _ ih => exact ih (Construct.regular_form _)

section Only

variable {k : NodeKind} {maker : Form} {parts : List Phrase}

namespace Form

/-- Whether no node of a kind is made in the form. -/
def avoids (k : NodeKind) : Form → Bool
  | token _ | empty | call _ => true
  | seq first second | either first second => first.avoids k && second.avoids k
  | many item => item.avoids k
  | node kind parts => kind ≠ k && parts.avoids k
  | chain kind _ operand | led kind _ operand => kind ≠ k && operand.avoids k
  | extended kind first more => kind ≠ k && first.avoids k && more.avoids k

/-- The nodes that a form makes by itself, with their parts. -/
inductive Makes : Form → NodeKind → List Phrase → Prop where
  | node {kind : NodeKind} {form : Form} {ps : List Phrase} (h : Builds form ps) :
      Makes (.node kind form) kind ps
  | chain {kind : NodeKind} {operator : TokenKind → Bool} {operand : Form} {left right : Phrase}
      {mark : Token} (hleft : Builds (.chain kind operator operand) [left])
      (hmark : operator mark.kind = true) (hright : Builds operand [right]) :
      Makes (.chain kind operator operand) kind [left, .leaf mark, right]
  | led {kind : NodeKind} {operator : TokenKind} {operand : Form} {inner : Phrase} {mark : Token}
      (hmark : mark.kind = operator) (h : Builds (.led kind operator operand) [inner]) :
      Makes (.led kind operator operand) kind [.leaf mark, inner]
  | extended {kind : NodeKind} {first more : Form} {ps qs : List Phrase} (h : Builds first ps)
      (hmore : Builds more qs) (hne : qs ≠ []) : Makes (.extended kind first more) kind (ps ++ qs)

/-- All forms in the form that make nodes by themselves are good. -/
def All (good : Form → Prop) : Form → Prop
  | token _ | empty | call _ => True
  | seq first second | either first second => first.All good ∧ second.All good
  | many item => item.All good
  | node kind parts => good (node kind parts) ∧ parts.All good
  | chain kind operator operand => good (chain kind operator operand) ∧ operand.All good
  | led kind operator operand => good (led kind operator operand) ∧ operand.All good
  | extended kind first more => good (extended kind first more) ∧ first.All good ∧ more.All good

/-- Nodes of some kinds are made of good forms only, and not by operators. -/
def Made (test : NodeKind → Bool) (good : NodeKind → Form → Prop) : Form → Prop
  | token _ | empty | call _ => True
  | seq first second | either first second => first.Made test good ∧ second.Made test good
  | many item => item.Made test good
  | node kind parts => (test kind = true → good kind parts) ∧ parts.Made test good
  | chain kind _ operand | led kind _ operand => test kind = false ∧ operand.Made test good
  | extended kind first more => test kind = false ∧ first.Made test good ∧ more.Made test good

instance decidableMade (test : NodeKind → Bool) (good : NodeKind → Form → Prop)
    [∀ kind parts, Decidable (good kind parts)] : DecidablePred (Made test good)
  | token _ | empty | call _ => .isTrue trivial
  | seq first second | either first second =>
    have := decidableMade test good first
    have := decidableMade test good second
    inferInstanceAs (Decidable (_ ∧ _))
  | many item => decidableMade test good item
  | node _ parts =>
    have := decidableMade test good parts
    inferInstanceAs (Decidable ((_ → _) ∧ _))
  | chain _ _ operand | led _ _ operand =>
    have := decidableMade test good operand
    inferInstanceAs (Decidable (_ ∧ _))
  | extended _ first more =>
    have := decidableMade test good first
    have := decidableMade test good more
    inferInstanceAs (Decidable (_ ∧ _ ∧ _))

/-- Only one form makes nodes of a kind in the form. -/
def Only (k : NodeKind) (maker : Form) : Form → Prop
  | token _ | empty | call _ => True
  | seq first second | either first second => Only k maker first ∧ Only k maker second
  | many item => Only k maker item
  | node kind parts => (kind = k → node kind parts = maker) ∧ Only k maker parts
  | chain kind _ operand | led kind _ operand => kind ≠ k ∧ Only k maker operand
  | extended kind first more => kind ≠ k ∧ Only k maker first ∧ Only k maker more

lemma only_of_avoids {form : Form} (h : form.avoids k = true) : Only k maker form := by
  induction form with
  | token _ | empty | call _ => trivial
  | seq first second ih ih' | either first second ih ih' =>
    simp only [avoids, Bool.and_eq_true] at h
    exact ⟨ih h.1, ih' h.2⟩
  | many item ih => exact ih h
  | node kind parts ih =>
    simp only [avoids, Bool.and_eq_true, decide_eq_true_eq] at h
    exact ⟨fun hkind => absurd hkind h.1, ih h.2⟩
  | chain kind _ operand ih | led kind _ operand ih =>
    simp only [avoids, Bool.and_eq_true, decide_eq_true_eq] at h
    exact ⟨h.1, ih h.2⟩
  | extended kind first more ih ih' =>
    simp only [avoids, Bool.and_eq_true, decide_eq_true_eq] at h
    exact ⟨h.1.1, ih h.1.2, ih' h.2⟩

lemma made_of_only {form : Form} (h : Only k maker form) :
    form.Made (· = k) (fun kind parts => node kind parts = maker) := by
  induction form with
  | token _ | empty | call _ => trivial
  | seq first second ih ih' | either first second ih ih' => exact ⟨ih h.1, ih' h.2⟩
  | many item ih => exact ih h
  | node kind parts ih => exact ⟨fun hkind => h.1 (of_decide_eq_true hkind), ih h.2⟩
  | chain kind _ operand ih | led kind _ operand ih => exact ⟨decide_eq_false h.1, ih h.2⟩
  | extended kind first more ih ih' => exact ⟨decide_eq_false h.1, ih h.2.1, ih' h.2.2⟩

end Form

namespace Phrase

variable {kind : NodeKind}

lemma has_node_of_ne {qs : List Phrase} (hne : kind ≠ k)
    (h : (Phrase.node kind qs).Has (.node k parts)) : ∃ p ∈ qs, p.Has (.node k parts) := by
  cases h with
  | refl => exact absurd rfl hne
  | part hp h => exact ⟨_, hp, h⟩

lemma not_leaf_has_node {token : Token} : ¬ (Phrase.leaf token).Has (.node k parts) := by
  rintro ⟨⟩

/-- A node in a chain is in an operand, or it is the chain up to one of the operators. -/
lemma Has.of_chained {start : Phrase} {pairs : List (Token × Phrase)}
    (h : (chained kind start pairs).Has (.node k parts)) :
    start.Has (.node k parts) ∨ (∃ pair ∈ pairs, pair.2.Has (.node k parts)) ∨
      k = kind ∧ ∃ before pair after, pairs = before ++ pair :: after ∧
        parts = [chained kind start before, .leaf pair.1, pair.2] := by
  induction pairs generalizing start with
  | nil => exact .inl h
  | cons pair pairs ih =>
    rcases ih h with hnode | ⟨other, hother, hhas⟩ | ⟨rfl, before, other, after, rfl, rfl⟩
    · cases hnode with
      | refl => exact .inr (.inr ⟨rfl, [], pair, pairs, rfl, rfl⟩)
      | part hp hhas =>
        simp only [List.mem_cons, List.not_mem_nil, or_false] at hp
        rcases hp with rfl | rfl | rfl
        · exact .inl hhas
        · exact absurd hhas not_leaf_has_node
        · exact .inr (.inl ⟨pair, by simp, hhas⟩)
    · exact .inr (.inl ⟨other, by simp [hother], hhas⟩)
    · exact .inr (.inr ⟨rfl, pair :: before, other, after, rfl, rfl⟩)

/-- A node behind operators is in the operand, or it begins with one of the operators. -/
lemma Has.of_behind {operators : List Token} {inmost : Phrase}
    (h : (behind kind operators inmost).Has (.node k parts)) :
    inmost.Has (.node k parts) ∨ k = kind ∧ ∃ before mark after,
      operators = before ++ mark :: after ∧ parts = [.leaf mark, behind kind after inmost] := by
  induction operators with
  | nil => exact .inl h
  | cons operator operators ih =>
    cases h with
    | refl => exact .inr ⟨rfl, [], operator, operators, rfl, rfl⟩
    | part hp hhas =>
      simp only [List.mem_cons, List.not_mem_nil, or_false] at hp
      rcases hp with rfl | rfl
      · exact absurd hhas not_leaf_has_node
      · rcases ih hhas with hhas | ⟨rfl, before, mark, after, rfl, rfl⟩
        · exact .inl hhas
        · exact .inr ⟨rfl, operator :: before, mark, after, rfl, rfl⟩

end Phrase

/-- All nodes are made by good forms, if the constructs are made of such forms. -/
theorem Builds.exists_makes {good : Form → Prop} {form : Form} {ps : List Phrase}
    (h : Builds form ps) (hconstructs : ∀ construct : Construct, construct.form.All good)
    (hform : form.All good) :
    ∀ p ∈ ps, p.Has (.node k parts) → ∃ maker : Form, good maker ∧ maker.Makes k parts := by
  induction h with
  | token _ =>
    simp only [List.mem_singleton, forall_eq]
    exact fun h => absurd h Phrase.not_leaf_has_node
  | empty => simp
  | seq _ _ iha ihb => exact List.forall_mem_append.mpr ⟨iha hform.1, ihb hform.2⟩
  | first _ ih => exact ih hform.1
  | second _ ih => exact ih hform.2
  | many groups _ ih =>
    intro p hp
    obtain ⟨group, hgroup, hp⟩ := List.mem_flatten.mp hp
    exact ih group hgroup hform p hp
  | node h ih =>
    simp only [List.mem_singleton, forall_eq]
    rintro (_ | ⟨hp, hhas⟩)
    · exact ⟨_, hform.1, .node h⟩
    · exact ih hform.2 _ hp hhas
  | @chain _ operator operand start pairs hstart hoperator hright ihstart ihright =>
    simp only [List.mem_singleton, forall_eq]
    intro hhas
    rcases hhas.of_chained with hhas | ⟨pair, hpair, hhas⟩ | ⟨rfl, before, pair, after, rfl, rfl⟩
    · exact ihstart hform.2 start (by simp) hhas
    · exact ihright pair hpair hform.2 pair.2 (by simp) hhas
    · have hleft : Builds (.chain k operator operand) [Phrase.chained k start before] :=
        .chain start before hstart (fun other hother => hoperator other (by simp [hother]))
          fun other hother => hright other (by simp [hother])
      exact ⟨_, hform.1, .chain hleft (hoperator pair (by simp)) (hright pair (by simp))⟩
  | @led _ operator operand operators inmost hoperator h ih =>
    simp only [List.mem_singleton, forall_eq]
    intro hhas
    rcases hhas.of_behind with hhas | ⟨rfl, before, mark, after, rfl, rfl⟩
    · exact ih hform.2 inmost (by simp) hhas
    · have hinner : Builds (.led k operator operand) [Phrase.behind k after inmost] :=
        .led after inmost (fun other hother => hoperator other (by simp [hother])) h
      exact ⟨_, hform.1, .led (hoperator mark (by simp)) hinner⟩
  | plain _ _ ih _ => exact ih hform.2.1
  | extended h hmore hne ih ihmore =>
    simp only [List.mem_singleton, forall_eq]
    rintro (_ | ⟨hp, hhas⟩)
    · exact ⟨_, hform.1, .extended h hmore hne⟩
    · rcases List.mem_append.mp hp with hp | hp
      · exact ih hform.2.1 _ hp hhas
      · exact ihmore hform.2.2 _ hp hhas
  | call _ ih => exact ih (hconstructs _)

/-- Where nodes of some kinds are made of good forms only, what makes such a node is one of them. -/
lemma Form.All.mono {good better : Form → Prop} {form : Form} (h : form.All good)
    (himp : ∀ maker, good maker → better maker) : form.All better := by
  induction form with
  | token _ | empty | call _ => trivial
  | seq _ _ ih ih' | either _ _ ih ih' => exact ⟨ih h.1, ih' h.2⟩
  | many _ ih => exact ih h
  | node _ _ ih | chain _ _ _ ih | led _ _ _ ih => exact ⟨himp _ h.1, ih h.2⟩
  | extended _ _ _ ih ih' => exact ⟨himp _ h.1, ih h.2.1, ih' h.2.2⟩

lemma Form.Made.all {test : NodeKind → Bool} {good : NodeKind → Form → Prop} {form : Form}
    (h : form.Made test good) : form.All fun maker => ∀ ⦃k : NodeKind⦄ ⦃parts : List Phrase⦄,
      test k = true → maker.Makes k parts → ∃ body, good k body ∧ Builds body parts := by
  induction form with
  | token _ | empty | call _ => trivial
  | seq _ _ ih ih' | either _ _ ih ih' => exact ⟨ih h.1, ih' h.2⟩
  | many _ ih => exact ih h
  | node kind body ih =>
    refine ⟨?_, ih h.2⟩
    rintro k parts hk ⟨⟩
    exact ⟨body, h.1 hk, ‹_›⟩
  | chain _ _ _ ih | led _ _ _ ih =>
    refine ⟨?_, ih h.2⟩
    rintro k parts hk ⟨⟩
    cases h.1.symm.trans hk
  | extended _ _ _ ih ih' =>
    refine ⟨?_, ih h.2.1, ih' h.2.2⟩
    rintro k parts hk ⟨⟩
    cases h.1.symm.trans hk

/-- All nodes of the kinds in question have parts that are built by a good form. -/
theorem Builds.exists_maker {test : NodeKind → Bool} {good : NodeKind → Form → Prop} {form : Form}
    {ps : List Phrase} (h : Builds form ps)
    (hconstructs : ∀ construct : Construct, construct.form.Made test good)
    (hform : form.Made test good) (hk : test k = true) :
    ∀ p ∈ ps, p.Has (.node k parts) → ∃ maker, good k maker ∧ Builds maker parts := by
  intro p hp hhas
  obtain ⟨_, hgood, hmakes⟩ :=
    h.exists_makes (fun construct => (hconstructs construct).all) hform.all p hp hhas
  exact hgood hk hmakes

/-- All nodes of a kind are built by the only form that makes them. -/
theorem Builds.has_node {form : Form} {ps : List Phrase} (h : Builds form ps)
    (hconstructs : ∀ construct : Construct, Form.Only k maker construct.form)
    (hform : Form.Only k maker form) :
    ∀ p ∈ ps, p.Has (.node k parts) → Builds maker [.node k parts] := by
  intro p hp hhas
  obtain ⟨_, rfl, hparts⟩ := h.exists_maker (fun construct => Form.made_of_only (hconstructs construct))
    (Form.made_of_only hform) (decide_eq_true rfl) p hp hhas
  exact hparts.node

lemma Construct.only_join (construct : Construct) : Form.Only .join .join construct.form := by
  cases construct with
  | expression context => exact Form.only_of_avoids (by cases context <;> rfl)
  | statement => exact Form.only_of_avoids rfl
  | source =>
    refine ⟨nofun, Form.only_of_avoids rfl, fun _ => rfl, ?_⟩
    exact Form.only_of_avoids rfl

end Only

end NullGuard
