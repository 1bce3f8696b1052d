import NullGuard.Proofs.JoinExactness

/-!
# Contexts of expressions

Expressions are wrapped by the clause that they stand in. All wrappers in an expression agree, down
to the queries in it, which have clauses of their own. So the nearest wrapper around a column tells
in which clause of its own query the column stands.
-/

namespace NullGuard

/-- The context of the expressions of a node that expressions begin in. -/
def NodeKind.opens? : NodeKind → Option Context
  | selectedField => some .select
  | whereExpression => some .filter
  | joinExpression => some .join
  | table | groupBy | having | orderBy => some .clause
  | _ => none

namespace Phrase

/-- A phrase is part of another, and not of a query in it. -/
inductive Reaches : Phrase → Phrase → Prop where
  | refl (p : Phrase) : Reaches p p
  | part {kind : NodeKind} {parts : List Phrase} {p q : Phrase} (hkind : kind ≠ .subquery)
      (hp : p ∈ parts) (h : Reaches p q) : Reaches (.node kind parts) q

/-- All expressions of the phrase, without those of the queries in it, are wrapped alike. -/
def Steady (context : Context) (p : Phrase) : Prop :=
  ∀ kind parts, p.Reaches (.node kind parts) → kind.isBoundaryStatement = true →
    kind = context.wrapper

variable {context : Context} {kind : NodeKind} {parts : List Phrase} {p q : Phrase}

lemma Reaches.step (h : p.Reaches (.node kind parts)) (hkind : kind ≠ .subquery) (hq : q ∈ parts) :
    p.Reaches q := by
  generalize hnode : Phrase.node kind parts = node at h
  induction h with
  | refl =>
    subst hnode
    exact .part hkind hq (.refl q)
  | part hkind' hp _ ih => exact .part hkind' hp (ih hnode)

lemma steady_leaf (token : Token) : (Phrase.leaf token).Steady context := by
  rintro kind parts ⟨⟩

lemma steady_node (hkind : kind.isBoundaryStatement = true → kind = context.wrapper)
    (hparts : kind ≠ .subquery → ∀ p ∈ parts, p.Steady context) :
    (Phrase.node kind parts).Steady context := by
  intro k qs hreaches
  cases hreaches with
  | refl => exact hkind
  | part hne hp hreaches => exact hparts hne _ hp k qs hreaches

lemma steady_chained {start : Phrase} {pairs : List (Token × Phrase)} (hstart : start.Steady context)
    (hpairs : ∀ pair ∈ pairs, pair.2.Steady context) :
    (chained context.wrapper start pairs).Steady context := by
  induction pairs generalizing start with
  | nil => exact hstart
  | cons pair pairs ih =>
    obtain ⟨hpair, hpairs⟩ := List.forall_mem_cons.mp hpairs
    refine ih (steady_node (fun _ => rfl) fun _ => ?_) hpairs
    simp [hstart, hpair, steady_leaf]

lemma steady_behind {operators : List Token} {inmost : Phrase} (h : inmost.Steady context) :
    (behind context.wrapper operators inmost).Steady context := by
  induction operators with
  | nil => exact h
  | cons operator operators ih =>
    have hparts : ∀ p ∈ [leaf operator, behind context.wrapper operators inmost],
        p.Steady context := by
      simp [steady_leaf, ih]
    exact steady_node (fun _ => rfl) fun _ => hparts

end Phrase

namespace Form

/-- Whether all expressions that are made in the form, without those of queries, are wrapped alike. -/
def steady (context : Context) : Form → Bool
  | token _ | empty => true
  | seq first second | either first second => first.steady context && second.steady context
  | many item => item.steady context
  | node kind parts =>
    kind = .subquery ||
      (!kind.isBoundaryStatement || kind = context.wrapper) && parts.steady context
  | chain kind _ operand | led kind _ operand => kind = context.wrapper && operand.steady context
  | extended kind first more =>
    kind = context.wrapper && first.steady context && more.steady context
  | call (.expression other) => other = context
  | call _ => false

end Form

lemma Construct.steady_form (context : Context) :
    (Construct.expression context).form.steady context = true := by
  cases context <;> rfl

/-- What a form builds is wrapped as the form shows. -/
lemma Builds.steady {context : Context} {form : Form} {ps : List Phrase} (h : Builds form ps)
    (hform : form.steady context = true) : ∀ p ∈ ps, p.Steady context := by
  induction h with
  | token _ => simpa using Phrase.steady_leaf _
  | empty => simp
  | seq _ _ iha ihb =>
    simp only [Form.steady, Bool.and_eq_true] at hform
    exact List.forall_mem_append.mpr ⟨iha hform.1, ihb hform.2⟩
  | first _ ih =>
    simp only [Form.steady, Bool.and_eq_true] at hform
    exact ih hform.1
  | second _ ih =>
    simp only [Form.steady, Bool.and_eq_true] at hform
    exact ih hform.2
  | many groups _ ih =>
    intro p hp
    obtain ⟨group, hgroup, hp⟩ := List.mem_flatten.mp hp
    exact ih group hgroup hform p hp
  | node _ ih =>
    simp only [Form.steady, Bool.or_eq_true, Bool.and_eq_true, decide_eq_true_eq,
      Bool.not_eq_true'] at hform
    simp only [List.mem_singleton, forall_eq]
    rcases hform with rfl | ⟨hkind, hparts⟩
    · exact Phrase.steady_node (by simp [NodeKind.isBoundaryStatement]) fun hne => absurd rfl hne
    · refine Phrase.steady_node (fun hboundary => ?_) fun _ => ih hparts
      simpa [hboundary] using hkind
  | chain start pairs _ _ _ ihstart ihright =>
    simp only [Form.steady, Bool.and_eq_true, decide_eq_true_eq] at hform
    obtain ⟨rfl, hoperand⟩ := hform
    simp only [List.mem_singleton, forall_eq]
    exact Phrase.steady_chained (ihstart hoperand start (by simp)) fun pair hpair =>
      ihright pair hpair hoperand pair.2 (by simp)
  | led operators inmost _ _ ih =>
    simp only [Form.steady, Bool.and_eq_true, decide_eq_true_eq] at hform
    obtain ⟨rfl, hoperand⟩ := hform
    simp only [List.mem_singleton, forall_eq]
    exact Phrase.steady_behind (ih hoperand inmost (by simp))
  | plain _ _ ih _ =>
    simp only [Form.steady, Bool.and_eq_true] at hform
    exact ih hform.1.2
  | extended _ _ _ ih ihmore =>
    simp only [Form.steady, Bool.and_eq_true, decide_eq_true_eq] at hform
    obtain ⟨⟨rfl, hfirst⟩, hmore⟩ := hform
    simp only [List.mem_singleton, forall_eq]
    exact Phrase.steady_node (fun _ => rfl) fun _ =>
      List.forall_mem_append.mpr ⟨ih hfirst, ihmore hmore⟩
  | @call construct _ _ ih =>
    cases construct with
    | expression other =>
      simp only [Form.steady, decide_eq_true_eq] at hform
      subst hform
      exact ih (Construct.steady_form _)
    | statement | source => cases hform

/-- The expressions of a node that they begin in are made to be wrapped alike. -/
lemma Construct.made_steady (construct : Construct) : construct.form.Made (·.opens?.isSome)
    (fun kind parts => kind.opens?.all (parts.steady ·) = true) := by
  cases construct with
  | expression context => cases context <;> decide
  | statement => decide
  | source => decide

namespace Tree

/-- A node is below another, and not in a query below it. -/
def Within (tree : Tree) (id x : NodeId) : Prop :=
  ∃ below above, tree.ancestors x = below ++ id :: above ∧ ∀ b ∈ below, tree.kind b ≠ .subquery

/-- Expressions are wrapped as the node that they begin in says. -/
def Steady (tree : Tree) : Prop :=
  ∀ ⦃id x : NodeId⦄ ⦃context : Context⦄, (tree.kind id).opens? = some context → tree.Within id x →
    (tree.kind x).isBoundaryStatement = true → tree.kind x = context.wrapper

variable {tree : Tree} {id x : Nat}

/-- What is below a node shows what its phrase reaches. -/
lemma WellFormed.exists_reached (hwf : tree.WellFormed) {p : Phrase} (hp : tree.Shows id p)
    (hid : tree.kind id ≠ .subquery) (h : tree.Within id x) :
    ∃ q, p.Reaches q ∧ tree.Shows x q := by
  have hstep {y z : Nat} {q : Phrase} (hreaches : p.Reaches q) (hq : tree.Shows y q)
      (hy : tree.kind y ≠ .subquery) (hz : z ∈ tree.children y) :
      ∃ q', p.Reaches q' ∧ tree.Shows z q' := by
    cases q with
    | leaf token =>
      rw [hq.leaf.1] at hz
      cases hz
    | node kind parts =>
      obtain ⟨q', hq', hshows⟩ := hq.exists_part hz
      rw [hq.kind_eq] at hy
      exact ⟨q', hreaches.step hy hq', hshows⟩
  obtain ⟨below, above, hs, hbelow⟩ := h
  induction below generalizing x with
  | nil => exact hstep (.refl p) hp hid (hwf.mem_children_of_ancestors hs)
  | cons b below ih =>
    obtain ⟨hb, hbelow⟩ := List.forall_mem_cons.mp hbelow
    have hsplit : tree.ancestors x = [] ++ b :: (below ++ id :: above) := hs
    have hb' := hwf.ancestors_split hsplit
    obtain ⟨q, hreaches, hq⟩ := ih hb' hbelow
    exact hstep hreaches hq hb (hwf.mem_children_of_ancestors hs)

end Tree

lemma NodeKind.plain_of_opens {kind : NodeKind} {context : Context}
    (h : kind.opens? = some context) : kind ≠ .package ∧ kind ≠ .subquery ∧ kind.token? = none ∧
      kind.isBoundaryStatement = false := by
  revert h
  cases kind <;> simp [opens?, token?, isBoundaryStatement]

/-- Expressions of a package are wrapped as the nodes that they begin in say. -/
lemma Part.steady_package {parts : List Part} (h : ∀ part ∈ parts, part.Built) :
    (package parts).toTree.Steady := by
  intro id x context hopens hwithin hboundary
  obtain ⟨hpackage, hsubquery, hnone, hplain⟩ := NodeKind.plain_of_opens hopens
  obtain ⟨qs, hhas, hshows⟩ := exists_shows rfl hpackage hnone
  obtain ⟨p, hbuilds, hhas⟩ := exists_builds hpackage h hhas
  obtain ⟨maker, hgood, hqs⟩ := hbuilds.exists_maker Construct.made_steady trivial
    (by simp [hopens]) p (by simp) hhas
  have hsteady : ∀ q ∈ qs, q.Steady context := hqs.steady (by simpa [hopens] using hgood)
  obtain ⟨q, hreaches, hq⟩ :=
    (package parts).toTree_wellFormed.exists_reached hshows hsubquery hwithin
  rw [hq.kind_eq] at hboundary ⊢
  cases hreaches with
  | refl => simp [hplain] at hboundary
  | part _ hp hreaches =>
    cases q with
    | leaf token => cases hboundary
    | node kind rs => exact hsteady _ hp kind rs hreaches hboundary

namespace NodeKind

/-- Whether the kind is one of those between a wrapper and the node that its expression begins in. -/
def isInExpression : NodeKind → Bool
  | selectStatement | whereStatement | joinStatement | clauseStatement | statement | functionCall
  | caseExpression | expressionList | table => true
  | _ => false

variable {kind child : NodeKind}

lemma isInExpression_of_isBoundaryStatement (h : kind.isBoundaryStatement = true) :
    kind.isInExpression = true := by
  revert h
  cases kind <;> simp [isBoundaryStatement, isInExpression]

lemma plain_of_isInExpression (h : kind.isInExpression = true) :
    kind ≠ .subquery ∧ kind ≠ .package ∧ kind.isQuery = false ∧
      ∀ region : Region, kind ≠ region.startKind := by
  have hstart (region : Region) : region.startKind.isInExpression = false := by cases region <;> rfl
  refine ⟨?_, ?_, ?_, ?_⟩
  · rintro rfl
    cases h
  · rintro rfl
    cases h
  · revert h
    cases kind <;> simp [isInExpression, isQuery]
  · rintro region rfl
    simp [hstart] at h

lemma ne_startKind_of_isInFrom (h : kind.isInFrom = true) (region : Region) :
    kind ≠ region.startKind := by
  rintro rfl
  cases region <;> cases h

lemma eq_table_of_allows (h : dataSource.allows kind = true) (hkind : kind.isInExpression = true) :
    kind = .table := by
  revert h hkind
  cases kind <;> simp [allows, isInExpression]

def isClause : NodeKind → Bool
  | selectList | whereClause | groupBy | having | orderBy => true
  | _ => false

lemma isQuery_of_allows_clause (hchild : child.isClause = true) (h : kind.allows child = true) :
    kind.isQuery = true := by
  revert h
  cases child <;> simp only [isClause, Bool.false_eq_true] at hchild <;> cases kind <;>
    simp [allows, isBoundaryStatement, isQuery]

lemma eq_selectList_of_allows (h : kind.allows selectedField = true) : kind = .selectList := by
  revert h
  cases kind <;> simp [allows, isBoundaryStatement]

/-- What is in an expression hangs off what is in one or what one begins in, a table of a source
apart. -/
lemma opens_or_isInExpression_of_allows (hchild : child.isInExpression = true)
    (h : kind.allows child = true) :
    kind = .dataSource ∧ child = .table ∨ (∃ context, kind.opens? = some context ∧ kind ≠ .table) ∨
      kind.isInExpression = true := by
  revert h
  cases child <;> simp only [isInExpression, Bool.false_eq_true] at hchild <;> cases kind <;>
    simp [allows, isBoundaryStatement, isInExpression, opens?]

end NodeKind

namespace Tree

/-- A node that expressions of a query begin in. A table in an expression is none. -/
structure Opens (tree : Tree) (id : NodeId) (context : Context) : Prop where
  opens : (tree.kind id).opens? = some context
  table : tree.kind id = .table →
    ∃ source, tree.parent id = some source ∧ tree.kind source = .dataSource

variable {tree : Tree} {id x c : Nat} {region : Region}

/-- Going up from an expression leads to a node that it begins in. -/
lemma Shaped.exists_opens (h : tree.Shaped) (hx : (tree.kind x).isInExpression = true)
    (htable : ∀ source, tree.parent x = some source → tree.kind source ≠ .dataSource) :
    ∃ below id above context, tree.ancestors x = below ++ id :: above ∧
      (∀ b ∈ below, (tree.kind b).isInExpression = true) ∧ tree.Opens id context := by
  revert hx htable
  induction x using h.induction_up with
  | step x ih =>
    intro hx htable
    obtain ⟨parent, hp, _, hallows⟩ := h.exists_parent (NodeKind.plain_of_isInExpression hx).2.1
    rcases NodeKind.opens_or_isInExpression_of_allows hx hallows with
      ⟨hsource, _⟩ | ⟨context, hopens, hne⟩ | hin
    · exact absurd hsource (htable parent hp)
    · exact ⟨[], parent, _, context, h.ancestors_of_parent hp, by simp,
        hopens, fun hk => absurd hk hne⟩
    · by_cases hsource : ∃ source, tree.parent parent = some source ∧ tree.kind source = .dataSource
      · obtain ⟨source, hp', hkind⟩ := hsource
        have hallows' := h.allows (h.child_of_parent hp')
        rw [hkind] at hallows'
        have htable := NodeKind.eq_table_of_allows hallows' hin
        exact ⟨[], parent, _, .clause, h.ancestors_of_parent hp, by simp,
          by rw [htable]; rfl, fun _ => ⟨source, hp', hkind⟩⟩
      · push Not at hsource
        obtain ⟨below, id, above, context, hs, hbelow, hopens⟩ := ih parent hp hin hsource
        refine ⟨parent :: below, id, above, context, ?_, ?_, hopens⟩
        · rw [h.ancestors_of_parent hp, hs, List.cons_append]
        · exact List.forall_mem_cons.mpr ⟨hin, hbelow⟩

lemma Shaped.ancestors_of_clause (h : tree.Shaped) (hid : (tree.kind id).isClause = true) :
    ∃ query above, tree.ancestors id = query :: above ∧ (tree.kind query).isQuery = true := by
  have hne : tree.kind id ≠ .package := by
    intro hk
    simp [hk, NodeKind.isClause] at hid
  obtain ⟨query, hp, _, hallows⟩ := h.exists_parent hne
  exact ⟨query, _, h.ancestors_of_parent hp, NodeKind.isQuery_of_allows_clause hid hallows⟩

/-- What leads from a node up to the nearest query, and for which regions a node among these starts
the search for columns. -/
structure Leads (tree : Tree) (path : List NodeId) (query : NodeId) (context : Context) : Prop where
  query : (tree.kind query).isQuery = true
  plain : ∀ b ∈ path, (tree.kind b).isQuery = false
  starts : ∀ region : Region,
    (∃ b ∈ path, tree.kind b = region.startKind) ↔ region.statementKind = context.wrapper

/-- From a join or a source on, nothing up to the query starts the search for columns. -/
lemma Shaped.exists_leads_of_isInFrom (h : tree.Shaped) {context : Context} {parent : Nat}
    (hp : tree.parent id = some parent) (hin : (tree.kind parent).isInFrom = true)
    (hid : (tree.kind id).isQuery = false)
    (hstart : ∀ region : Region,
      tree.kind id = region.startKind ↔ region.statementKind = context.wrapper) :
    ∃ below query above, tree.ancestors id = below ++ query :: above ∧
      tree.Leads (id :: below) query context := by
  obtain ⟨below, query, above, hs, hquery, hbelow⟩ := h.exists_query_above hin
  have hpath : ∀ b ∈ parent :: below, (tree.kind b).isInFrom = true :=
    List.forall_mem_cons.mpr ⟨hin, hbelow⟩
  refine ⟨parent :: below, query, above, by rw [h.ancestors_of_parent hp, hs]; rfl, hquery, ?_, ?_⟩
  · exact List.forall_mem_cons.mpr ⟨hid, fun b hb => NodeKind.isQuery_of_isInFrom (hpath b hb)⟩
  · intro region
    rw [← hstart region, List.exists_mem_cons_iff, or_iff_left]
    rintro ⟨b, hb, hkind⟩
    exact NodeKind.ne_startKind_of_isInFrom (hpath b hb) region hkind

/-- Between a node that expressions begin in and its query is the clause of its context, if it is one
that is looked into. -/
lemma Shaped.exists_leads (h : tree.Shaped) {context : Context} (ho : tree.Opens id context) :
    ∃ below query above, tree.ancestors id = below ++ query :: above ∧
      tree.Leads (id :: below) query context := by
  obtain ⟨hopens, htable⟩ := ho
  have hne := (NodeKind.plain_of_opens hopens).1
  obtain ⟨parent, hp, _, hallows⟩ := h.exists_parent hne
  have hancestors := h.ancestors_of_parent hp
  cases hkind : tree.kind id with
  | selectedField =>
    obtain rfl : context = .select := by simpa [hkind, NodeKind.opens?, eq_comm] using hopens
    rw [hkind] at hallows
    have hlist := NodeKind.eq_selectList_of_allows hallows
    obtain ⟨query, above, hs, hquery⟩ := h.ancestors_of_clause (by rw [hlist]; rfl)
    refine ⟨[parent], query, above, by rw [hancestors, hs]; rfl, hquery, ?_, ?_⟩
    · simp [hkind, hlist, NodeKind.isQuery]
    · intro region
      cases region <;>
        simp [hkind, hlist, Region.startKind, Region.statementKind, Context.wrapper]
  | whereExpression =>
    obtain rfl : context = .filter := by simpa [hkind, NodeKind.opens?, eq_comm] using hopens
    rw [hkind] at hallows
    have hclause := NodeKind.eq_whereClause_of_allows hallows
    obtain ⟨query, above, hs, hquery⟩ := h.ancestors_of_clause (by rw [hclause]; rfl)
    refine ⟨[parent], query, above, by rw [hancestors, hs]; rfl, hquery, ?_, ?_⟩
    · simp [hkind, hclause, NodeKind.isQuery]
    · intro region
      cases region <;>
        simp [hkind, hclause, Region.startKind, Region.statementKind, Context.wrapper]
  | joinExpression =>
    obtain rfl : context = .join := by simpa [hkind, NodeKind.opens?, eq_comm] using hopens
    rw [hkind] at hallows
    have hin : (tree.kind parent).isInFrom = true := by
      rw [NodeKind.eq_join_of_allows hallows]
      rfl
    refine h.exists_leads_of_isInFrom hp hin (by rw [hkind]; rfl) ?_
    intro region
    cases region <;> simp [hkind, Region.startKind, Region.statementKind, Context.wrapper]
  | table =>
    obtain rfl : context = .clause := by simpa [hkind, NodeKind.opens?, eq_comm] using hopens
    obtain ⟨source, hp', hsource⟩ := htable hkind
    refine h.exists_leads_of_isInFrom hp' (by rw [hsource]; rfl) (by rw [hkind]; rfl) ?_
    intro region
    cases region <;> simp [hkind, Region.startKind, Region.statementKind, Context.wrapper]
  | groupBy | having | orderBy =>
    obtain rfl : context = .clause := by simpa [hkind, NodeKind.opens?, eq_comm] using hopens
    obtain ⟨query, above, hs, hquery⟩ := h.ancestors_of_clause (by rw [hkind]; rfl)
    refine ⟨[], query, above, hs, hquery, by simp [hkind, NodeKind.isQuery], ?_⟩
    intro region
    cases region <;> simp [hkind, Region.startKind, Region.statementKind, Context.wrapper]
  | _ => simp [hkind, NodeKind.opens?] at hopens

/-- A node stands in the clause of its own query that belongs to a region. -/
def StandsIn (tree : Tree) (region : Region) (c : NodeId) : Prop :=
  ∃ below clause above, tree.ancestors c = below ++ clause :: above ∧
    tree.kind clause = region.startKind ∧ ∀ b ∈ below, (tree.kind b).isQuery = false

/-- What is found first, before a place where the search ends, is found before that place. -/
lemma exists_split_iff {α : Type} {path above : List α} {a : α} {ends : α → Bool}
    (found : α → Bool) (ha : ends a = true) (hpath : ∀ b ∈ path, ends b = false)
    (hfound : ∀ b, found b = true → ends b = false) :
    (∃ below b above', path ++ a :: above = below ++ b :: above' ∧ found b = true ∧
      ∀ x ∈ below, ends x = false) ↔ ∃ b ∈ path, found b = true := by
  constructor
  · rintro ⟨below, b, above', hs, hb, hbelow⟩
    rcases List.append_eq_append_iff.mp hs with ⟨rest, rfl, hrest⟩ | ⟨rest, rfl, hrest⟩
    · cases rest with
      | nil =>
        obtain ⟨rfl, _⟩ := List.cons.inj hrest
        simp [hfound _ hb] at ha
      | cons x rest =>
        obtain ⟨rfl, _⟩ := List.cons.inj hrest
        simp [hbelow _] at ha
    · cases rest with
      | nil =>
        obtain ⟨rfl, _⟩ := List.cons.inj hrest
        simp [hfound _ hb] at ha
      | cons x rest =>
        obtain ⟨rfl, _⟩ := List.cons.inj hrest
        exact ⟨_, by simp, hb⟩
  · rintro ⟨b, hmem, hb⟩
    obtain ⟨below, rest, rfl⟩ := List.append_of_mem hmem
    exact ⟨below, b, rest ++ a :: above, by simp, hb, fun x hx => hpath x (by simp [hx])⟩

/-- The nearest wrapper around a column tells the clause of its own query that it stands in. -/
theorem Shaped.standsIn_iff (h : tree.Shaped) (hsteady : tree.Steady) (hc : tree.kind c = .column) :
    tree.StandsIn region c ↔ ∃ s, tree.Nearest NodeKind.isBoundaryStatement c s ∧
      tree.kind s = region.statementKind := by
  obtain ⟨operand, s, hancestors, hoperand, hboundary, _, _⟩ := h.exists_operand hc
  have hnearest : tree.Nearest NodeKind.isBoundaryStatement c s :=
    ⟨[operand], _, hancestors, hboundary, by simp [hoperand, NodeKind.isBoundaryStatement]⟩
  have hexpression := NodeKind.isInExpression_of_isBoundaryStatement hboundary
  have hsource : ∀ source, tree.parent s = some source → tree.kind source ≠ .dataSource := by
    intro source hp hkind
    have hallows := h.allows (h.child_of_parent hp)
    rw [hkind] at hallows
    simp [NodeKind.eq_table_of_allows hallows hexpression, NodeKind.isBoundaryStatement] at hboundary
  obtain ⟨below, id, above, context, hs, hbelow, hopens⟩ := h.exists_opens hexpression hsource
  obtain ⟨mid, query, above', hs', hquery, hplain, hstarts⟩ := h.exists_leads hopens
  have hwithin : tree.Within id s :=
    ⟨below, above, hs, fun b hb => (NodeKind.plain_of_isInExpression (hbelow b hb)).1⟩
  have hwrapper : tree.kind s = context.wrapper := hsteady hopens.opens hwithin hboundary
  have hinside : ∀ b ∈ operand :: s :: below, (tree.kind b).isInExpression = true :=
    List.forall_mem_cons.mpr ⟨by rw [hoperand]; rfl, List.forall_mem_cons.mpr ⟨hexpression, hbelow⟩⟩
  have hpath : tree.ancestors c = (operand :: s :: below ++ id :: mid) ++ query :: above' := by
    rw [hancestors, hs, ← h.ancestors_split hs, hs']
    simp
  have hends : ∀ b ∈ operand :: s :: below ++ id :: mid, (tree.kind b).isQuery = false :=
    List.forall_mem_append.mpr
      ⟨fun b hb => (NodeKind.plain_of_isInExpression (hinside b hb)).2.2.1, hplain⟩
  have hstart (b : Nat) : tree.kind b = region.startKind → (tree.kind b).isQuery = false := by
    intro hb
    rw [hb]
    cases region <;> rfl
  have hclause : tree.StandsIn region c ↔
      ∃ b ∈ operand :: s :: below ++ id :: mid, tree.kind b = region.startKind := by
    rw [StandsIn, hpath]
    simpa using exists_split_iff (fun b => decide (tree.kind b = region.startKind)) hquery hends
      (by simpa using hstart)
  calc tree.StandsIn region c
      ↔ ∃ b ∈ id :: mid, tree.kind b = region.startKind := by
        rw [hclause]
        simp only [List.mem_append, or_and_right, exists_or]
        refine or_iff_right ?_
        rintro ⟨b, hb, hkind⟩
        exact (NodeKind.plain_of_isInExpression (hinside b hb)).2.2.2 region hkind
    _ ↔ region.statementKind = context.wrapper := hstarts region
    _ ↔ tree.kind s = region.statementKind := by rw [hwrapper, eq_comm]
    _ ↔ ∃ s', tree.Nearest NodeKind.isBoundaryStatement c s' ∧
          tree.kind s' = region.statementKind := by
        constructor
        · exact fun hkind => ⟨s, hnearest, hkind⟩
        · rintro ⟨s', hnearest', hkind⟩
          rwa [hnearest.unique hnearest']

end Tree

end NullGuard
