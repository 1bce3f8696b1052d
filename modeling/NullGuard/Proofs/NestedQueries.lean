import NullGuard.Proofs.ExpressionContexts
import NullGuard.Proofs.FlaggedJoins

/-!
# Columns of nested queries

A column names an alias by its text alone. So a finding about a join can be about a column inside of
another query, also if that query gives the alias to a source of its own. It is then a column of the
clause of its own query that is like the one that is looked into: a column of a select list inside of
the select list, of a `WHERE` inside of the `WHERE`, or of the condition of a join inside of one.
-/

namespace NullGuard

namespace Tree

/-- A source in the clause `FROM` of a query, joined or not, gives a name. -/
def Declares (tree : Tree) (query : NodeId) (name : String) : Prop :=
  ∃ source, tree.kind source = .dataSource ∧ tree.Nearest NodeKind.isQuery source query ∧
    tree.sourceAlias? source = some name

/-- A query below another one is around a column and gives the alias that the column names. -/
structure Shadows (tree : Tree) (query inner c : NodeId) : Prop where
  isQuery : (tree.kind inner).isQuery = true
  below : query ∈ tree.ancestors inner
  around : inner ∈ tree.ancestors c
  declares : ∃ table name, tree.tableAlias? c = some table ∧ tree.Declares inner name ∧
    Text.sameIgnoringCase table name = true

/-- A column below a root stands in the clause of its own query that belongs to the region, and not
inside of a guard of the region. -/
structure ReadIn (tree : Tree) (region : Region) (root c : NodeId) : Prop where
  kind : tree.kind c = .column
  clause : tree.StandsIn region c
  unguarded : ∃ below above, tree.ancestors c = below ++ root :: above ∧
    ∀ b ∈ below, tree.kind b = region.statementKind → tree.isGuardCall b = false

variable {tree : Tree} {config : Config} {region : Region} {join query inner root c a b : Nat}

lemma Shaped.exposed_iff_readIn (h : tree.Shaped) (hsteady : tree.Steady) :
    tree.Exposed region root c ↔ tree.ReadIn region root c := by
  constructor
  · rintro ⟨hkind, hstatement, hunguarded⟩
    exact ⟨hkind, (h.standsIn_iff hsteady hkind).mpr hstatement, hunguarded⟩
  · rintro ⟨hkind, hclause, hunguarded⟩
    exact ⟨hkind, (h.standsIn_iff hsteady hkind).mp hclause, hunguarded⟩

/-- What is looked into for a join belongs to the query around the join, and not to one inside. -/
lemma ScanRoot.nearest (h : tree.WellFormed) (hq : tree.Nearest NodeKind.isQuery join query)
    (hroot : tree.ScanRoot config join query region root) :
    tree.Nearest NodeKind.isQuery root query := by
  obtain ⟨below, above, hs, hquery, hbelow⟩ := hq
  cases hroot with
  | select _ hmem _ => exact ⟨[], _, h.ancestors_of_child hmem, hquery, by simp⟩
  | @filter clause _ _ hclause hkind hmem _ =>
    refine ⟨[clause], tree.ancestors query, ?_, hquery, by simp [hkind, NodeKind.isQuery]⟩
    rw [h.ancestors_of_child hmem, h.ancestors_of_child hclause]
    rfl
  | @join source other _ _ hsource _ hother hkind _ hmem _ =>
    refine ⟨other :: below, above, ?_, hquery, ?_⟩
    · rw [h.ancestors_of_child hmem, h.ancestors_of_child hother, ← h.ancestors_of_parent hsource, hs]
      rfl
    · exact List.forall_mem_cons.mpr ⟨by rw [hkind]; rfl, hbelow⟩

/-- A query inside of a query is below the node of the outer one that it shares a column with. -/
lemma Nearest.mem_ancestors_inner (h : tree.WellFormed) (hroot : tree.Nearest NodeKind.isQuery root query)
    (hkind : (tree.kind root).isQuery = false) (hc : root ∈ tree.ancestors c)
    (hinner : (tree.kind inner).isQuery = true) (hbelow : query ∈ tree.ancestors inner)
    (haround : inner ∈ tree.ancestors c) : root ∈ tree.ancestors inner := by
  obtain ⟨path, above, hs, _, hpath⟩ := hroot
  rcases h.ancestors_comparable hc haround with rfl | hmem | hmem
  · simp [hinner] at hkind
  · exact hmem
  · -- the inner query would be the outer one, or above it
    have hlt := h.lt_of_mem_ancestors hbelow
    rw [hs, List.mem_append, List.mem_cons] at hmem
    rcases hmem with hmem | rfl | hmem
    · simp [hpath inner hmem] at hinner
    · omega
    · rw [← h.ancestors_split hs] at hmem
      have := h.lt_of_mem_ancestors hmem
      omega

end Tree

lemma Parsed.steady_of_tree {scanned : List Diagnostic} {tokens : List Token} {tree : Tree}
    (h : (parseTokens scanned tokens).tree = some tree) : tree.Steady := by
  rw [eq_toTree_of_tree h]
  exact Part.steady_package (Part.all_built _)

/-- A finding is about the columns that name a nullable alias of its join and are read in the clauses
that are looked into, those of nested queries included. Where a nested query gives the alias to a
source of its own, it is below such a clause, and the column stands in the like clause of the query
that it belongs to. -/
theorem nested_columns_related (config : Config) (source : String) :
    ∀ finding ∈ (lint config source).report.findings, ∃ tree join query columns,
      (parse source).tree = some tree ∧ tree.Nearest NodeKind.isQuery join query ∧
      tree.Tells config (join, columns) finding ∧
      finding.related.map Label.span = columns.map tree.span ∧
      (∀ c, c ∈ columns ↔
        (∃ table name, tree.tableAlias? c = some table ∧ tree.NullableAlias join name ∧
          Text.sameIgnoringCase table name = true) ∧
        ∃ region root, tree.ScanRoot config join query region root ∧ tree.ReadIn region root c) ∧
      ∀ c ∈ columns, ∀ inner, tree.Shadows query inner c → ∃ region root,
        tree.ScanRoot config join query region root ∧ root ∈ tree.ancestors inner ∧
          tree.ReadIn region root c := by
  intro finding hfinding
  obtain ⟨tree, htree, hmem⟩ : ∃ tree, (parse source).tree = some tree ∧
      finding ∈ (tree.lint config).findings := by
    unfold lint at hfinding
    cases hparsed : (parse source).tree with
    | none => simp [hparsed] at hfinding
    | some tree => exact ⟨tree, rfl, by simpa [hparsed] using hfinding⟩
  have h := Parsed.shaped_of_tree htree
  have hsteady := Parsed.steady_of_tree htree
  obtain ⟨⟨join, columns⟩, _, htells⟩ := exists_left_of_forall₂ (h.forall₂_tells config) finding hmem
  have hfields := htells
  obtain ⟨hj, review, hreview, rfl, rfl⟩ := hfields
  obtain ⟨query, hq⟩ := h.exists_query hj
  obtain ⟨review', hreview', _, hcolumns⟩ := h.exists_review config hj hq
  obtain rfl : review = review' := Except.ok.inj (hreview.symm.trans hreview')
  have hread (c : Nat) : c ∈ review.columns ↔
      (∃ table name, tree.tableAlias? c = some table ∧ tree.NullableAlias join name ∧
        Text.sameIgnoringCase table name = true) ∧
      ∃ region root, tree.ScanRoot config join query region root ∧ tree.ReadIn region root c := by
    constructor
    · intro hc
      obtain ⟨hnames, region, root, hroot, hexposed⟩ := (hcolumns c).mp hc
      exact ⟨hnames, region, root, hroot, (h.exposed_iff_readIn hsteady).mp hexposed⟩
    · rintro ⟨hnames, region, root, hroot, hreadIn⟩
      exact (hcolumns c).mpr
        ⟨hnames, region, root, hroot, (h.exposed_iff_readIn hsteady).mpr hreadIn⟩
  refine ⟨tree, join, query, review.columns, htree, hq, htells,
    tree.related_finding _ _ (Tree.join_notMem_columns hreview), hread, ?_⟩
  intro c hc inner hinner
  obtain ⟨_, region, root, hroot, hreadIn⟩ := (hread c).mp hc
  refine ⟨region, root, hroot, ?_, hreadIn⟩
  obtain ⟨below, above, hs, _⟩ := hreadIn.unguarded
  apply (hroot.nearest h.toWellFormed hq).mem_ancestors_inner h.toWellFormed _ _ hinner.isQuery
    hinner.below hinner.around
  · rw [hroot.kind_eq]
    cases region <;> rfl
  · simp [hs]

/-- The select list of a query holds another query, and both give the alias `b` to a source. -/
def shadowedText : String := "SELECT (SELECT b.x FROM v b) FROM t a LEFT JOIN u b ON a.i = b.i"

lemma parse_shadowedText : (parse shadowedText).diagnostics = [] ∧
    ∃ tree, (parse shadowedText).tree = some tree ∧ tree.Nearest NodeKind.isQuery 53 56 ∧
      (∃ finding ∈ (lint {} shadowedText).report.findings, tree.Tells {} (53, [6]) finding) ∧
      (∀ id, tree.kind id = .join → id = 53) ∧ tree.Shadows 56 18 6 := by
  have hread : ((parse shadowedText).diagnostics.isEmpty && (parse shadowedText).tree.any fun tree =>
      tree.flaggedJoins {} = [(53, [6])] ∧ tree.enclosingQuery? 53 = some 56 ∧
      tree.enclosingQuery? 6 = some 18 ∧ tree.tableAlias? 6 = some "b" ∧ tree.kind 16 = .dataSource ∧
      tree.enclosingQuery? 16 = some 18 ∧ tree.sourceAlias? 16 = some "b" ∧
      56 ∈ tree.ancestors 18 ∧ ∀ id < tree.size, tree.kind id = .join → id = 53) = true := by
    decide +kernel
  simp only [Bool.and_eq_true, List.isEmpty_iff, Option.any_eq_true, decide_eq_true_eq,
    Tree.enclosingQuery?_eq_some_iff] at hread
  obtain ⟨hempty, tree, htree, hflagged, hjoin, hcolumn, htable, hkind, hsource, hname, habove,
    honly⟩ := hread
  have htells := (Parsed.shaped_of_tree htree).forall₂_tells {}
  rw [hflagged] at htells
  obtain ⟨finding, _, htells, _, hfindings⟩ := List.forall₂_cons_left_iff.mp htells
  have hmem : finding ∈ (lint {} shadowedText).report.findings := by
    simp [lint, htree, hfindings]
  obtain ⟨below, above, hs, hquery, _⟩ := hcolumn
  have hshadows : tree.Shadows 56 18 6 :=
    ⟨hquery, habove, by simp [hs], "b", "b", htable, ⟨16, hkind, hsource, hname⟩, by decide +kernel⟩
  refine ⟨hempty, tree, htree, hjoin, ⟨finding, hmem, htells⟩, fun id hid => ?_, hshadows⟩
  exact honly id (Tree.lt_size_of_kind (by simp [hid])) hid

/-- The finding about the only join is about the column of the inner query, which shadows the alias. -/
theorem nested_columns_related_shadowedText :
    ∃ finding ∈ (lint {} shadowedText).report.findings, ∃ tree,
      (parse shadowedText).tree = some tree ∧ tree.Nearest NodeKind.isQuery 53 56 ∧
      tree.Tells {} (53, [6]) finding ∧ tree.Shadows 56 18 6 ∧ ∃ region root,
        tree.ScanRoot {} 53 56 region root ∧ root ∈ tree.ancestors 18 ∧
          tree.ReadIn region root 6 := by
  obtain ⟨_, tree, htree, hjoin, ⟨finding, hfinding, htells⟩, honly, hshadows⟩ := parse_shadowedText
  obtain ⟨tree', join, query, columns, htree', hq, htells', _, _, hrelated⟩ :=
    nested_columns_related {} shadowedText finding hfinding
  obtain rfl : tree = tree' := Option.some.inj (htree.symm.trans htree')
  obtain rfl : join = 53 := honly join htells'.1
  obtain rfl : query = 56 := hq.unique hjoin
  obtain ⟨_, review, hreview, rfl, _⟩ := htells'
  obtain ⟨_, review', hreview', hcolumns, _⟩ := id htells
  obtain rfl : review' = review := Except.ok.inj (hreview'.symm.trans hreview)
  rw [hcolumns] at hrelated
  exact ⟨finding, hfinding, tree, htree, hq, htells, hshadows,
    hrelated 6 List.mem_cons_self 18 hshadows⟩

/-- The column `b.x` of a text that is read without an error belongs to the inner query, which gives
`b` to its own source, and the finding about the join of the outer query is about that column. -/
theorem shadowed_column_related : (parse shadowedText).diagnostics = [] ∧
    ∃ tree, (parse shadowedText).tree = some tree ∧
      ∃ finding ∈ (lint {} shadowedText).report.findings, ∃ join query columns,
        tree.Nearest NodeKind.isQuery join query ∧ tree.Tells {} (join, columns) finding ∧
        ∃ c ∈ columns, ∃ inner, tree.Shadows query inner c := by
  obtain ⟨hempty, tree, htree, hjoin, ⟨finding, hmem, htells⟩, _, hshadows⟩ := parse_shadowedText
  exact ⟨hempty, tree, htree, finding, hmem, 53, 56, [6], hjoin, htells, 6, by simp, 18, hshadows⟩

end NullGuard
