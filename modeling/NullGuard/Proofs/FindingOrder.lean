import Mathlib.Data.List.Flatten
import NullGuard.Proofs.FlaggedJoins
import NullGuard.Proofs.SpanOrder

/-!
# The order of findings

Findings come in the order of the text, and none comes twice. The columns of a finding are told
alias by alias and clause by clause, each of them where it is met first. The columns of one clause
that name one alias are all met together, in the order of the text.
-/

namespace NullGuard

namespace Trail

variable {columns added order : List NodeId} {test : NodeId → Bool}

/-- Columns that are met for the first time are put behind those that were met before. -/
lemma foldl_keep (h : added.Nodup) :
    added.foldl keep columns = columns ++ added.filter (· ∉ columns) := by
  induction added generalizing columns with
  | nil => simp
  | cons c added ih =>
    obtain ⟨hnew, h⟩ := List.nodup_cons.mp h
    rw [List.foldl_cons, ih h, keep]
    by_cases hmem : c ∈ columns
    · simp [hmem]
    · have hrest : added.filter (· ∉ columns ++ [c]) = added.filter (· ∉ columns) := by
        refine List.filter_congr fun d hd => ?_
        have hne : d ≠ c := fun heq => hnew (heq ▸ hd)
        simp [hne]
      rw [if_neg (by simpa using hmem), hrest, List.filter_cons_of_pos (by simpa using hmem),
        List.append_assoc, List.singleton_append]

/-- The columns that pass a test are not yet met, or they were all met in an order. -/
def MetTogether (test : NodeId → Bool) (order columns : List NodeId) : Prop :=
  columns.filter test = [] ∨ columns.filter test = order

/-- The columns that pass a test stay together if they are met all at once or not at all. -/
lemma MetTogether.foldl_keep (h : MetTogether test order columns)
    (hadded : MetTogether test order added) (hnodup : added.Nodup) :
    MetTogether test order (added.foldl keep columns) := by
  unfold MetTogether
  rw [Trail.foldl_keep hnodup, List.filter_append, List.filter_comm]
  rcases h with hnone | hall
  · have hnew : (added.filter test).filter (· ∉ columns) = added.filter test := by
      refine List.filter_eq_self.mpr fun c hc => ?_
      have hmet := List.filter_eq_nil_iff.mp hnone c
      simpa using fun hmem => hmet hmem (List.mem_filter.mp hc).2
    rw [hnone, hnew, List.nil_append]
    exact hadded
  · have hold : (added.filter test).filter (· ∉ columns) = [] := by
      refine List.filter_eq_nil_iff.mpr fun c hc => ?_
      rcases hadded with hnone | hadded
      · simp [hnone] at hc
      · rw [hadded, ← hall] at hc
        simpa using (List.mem_filter.mp hc).1
    rw [hall, hold, List.append_nil]
    exact .inr rfl

end Trail

namespace Tree

variable {tree : Tree} {config : Config} {region region' : Region}
  {join query root root' a b c : Nat} {name name' : String}

def names (tree : Tree) (name : String) (c : NodeId) : Bool :=
  (tree.tableAlias? c).any (Text.sameIgnoringCase · name)

lemma names_eq_of_same (h : Text.sameIgnoringCase name name' = true) :
    tree.names name = tree.names name' := by
  funext c
  unfold names Text.sameIgnoringCase at *
  rw [beq_iff_eq] at h
  rw [h]

lemma same_of_names (h : tree.names name c = true) (h' : tree.names name' c = true) :
    Text.sameIgnoringCase name name' = true := by
  unfold names Text.sameIgnoringCase at *
  rw [Option.any_eq_true] at h
  obtain ⟨table, htable, hsame⟩ := h
  rw [htable, Option.any_some] at h'
  rw [beq_iff_eq] at *
  rw [← hsame, h']

section Clauses

/-- An operand that is a column is all that there is in its expression. -/
lemma Shaped.children_of_operandColumn? (h : tree.Shaped) {s : Nat}
    (hs : tree.operandColumn? s = some c) : ∃ operand, tree.children s = [operand] ∧
      tree.children operand = [c] ∧ tree.kind operand = .statement := by
  obtain ⟨operand, hc, _, hkind⟩ := h.of_operandColumn? hs
  obtain ⟨operand', s', hchildren, hchildren', hoperand, _⟩ := h.exists_children hkind
  rw [h.ancestors_of_child (by simp [hchildren] : c ∈ tree.children operand'),
    h.ancestors_of_child (by simp [hchildren'] : operand' ∈ tree.children s')] at hc
  obtain ⟨rfl, _⟩ := List.cons.inj (List.cons.inj hc).2
  exact ⟨operand', hchildren', hchildren, hoperand⟩

lemma Shaped.candidates_of_operandColumn? (h : tree.Shaped) {s : Nat} (region : Region)
    (hs : tree.operandColumn? s = some c) : tree.candidates region s = tree.candidates region c := by
  obtain ⟨operand, hchildren, hchildren', hkind⟩ := h.children_of_operandColumn? hs
  have hoperand : tree.kind operand ≠ region.statementKind := by
    rw [hkind]
    cases region <;> simp [Region.statementKind]
  have hcolumn : tree.kind c ≠ region.statementKind := by
    rw [kind_of_operandColumn? hs]
    cases region <;> simp [Region.statementKind]
  rw [h.candidates_eq, hchildren, List.flatMap_singleton, if_neg hoperand, h.candidates_eq,
    hchildren', List.flatMap_singleton, if_neg hcolumn]

/-- The candidates below a node come in the order of a walk. -/
lemma Shaped.candidates_sublist (h : tree.Shaped) (region : Region) (root : Nat) :
    (tree.candidates region root).Sublist (tree.descendants root) := by
  induction root using Nat.strongRecOn with
  | ind root ih =>
    rw [h.candidates_eq region root, h.descendants_eq root]
    refine List.Sublist.flatMap_right _ fun child hchild => ?_
    have hbelow := ih child (h.child_lt hchild)
    split
    · split
      · exact List.nil_sublist _
      · cases hcolumn : tree.operandColumn? child with
        | none => exact hbelow.cons child
        | some c =>
          -- the search goes on below the column, which is met after its expression and its operand
          obtain ⟨operand, hchildren, hchildren', _⟩ := h.children_of_operandColumn? hcolumn
          have hlt : c < root :=
            Nat.lt_trans (h.child_lt (by simp [hchildren'] : c ∈ tree.children operand))
              (Nat.lt_trans (h.child_lt (by simp [hchildren])) (h.child_lt hchild))
          rw [h.candidates_of_operandColumn? region hcolumn, h.descendants_eq child, hchildren,
            List.flatMap_singleton, h.descendants_eq operand, hchildren', List.flatMap_singleton]
          exact (((ih c hlt).cons_cons c).cons operand).cons child
    · exact hbelow.cons child

/-- Above a clause that is looked into there are joins and sources or a `WHERE`, up to its query. -/
lemma ScanRoot.exists_path (h : tree.Shaped) (hq : tree.Nearest NodeKind.isQuery join query)
    (hroot : tree.ScanRoot config join query region root) :
    ∃ path, tree.ancestors root = path ++ query :: tree.ancestors query ∧
      ∀ b ∈ path, (tree.kind b).isInFrom = true ∨ tree.kind b = .whereClause := by
  cases hroot with
  | select _ hmem _ => exact ⟨[], h.ancestors_of_child hmem, by simp⟩
  | @filter clause _ _ hclause hkind hmem _ =>
    refine ⟨[clause], ?_, by simp [hkind]⟩
    rw [h.ancestors_of_child hmem, h.ancestors_of_child hclause, List.singleton_append]
  | @join source other _ _ hsource hkind hother hkind' _ hmem _ =>
    obtain ⟨below, query', above, hs, hquery, hbelow⟩ :=
      h.exists_query_above (by rw [hkind]; rfl : (tree.kind source).isInFrom = _)
    have hinside : ∀ b ∈ source :: below, (tree.kind b).isInFrom = true :=
      List.forall_mem_cons.mpr ⟨by rw [hkind]; rfl, hbelow⟩
    have hpath : tree.ancestors join = (source :: below) ++ query' :: above := by
      rw [h.ancestors_of_parent hsource, hs, List.cons_append]
    obtain rfl : query = query' := hq.unique
      ⟨_, _, hpath, hquery, fun b hb => NodeKind.isQuery_of_isInFrom (hinside b hb)⟩
    refine ⟨other :: source :: below, ?_, List.forall_mem_cons.mpr ⟨?_, fun b hb => ?_⟩⟩
    · rw [h.ancestors_of_child hmem, h.ancestors_of_child hother, hs, h.ancestors_split hs]
      rfl
    · exact .inl (by rw [hkind']; rfl)
    · exact .inl (hinside b hb)

/-- No clause that is looked into is inside of another one. -/
lemma ScanRoot.not_mem_ancestors (h : tree.Shaped) (hq : tree.Nearest NodeKind.isQuery join query)
    (hroot : tree.ScanRoot config join query region root)
    (hroot' : tree.ScanRoot config join query region' root') : root' ∉ tree.ancestors root := by
  intro hmem
  obtain ⟨path, hs, hpath⟩ := hroot.exists_path h hq
  have hkind := hroot'.kind_eq
  rw [hs, List.mem_append, List.mem_cons] at hmem
  rcases hmem with hmem | rfl | hmem
  · rcases hpath root' hmem with hfrom | hwhere
    · rw [hkind] at hfrom
      cases region' <;> cases hfrom
    · rw [hkind] at hwhere
      cases region' <;> cases hwhere
  · have hquery := hq.kind
    rw [hkind] at hquery
    cases region' <;> cases hquery
  · -- the query is above the other clause too
    obtain ⟨path', hs', _⟩ := hroot'.exists_path h hq
    have hlt := h.lt_of_mem_ancestors hmem
    have hlt' := h.lt_of_mem_ancestors (a := query) (c := root') (by simp [hs'])
    omega

lemma ScanRoot.eq_of_mem_ancestors (h : tree.Shaped)
    (hq : tree.Nearest NodeKind.isQuery join query)
    (hroot : tree.ScanRoot config join query region root)
    (hroot' : tree.ScanRoot config join query region' root') (hc : root ∈ tree.ancestors c)
    (hc' : root' ∈ tree.ancestors c) : root = root' := by
  rcases h.ancestors_comparable hc hc' with heq | hmem | hmem
  · exact heq
  · exact absurd hmem (hroot'.not_mem_ancestors h hq hroot)
  · exact absurd hmem (hroot.not_mem_ancestors h hq hroot')

end Clauses

/-- Whether a column names an alias and stands below a node. -/
def namesBelow (tree : Tree) (name : String) (root c : NodeId) : Bool :=
  tree.names name c && (tree.ancestors c).contains root

/-- The columns of a clause that name an alias, in the order of a walk. -/
def named (tree : Tree) (name : String) (region : Region) (root : NodeId) : List NodeId :=
  (tree.candidates region root).filter (tree.names name)

/-- What is met unguarded in a clause are the columns that name the alias. -/
lemma Shaped.unguarded?_references (h : tree.Shaped) (hroot : tree.kind root = region.startKind) :
    (tree.references name region root).filterMap Event.unguarded? = tree.named name region root := by
  rw [Tree.unguarded?_references, named, ← List.filterMap_eq_filter]
  refine List.filterMap_congr fun c hc => ?_
  have hguarded := h.isGuarded_of_exposed hroot ((h.mem_candidates_iff_exposed hroot).mp hc)
  unfold reference? names
  cases htable : tree.tableAlias? c with
  | none => simp [htable, Option.guard]
  | some table =>
    cases hsame : Text.sameIgnoringCase table name <;>
      simp [htable, hsame, hguarded, Event.unguarded?, Option.guard]

/-- The columns of one clause that name one alias are met together, whatever clause is gone through
and whatever alias is looked for. -/
lemma Shaped.metTogether_named (h : tree.Shaped) (hq : tree.Nearest NodeKind.isQuery join query)
    (hroot : tree.ScanRoot config join query region root)
    (hroot' : tree.ScanRoot config join query region' root') (name name' : String) :
    Trail.MetTogether (tree.namesBelow name root) (tree.named name region root)
      (tree.named name' region' root') := by
  have hbelow {c : Nat} (hc : c ∈ tree.candidates region' root') : root' ∈ tree.ancestors c :=
    h.mem_descendants_iff.mp ((h.candidates_sublist region' root').subset hc)
  unfold Trail.MetTogether named
  by_cases hsame : root = root' ∧ Text.sameIgnoringCase name name' = true
  · obtain ⟨rfl, hsame⟩ := hsame
    obtain rfl : region = region' := by
      have hkinds := hroot.kind_eq.symm.trans hroot'.kind_eq
      cases region <;> cases region' <;> first | rfl | cases hkinds
    right
    rw [← names_eq_of_same hsame, List.filter_eq_self]
    intro c hc
    obtain ⟨hc, hnames⟩ := List.mem_filter.mp hc
    simpa [namesBelow, hnames] using hbelow hc
  · left
    rw [List.filter_eq_nil_iff]
    intro c hc hnames
    obtain ⟨hc, hnames'⟩ := List.mem_filter.mp hc
    rw [namesBelow, Bool.and_eq_true, List.contains_iff_mem] at hnames
    exact hsame ⟨hroot.eq_of_mem_ancestors h hq hroot' hnames.2 (hbelow hc),
      same_of_names hnames.1 hnames'⟩

/-- The columns of one clause that name one alias stand in a review as in the clause. -/
lemma Shaped.metTogether_columns (h : tree.Shaped) (hj : tree.kind join = .join)
    (hq : tree.Nearest NodeKind.isQuery join query)
    (hroot : tree.ScanRoot config join query region root) {review : JoinReview}
    (hreview : tree.reviewJoin config join = .ok review) (name : String) :
    Trail.MetTogether (tree.namesBelow name root) (tree.named name region root)
      review.columns := by
  obtain ⟨names, hnames, _⟩ := h.nullableAliases_eq hj
  obtain ⟨review', hreview', _, hcolumns⟩ := reviewJoin_of_aliases config hnames
  obtain rfl := Except.ok.inj (hreview.symm.trans hreview')
  rw [hcolumns, List.filterMap_flatMap, List.foldl_flatMap]
  refine List.foldlRecOn (motive := Trail.MetTogether _ _) names _ (.inl rfl)
    fun columns hmet name' _ => ?_
  simp only [aliasTrail, enclosingQuery?_eq_some_iff.mpr hq]
  rw [List.filterMap_flatMap, List.foldl_flatMap]
  refine List.foldlRecOn (motive := Trail.MetTogether _ _) _ _ hmet fun columns hmet clause hclause => ?_
  have hroot' := (h.mem_regions_iff hj hq.kind).mp hclause
  rw [h.unguarded?_references hroot'.kind_eq]
  refine hmet.foldl_keep (h.metTogether_named hq hroot hroot' name name') ?_
  exact (((h.candidates_sublist _ _).trans (List.sublist_cons_self _ _)).nodup
    (h.nodup_descendants _)).filter _

/-- Columns are met in the order of the text. -/
lemma Shaped.pairwise_columns (h : tree.Shaped) (hspread : tree.Spread) (root : Nat) :
    (tree.descendants root).Pairwise fun a b => tree.kind a = .column → tree.kind b = .column →
      (tree.span a).stop ≤ (tree.span b).start :=
  (hspread.pairwise_descendants h.toWellFormed root).imp fun hab ha hb =>
    hab.resolve_left (h.not_mem_ancestors_of_column ha hb)

/-- The candidates below a node stand in the order of the text. -/
lemma Shaped.pairwise_candidates (h : tree.Shaped) (hspread : tree.Spread) (region : Region)
    (root : Nat) : (tree.candidates region root).Pairwise fun a b =>
      (tree.span a).stop ≤ (tree.span b).start :=
  ((h.pairwise_columns hspread root).sublist (h.candidates_sublist region root)).imp_of_mem
    fun ha hb hab => hab (kind_of_mem_candidates ha) (kind_of_mem_candidates hb)

/-- Two columns do not overlap. -/
lemma Shaped.apart_of_columns (h : tree.Shaped) (hspread : tree.Spread) (ha : tree.kind a = .column)
    (hb : tree.kind b = .column) (hne : a ≠ b) :
    (tree.span a).stop ≤ (tree.span b).start ∨ (tree.span b).stop ≤ (tree.span a).start := by
  have hmem {c : Nat} (hc : tree.kind c = .column) : c ∈ tree.descendants tree.root := by
    have hlt : c < tree.size := lt_size_of_kind (by simp [hc])
    refine (List.mem_cons.mp (h.mem_descendants_root hlt)).resolve_left ?_
    rintro rfl
    rw [h.kind_root] at hc
    cases hc
  have hpairs := h.pairwise_columns hspread tree.root
  have hall := List.Pairwise.forall_of_forall_of_flip (R := fun a b => tree.kind a = .column →
      tree.kind b = .column → a ≠ b → (tree.span a).stop ≤ (tree.span b).start ∨
        (tree.span b).stop ≤ (tree.span a).start)
    (fun _ _ _ _ hne => absurd rfl hne) (hpairs.imp fun hab ha hb _ => .inl (hab ha hb))
    (hpairs.imp fun hab ha hb _ => .inr (hab hb ha))
  exact hall (hmem ha) (hmem hb) ha hb hne

/-- A finding is told at its join. -/
lemma anchor_finding (tree : Tree) (config : Config) (join : NodeId) (names : List String)
    (columns : List NodeId) :
    (tree.finding config join names columns).anchor = some (tree.span join) := by
  simp [Diagnostic.anchor, finding]

end Tree

/-- The joins of findings start one behind the other. -/
lemma pairwise_findings (config : Config) (source : String) :
    (lint config source).report.findings.Pairwise fun a b =>
      ∃ s t, a.anchor = some s ∧ b.anchor = some t ∧ s.start < t.start := by
  unfold lint
  cases htree : (parse source).tree with
  | none => simp [htree]
  | some tree =>
    have h := Parsed.shaped_of_tree htree
    have hroot : tree.found? config tree.root = none := by simp [Tree.found?, h.kind_root]
    have hanchor {join : Nat} {finding : Diagnostic}
        (hfound : tree.found? config join = some finding) :
        tree.kind join = .join ∧ finding.anchor = some (tree.span join) := by
      obtain ⟨_, _, hj, _, _, _, _, _, rfl⟩ := h.of_found? hfound
      exact ⟨hj, tree.anchor_finding config join _ _⟩
    simp only [htree, Option.map_some, Option.getD_some]
    rw [(h.lint_eq config).2, List.filterMap_cons_none hroot]
    refine (Parsed.pairwise_joins htree).filterMap _ fun a b hab finding hfinding finding' hfinding' => ?_
    obtain ⟨hja, ha⟩ := hanchor hfinding
    obtain ⟨hjb, hb⟩ := hanchor hfinding'
    exact ⟨_, _, ha, hb, hab hja hjb⟩

/-- Findings stand in the order of the text and are told once. Their joins start one behind the
other. A finding is about columns that take some bytes each and do not overlap, and the columns of
one clause that name one alias of the join stand in the order of the text. -/
theorem findings_in_order (config : Config) (source : String) :
    let findings := (lint config source).report.findings
    (findings.Pairwise fun a b => ∃ s t, a.anchor = some s ∧ b.anchor = some t ∧
        s.start < t.start) ∧
      ∀ finding ∈ findings, ∃ tree join query columns, (parse source).tree = some tree ∧
        tree.kind join = .join ∧ tree.Nearest NodeKind.isQuery join query ∧
        finding.anchor = some (tree.span join) ∧
        finding.related.map Label.span = columns.map tree.span ∧ columns ≠ [] ∧
        (∀ c ∈ columns, tree.kind c = .column ∧ (tree.span c).start < (tree.span c).stop ∧
          ∃ name region root, tree.NullableAlias join name ∧
            tree.ScanRoot config join query region root ∧ tree.namesBelow name root c = true) ∧
        (columns.Pairwise fun a b => (tree.span a).stop ≤ (tree.span b).start ∨
          (tree.span b).stop ≤ (tree.span a).start) ∧
        ∀ name region root, tree.ScanRoot config join query region root →
          (columns.filter (tree.namesBelow name root)).Pairwise fun a b =>
            (tree.span a).stop ≤ (tree.span b).start := by
  refine ⟨pairwise_findings config source, fun finding hfinding => ?_⟩
  obtain ⟨tree, join, htree, hfound⟩ := exists_found? hfinding
  have h := Parsed.shaped_of_tree htree
  have hspread := Parsed.spread_of_tree htree
  obtain ⟨query, review, hj, hq, hreview, hne, hnodup, hcolumns, rfl⟩ := h.of_found? hfound
  have hcolumn (c) (hc : c ∈ review.columns) : tree.kind c = .column := by
    obtain ⟨_, _, _, _, hexposed⟩ := (hcolumns c).mp hc
    exact hexposed.kind
  refine ⟨tree, join, query, review.columns, htree, hj, hq, tree.anchor_finding config join _ _,
    tree.related_finding _ _ (Tree.join_notMem_columns hreview), hne, fun c hc => ?_, ?_,
    fun name region root hroot => ?_⟩
  · obtain ⟨⟨table, name, htable, hname, hsame⟩, region, root, hroot, hexposed⟩ := (hcolumns c).mp hc
    obtain ⟨_, _, below, above, hs, _⟩ := hexposed
    have hbelow : root ∈ tree.ancestors c := by simp [hs]
    refine ⟨hcolumn c hc, hspread.filled_of_mem_ancestors h.toWellFormed hbelow, name, region, root,
      hname, hroot, ?_⟩
    simp [Tree.namesBelow, Tree.names, htable, hsame, hbelow]
  · exact hnodup.imp_of_mem fun ha hb hab =>
      h.apart_of_columns hspread (hcolumn _ ha) (hcolumn _ hb) hab
  · rcases h.metTogether_columns hj hq hroot hreview name with hnone | hall
    · simp [hnone]
    · rw [hall]
      exact (h.pairwise_candidates hspread region root).filter _

end NullGuard
