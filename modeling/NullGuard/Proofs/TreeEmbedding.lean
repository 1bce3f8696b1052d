import Mathlib.Data.List.Find
import NullGuard.Proofs.LintWalk
import NullGuard.Proofs.Numbering

/-!
# Trees inside of trees

The nodes of a tree lie in another one under new numbers, with the same kinds and the same links, and
what matters of their texts is which names are the same. The check of a join then goes the same way
in both: it keeps the same columns, under their new numbers.
-/

namespace NullGuard

namespace Tree

/-- The nodes of `tree` lie in `tree'` under the numbers that `f` gives them. What is the root of the
one can be any node of the other, with other children, and `same` relates the texts of names. -/
structure Embeds (f : NodeId → NodeId) (same : String → String → Prop) (tree tree' : Tree) :
    Prop where
  shaped : tree.Shaped
  shaped' : tree'.Shaped
  injective : ∀ {a b : Nat}, a < tree.size → b < tree.size → f a = f b → a = b
  kind_eq : ∀ {id : Nat}, tree.kind id ≠ .package → tree'.kind (f id) = tree.kind id
  parent_eq : ∀ {id : Nat}, tree.kind id ≠ .package → tree'.parent (f id) = (tree.parent id).map f
  children_eq : ∀ {id : Nat}, tree.kind id ≠ .package →
    tree'.children (f id) = (tree.children id).map f
  text : ∀ {id : Nat}, tree.kind id = .terminal .identifier →
    same (tree.node id).text (tree'.node (f id)).text
  qualifier : ∀ {c q : Nat}, tree.kind c = .column → (tree.children c).head? = some q →
    tree.kind q = .terminal .identifier
  alias_eq : ∀ {a b a' b' : String}, same a a' → same b b' →
    Text.sameIgnoringCase a b = Text.sameIgnoringCase a' b'

variable {tree tree' : Tree} {f : NodeId → NodeId} {same : String → String → Prop} {id child : Nat}

lemma Shaped.kind_child_ne (h : tree.Shaped) (hchild : child ∈ tree.children id) :
    tree.kind child ≠ .package := by
  intro hkind
  have hallows := h.allows hchild
  rw [hkind, NodeKind.allows_package] at hallows
  cases hallows

lemma firstKind?_eq (tree : Tree) (id : NodeId) : (tree.firstChild? id).bind tree.tokenKind? =
    ((tree.children id).map tree.kind).head?.bind NodeKind.token? := by
  rw [firstChild?]
  cases tree.children id <;> rfl

namespace Embeds

section Links

lemma kind_child (h : tree.Embeds f same tree') (hchild : child ∈ tree.children id) :
    tree'.kind (f child) = tree.kind child :=
  h.kind_eq (h.shaped.kind_child_ne hchild)

/-- The nearest node of some kind above a node is the same, unless it is the root. -/
lemma nearest_map (h : tree.Embeds f same tree') {test : NodeKind → Bool} {a : Nat}
    (hnearest : tree.Nearest test id a) (ha : tree.kind a ≠ .package) :
    tree'.Nearest test (f id) (f a) := by
  obtain ⟨below, above, hs, htest, hbelow⟩ := hnearest
  induction below generalizing id with
  | nil =>
    have hchild := h.shaped.mem_children_of_ancestors hs
    have hparent := h.parent_eq (h.shaped.kind_child_ne hchild)
    rw [h.shaped.parent_of_child hchild, Option.map_some] at hparent
    refine ⟨[], _, h.shaped'.ancestors_of_parent hparent, ?_, by simp⟩
    rw [h.kind_eq ha, htest]
  | cons b below ih =>
    obtain ⟨hb, hbelow⟩ := List.forall_mem_cons.mp hbelow
    have hchild := h.shaped.mem_children_of_ancestors hs
    have hparent := h.parent_eq (h.shaped.kind_child_ne hchild)
    rw [h.shaped.parent_of_child hchild, Option.map_some] at hparent
    have hsplit : tree.ancestors id = [] ++ b :: (below ++ a :: above) := hs
    have hsb := h.shaped.ancestors_split hsplit
    obtain ⟨parent, hp⟩ := exists_parent_of_mem_ancestors (a := a) (by rw [hsb]; simp)
    have hne := h.shaped.kind_child_ne (h.shaped.child_of_parent hp)
    obtain ⟨below', above', hs', htest', hbelow'⟩ := ih hsb hbelow
    refine ⟨f b :: below', above', ?_, htest', List.forall_mem_cons.mpr ⟨?_, hbelow'⟩⟩
    · rw [h.shaped'.ancestors_of_parent hparent, hs', List.cons_append]
    · rw [h.kind_eq hne, hb]

lemma childrenOfKind_eq (h : tree.Embeds f same tree') (hid : tree.kind id ≠ .package)
    (kind : NodeKind) : tree'.childrenOfKind (f id) kind = (tree.childrenOfKind id kind).map f := by
  unfold childrenOfKind
  rw [h.children_eq hid, List.filter_map]
  congr 1
  apply List.filter_congr
  intro child hchild
  rw [Function.comp_apply, h.kind_child hchild]

lemma childOfKind?_eq (h : tree.Embeds f same tree') (hid : tree.kind id ≠ .package)
    (kind : NodeKind) : tree'.childOfKind? (f id) kind = (tree.childOfKind? id kind).map f := by
  unfold childOfKind?
  rw [h.children_eq hid, List.find?_map]
  congr 1
  apply List.find?_congr
  intro child hchild
  rw [Function.comp_apply, h.kind_child hchild]

lemma map_kind_children (h : tree.Embeds f same tree') (hid : tree.kind id ≠ .package) :
    (tree'.children (f id)).map tree'.kind = (tree.children id).map tree.kind := by
  rw [h.children_eq hid, List.map_map]
  apply List.map_congr_left
  intro child hchild
  exact h.kind_child hchild

lemma isGuardCall_eq (h : tree.Embeds f same tree') (hid : tree.kind id ≠ .package) :
    tree'.isGuardCall (f id) = tree.isGuardCall id := by
  rw [isGuardCall, isGuardCall, firstKind?_eq, firstKind?_eq, h.map_kind_children hid]

lemma hasKeyword_eq (h : tree.Embeds f same tree') (hid : tree.kind id ≠ .package) (word : Keyword) :
    tree'.hasKeyword (f id) word = tree.hasKeyword id word := by
  rw [Bool.eq_iff_iff, hasKeyword_iff, hasKeyword_iff, h.map_kind_children hid]

lemma joinKind?_eq (h : tree.Embeds f same tree') (hid : tree.kind id ≠ .package) :
    tree'.joinKind? (f id) = tree.joinKind? id := by
  simp only [joinKind?, h.kind_eq hid, h.hasKeyword_eq hid]

end Links

section Names

lemma tokenText?_rel (h : tree.Embeds f same tree') (hid : tree.kind id = .terminal .identifier) :
    Option.Rel same (tree.tokenText? id) (tree'.tokenText? (f id)) := by
  have hkind := h.kind_eq (by simp [hid] : tree.kind id ≠ .package)
  simp only [tokenText?, tokenKind?, hkind, hid, NodeKind.token?, Option.map_some]
  exact .some (h.text hid)

lemma sourceAlias?_rel (h : tree.Embeds f same tree') (hid : tree.kind id ≠ .package) :
    Option.Rel same (tree.sourceAlias? id) (tree'.sourceAlias? (f id)) := by
  unfold sourceAlias?
  rw [h.childOfKind?_eq hid]
  cases hclause : tree.childOfKind? id .aliasClause with
  | none => exact .none
  | some clause =>
    have hkind : tree.kind clause = .aliasClause := by simpa using List.find?_some hclause
    have hnames : (tree'.children (f clause)).reverse.find? (tree'.kind · = .terminal .identifier) =
        ((tree.children clause).reverse.find? (tree.kind · = .terminal .identifier)).map f := by
      rw [h.children_eq (by simp [hkind]), ← List.map_reverse, List.find?_map]
      congr 1
      apply List.find?_congr
      intro child hchild
      rw [Function.comp_apply, h.kind_child (List.mem_reverse.mp hchild)]
    simp only [Option.map_some, Option.bind_eq_bind, Option.bind_some, hnames]
    cases hname : (tree.children clause).reverse.find? (tree.kind · = .terminal .identifier) with
    | none => exact .none
    | some name => exact h.tokenText?_rel (by simpa using List.find?_some hname)

lemma tableAlias?_rel (h : tree.Embeds f same tree') (hid : tree.kind id = .column) :
    Option.Rel same (tree.tableAlias? id) (tree'.tableAlias? (f id)) := by
  unfold tableAlias?
  rw [h.children_eq (by simp [hid])]
  cases hchildren : tree.children id with
  | nil => exact .none
  | cons qualifier ids =>
    rcases ids with _ | ⟨dot, _ | ⟨name, ids⟩⟩
    · exact .none
    · exact .none
    · exact h.tokenText?_rel (h.qualifier hid (by rw [hchildren, List.head?_cons]))

lemma forall₂_toList {α β : Type} {R : α → β → Prop} {a : Option α} {b : Option β}
    (h : Option.Rel R a b) : List.Forall₂ R a.toList b.toList := by
  cases h with
  | some hab => exact .cons hab .nil
  | none => exact .nil

lemma outerAlias?_of_parent {source : Nat} (hparent : tree.parent id = some source)
    (hkind : tree.kind source = .dataSource) (kind : JoinKind) :
    tree.outerAlias? id kind = .ok (tree.sourceAlias? source) := by
  simp [outerAlias?, hparent, hkind]

/-- The aliases that a join makes nullable go together. -/
lemma nullableAliases_rel (h : tree.Embeds f same tree') (hj : tree.kind id = .join) :
    ∃ names names', tree.nullableAliases id = .ok names ∧ tree'.nullableAliases (f id) = .ok names' ∧
      List.Forall₂ same names names' := by
  have hne : tree.kind id ≠ .package := by simp [hj]
  obtain ⟨source, hparent, hkind⟩ := h.shaped.exists_source hj
  have hsource : tree.kind source ≠ .package := by simp [hkind]
  have hparent' := h.parent_eq hne
  rw [hparent, Option.map_some] at hparent'
  have houter := forall₂_toList (h.sourceAlias?_rel hsource)
  have hjoined :
      List.Forall₂ same (tree.joinedAlias? id).toList (tree'.joinedAlias? (f id)).toList := by
    apply forall₂_toList
    unfold joinedAlias?
    rw [h.childOfKind?_eq hne]
    cases hchild : tree.childOfKind? id .dataSource with
    | none => exact .none
    | some joined =>
      have hjoined : tree.kind joined = .dataSource := by simpa using List.find?_some hchild
      exact h.sourceAlias?_rel (by simp [hjoined])
  simp only [nullableAliases, h.joinKind?_eq hne, outerAlias?_of_parent hparent hkind,
    outerAlias?_of_parent hparent' ((h.kind_eq hsource).trans hkind)]
  cases tree.joinKind? id with
  | none => exact ⟨[], [], rfl, rfl, .nil⟩
  | some kind =>
    cases kind with
    | inner => exact ⟨[], [], rfl, rfl, .nil⟩
    | left => exact ⟨_, _, rfl, rfl, hjoined⟩
    | right => exact ⟨_, _, rfl, rfl, houter⟩
    | full => exact ⟨_, _, rfl, rfl, List.rel_append houter hjoined⟩

end Names

section Search

variable {region : Region}

lemma operandColumn?_eq (h : tree.Embeds f same tree') (hid : tree.kind id ≠ .package) :
    tree'.operandColumn? (f id) = (tree.operandColumn? id).map f := by
  unfold operandColumn?
  rw [h.childOfKind?_eq hid]
  cases hoperand : tree.childOfKind? id .statement with
  | none => rfl
  | some operand =>
    have hkind : tree.kind operand = .statement := by simpa using List.find?_some hoperand
    exact h.childOfKind?_eq (by simp [hkind]) .column

lemma candidates_map (h : tree.Embeds f same tree') (hid : tree.kind id ≠ .package) :
    tree'.candidates region (f id) = (tree.candidates region id).map f := by
  induction id using Nat.strongRecOn with
  | ind id ih =>
    rw [h.shaped'.candidates_eq, h.shaped.candidates_eq, h.children_eq hid, List.flatMap_map,
      List.map_flatMap]
    apply List.flatMap_congr
    intro child hchild
    have hne := h.shaped.kind_child_ne hchild
    have hbelow := ih child (h.shaped.child_lt hchild) hne
    rw [h.kind_eq hne, h.isGuardCall_eq hne, h.operandColumn?_eq hne, hbelow]
    split
    · split
      · rfl
      · rw [List.map_append, Option.toList_map]
    · rfl

end Search

section Regions

variable {config : Config} {join query : Nat}

lemma siblingJoins_eq (h : tree.Embeds f same tree') (hj : tree.kind join = .join) :
    tree'.siblingJoins (f join) = (tree.siblingJoins join).map f := by
  have hlt : join < tree.size := lt_size_of_kind (by simp [hj])
  obtain ⟨source, hparent, hkind⟩ := h.shaped.exists_source hj
  have hne : tree.kind source ≠ .package := by simp [hkind]
  have hnearest : tree.Nearest (· = .dataSource) join source :=
    ⟨[], _, h.shaped.ancestors_of_parent hparent, by simp [hkind], by simp⟩
  unfold siblingJoins
  rw [nearest_iff.mp hnearest, nearest_iff.mp (h.nearest_map hnearest hne)]
  simp only [h.childrenOfKind_eq hne, List.filter_map]
  congr 1
  apply List.filter_congr
  intro other hother
  have hchild := (List.mem_filter.mp hother).1
  have hlt' := lt_size_of_kind (h.shaped.kind_child_ne hchild)
  simp only [Function.comp_apply, decide_not, Bool.not_inj_iff, decide_eq_decide]
  exact ⟨h.injective hlt' hlt, congrArg f⟩

lemma whereExpression?_eq (h : tree.Embeds f same tree') (hq : tree.kind query ≠ .package) :
    tree'.whereExpression? (f query) = (tree.whereExpression? query).map f := by
  unfold whereExpression?
  have hclauses : (tree'.childrenOfKind (f query) .whereClause).find?
        (fun clause => !(tree'.children clause).isEmpty) =
      ((tree.childrenOfKind query .whereClause).find?
        fun clause => !(tree.children clause).isEmpty).map f := by
    rw [h.childrenOfKind_eq hq, List.find?_map]
    congr 1
    apply List.find?_congr
    intro clause hclause
    have hne := h.shaped.kind_child_ne (List.mem_filter.mp hclause).1
    rw [Function.comp_apply, h.children_eq hne, List.isEmpty_map]
  simp only [hclauses, Option.bind_eq_bind]
  cases hclause : (tree.childrenOfKind query .whereClause).find? fun clause =>
      !(tree.children clause).isEmpty with
  | none => rfl
  | some clause =>
    have hmem := List.mem_filter.mp (List.mem_of_find?_eq_some hclause)
    exact h.childOfKind?_eq (h.shaped.kind_child_ne hmem.1) .whereExpression

lemma kind_of_mem_siblingJoins {other : Nat} (h : other ∈ tree.siblingJoins join) :
    tree.kind other = .join := by
  unfold siblingJoins at h
  split at h
  · cases h
  · simpa using (List.mem_filter.mp (List.mem_filter.mp h).1).2

lemma conditions_map (h : tree.Embeds f same tree') (hj : tree.kind join = .join) :
    (tree'.siblingJoins (f join)).filterMap tree'.joinExpression? =
      ((tree.siblingJoins join).filterMap tree.joinExpression?).map f := by
  rw [h.siblingJoins_eq hj, List.filterMap_map, List.map_filterMap]
  apply List.filterMap_congr
  intro other hother
  have hkind := kind_of_mem_siblingJoins hother
  exact h.childOfKind?_eq (by simp [hkind]) .joinExpression

/-- The regions of a query are the same, with their roots under the new numbers. -/
lemma regions_map (h : tree.Embeds f same tree') (hj : tree.kind join = .join)
    (hq : tree.kind query ≠ .package) : tree'.regions config (f join) (f query) =
      (tree.regions config join query).map fun x => (x.1, f x.2) := by
  have hselect : tree'.selectList? (f query) = (tree.selectList? query).map f :=
    h.childOfKind?_eq hq .selectList
  simp only [regions, List.map_append, List.map_map, hselect, h.whereExpression?_eq hq]
  congr 1
  · congr 1
    · cases config.selectList <;> simp [Option.toList_map, Function.comp_def]
    · cases config.whereClause <;> simp [Option.toList_map, Function.comp_def]
  · cases config.siblingJoins with
    | false => rfl
    | true => simp [h.conditions_map hj, Function.comp_def]

end Regions

end Embeds

end Tree

/-- The column of an event that tells of one without a guard. -/
def Event.unguarded? : Event → Option NodeId
  | unguarded column _ => some column
  | _ => none

namespace Trail

/-- Columns with one more, unless it is among them. -/
def keep (columns : List NodeId) (column : NodeId) : List NodeId :=
  if columns.contains column then columns else columns ++ [column]

lemma columns_add (trail : Trail) (event : Event) :
    (trail.add event).columns = event.unguarded?.toList.foldl keep trail.columns := by
  cases event with
  | unguarded column region =>
    simp only [add, Event.unguarded?, Option.toList_some, List.foldl_cons, List.foldl_nil, keep]
    split <;> rfl
  | _ => rfl

/-- The columns of a trail depend on the unguarded columns alone. -/
lemma columns_foldl (events : List Event) (trail : Trail) :
    (events.foldl add trail).columns =
      (events.filterMap Event.unguarded?).foldl keep trail.columns := by
  induction events generalizing trail with
  | nil => rfl
  | cons event events ih =>
    rw [List.foldl_cons, ih, columns_add]
    cases hcolumn : event.unguarded? <;> simp [hcolumn]

lemma foldl_keep_map {f : NodeId → NodeId} {P : NodeId → Prop}
    (hf : ∀ a b, P a → P b → f a = f b → a = b) (columns added : List NodeId)
    (hcolumns : ∀ c ∈ columns, P c) (hadded : ∀ c ∈ added, P c) :
    (added.map f).foldl keep (columns.map f) = (added.foldl keep columns).map f := by
  induction added generalizing columns with
  | nil => rfl
  | cons c added ih =>
    have hc := hadded c (by simp)
    have hcontains : (columns.map f).contains (f c) = columns.contains c := by
      rw [Bool.eq_iff_iff, List.contains_iff_mem, List.contains_iff_mem, List.mem_map]
      constructor
      · rintro ⟨d, hd, heq⟩
        rwa [← hf d c (hcolumns d hd) hc heq]
      · intro hmem
        exact ⟨c, hmem, rfl⟩
    have hkeep : keep (columns.map f) (f c) = (keep columns c).map f := by
      unfold keep
      rw [hcontains]
      split
      · rfl
      · rw [List.map_append, List.map_singleton]
    rw [List.map_cons, List.foldl_cons, List.foldl_cons, hkeep]
    refine ih _ (fun d hd => ?_) fun d hd => hadded d (by simp [hd])
    unfold keep at hd
    split at hd
    · exact hcolumns d hd
    · rcases List.mem_append.mp hd with hd | hd
      · exact hcolumns d hd
      · rwa [List.mem_singleton.mp hd]

end Trail

namespace Tree

variable {tree tree' : Tree} {f : NodeId → NodeId} {same : String → String → Prop} {config : Config}
  {join c root : Nat} {region : Region}

lemma kind_of_unguarded {name : String}
    (hc : c ∈ (tree.aliasTrail config join name).filterMap Event.unguarded?) :
    tree.kind c = .column := by
  obtain ⟨event, hmem, hcolumn⟩ := List.mem_filterMap.mp hc
  obtain ⟨region, rfl⟩ : ∃ region, event = .unguarded c region := by
    cases event <;> simp_all [Event.unguarded?]
  exact kind_of_mem_aliasTrail hmem

lemma reviewJoin_of_aliases (config : Config) {names : List String}
    (h : tree.nullableAliases join = .ok names) :
    ∃ review, tree.reviewJoin config join = .ok review ∧ review.aliases = names ∧
      review.columns = ((names.flatMap (tree.aliasTrail config join)).filterMap
        Event.unguarded?).foldl Trail.keep [] := by
  refine ⟨_, by rw [reviewJoin, h]; rfl, rfl, ?_⟩
  exact Trail.columns_foldl _ {}

lemma unguarded?_references (name : String) : (tree.references name region root).filterMap
    Event.unguarded? = (tree.candidates region root).filterMap fun c =>
      (tree.reference? name region c).bind Event.unguarded? := by
  rw [references, List.filterMap_append, List.filterMap_filterMap]
  have hguards : ((tree.guardsPassed region root).map Event.guardPassed).filterMap Event.unguarded? =
      [] := by
    rw [List.filterMap_map, List.filterMap_eq_nil_iff]
    intro id _
    rfl
  rw [hguards, List.nil_append]

namespace Embeds

lemma reference?_map (h : tree.Embeds f same tree') (hc : tree.kind c = .column)
    (hguard : tree.isGuarded region c = false) (hguard' : tree'.isGuarded region (f c) = false)
    {name name' : String} (hname : same name name') :
    (tree'.reference? name' region (f c)).bind Event.unguarded? =
      ((tree.reference? name region c).bind Event.unguarded?).map f := by
  unfold reference?
  rw [hguard, hguard']
  generalize hsame : tree.tableAlias? c = table, hsame' : tree'.tableAlias? (f c) = table'
  have hrel := h.tableAlias?_rel hc
  rw [hsame, hsame'] at hrel
  cases hrel with
  | none => rfl
  | some htable =>
    simp only [← h.alias_eq htable hname]
    split <;> rfl

lemma references_map (h : tree.Embeds f same tree') (hroot : tree.kind root = region.startKind)
    {name name' : String} (hname : same name name') :
    (tree'.references name' region (f root)).filterMap Event.unguarded? =
      ((tree.references name region root).filterMap Event.unguarded?).map f := by
  have hne : tree.kind root ≠ .package := by
    rw [hroot]
    cases region <;> simp [Region.startKind]
  have hroot' : tree'.kind (f root) = region.startKind := (h.kind_eq hne).trans hroot
  have hcandidates : tree'.candidates region (f root) = (tree.candidates region root).map f :=
    h.candidates_map hne
  rw [unguarded?_references, unguarded?_references, hcandidates, List.filterMap_map,
    List.map_filterMap]
  apply List.filterMap_congr
  intro c hc
  -- candidates are exposed, so no guard is above them in either tree
  have hc' : f c ∈ tree'.candidates region (f root) := hcandidates ▸ List.mem_map_of_mem hc
  have hexposed := (h.shaped.mem_candidates_iff_exposed hroot).mp hc
  have hexposed' := (h.shaped'.mem_candidates_iff_exposed hroot').mp hc'
  exact h.reference?_map hexposed.kind (h.shaped.isGuarded_of_exposed hroot hexposed)
    (h.shaped'.isGuarded_of_exposed hroot' hexposed') hname

lemma aliasTrail_map (h : tree.Embeds f same tree') (hj : tree.kind join = .join)
    {name name' : String} (hname : same name name') :
    (tree'.aliasTrail config (f join) name').filterMap Event.unguarded? =
      ((tree.aliasTrail config join name).filterMap Event.unguarded?).map f := by
  obtain ⟨query, hquery⟩ := h.shaped.exists_query hj
  have hkind := hquery.kind
  have hne : tree.kind query ≠ .package := by
    intro hpackage
    rw [hpackage] at hkind
    cases hkind
  unfold aliasTrail
  rw [enclosingQuery?_eq_some_iff.mpr hquery,
    enclosingQuery?_eq_some_iff.mpr (h.nearest_map hquery hne)]
  simp only [h.regions_map hj hne, List.flatMap_map, List.filterMap_flatMap, List.map_flatMap]
  apply List.flatMap_congr
  intro x hx
  exact h.references_map ((h.shaped.mem_regions_iff hj hkind).mp hx).kind_eq hname

/-- The check of a join keeps the same columns, under their new numbers. -/
theorem reviewJoin_map (h : tree.Embeds f same tree') (config : Config)
    (hj : tree.kind join = .join) :
    ∃ review review', tree.reviewJoin config join = .ok review ∧
      tree'.reviewJoin config (f join) = .ok review' ∧
      review'.columns = review.columns.map f ∧ List.Forall₂ same review.aliases review'.aliases := by
  obtain ⟨names, names', hnames, hnames', hsame⟩ := h.nullableAliases_rel hj
  have hcolumns : (names'.flatMap (tree'.aliasTrail config (f join))).filterMap Event.unguarded? =
      ((names.flatMap (tree.aliasTrail config join)).filterMap Event.unguarded?).map f := by
    clear hnames hnames'
    induction hsame with
    | nil => rfl
    | cons hname _ ih =>
      rw [List.flatMap_cons, List.flatMap_cons, List.filterMap_append, List.filterMap_append,
        List.map_append, ih, h.aliasTrail_map hj hname]
  obtain ⟨review, hreview, haliases, hkept⟩ := reviewJoin_of_aliases config hnames
  obtain ⟨review', hreview', haliases', hkept'⟩ := reviewJoin_of_aliases config hnames'
  refine ⟨review, review', hreview, hreview', ?_, by rw [haliases, haliases']; exact hsame⟩
  rw [hkept, hkept', hcolumns]
  refine Trail.foldl_keep_map (P := (· < tree.size)) (fun _ _ => h.injective) [] _ (by simp) ?_
  intro c hc
  rw [List.filterMap_flatMap] at hc
  obtain ⟨name, _, hc⟩ := List.mem_flatMap.mp hc
  have hkind := kind_of_unguarded hc
  exact lt_size_of_kind (by simp [hkind])

end Embeds

end Tree

end NullGuard
