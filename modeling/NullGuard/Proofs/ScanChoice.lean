import NullGuard.Proofs.JoinExactness

namespace NullGuard

namespace Config

/-- Whether a region is looked into. -/
def enables (config : Config) : Region → Bool
  | .select => config.selectList
  | .filter => config.whereClause
  | .join => config.siblingJoins

/-- Looks into one region only. -/
def only (region : Region) : Config where
  selectList := region = .select
  whereClause := region = .filter
  siblingJoins := region = .join

lemma eq_of_enables_only {region other : Region} (h : (only region).enables other = true) :
    other = region := by
  cases region <;> cases other <;> simp_all [enables, only]

end Config

namespace Tree

def reported (tree : Tree) (config : Config) (join : NodeId) : Except MisplacedJoin (List NodeId) :=
  (tree.reviewJoin config join).map JoinReview.columns

variable {tree : Tree} {config : Config} {join query root c : NodeId} {region : Region}

/-- A region that is looked into starts from where it would start by itself. -/
lemma mem_regions_iff_only : (region, root) ∈ tree.regions config join query ↔
    config.enables region = true ∧ (region, root) ∈ tree.regions (.only region) join query := by
  cases region <;> simp [regions, Config.enables, Config.only, and_assoc]

/-- What is met for an alias is met in one of the regions that are looked into. -/
lemma unguarded_mem_aliasTrail_iff_only {name : String} :
    Event.unguarded c region ∈ tree.aliasTrail config join name ↔
      config.enables region = true ∧
        Event.unguarded c region ∈ tree.aliasTrail (.only region) join name := by
  unfold aliasTrail
  cases tree.enclosingQuery? join with
  | none => simp
  | some query =>
    simp only [List.mem_flatMap, Prod.exists, unguarded_mem_references]
    constructor
    · rintro ⟨_, root, hroot, rfl, hc⟩
      obtain ⟨henables, hroot⟩ := mem_regions_iff_only.mp hroot
      exact ⟨henables, _, root, hroot, rfl, hc⟩
    · rintro ⟨henables, _, root, hroot, rfl, hc⟩
      exact ⟨_, root, mem_regions_iff_only.mpr ⟨henables, hroot⟩, rfl, hc⟩

/-- The columns that are met for aliases, each of them once. -/
def metColumns (tree : Tree) (join : NodeId) (names : List String) (config : Config) :
    List NodeId :=
  ((names.flatMap (tree.aliasTrail config join)).foldl Trail.add {}).columns

lemma reviewJoin_eq {names : List String} (h : tree.nullableAliases join = .ok names)
    (config : Config) : ∃ events,
      tree.reviewJoin config join = .ok ⟨names, tree.metColumns join names config, events⟩ := by
  let trail := (names.flatMap (tree.aliasTrail config join)).foldl Trail.add {}
  refine ⟨.checkingJoin join (tree.joinKind? join) names :: trail.events, ?_⟩
  rw [reviewJoin, h]
  rfl

lemma reported_eq {names : List String} (h : tree.nullableAliases join = .ok names)
    (config : Config) : tree.reported config join = .ok (tree.metColumns join names config) := by
  obtain ⟨events, hreview⟩ := reviewJoin_eq h config
  rw [reported, hreview]
  rfl

lemma mem_metColumns_iff {names : List String} : c ∈ tree.metColumns join names config ↔
    ∃ region, ∃ name ∈ names, Event.unguarded c region ∈ tree.aliasTrail config join name := by
  simp [metColumns, Trail.mem_columns_foldl]

/-- The columns that are met are those that are met in each region by itself. -/
lemma mem_metColumns_iff_only {names : List String} : c ∈ tree.metColumns join names config ↔
    ∃ region, config.enables region = true ∧ c ∈ tree.metColumns join names (.only region) := by
  simp only [mem_metColumns_iff]
  constructor
  · rintro ⟨region, name, hname, hc⟩
    obtain ⟨henables, hc⟩ := unguarded_mem_aliasTrail_iff_only.mp hc
    exact ⟨region, henables, region, name, hname, hc⟩
  · rintro ⟨region, henables, other, name, hname, hc⟩
    obtain rfl := Config.eq_of_enables_only (unguarded_mem_aliasTrail_iff_only.mp hc).1
    exact ⟨other, name, hname, unguarded_mem_aliasTrail_iff_only.mpr ⟨henables, hc⟩⟩

/-- The switches of a configuration are independent. The check of a node fails under all
configurations, with one error, or under none. If it does not fail, it reports once each column that
it reports in one of the regions that are looked into, when it looks into this region only, and
gives nothing if there are no such columns. What the switch for help changes is the help of a
finding. -/
theorem checkJoin_switches_independent (tree : Tree) (join : NodeId) :
    (∃ error, ∀ config, tree.checkJoin config join = .error error) ∨
    ∃ columns : Config → List NodeId, ∀ config,
      tree.reported config join = .ok (columns config) ∧ (columns config).Nodup ∧
      (∀ c ∈ columns config, tree.kind c = .column) ∧
      (∀ c, c ∈ columns config ↔
        ∃ region, config.enables region = true ∧ c ∈ columns (.only region)) ∧
      ∃ result, tree.checkJoin config join = .ok result ∧
        (result = none ↔ ∀ region, config.enables region = true → columns (.only region) = []) ∧
        (∀ finding, result = some finding →
          finding.related.map Label.span = (columns config).map tree.span) ∧
        ∀ help, ∃ text : Option String, text.isSome = help ∧
          tree.checkJoin { config with help := help } join =
            .ok (result.map fun finding => { finding with help := text }) := by
  cases hnames : tree.nullableAliases join with
  | error error =>
    refine .inl ⟨error, fun config => ?_⟩
    rw [checkJoin, reviewJoin, hnames]
    rfl
  | ok names =>
    refine .inr ⟨tree.metColumns join names, fun config => ?_⟩
    have hcheck (config : Config) : tree.checkJoin config join =
        .ok (tree.reviewFinding? config join ⟨names, tree.metColumns join names config, []⟩) := by
      obtain ⟨events, hreview⟩ := reviewJoin_eq hnames config
      rw [checkJoin, hreview]
      rfl
    have hunion (c : NodeId) : c ∈ tree.metColumns join names config ↔
        ∃ region, config.enables region = true ∧ c ∈ tree.metColumns join names (.only region) :=
      mem_metColumns_iff_only
    have hempty : tree.metColumns join names config = [] ↔
        ∀ region, config.enables region = true →
          tree.metColumns join names (.only region) = [] := by
      simp only [List.eq_nil_iff_forall_not_mem, hunion]
      grind
    refine ⟨reported_eq hnames config, Trail.nodup_columns_foldl _ List.nodup_nil, ?_, hunion, _,
      hcheck config, ?_, ?_, ?_⟩
    · intro c hc
      obtain ⟨region, name, _, hc⟩ := mem_metColumns_iff.mp hc
      exact kind_of_mem_aliasTrail hc
    · rw [← hempty]
      simp [reviewFinding?]
    · intro finding hfinding
      unfold reviewFinding? at hfinding
      split at hfinding
      · cases hfinding
      · cases hfinding
        obtain ⟨events, hreview⟩ := reviewJoin_eq hnames config
        have hjoin := join_notMem_columns hreview
        exact tree.related_finding config names hjoin
    · intro help
      refine ⟨(tree.finding { config with help := help } join names []).help, ?_, ?_⟩
      · cases help <;> rfl
      · rw [hcheck]
        change Except.ok (if (tree.metColumns join names config).isEmpty then _ else _) = _
        unfold reviewFinding?
        split <;> rfl

end Tree

end NullGuard
