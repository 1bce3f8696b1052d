import NullGuard.Proofs.LintWalk
import NullGuard.Proofs.PhraseMending

namespace NullGuard

/-- What is found first in lists that go together goes together. -/
lemma forall₂_find? {α β : Type*} {R : α → β → Prop} {p : α → Bool} {q : β → Bool} {as : List α}
    {bs : List β} (h : List.Forall₂ R as bs) (hpq : ∀ a b, R a b → p a = q b) :
    (as.find? p = none ∧ bs.find? q = none) ∨
      ∃ a b, as.find? p = some a ∧ bs.find? q = some b ∧ R a b := by
  induction h with
  | nil => exact .inl ⟨rfl, rfl⟩
  | @cons a b as bs hab _ ih =>
    rw [List.find?_cons, List.find?_cons, ← hpq a b hab]
    cases p a with
    | true => exact .inr ⟨a, b, rfl, rfl, hab⟩
    | false => exact ih

lemma forall₂_split {α β : Type*} {R : α → β → Prop} {as : List α} {below above : List β} {b : β}
    (h : List.Forall₂ R as (below ++ b :: above)) : ∃ below₀ a above₀,
      as = below₀ ++ a :: above₀ ∧ List.Forall₂ R below₀ below ∧ R a b := by
  induction below generalizing as with
  | nil =>
    obtain ⟨a, above₀, hab, _, rfl⟩ := List.forall₂_cons_right_iff.mp h
    exact ⟨[], a, above₀, rfl, .nil, hab⟩
  | cons c below ih =>
    obtain ⟨d, as, hdc, hrest, rfl⟩ := List.forall₂_cons_right_iff.mp h
    obtain ⟨below₀, a, above₀, rfl, hbelow, hab⟩ := ih hrest
    exact ⟨d :: below₀, a, above₀, rfl, .cons hdc hbelow, hab⟩

namespace Tree

/-- Nodes that the same way down leads to. -/
inductive Paired (tree tree' : Tree) : NodeId → NodeId → Prop where
  | root : Paired tree tree' tree.root tree'.root
  | child {id id' child child' : NodeId} (h : Paired tree tree' id id')
      (hlength : (tree.children id).length = (tree'.children id').length) (n : Nat)
      (hchild : (tree.children id)[n]? = some child)
      (hchild' : (tree'.children id')[n]? = some child') : Paired tree tree' child child'

namespace Paired

variable {tree tree' : Tree} {id id' other other' : Nat}

lemma flip (h : Paired tree tree' id id') : Paired tree' tree id' id := by
  induction h with
  | root => exact .root
  | child _ hlength n hchild hchild' ih => exact .child ih hlength.symm n hchild' hchild

lemma children (h : Paired tree tree' id id')
    (hlength : (tree.children id).length = (tree'.children id').length) :
    List.Forall₂ (Paired tree tree') (tree.children id) (tree'.children id') := by
  refine List.forall₂_iff_get.mpr ⟨hlength, fun n hn hn' => ?_⟩
  exact .child h hlength n (List.getElem?_eq_getElem hn) (List.getElem?_eq_getElem hn')

/-- What is above paired nodes is paired, and has as many children. -/
lemma ancestors (hwf : tree.WellFormed) (hwf' : tree'.WellFormed) (h : Paired tree tree' id id') :
    List.Forall₂ (fun a a' => Paired tree tree' a a' ∧
        (tree.children a).length = (tree'.children a').length)
      (tree.ancestors id) (tree'.ancestors id') := by
  induction h with
  | root =>
    rw [ancestors_of_none hwf.parent_root, ancestors_of_none hwf'.parent_root]
    exact .nil
  | child h hlength n hchild hchild' ih =>
    rw [hwf.ancestors_of_child (List.mem_of_getElem? hchild),
      hwf'.ancestors_of_child (List.mem_of_getElem? hchild')]
    exact .cons ⟨h, hlength⟩ ih

/-- A node is paired with one node at most. -/
lemma unique (hwf : tree.WellFormed) (h : Paired tree tree' id id')
    (h' : Paired tree tree' id other') : id' = other' := by
  induction h generalizing other' with
  | root =>
    generalize hroot : tree.root = root at h'
    cases h' with
    | root => rfl
    | child _ _ n hchild _ =>
      have hparent := hwf.parent_of_child (List.mem_of_getElem? hchild)
      rw [← hroot, hwf.parent_root] at hparent
      cases hparent
  | @child a a' child child' h hlength n hchild hchild' ih =>
    have hparent := hwf.parent_of_child (List.mem_of_getElem? hchild)
    cases h' with
    | root =>
      rw [hwf.parent_root] at hparent
      cases hparent
    | @child b b' _ _ h' _ m hother hother' =>
      rw [hwf.parent_of_child (List.mem_of_getElem? hother), Option.some.injEq] at hparent
      subst hparent
      obtain rfl := ih h'
      obtain rfl : n = m :=
        (List.getElem?_inj (List.getElem?_eq_some_iff.mp hchild).1 (hwf.nodup_children _)).mp
          (hchild.trans hother.symm)
      exact Option.some.inj (hchild'.symm.trans hother')

end Paired

/-- Paired nodes have the same kinds and texts, and as many children unless they are expressions. -/
structure Matched (tree tree' : Tree) : Prop where
  wf : tree.WellFormed
  wf' : tree'.WellFormed
  kind_eq : ∀ {id id' : Nat}, Paired tree tree' id id' → tree'.kind id' = tree.kind id
  text_eq : ∀ {id id' : Nat}, Paired tree tree' id id' → (tree'.node id').text = (tree.node id).text
  length_eq : ∀ {id id' : Nat}, Paired tree tree' id id' →
    (tree.kind id).isBoundaryStatement = false →
    (tree.children id).length = (tree'.children id').length

namespace Matched

variable {tree tree' : Tree} {config : Config} {id id' join join' query query' c c' : Nat}

lemma exists_child (h : Matched tree tree') (hid : Paired tree tree' id id')
    (hkind : (tree.kind id).isBoundaryStatement = false) (hc : c' ∈ tree'.children id') :
    ∃ c ∈ tree.children id, Paired tree tree' c c' :=
  exists_left_of_forall₂ (hid.children (h.length_eq hid hkind)) c' hc

lemma exists_parent (h : Matched tree tree') (hid : Paired tree tree' id id') {parent' : Nat}
    (hparent : tree'.parent id' = some parent') :
    ∃ parent, tree.parent id = some parent ∧ Paired tree tree' parent parent' := by
  have hancestors := hid.ancestors h.wf h.wf'
  rw [h.wf'.ancestors_of_parent hparent] at hancestors
  cases hnone : tree.parent id with
  | none =>
    rw [ancestors_of_none hnone] at hancestors
    cases hancestors
  | some parent =>
    rw [h.wf.ancestors_of_parent hnone] at hancestors
    obtain _ | ⟨⟨hpaired, _⟩, _⟩ := hancestors
    exact ⟨parent, rfl, hpaired⟩

lemma tokenText?_eq (h : Matched tree tree') (hid : Paired tree tree' id id') :
    tree'.tokenText? id' = tree.tokenText? id := by
  rw [tokenText?, tokenText?, tokenKind?, tokenKind?, h.kind_eq hid, h.text_eq hid]

lemma map_kind_eq (h : Matched tree tree') (hid : Paired tree tree' id id')
    (hlength : (tree.children id).length = (tree'.children id').length) :
    (tree'.children id').map tree'.kind = (tree.children id).map tree.kind := by
  have hchildren := hid.children hlength
  generalize tree.children id = ids, tree'.children id' = ids' at hchildren
  induction hchildren with
  | nil => rfl
  | cons hpaired _ ih => rw [List.map_cons, List.map_cons, ih, h.kind_eq hpaired]

lemma hasKeyword_eq (h : Matched tree tree') (hid : Paired tree tree' id id')
    (hlength : (tree.children id).length = (tree'.children id').length) (word : Keyword) :
    tree'.hasKeyword id' word = tree.hasKeyword id word := by
  rw [Bool.eq_iff_iff, hasKeyword_iff, hasKeyword_iff, h.map_kind_eq hid hlength]

lemma isGuardCall_eq (h : Matched tree tree') (hid : Paired tree tree' id id')
    (hlength : (tree.children id).length = (tree'.children id').length) :
    tree'.isGuardCall id' = tree.isGuardCall id := by
  have hfirst (t : Tree) (id : NodeId) : (t.firstChild? id).bind t.tokenKind? =
      ((t.children id).map t.kind).head?.bind NodeKind.token? := by
    rw [firstChild?]
    cases t.children id <;> rfl
  rw [isGuardCall, isGuardCall, hfirst, hfirst, h.map_kind_eq hid hlength]

lemma tableAlias?_eq (h : Matched tree tree') (hc : Paired tree tree' c c')
    (hkind : tree.kind c = .column) : tree'.tableAlias? c' = tree.tableAlias? c := by
  have hchildren := hc.children (h.length_eq hc (by rw [hkind]; rfl))
  rw [tableAlias?, tableAlias?]
  generalize tree.children c = ids, tree'.children c' = ids' at hchildren ⊢
  rcases hchildren with _ | ⟨hfirst, _ | ⟨_, _ | ⟨_, _⟩⟩⟩
  · rfl
  · rfl
  · rfl
  · exact h.tokenText?_eq hfirst

lemma sourceAlias?_eq (h : Matched tree tree') (hid : Paired tree tree' id id')
    (hkind : tree.kind id = .dataSource) : tree'.sourceAlias? id' = tree.sourceAlias? id := by
  have hkinds (a a' : NodeId) (hpaired : Paired tree tree' a a') (kind : NodeKind) :
      decide (tree.kind a = kind) = decide (tree'.kind a' = kind) := by rw [h.kind_eq hpaired]
  rw [sourceAlias?, sourceAlias?, childOfKind?, childOfKind?]
  rcases forall₂_find? (hid.children (h.length_eq hid (by rw [hkind]; rfl)))
    (fun a a' hpaired => hkinds a a' hpaired .aliasClause) with
    ⟨hnone, hnone'⟩ | ⟨clause, clause', hclause, hclause', hpaired⟩
  · rw [hnone, hnone']
    rfl
  have hclauseKind : tree.kind clause = .aliasClause := by simpa using List.find?_some hclause
  rw [hclause, hclause', Option.bind_eq_bind, Option.bind_some, Option.bind_some]
  have hnames := List.rel_reverse (hpaired.children (h.length_eq hpaired (by rw [hclauseKind]; rfl)))
  rcases forall₂_find? hnames (fun a a' hpaired => hkinds a a' hpaired (.terminal .identifier)) with
    ⟨hnone, hnone'⟩ | ⟨name, name', hname, hname', hpaired⟩
  · rw [hnone, hnone']
    rfl
  · rw [hname, hname']
    exact h.tokenText?_eq hpaired

lemma nullableAlias (h : Matched tree tree') (hj : Paired tree tree' join join')
    (hkind : tree.kind join = .join) {name : String} (hname : tree'.NullableAlias join' name) :
    tree.NullableAlias join name := by
  have hlength := h.length_eq hj (by rw [hkind]; rfl)
  cases hname with
  | joined hword hsource hsourceKind hname =>
    obtain ⟨source, hmem, hpaired⟩ := h.exists_child hj (by rw [hkind]; rfl) hsource
    have hdata : tree.kind source = .dataSource := (h.kind_eq hpaired).symm.trans hsourceKind
    rw [h.hasKeyword_eq hj hlength, h.hasKeyword_eq hj hlength] at hword
    rw [h.sourceAlias?_eq hpaired hdata] at hname
    exact .joined hword hmem hdata hname
  | outer hword hsource hsourceKind hname =>
    obtain ⟨source, hparent, hpaired⟩ := h.exists_parent hj hsource
    have hdata : tree.kind source = .dataSource := (h.kind_eq hpaired).symm.trans hsourceKind
    rw [h.hasKeyword_eq hj hlength, h.hasKeyword_eq hj hlength] at hword
    rw [h.sourceAlias?_eq hpaired hdata] at hname
    exact .outer hword hparent hdata hname

lemma scanRoot (h : Matched tree tree') (hj : Paired tree tree' join join')
    (hq : Paired tree tree' query query') (hkind : (tree.kind query).isQuery = true) {region : Region}
    {root' : Nat} (hroot : tree'.ScanRoot config join' query' region root') :
    ∃ root, tree.ScanRoot config join query region root ∧ Paired tree tree' root root' := by
  have hquery : (tree.kind query).isBoundaryStatement = false := by
    cases hkind' : tree.kind query <;> simp_all [NodeKind.isQuery, NodeKind.isBoundaryStatement]
  cases hroot with
  | select hconfig hroot hrootKind =>
    obtain ⟨root, hmem, hpaired⟩ := h.exists_child hq hquery hroot
    exact ⟨root, .select hconfig hmem ((h.kind_eq hpaired).symm.trans hrootKind), hpaired⟩
  | filter hconfig hclause hclauseKind hroot hrootKind =>
    obtain ⟨clause, hmem, hpaired⟩ := h.exists_child hq hquery hclause
    have hclauseKind := (h.kind_eq hpaired).symm.trans hclauseKind
    obtain ⟨root, hroot, hpaired'⟩ := h.exists_child hpaired (by rw [hclauseKind]; rfl) hroot
    exact ⟨root, .filter hconfig hmem hclauseKind hroot ((h.kind_eq hpaired').symm.trans hrootKind),
      hpaired'⟩
  | join hconfig hsource hsourceKind hother hotherKind hne hroot hrootKind =>
    obtain ⟨source, hparent, hpaired⟩ := h.exists_parent hj hsource
    have hsourceKind := (h.kind_eq hpaired).symm.trans hsourceKind
    obtain ⟨other, hmem, hpaired'⟩ := h.exists_child hpaired (by rw [hsourceKind]; rfl) hother
    have hotherKind := (h.kind_eq hpaired').symm.trans hotherKind
    obtain ⟨root, hroot, hpaired''⟩ := h.exists_child hpaired' (by rw [hotherKind]; rfl) hroot
    refine ⟨root, .join hconfig hparent hsourceKind hmem hotherKind ?_ hroot
      ((h.kind_eq hpaired'').symm.trans hrootKind), hpaired''⟩
    rintro rfl
    exact hne (hpaired'.unique h.wf hj)

lemma nearest (h : Matched tree tree') (hid : Paired tree tree' id id') {test : NodeKind → Bool}
    {a' : Nat} (ha : tree'.Nearest test id' a') :
    ∃ a, tree.Nearest test id a ∧ Paired tree tree' a a' := by
  obtain ⟨below', above', hsplit, htest, hbelow⟩ := ha
  have hancestors := hid.ancestors h.wf h.wf'
  rw [hsplit] at hancestors
  obtain ⟨below, a, above, hancestors, hpairs, hpaired, _⟩ := forall₂_split hancestors
  refine ⟨a, ⟨below, above, hancestors, by rw [← h.kind_eq hpaired, htest], fun b hb => ?_⟩, hpaired⟩
  obtain ⟨b', hb', hpaired, _⟩ := exists_right_of_forall₂ hpairs b hb
  rw [← h.kind_eq hpaired]
  exact hbelow b' hb'

lemma exposed (h : Matched tree tree') (hc : Paired tree tree' c c') {region : Region}
    {root root' : Nat} (hroot : Paired tree tree' root root')
    (hexposed : tree'.Exposed region root' c') : tree.Exposed region root c where
  kind := (h.kind_eq hc).symm.trans hexposed.kind
  statement := by
    obtain ⟨s', hnearest, hkind⟩ := hexposed.statement
    obtain ⟨s, hnearest, hpaired⟩ := h.nearest hc hnearest
    exact ⟨s, hnearest, (h.kind_eq hpaired).symm.trans hkind⟩
  unguarded := by
    obtain ⟨below', above', hsplit, hunguarded⟩ := hexposed.unguarded
    have hancestors := hc.ancestors h.wf h.wf'
    rw [hsplit] at hancestors
    obtain ⟨below, a, above, hancestors, hpairs, hpaired, _⟩ := forall₂_split hancestors
    obtain rfl := hpaired.flip.unique h.wf' hroot.flip
    refine ⟨below, above, hancestors, fun b hb hkind => ?_⟩
    obtain ⟨b', hb', hpaired, hlength⟩ := exists_right_of_forall₂ hpairs b hb
    rw [← h.isGuardCall_eq hpaired hlength]
    exact hunguarded b' hb' ((h.kind_eq hpaired).trans hkind)

/-- What is flagged in one tree is flagged in the other. -/
theorem flagged (h : Matched tree tree') (hj : Paired tree tree' join join')
    (hkind : tree.kind join = .join) (hq : Paired tree tree' query query')
    (hquery : (tree.kind query).isQuery = true) (hc : Paired tree tree' c c')
    (hflagged : tree'.Flagged config join' query' c') : tree.Flagged config join query c where
  nullable := by
    obtain ⟨table, name, htable, hname, hsame⟩ := hflagged.nullable
    obtain ⟨_, _, _, hexposed⟩ := hflagged.exposed
    rw [h.tableAlias?_eq hc ((h.kind_eq hc).symm.trans hexposed.kind)] at htable
    exact ⟨table, name, htable, h.nullableAlias hj hkind hname, hsame⟩
  exposed := by
    obtain ⟨region, root', hroot, hexposed⟩ := hflagged.exposed
    obtain ⟨root, hroot, hpaired⟩ := h.scanRoot hj hq hquery hroot
    exact ⟨region, root, hroot, h.exposed hc hpaired hexposed⟩

end Matched

end Tree

end NullGuard
