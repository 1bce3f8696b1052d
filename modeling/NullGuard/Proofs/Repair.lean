import NullGuard.Proofs.MendedPackage
import NullGuard.Proofs.MendedTrees

namespace NullGuard

open Phrase (Mended Settled tokensAll)

namespace Arranged

variable {ps : List Phrase} {spans : List Span}

lemma columnsBuilt (h : Arranged ps) : ∀ p ∈ ps, p.ColumnsBuilt := by
  induction h with
  | nil => simp
  | separator _ _ ih =>
    exact List.forall_mem_cons.mpr ⟨fun _ hhas => absurd hhas Phrase.not_leaf_has_node, ih⟩
  | statement hp _ _ ih =>
    exact List.forall_mem_cons.mpr
      ⟨fun _ => hp.has_node Construct.only_column trivial _ List.mem_cons_self, ih⟩

/-- A package is not a column by itself. -/
lemma isMarked_eq_false (h : Arranged ps) : (Phrase.node .package ps).isMarked spans = false := by
  refine isMarked_of_tops ?_
  induction h with
  | nil => simp
  | separator _ _ ih => exact List.forall_mem_cons.mpr ⟨nofun, ih⟩
  | @statement p _ hp _ _ ih =>
    have hform : (Form.call .statement).tops (· ≠ .statement) = true := rfl
    have htop := hp.tops (by simp) hform p List.mem_cons_self
    exact List.forall_mem_cons.mpr ⟨by simpa using htop, ih⟩

end Arranged

lemma parse_eq {source : String} (h : (scan source).diagnostics = []) :
    parse source = parseTokens [] (Text.tokens source.toList ++ [.eof source.utf8ByteSize]) := by
  rw [parse, h]
  rfl

/-- A text whose tokens are those of statements and semicolons. -/
structure Arranged.Spells (ps : List Phrase) (source : String) : Prop where
  arranged : Arranged ps
  scan : (scan source).diagnostics = []
  tokens : tokensAll ps = Text.tokens source.toList

/-- A text that is read without errors is the text of what it is read as. -/
lemma exists_spells {source : String} (h : (parse source).diagnostics = []) :
    ∃ ps, Arranged.Spells ps source := by
  have hscan : (scan source).diagnostics = [] := by
    unfold parse parseTokens at h
    rw [(Parsed.ofParts_eq _ _).1, List.append_eq_nil_iff] at h
    exact h.1
  rw [parse_eq hscan] at h
  obtain ⟨ps, harranged, hps⟩ := exists_arranged Text.kind_ne_eof h
  exact ⟨ps, harranged, hscan, hps⟩

/-- The places of all columns that the findings of a text are about. -/
def LintOutcome.places (outcome : LintOutcome) : List Span :=
  outcome.report.findings.flatMap (·.related.map Label.span)

/-- The text where each column that a finding is about is put into a call of `ISNULL`. -/
def repaired (config : Config) (source : String) : String :=
  String.ofList (Text.mend (lint config source).places 0 source.toList)

namespace Arranged.Spells

variable {config : Config} {source : String} {ps : List Phrase}

/-- The text is read as the statements and semicolons. -/
lemma read (h : Spells ps source) : (parse source).diagnostics = [] ∧
    (parse source).tree = some (Phrase.node .package ps).toTree := by
  rw [parse_eq h.scan, ← h.tokens]
  exact h.arranged.parseTokens_eq source.utf8ByteSize

/-- What the reading and the lint of the text are. -/
lemma parse (h : Spells ps source) (config : Config) :
    (parse source).diagnostics = [] ∧ (Phrase.node .package ps).toTree.Shaped ∧
      (lint config source).report = (Phrase.node .package ps).toTree.lint config := by
  obtain ⟨hdiagnostics, htree⟩ := h.read
  refine ⟨hdiagnostics, Parsed.shaped_of_tree htree, ?_⟩
  rw [lint, htree]
  rfl

/-- The places of the findings are those of columns that stand by themselves. -/
lemma exists_marked (h : Spells ps source) {span : Span} (hspan : span ∈ (lint config source).places) :
    ∃ p ∈ ps, ∃ q, p.Has q ∧ q.isMarked (lint config source).places = true ∧ q.span = span := by
  obtain ⟨_, hshaped, hlint⟩ := h.parse config
  have hmem := hspan
  rw [LintOutcome.places, hlint, hshaped.mem_related_iff] at hmem
  obtain ⟨join, query, c, _, _, hflagged, rfl⟩ := hmem
  obtain ⟨_, _, _, hexposed⟩ := hflagged.exposed
  obtain ⟨operand, s, hoperand, hs, hkind, _⟩ := hshaped.exists_children hexposed.kind
  have hlt : s < (Phrase.node .package ps).toTree.size :=
    Tree.lt_size_of_child (hs ▸ List.mem_cons_self)
  obtain ⟨q, hhas, hq⟩ := Tree.exists_shows_toTree _ hlt
  obtain ⟨kind, parts, rfl, hcolumn⟩ := hq.eq_of_column hs hoperand hkind hexposed.kind
  have hmark := Phrase.isMarked_iff.mpr ⟨kind, parts, rfl, hcolumn ▸ hspan⟩
  cases hhas with
  | refl =>
    rw [h.arranged.isMarked_eq_false] at hmark
    cases hmark
  | part hp hhas => exact ⟨_, hp, _, hhas, hmark, hcolumn.symm⟩

lemma settled (h : Spells ps source) : Settled (lint config source).places ps where
  columns := h.arranged.columnsBuilt
  order := h.tokens ▸ Text.inOrder_tokens source.toList
  spans _ hspan := .inl (h.exists_marked hspan)

lemma named (h : Spells ps source) (config : Config) :
    Text.Named source.toList (lint config source).places := by
  intro span hspan
  obtain ⟨p, hp, q, hhas, hmark, rfl⟩ := h.exists_marked hspan
  obtain ⟨first, hfirst, last, hlast, hname⟩ := h.settled.ends_of_has hp hhas hmark
  rw [← h.tokens]
  exact ⟨first, Phrase.mem_tokensAll_of_mem hp hfirst, last, Phrase.mem_tokensAll_of_mem hp hlast,
    hname⟩

/-- The repaired text is that of the same statements with guards put in. -/
lemma exists_mended (h : Spells ps source) (config : Config) : ∃ ps',
    List.Forall₂ (Mended (lint config source).places) ps ps' ∧
      Spells ps' (repaired config source) := by
  obtain ⟨hscan, hfits⟩ := scan_mend h.scan (h.named config)
  rw [← h.tokens, ← Phrase.itemsAll_eq ps h.settled] at hfits
  obtain ⟨ps', hmended, htokens⟩ := Phrase.exists_mendedAll ps hfits
  exact ⟨ps', hmended, h.arranged.mended hmended, hscan, by
    rw [htokens, repaired, String.toList_ofList]⟩

end Arranged.Spells

/-- The suggested fix works: with all columns that the findings are about put into calls, the text is
read without errors, and the lint ends without findings. -/
theorem lint_repaired (config : Config) (source : String) (h : (parse source).diagnostics = []) :
    (parse (repaired config source)).diagnostics = [] ∧
      (lint config (repaired config source)).report.findings = [] ∧
      (lint config (repaired config source)).report.error = none := by
  obtain ⟨ps, hps⟩ := exists_spells h
  obtain ⟨ps', hmended, hps'⟩ := hps.exists_mended config
  obtain ⟨_, hshaped, hlint⟩ := hps.parse config
  obtain ⟨hdiagnostics, hshaped', hlint'⟩ := hps'.parse config
  rw [hlint']
  refine ⟨hdiagnostics, hshaped'.findings_eq_nil config fun join query c hj hq => ?_,
    (hshaped'.lint_eq config).1⟩
  refine not_flagged_of_mended (.node hps.arranged.isMarked_eq_false hmended) hshaped hshaped' ?_ ?_
    hj hq
  · intro parts hhas
    obtain ⟨p, hp, hhas⟩ := Phrase.has_node_of_ne (by simp) hhas
    exact hps.arranged.columnsBuilt p hp parts hhas
  · intro join query c hj hq hc
    rw [LintOutcome.places, hlint, hshaped.mem_related_iff]
    exact ⟨join, query, c, hj, hq, hc, rfl⟩

/-- There is a finding about two columns, one of them beside a guarded one. -/
theorem lint_repaired_leftJoin :
    let source := "SELECT b.x FROM t a LEFT JOIN u b ON a.i = b.i WHERE ISNULL(b.y, 1) > b.z"
    let mended := "SELECT ISNULL(b.x, 0) FROM t a LEFT JOIN u b ON a.i = b.i " ++
      "WHERE ISNULL(b.y, 1) > ISNULL(b.z, 0)"
    (parse source).diagnostics = [] ∧ (lint {} source).report.findings ≠ [] ∧
      repaired {} source = mended ∧ (parse mended).diagnostics = [] ∧
      (lint {} mended).report.findings = [] ∧ (lint {} mended).report.error = none := by
  intro source mended
  -- The three are evaluated together because each of them reads the text.
  obtain ⟨hparse, hfound, hmended⟩ : (parse source).diagnostics = [] ∧
      (lint {} source).report.findings.length = 1 ∧ repaired {} source = mended := by
    decide +kernel
  refine ⟨hparse, List.length_pos_iff.mp (by rw [hfound]; decide), hmended, ?_⟩
  rw [← hmended]
  exact lint_repaired {} source hparse

end NullGuard
