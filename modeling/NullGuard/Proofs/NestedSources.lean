import NullGuard.Proofs.Independence

/-!
# Statements inside of others

A statement keeps its findings where it stands inside of another one with no joins around it. A text
of one statement that is put into brackets, as the source of a query, is read as the same statement
further on in the text. So it has the same findings there, and the query around it has none.
-/

namespace NullGuard

namespace Phrase

/-- The second phrase stands inside of the first one with no joins around it, or is all of it. -/
inductive Frames : Phrase → Phrase → Prop where
  | refl (p : Phrase) : Frames p p
  | part {kind : NodeKind} (before behind : List Phrase) {p q : Phrase} (hkind : kind ≠ .join)
      (hbefore : ∀ r ∈ before, r.Joinless) (hbehind : ∀ r ∈ behind, r.Joinless) (h : Frames p q) :
      Frames (.node kind (before ++ [p] ++ behind)) q

lemma lieAll_singleton {nodes : List Node} {base : Nat} {parent : Option NodeId} {p : Phrase} :
    LieAll nodes base parent [p] ↔ p.Lies nodes base parent := by
  rw [LieAll, Lies, layoutAll_cons, layoutAll, List.append_nil]

end Phrase

namespace Tree

variable {tree : Tree} {base : Nat}

/-- All findings about a phrase are about what it has inside, if there are no joins around that. -/
lemma Shaped.foundFrom_frames (h : tree.Shaped) {p q : Phrase} (hframes : p.Frames q)
    {parent : Nat} (hlies : p.Lies tree.nodes.toList base (some parent))
    (hparent : base + p.size ≤ parent) (config : Config) :
    ∃ base' parent' : Nat, q.Lies tree.nodes.toList base' (some parent') ∧
      base' + q.size ≤ parent' ∧
      tree.foundFrom config [base + p.inside] = tree.foundFrom config [base' + q.inside] := by
  induction hframes generalizing base parent with
  | refl => exact ⟨base, parent, hlies, hparent, rfl⟩
  | @part kind before behind p q hkind hbefore hbehind _ ih =>
    obtain ⟨hfirst, hlast⟩ := hlies.parts.append
    obtain ⟨hfirst, hmiddle⟩ := hfirst.append
    have hsize : base + Phrase.sizeAll before + p.size ≤
        base + Phrase.sizeAll (before ++ [p] ++ behind) := by
      simp only [Phrase.sizeAll_append, Phrase.sizeAll_cons]
      omega
    obtain ⟨base', parent', hq, hparent', hfound⟩ := ih (Phrase.lieAll_singleton.mp hmiddle) hsize
    refine ⟨base', parent', hq, hparent', ?_⟩
    rw [h.foundFrom_children (by rwa [Tree.kind, hlies.node_eq, Phrase.top_kind]), Phrase.inside,
      hlies.children_eq, Phrase.numbers_append, Phrase.numbers_append, foundFrom_append,
      foundFrom_append, h.foundFrom_allJoinless before hfirst hbefore,
      h.foundFrom_allJoinless behind hlast hbehind, List.nil_append, List.append_nil]
    exact hfound

end Tree

/-- A statement has the same findings inside of another one, at its new place, if there are no joins
around it. -/
theorem Arranged.findings_frames {p q whole : Phrase} {n : Nat} (hp : Arranged [p])
    (hwhole : Arranged [whole]) (halike : p.Alike (Token.Shifted n) q) (hframes : whole.Frames q)
    (config : Config) : ((Phrase.node .package [whole]).toTree.lint config).findings =
      ((Phrase.node .package [p]).toTree.lint config).findings.map (Diagnostic.shift n) := by
  have hlies := (Phrase.lieAll_package [whole]).head
  obtain ⟨base, parent, hq, hparent, hfound⟩ := hwhole.shaped.foundFrom_frames hframes hlies
    (by rw [Phrase.sizeAll_cons]; omega) config
  rw [hwhole.findings_eq, Phrase.numbers, Phrase.numbers, hfound]
  apply hp.foundFrom_lieAll (.cons halike .nil) config hwhole.shaped
    (Phrase.lieAll_singleton.mpr hq)
  simp only [Phrase.sizeAll, Phrase.size, halike.inside_eq] at hparent ⊢
  omega

lemma Token.eq_map_shift {n : Nat} {tokens tokens' : List Token}
    (h : List.Forall₂ (Shifted n) tokens tokens') : tokens' = tokens.map (shift n) := by
  induction h with
  | nil => rfl
  | cons htoken _ ih => rw [List.map_cons, ← ih, htoken]

lemma Arranged.builds {p : Phrase} (h : Arranged [p]) (hkind : p.kind ≠ .terminal .semicolon) :
    Builds (.call .statement) [p] := by
  cases h with
  | separator hsemicolon _ => exact absurd (congrArg NodeKind.terminal hsemicolon) hkind
  | statement hp _ _ => exact hp

/-- The same statements can stand anywhere in a text. -/
lemma Arranged.exists_shifted {ps : List Phrase} (h : Arranged ps) (n : Nat) :
    ∃ qs, Arranged qs ∧ List.Forall₂ (Phrase.Alike (Token.Shifted n)) ps qs ∧
      Phrase.tokensAll qs = (Phrase.tokensAll ps).map (Token.shift n) := by
  generalize htokens : Phrase.tokensAll ps ++ [.eof 0] = tokens
  have hread : Token.beforeEnd tokens = Phrase.tokensAll ps := by
    rw [← htokens]
    exact Token.beforeEnd_append h.kind_ne_eof rfl
  have hclosed : List.Forall₂ (Token.Shifted n) (Token.closed tokens)
      (Token.closed (tokens.map (Token.shift n))) := by
    subst htokens
    rw [Token.closed, Token.closed, List.getLast?_map, List.getLast?_concat]
    exact Token.forall₂_shifted n _
  have halike := Part.phrases_alike (Part.all_alike (Token.likeness_shifted n) hclosed)
  rw [(h.all_eq hread).1] at halike
  refine ⟨_, Arranged.all _, halike, ?_⟩
  exact Token.eq_map_shift (Phrase.Alike.tokensAll halike)

namespace Piece

/-- The pieces of `SELECT S.A FROM (`. -/
def sourceOpening : List Piece :=
  [⟨.word, ['S', 'E', 'L', 'E', 'C', 'T']⟩, ⟨.blank, [' ']⟩, ⟨.word, ['S']⟩, ⟨.symbol .dot, ['.']⟩,
    ⟨.word, ['A']⟩, ⟨.blank, [' ']⟩, ⟨.word, ['F', 'R', 'O', 'M']⟩, ⟨.blank, [' ']⟩,
    ⟨.symbol .lparen, ['(']⟩]

def sourceClosing : List Piece :=
  [⟨.symbol .rparen, [')']⟩, ⟨.blank, [' ']⟩, ⟨.word, ['A', 'S']⟩, ⟨.blank, [' ']⟩, ⟨.word, ['S']⟩]

lemma areCut_sourceOpening {rest : List Piece} (h : AreCut rest) : AreCut (sourceOpening ++ rest) :=
  ⟨⟨_, _, rfl, rfl⟩, ⟨_, _, rfl, rfl⟩, ⟨_, _, rfl, rfl⟩, ⟨_, _, rfl, rfl⟩, ⟨_, _, rfl, rfl⟩,
    ⟨_, _, rfl, rfl⟩, ⟨_, _, rfl, rfl⟩, ⟨_, _, rfl, rfl⟩, ⟨_, _, rfl, rfl⟩, h⟩

lemma areCut_sourceClosing : AreCut sourceClosing :=
  ⟨⟨_, _, rfl, rfl⟩, ⟨_, _, rfl, rfl⟩, ⟨_, _, rfl, rfl⟩, ⟨_, _, rfl, rfl⟩, ⟨_, _, rfl, rfl⟩,
    trivial⟩

end Piece

namespace Phrase

def sourceField : Phrase :=
  .node .selectList [.node .selectedField [.node .selectStatement [.node .statement [.node .column
    [.leaf ⟨.identifier, ⟨7, 8⟩, "S"⟩, .leaf ⟨.dot, ⟨8, 9⟩, "."⟩,
      .leaf ⟨.identifier, ⟨9, 10⟩, "A"⟩]]]]]

/-- The name `AS S` of a source, two bytes behind `n`. -/
def sourceAlias (n : Nat) : Phrase :=
  .node .aliasClause [.leaf ⟨.keyword .as, ⟨n + 2, n + 4⟩, "AS"⟩,
    .leaf ⟨.identifier, ⟨n + 5, n + 6⟩, "S"⟩]

/-- A phrase as the source of `SELECT S.A FROM ( … ) AS S`, with the closing bracket at `n`. -/
def asSource (p : Phrase) (n : Nat) : Phrase :=
  .node .query [.leaf ⟨.keyword .select, ⟨0, 6⟩, "SELECT"⟩, sourceField,
    .node .dataSources [.leaf ⟨.keyword .from_, ⟨11, 15⟩, "FROM"⟩, .node .dataSource [
      .node .subquery [.leaf ⟨.lparen, ⟨16, 17⟩, "("⟩, p, .leaf ⟨.rparen, ⟨n, n + 1⟩, ")"⟩],
      sourceAlias n]]]

lemma frames_asSource (p : Phrase) (n : Nat) : (p.asSource n).Frames p := by
  have hfield : sourceField.Joinless := by simp [sourceField]
  have halias : (sourceAlias n).Joinless := by simp [sourceAlias]
  refine .part [_, _] [] (by simp) (by simp [hfield]) (by simp) ?_
  refine .part [_] [] (by simp) (by simp) (by simp) ?_
  refine .part [] [_] (by simp) (by simp) (by simp [halias]) ?_
  exact .part [_] [_] (by simp) (by simp) (by simp) (.refl p)

end Phrase

lemma Builds.asSource {p : Phrase} (hp : Builds (.call .statement) [p]) (n : Nat) :
    Builds (.call .statement) [p.asSource n] := by
  have htoken (kind : TokenKind) (span : Span) (text : String) :
      Builds (.tok kind) [.leaf ⟨kind, span, text⟩] := .token (by simp)
  have hnone {form : Form} : Builds (.opt form) [] := .first .empty
  have hrest {form : Form} : Builds (.many form) [] := .many [] (by simp)
  have hname : Builds (.token (·.kind.isName)) [.leaf ⟨.identifier, ⟨9, 10⟩, "A"⟩] := .token rfl
  have hpath : Builds .path _ :=
    .many [_] (List.forall_mem_singleton.mpr (.seq (htoken .dot ⟨8, 9⟩ ".") hname))
  have hcolumn : Builds .column _ := .node (.seq (htoken .identifier ⟨7, 8⟩ "S") hpath)
  have hoperand : Builds (.operand .select) _ := .first (.first (.first (.second hcolumn)))
  have hexpr := builds_expr_of_primary (.second (.node (.node hoperand)))
  have hfield : Builds .selectedField _ := .node (.second (.seq hexpr hnone))
  have hlist : Builds .selectList [.sourceField] := .node (.seq hfield hrest)
  have hsubquery : Builds .subquery _ :=
    .node (.seq (.seq (htoken .lparen ⟨16, 17⟩ "(") hp) (htoken .rparen ⟨n, n + 1⟩ ")"))
  have halias : Builds .aliasClause [.sourceAlias n] :=
    .node (.seq (.second (htoken (.keyword .as) ⟨n + 2, n + 4⟩ "AS"))
      (htoken .identifier ⟨n + 5, n + 6⟩ "S"))
  have hsource : Builds .source _ :=
    .node (.seq (.seq (.first (.first (.first hsubquery))) (.second halias)) hrest)
  have hsources : Builds .dataSources _ :=
    .node (.seq (htoken (.keyword .from_) ⟨11, 15⟩ "FROM") (.seq (.call hsource) hrest))
  have hselected : Builds (.word .select ++ .limitations ++ .selectList) _ :=
    .seq (.seq (htoken (.keyword .select) ⟨0, 6⟩ "SELECT") (.plain .empty hrest)) hlist
  have hclauses : Builds (.clauses .empty) _ :=
    .seq (.seq (.seq (.seq (.seq (.seq hselected .empty) (.second hsources)) hnone) hnone) hnone)
      hnone
  exact .call (.plain (.first (.node hclauses)) hrest)

lemma Phrase.tokens_asSource (p : Phrase) (n : Nat) : (p.asSource n).tokens =
    Piece.tokensFrom 0 Piece.sourceOpening ++ p.tokens ++
      Piece.tokensFrom n Piece.sourceClosing := by
  have hopening : Piece.tokensFrom 0 Piece.sourceOpening =
      [⟨.keyword .select, ⟨0, 6⟩, "SELECT"⟩, ⟨.identifier, ⟨7, 8⟩, "S"⟩, ⟨.dot, ⟨8, 9⟩, "."⟩,
        ⟨.identifier, ⟨9, 10⟩, "A"⟩, ⟨.keyword .from_, ⟨11, 15⟩, "FROM"⟩,
        ⟨.lparen, ⟨16, 17⟩, "("⟩] := by decide +kernel
  have hclosing : Piece.tokensFrom 0 Piece.sourceClosing =
      [⟨.rparen, ⟨0, 1⟩, ")"⟩, ⟨.keyword .as, ⟨2, 4⟩, "AS"⟩, ⟨.identifier, ⟨5, 6⟩, "S"⟩] := by
    decide +kernel
  rw [hopening, ← Nat.zero_add n, Piece.tokensFrom_shift, hclosing]
  simp [asSource, sourceField, sourceAlias, Token.shift, Span.shift, Nat.add_comm]

/-- A text that is put into brackets as a source keeps its tokens. -/
lemma scan_asSource {q : String} (h : (scan q).diagnostics = []) {p : Phrase}
    (hp : p.tokens = (Text.tokens q.toList).map (Token.shift 17)) :
    (scan ("SELECT S.A FROM (" ++ q ++ "\n) AS S")).diagnostics = [] ∧
      (p.asSource (17 + (q.utf8ByteSize + 1))).tokens =
        Text.tokens ("SELECT S.A FROM (" ++ q ++ "\n) AS S").toList := by
  have hvalid := scan_diagnostics_eq_nil_iff.mp h
  obtain ⟨hcut, htext⟩ := Piece.areCut_cut q.toList
  obtain ⟨pieces, hclosed⟩ := Piece.exists_closedBy hcut
    (fun piece hpiece => (hvalid piece hpiece).1) Piece.areCut_sourceClosing
    (by simp [Piece.sourceClosing, Text.isBlank])
  have hwhole : Piece.cut ("SELECT S.A FROM (" ++ q ++ "\n) AS S").toList =
      Piece.sourceOpening ++ (pieces ++ Piece.sourceClosing) := by
    rw [← Piece.cut_textOf (Piece.areCut_sourceOpening hclosed.areCut), Piece.textOf_append,
      Piece.textOf_append, hclosed.textOf_eq, htext, String.toList_append, String.toList_append,
      List.append_assoc, List.append_assoc]
    rfl
  constructor
  · rw [scan_diagnostics_eq_nil_iff, hwhole]
    refine List.forall_mem_append.mpr ⟨?_, List.forall_mem_append.mpr ⟨hclosed.valid hvalid, ?_⟩⟩
    · simp [Piece.sourceOpening, Piece.Valid]
    · simp [Piece.sourceClosing, Piece.Valid]
  · have hsize : Text.size (Piece.textOf pieces) = q.utf8ByteSize + 1 := by
      rw [hclosed.textOf_eq, htext, Text.size_append, Text.size_toList]
      rfl
    rw [Text.tokens_eq, hwhole, Piece.tokensFrom_append, Piece.tokensFrom_append,
      hclosed.tokens_eq, hsize, Piece.tokensFrom_shift, ← Text.tokens_eq, Phrase.tokens_asSource,
      hp, List.append_assoc]
    rfl

/-- Findings do not change when a statement is nested: a text of one statement that is put into
brackets as the source of a query is read without errors, and it has the findings of the statement,
at its new place, and no others. -/
theorem lint_findings_asSource {q : String} {tree : Tree} {statement : NodeId}
    (h : (parse q).diagnostics = []) (htree : (parse q).tree = some tree)
    (hone : tree.children tree.root = [statement])
    (hkind : tree.kind statement ≠ .terminal .semicolon) :
    (parse ("SELECT S.A FROM (" ++ q ++ "\n) AS S")).diagnostics = [] ∧
      ∀ config, (lint config ("SELECT S.A FROM (" ++ q ++ "\n) AS S")).report.error = none ∧
        (lint config ("SELECT S.A FROM (" ++ q ++ "\n) AS S")).report.findings =
          (lint config q).report.findings.map
            (Diagnostic.shift "SELECT S.A FROM (".utf8ByteSize) := by
  obtain ⟨ps, hps⟩ := exists_spells h
  obtain rfl := Option.some.inj (htree.symm.trans hps.read.2)
  have hparts := (Tree.shows_toTree (.node .package ps)).parts
  rw [hone] at hparts
  obtain ⟨p, _, hshows, hnil, rfl⟩ := List.forall₂_cons_left_iff.mp hparts
  obtain rfl := List.forall₂_nil_left_iff.mp hnil
  -- its tokens are read as the same statement behind the opening bracket
  obtain ⟨_, harranged, hshifted, htokens⟩ := hps.arranged.exists_shifted 17
  obtain ⟨p', _, halike, hnil, rfl⟩ := List.forall₂_cons_left_iff.mp hshifted
  obtain rfl := List.forall₂_nil_left_iff.mp hnil
  have hp' : p'.kind ≠ .terminal .semicolon := by
    rwa [halike.kind_eq (Token.carries_shifted 17), ← hshows.kind_eq]
  rw [hps.tokens, Phrase.tokensAll_cons, Phrase.tokensAll, List.append_nil] at htokens
  obtain ⟨hscan, hwhole⟩ := scan_asSource hps.scan htokens
  have hspells : Arranged.Spells [p'.asSource (17 + (q.utf8ByteSize + 1))]
      ("SELECT S.A FROM (" ++ q ++ "\n) AS S") :=
    ⟨.statement ((harranged.builds hp').asSource _) .nil (.inl rfl), hscan, by simpa using hwhole⟩
  refine ⟨hspells.read.1, fun config => ?_⟩
  obtain ⟨_, hshaped, hreport⟩ := hspells.parse config
  rw [hreport, (hps.parse config).2.2]
  exact ⟨(hshaped.lint_eq config).1, hps.arranged.findings_frames hspells.arranged halike
    (Phrase.frames_asSource _ _) config⟩

/-- A union with a join in its second query, and with a comment up to its end. -/
def commentedText : String :=
  "SELECT 1 UNION SELECT b.x FROM t a LEFT JOIN u b ON a.i = b.i // )"

theorem lint_findings_asSource_commentedText : ∃ tree statement,
    (parse commentedText).diagnostics = [] ∧ (parse commentedText).tree = some tree ∧
      tree.children tree.root = [statement] ∧ tree.kind statement = .union ∧
      (lint {} commentedText).report.findings.length = 1 ∧
      (parse ("SELECT S.A FROM (" ++ commentedText ++ "\n) AS S")).diagnostics = [] ∧
      ∀ config, (lint config ("SELECT S.A FROM (" ++ commentedText ++ "\n) AS S")).report.error =
          none ∧
        (lint config ("SELECT S.A FROM (" ++ commentedText ++ "\n) AS S")).report.findings =
          (lint config commentedText).report.findings.map
            (Diagnostic.shift "SELECT S.A FROM (".utf8ByteSize) := by
  obtain ⟨hread, hkinds, hfindings⟩ : (parse commentedText).diagnostics = [] ∧
      (parse commentedText).tree.map (fun tree => (tree.children tree.root).map tree.kind) =
        some [.union] ∧
      (lint {} commentedText).report.findings.length = 1 := by decide +kernel
  obtain ⟨tree, htree, hkinds⟩ := Option.map_eq_some_iff.mp hkinds
  obtain ⟨statement, hone, hkind⟩ := List.map_eq_singleton_iff.mp hkinds
  exact ⟨tree, statement, hread, htree, hone, hkind, hfindings,
    lint_findings_asSource hread htree hone (by simp [hkind])⟩

end NullGuard
