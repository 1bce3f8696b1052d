import NullGuard.Proofs.FlaggedJoins
import NullGuard.Proofs.NodeSpans
import NullGuard.Proofs.ScanPartition

/-!
# The places of reports

A label is drawn cut to the text. Nothing is ever cut off: the pieces of a text, its end, the tokens
at which reading fails, and the joins and columns of a finding all lie in the text, between
characters. So a report shows each label where it is.
-/

namespace NullGuard

/-- The span is a part of the text: its ends are in order and between characters. -/
structure Span.LiesIn (source : String) (span : Span) : Prop where
  ordered : span.start ≤ span.stop
  inside : span.stop ≤ source.utf8ByteSize
  start_valid : String.Pos.Raw.IsValid source ⟨span.start⟩
  stop_valid : String.Pos.Raw.IsValid source ⟨span.stop⟩

/-- The diagnostic has a label, and all its labels lie in the text. -/
structure Diagnostic.Located (source : String) (d : Diagnostic) : Prop where
  labelled : d.labels ≠ []
  liesIn : ∀ label ∈ d.labels, label.span.LiesIn source

/-- The mark has the role, the ends and the message of the label. -/
structure Mark.Draws (mark : Mark) (label : Label) : Prop where
  role : mark.primary = true ↔ label.role = .primary
  start : mark.offset = label.span.start
  stop : mark.offset + mark.length = label.span.stop
  message : mark.message = label.message

/-- The report says what the diagnostic says, with a mark for each label. -/
structure Report.Renders (report : Report) (d : Diagnostic) : Prop where
  message : report.message = d.message
  severity : report.severity = some d.severity
  code : report.code = d.code
  help : report.help = d.help
  marks : List.Forall₂ Mark.Draws report.marks d.labels

variable {source : String} {span : Span}

namespace Span.LiesIn

/-- What stands between two parts of a text lies in it. -/
lemma of_split {before middle after : List Char} (h : source.toList = before ++ middle ++ after) :
    LiesIn source ⟨Text.size before, Text.size (before ++ middle)⟩ := by
  have hvalid {front back : List Char} (h : source.toList = front ++ back) :
      String.Pos.Raw.IsValid source ⟨Text.size front⟩ := by
    refine String.Pos.Raw.isValid_iff_exists_append.mpr
      ⟨String.ofList front, String.ofList back, ?_, ?_⟩
    · rw [← String.ofList_append, ← h, String.ofList_toList]
    · rw [String.rawEndPos, ← Text.size_toList, String.toList_ofList]
  refine ⟨?_, ?_, hvalid (by rw [h, List.append_assoc]), hvalid h⟩
  · rw [Text.size_append]
    exact Nat.le_add_right _ _
  · rw [← Text.size_toList, h, Text.size_append (before ++ middle)]
    exact Nat.le_add_right _ _

/-- What reaches from the start of one part of a text to the stop of another one is a part of it. -/
lemma reach {first last : Span} (hfirst : first.LiesIn source) (hlast : last.LiesIn source)
    (h : first.start ≤ last.stop) : LiesIn source ⟨first.start, last.stop⟩ :=
  ⟨h, hlast.inside, hfirst.start_valid, hlast.stop_valid⟩

lemma clamp_eq (h : span.LiesIn source) : span.clamp source.utf8ByteSize = span :=
  Span.clamp_eq_self h.ordered h.inside

end Span.LiesIn

lemma Diagnostic.Located.errorAt {remark message code : String} (h : span.LiesIn source) :
    (Diagnostic.errorAt span remark message code).Located source :=
  ⟨List.cons_ne_nil _ _, fun _ hlabel => List.mem_singleton.mp hlabel ▸ h⟩

lemma Placed.liesIn {placed : Placed} (h : placed ∈ placedPieces source.toList) :
    placed.span.LiesIn source := by
  obtain ⟨before, after, htext, _, hspan⟩ := Text.exists_split_of_mem h
  rw [hspan]
  exact .of_split htext

lemma Token.liesIn {token : Token} (h : token ∈ Text.tokens source.toList) :
    token.span.LiesIn source := by
  obtain ⟨placed, hplaced, hspan, _⟩ := Text.mem_tokens h
  exact hspan ▸ Placed.liesIn hplaced

lemma Token.liesIn_end (source : String) : (Token.eof source.utf8ByteSize).span.LiesIn source := by
  have hend : source.toList = source.toList ++ [] ++ [] := by simp
  have hlies := Span.LiesIn.of_split hend
  rwa [List.append_nil, Text.size_toList] at hlies

namespace Part

/-- What goes wrong in a part goes wrong at a token of its segment or at the one behind it. -/
lemma Covers.current_mem {segment : List Token} {stop : Token} {part : Part} {failure : Failure}
    (h : Covers segment stop part) (hfailure : part.failure? = some failure) :
    failure.place.current ∈ segment ++ [stop] := by
  cases h with
  | statement => cases hfailure
  | truncated _ htokens =>
    cases hfailure
    simp [htokens]
  | rejected _ hplace =>
    cases hfailure
    exact hplace

/-- Reading fails at a token of the package or at its end. -/
lemma allWithin_failures (ahead : List Token) {c : Cursor} {tokens later : List Token}
    {stop : Token} (hstop : stop.kind = .eof) (htokens : ∀ token ∈ tokens, token.kind ≠ .eof)
    (hrest : c.rest = tokens ++ stop :: later) :
    ∀ failure ∈ (allWithin ahead c).filterMap failure?,
      failure.place.current ∈ tokens ++ [stop] := by
  induction ahead generalizing c tokens with
  | nil => simp [allWithin]
  | cons mark ahead ih =>
    rcases allWithin_step mark ahead hstop htokens hrest with ⟨rfl, hparts⟩ |
      ⟨token, rest, rfl, _, hadvance, hparts⟩ |
      ⟨segment, tail, _, rfl, _, _, hrest', _, hcovers, hparts⟩
    · simp [hparts]
    · have hmore := ih (fun other hother => htokens other (List.mem_cons_of_mem _ hother)) hadvance
      rw [hparts, List.filterMap_cons_none rfl]
      exact fun failure hfailure => List.mem_cons_of_mem _ (hmore failure hfailure)
    · have hmore := ih (fun other hother => htokens other (List.mem_append_right _ hother)) hrest'
      have hbehind : (next c).2.current ∈ tail ++ [stop] := by
        cases tail with
        | nil => simp [(List.cons.inj hrest').1]
        | cons token tail => simp [(List.cons.inj hrest').1]
      rw [hparts]
      intro failure hfailure
      obtain ⟨part, hpart, hfailed⟩ := List.mem_filterMap.mp hfailure
      rw [List.append_assoc]
      rcases List.mem_cons.mp hpart with rfl | hpart
      · rcases List.mem_append.mp (hcovers.current_mem hfailed) with hmem | hmem
        · exact List.mem_append_left _ hmem
        · rw [List.mem_singleton.mp hmem]
          exact List.mem_append_right _ hbehind
      · exact List.mem_append_right _ (hmore failure (List.mem_filterMap.mpr ⟨part, hpart, hfailed⟩))

end Part

/-- What is wrong with a text is told at one of its pieces, at one of its tokens or at its end. -/
lemma located_of_mem_diagnostics {d : Diagnostic} (h : d ∈ (parse source).diagnostics) :
    d.Located source := by
  rw [parse, parseTokens, (Parsed.ofParts_eq _ _).1] at h
  rcases List.mem_append.mp h with h | h
  · obtain ⟨placed, hplaced, hd⟩ := List.mem_filterMap.mp h
    have hlies := Placed.liesIn hplaced
    unfold Placed.diagnostic? at hd
    split at hd <;> cases hd <;> exact .errorAt hlies
  · obtain ⟨failure, hfailure, rfl⟩ := List.mem_map.mp h
    have hmem := Part.allWithin_failures _ rfl Text.kind_ne_eof (Cursor.rest_scan source) failure
      hfailure
    have hlies : failure.place.current.span.LiesIn source := by
      rcases List.mem_append.mp hmem with hmem | hmem
      · exact Token.liesIn hmem
      · rw [List.mem_singleton.mp hmem]
        exact Token.liesIn_end source
    exact .errorAt hlies

/-- A node other than the root lies in the text. -/
lemma Tree.liesIn_span {tree : Tree} {id : Nat} (h : (parse source).tree = some tree)
    (hid : tree.kind id ≠ .package) : (tree.span id).LiesIn source := by
  have hroot : id ≠ tree.root := by
    rintro rfl
    exact hid (Parsed.shaped_of_tree h).kind_root
  obtain ⟨_, tokens, _, hne, htogether, hspan, hfilled, _⟩ :=
    exists_reach h (lt_size_of_kind hid) hroot
  obtain ⟨first, last, hfirst, hlast, hfirstmem, hlastmem⟩ := Token.exists_ends hne
  rw [hspan, Token.reach_eq hfirst hlast] at hfilled ⊢
  exact (Token.liesIn (htogether.subset hfirstmem)).reach (Token.liesIn (htogether.subset hlastmem))
    (Nat.le_of_lt hfilled)

/-- A finding is about nodes that lie in the text. -/
lemma located_of_mem_findings {config : Config} {d : Diagnostic}
    (h : d ∈ (lint config source).report.findings) : d.Located source := by
  obtain ⟨tree, join, htree, hfound⟩ := exists_found? h
  obtain ⟨query, review, hj, _, hreview, _, _, hcolumns, rfl⟩ :=
    (Parsed.shaped_of_tree htree).of_found? hfound
  have hcolumn (c) (hc : c ∈ review.columns) : (tree.span c).LiesIn source := by
    obtain ⟨_, _, _, _, hexposed⟩ := (hcolumns c).mp hc
    exact Tree.liesIn_span htree (by simp [hexposed.kind])
  have hjoin : (tree.span join).LiesIn source := Tree.liesIn_span htree (by simp [hj])
  rw [Tree.finding, Tree.marked_eq (Tree.join_notMem_columns hreview)]
  exact ⟨by simp, by simpa using ⟨hjoin, hcolumn⟩⟩

/-- Linting a text that is read comes to the end of its tree. -/
lemma lint_error (config : Config) (source : String) : (lint config source).report.error = none := by
  cases htree : (parse source).tree with
  | none => simp [lint, htree]
  | some tree => simp [lint, htree, ((Parsed.shaped_of_tree htree).lint_eq config).1]

/-- Nothing is cut off from a diagnostic whose labels lie in the text. -/
lemma Report.renders_ofDiagnostic {d : Diagnostic} (name : Option String)
    (h : d.Located source) :
    (ofDiagnostic ⟨source, name⟩ d).Renders d where
  message := rfl
  severity := rfl
  code := rfl
  help := rfl
  marks := by
    rw [ofDiagnostic, List.forall₂_map_left_iff, List.forall₂_same]
    intro label hlabel
    have hlies := h.liesIn label hlabel
    have hclamp : label.span.clamp (Source.size ⟨source, name⟩) = label.span := hlies.clamp_eq
    simp only [markOf, hclamp]
    exact ⟨by simp, rfl, Nat.add_sub_cancel' hlies.ordered, rfl⟩

/-- Reports show each label where it is. All labels lie in the text, between characters, so they are
not cut; and there is one report for each diagnostic, first for what is wrong with the text and then
for the findings, with a mark for each of its labels. -/
theorem reports_keep_places (config : Config) (source : String) (name : Option String) :
    let outcome := lint config source
    let diagnostics := outcome.parsed.diagnostics ++ outcome.report.findings
    (∀ d ∈ diagnostics, d.Located source ∧
      ∀ label ∈ d.labels, label.span.clamp source.utf8ByteSize = label.span) ∧
      List.Forall₂ Report.Renders (outcome.reports ⟨source, name⟩) diagnostics := by
  intro outcome diagnostics
  have hparsed : outcome.parsed = parse source := rfl
  have hlocated : ∀ d ∈ diagnostics, d.Located source := by
    refine List.forall_mem_append.mpr ⟨?_, fun _ => located_of_mem_findings⟩
    rw [hparsed]
    exact fun _ => located_of_mem_diagnostics
  have hreports : outcome.reports ⟨source, name⟩ =
      diagnostics.map (Report.ofDiagnostic ⟨source, name⟩) := by
    rw [LintOutcome.reports, LintReport.reports, lint_error, List.map_append]
    simp
  refine ⟨fun d hd => ⟨hlocated d hd, fun label hlabel => ?_⟩, ?_⟩
  · exact ((hlocated d hd).liesIn label hlabel).clamp_eq
  · rw [hreports, List.forall₂_map_left_iff, List.forall₂_same]
    exact fun d hd => Report.renders_ofDiagnostic name (hlocated d hd)

end NullGuard
