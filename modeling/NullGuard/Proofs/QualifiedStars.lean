import Mathlib.Computability.Language
import NullGuard.Proofs.Recovery
import NullGuard.Proofs.StatementCompleteness
import NullGuard.Proofs.UnboundedReaders

/-!
# Stars behind paths

An item of a select list that is a path with a star at its end is told from an expression by looking
ahead, over as many tokens as the path has. The paths with a star are a language, said here without
the reader. Looking ahead from any place in a list of tokens finds out if a word of it lies there,
and the reader then takes this word and nothing more. Where there is none, and no star by itself, the
item is an expression with its alias.
-/

namespace NullGuard

open Parse
open scoped Computability

lemma TokenKind.isName_iff {kind : TokenKind} :
    kind.isName = true ↔ kind = .identifier ∨ kind.isKeyword = true := by
  cases kind <;> simp [isName, isKeyword]

namespace Token

/-- The lists of one token, by its kind. -/
def single (accepts : TokenKind → Prop) : Language Token :=
  {w | ∃ token, accepts token.kind ∧ w = [token]}

/-- Paths with a star: a name, any number of names behind dots, where keywords are names too, and a
star behind the last dot. -/
def starPaths : Language Token :=
  single (· = .identifier) *
    (single (· = .dot) * single fun kind => kind = .identifier ∨ kind.isKeyword = true)∗ *
    single (· = .dot) * single (· = .star)

/-- A dot with a name behind it. -/
def IsStep (group : List Token) : Prop :=
  ∃ mark name : Token, mark.kind = .dot ∧ name.kind.isName = true ∧ group = [mark, name]

variable {w : List Token}

lemma mem_single_mul {accepts accepts' : TokenKind → Prop} :
    w ∈ single accepts * single accepts' ↔
      ∃ a b : Token, accepts a.kind ∧ accepts' b.kind ∧ w = [a, b] := by
  rw [Language.mem_mul]
  constructor
  · rintro ⟨_, ⟨a, ha, rfl⟩, _, ⟨b, hb, rfl⟩, rfl⟩
    exact ⟨a, b, ha, hb, rfl⟩
  · rintro ⟨a, b, ha, hb, rfl⟩
    exact ⟨[a], ⟨a, ha, rfl⟩, [b], ⟨b, hb, rfl⟩, rfl⟩

lemma mem_steps_iff : w ∈ single (· = .dot) *
    single (fun kind => kind = .identifier ∨ kind.isKeyword = true) ↔ IsStep w := by
  simp only [mem_single_mul, ← TokenKind.isName_iff]
  rfl

lemma mem_starPaths_iff : w ∈ starPaths ↔ ∃ (first : Token) (groups : List (List Token))
    (dot star : Token), first.kind = .identifier ∧ (∀ group ∈ groups, IsStep group) ∧
      dot.kind = .dot ∧ star.kind = .star ∧ w = first :: (groups.flatten ++ [dot, star]) := by
  rw [starPaths, mul_assoc, mul_assoc, Language.mem_mul]
  constructor
  · rintro ⟨_, ⟨first, hfirst, rfl⟩, v, hv, rfl⟩
    obtain ⟨_, hsteps, last, hlast, rfl⟩ := Language.mem_mul.mp hv
    obtain ⟨groups, rfl, hgroups⟩ := Language.mem_kstar.mp hsteps
    obtain ⟨dot, star, hdot, hstar, rfl⟩ := mem_single_mul.mp hlast
    exact ⟨first, groups, dot, star, hfirst,
      fun group hgroup => mem_steps_iff.mp (hgroups group hgroup), hdot, hstar, rfl⟩
  · rintro ⟨first, groups, dot, star, hfirst, hgroups, hdot, hstar, rfl⟩
    refine ⟨[first], ⟨first, hfirst, rfl⟩, _, Language.append_mem_mul ?_ ?_, rfl⟩
    · exact Language.mem_kstar.mpr ⟨groups, rfl, fun group hgroup =>
        mem_steps_iff.mpr (hgroups group hgroup)⟩
    · exact mem_single_mul.mpr ⟨dot, star, hdot, hstar, rfl⟩

lemma inside_of_mem_starPaths (h : w ∈ starPaths) :
    ∀ token ∈ w, token.kind.endsStatement = false := by
  obtain ⟨first, groups, dot, star, hfirst, hgroups, hdot, hstar, rfl⟩ := mem_starPaths_iff.mp h
  intro token htoken
  simp only [List.mem_cons, List.mem_append, List.mem_flatten, List.not_mem_nil, or_false]
    at htoken
  rcases htoken with rfl | ⟨group, hgroup, htoken⟩ | rfl | rfl
  · rw [hfirst]
    rfl
  · obtain ⟨mark, name, hmark, hname, rfl⟩ := hgroups group hgroup
    rcases List.mem_pair.mp htoken with rfl | rfl
    · rw [hmark]
      rfl
    · exact Grammar.endsStatement_of_isName hname
  · rw [hdot]
    rfl
  · rw [hstar]
    rfl

/-- Looking ahead for a star goes over dots with names, as many as there are. -/
lemma exists_of_leadToStar (h : leadToStar w = true) : ∃ (groups : List (List Token))
    (dot star : Token) (later : List Token), (∀ group ∈ groups, IsStep group) ∧
      dot.kind = .dot ∧ star.kind = .star ∧ w = groups.flatten ++ dot :: star :: later := by
  induction w using leadToStar.induct with
  | case1 dot next later ih =>
    simp only [leadToStar, Bool.and_eq_true, Bool.or_eq_true, decide_eq_true_eq] at h
    obtain ⟨hdot, hstar | ⟨hname, hlater⟩⟩ := h
    · exact ⟨[], dot, next, later, by simp, hdot, hstar, rfl⟩
    · obtain ⟨groups, mark, star, rest, hgroups, hmark, hstar, rfl⟩ := ih hlater
      exact ⟨[dot, next] :: groups, mark, star, rest,
        List.forall_mem_cons.mpr ⟨⟨dot, next, hdot, hname, rfl⟩, hgroups⟩, hmark, hstar, rfl⟩
  | case2 tokens hshort =>
    rcases tokens with _ | ⟨token, _ | ⟨next, later⟩⟩
    · cases h
    · cases h
    · exact (hshort token next later rfl).elim

/-- The star of a path is at its end and nowhere else. -/
lemma star_last_of_mem_starPaths (h : w ∈ starPaths) :
    (∀ token ∈ w.dropLast, token.kind ≠ .star) ∧ ∀ token ∈ w.getLast?, token.kind = .star := by
  obtain ⟨first, groups, dot, star, hfirst, hgroups, hdot, hstar, rfl⟩ := mem_starPaths_iff.mp h
  have hsplit : first :: (groups.flatten ++ [dot, star]) =
      (first :: (groups.flatten ++ [dot])) ++ [star] := by simp
  rw [hsplit, List.dropLast_concat, List.getLast?_concat]
  refine ⟨?_, by simpa using hstar⟩
  intro token htoken
  simp only [List.mem_cons, List.mem_append, List.mem_flatten, List.not_mem_nil, or_false] at htoken
  rcases htoken with rfl | ⟨group, hgroup, htoken⟩ | rfl
  · simp [hfirst]
  · obtain ⟨mark, name, hmark, hname, rfl⟩ := hgroups group hgroup
    rcases List.mem_pair.mp htoken with rfl | rfl
    · simp [hmark]
    · rintro hkind
      simp [hkind, TokenKind.isName] at hname
  · simp [hdot]

/-- The tokens of a path with a star are the phrases that it is read as. -/
lemma builds_of_mem_starPaths (h : w ∈ starPaths) :
    Builds (.tok .identifier ++ .path ++ .tok .dot ++ .tok .star) (w.map .leaf) := by
  obtain ⟨first, groups, dot, star, hfirst, hgroups, hdot, hstar, rfl⟩ := mem_starPaths_iff.mp h
  have hpath : Builds .path (groups.map (List.map Phrase.leaf)).flatten := by
    refine .many _ fun parts hparts => ?_
    obtain ⟨group, hgroup, rfl⟩ := List.mem_map.mp hparts
    obtain ⟨mark, name, hmark, hname, rfl⟩ := hgroups group hgroup
    exact .seq (.token (by simpa using hmark)) (.token hname)
  have hparts : (first :: (groups.flatten ++ [dot, star])).map Phrase.leaf =
      [.leaf first] ++ (groups.map (List.map Phrase.leaf)).flatten ++ [.leaf dot] ++
        [.leaf star] := by
    simp [List.map_flatten]
  rw [hparts]
  exact .seq (.seq (.seq (builds_tok.mpr ⟨first, hfirst, rfl⟩) hpath)
    (builds_tok.mpr ⟨dot, hdot, rfl⟩)) (builds_tok.mpr ⟨star, hstar, rfl⟩)

/-- Closed tokens end with an end token. -/
lemma getLast?_closed (tokens : List Token) : ∃ last, (closed tokens).getLast? = some last ∧
    last.kind = .eof := by
  unfold closed
  cases hlast : tokens.getLast? with
  | none => exact ⟨.eof 0, rfl, rfl⟩
  | some last =>
    by_cases hkind : last.kind = .eof
    · exact ⟨last, by simp [hkind, hlast], hkind⟩
    · exact ⟨.eof last.span.stop, by simp [hkind], rfl⟩

end Token

namespace Cursor

variable {tokens before w : List Token} {c : Cursor}

/-- At any place in a list of tokens there is a token behind those that lie ahead, unless they go up
to the end token. -/
lemma exists_passes_of_isPrefix (hc : (ofTokens tokens).Passes before c) (hw : w <+: c.rest)
    (hlast : ∀ token ∈ w.getLast?, token.kind ≠ .eof) : ∃ d, c.Passes w d := by
  obtain ⟨later, hlater⟩ := hw
  cases later with
  | cons next later => exact ⟨⟨c.position + w.length, next, later⟩, hlater.symm, rfl⟩
  | nil =>
    obtain ⟨last, hclosed, heof⟩ := Token.getLast?_closed tokens
    have hne : c.rest ≠ [] := List.cons_ne_nil _ _
    rw [← rest_ofTokens, hc.rest, List.getLast?_append_of_ne_nil _ hne] at hclosed
    rw [List.append_nil] at hlater
    exact absurd heof (hlast last (by rw [hlater, hclosed]; rfl))

end Cursor

namespace Grammar

variable {tokens before w : List Token} {c d : Cursor} {inner : Nested}

/-- A path with a star that lies ahead is found by looking ahead, and it is read as it stands. -/
lemma qualifiedStar_of_mem_starPaths (hw : w ∈ Token.starPaths) (hpass : c.Passes w d) :
    c.kind = .identifier ∧ c.isAtQualifiedStar = true ∧
      qualifiedStar c = .ok (w.map .leaf, d) := by
  obtain ⟨hgives, hahead⟩ := qualifiedStar_reads (Token.builds_of_mem_starPaths hw)
  rw [Phrase.tokensAll_map_leaf] at hgives hahead
  obtain ⟨hkind, hfound⟩ := hahead c d hpass
  exact ⟨hkind, hfound, hgives c d hpass trivial⟩

lemma selectedField_of_mem_starPaths (hw : w ∈ Token.starPaths) (hpass : c.Passes w d)
    (inner : Nested) : c.isAtQualifiedStar = true ∧
      selectedField inner c = .ok (.node .selectedField (w.map .leaf), d) := by
  obtain ⟨hkind, hfound, hread⟩ := qualifiedStar_of_mem_starPaths hw hpass
  refine ⟨hfound, ?_⟩
  have hstar : ¬ c.isAt .star = true := by simp [Cursor.isAt_iff, hkind]
  change (if c.isAt .star = true then _ else if c.isAtQualifiedStar = true then _ else _ :
    Parse Phrase) c = _
  rw [if_neg hstar, if_pos hfound]
  exact bind_of_ok hread

/-- Without a path with a star ahead, an item is an expression with its alias. -/
lemma selectedField_of_not_isAtQualifiedStar (hpath : c.isAtQualifiedStar = false)
    (hstar : c.kind ≠ .star) (inner : Nested) : selectedField inner c =
      (do let expression ← inner.expression .select
          let given ← aliasClause
          return .node .selectedField (expression :: given) : Parse Phrase) c := by
  change (if c.isAt .star = true then _ else if c.isAtQualifiedStar = true then _ else _ :
    Parse Phrase) c = _
  rw [if_neg (mt Cursor.isAt_iff.mp hstar), if_neg (by simp [hpath])]

lemma selectedField_eq_ok_iff (hpath : c.isAtQualifiedStar = false) (hstar : c.kind ≠ .star)
    (h : inner.Sound) {field : Phrase} {e : Cursor} :
    selectedField inner c = .ok (field, e) ↔ ∃ expression given d,
      inner.expression .select c = .ok (expression, d) ∧ c.Passes expression.tokens d ∧
      aliasClause d = .ok (given, e) ∧ d.Passes (Phrase.tokensAll given) e ∧
      field = .node .selectedField (expression :: given) := by
  rw [selectedField_of_not_isAtQualifiedStar hpath hstar, bind_eq_ok_iff]
  constructor
  · rintro ⟨expression, d, hexpression, hmore⟩
    obtain ⟨given, e', hgiven, hfield⟩ := bind_eq_ok_iff.mp hmore
    cases hfield
    obtain ⟨_, hpass, _, rfl, _⟩ := Meets.of_ok (h.expression .select) hexpression
    obtain ⟨_, hpass', _, rfl, _⟩ := Meets.of_ok aliasClause_makes hgiven
    exact ⟨expression, given, d, hexpression, hpass, hgiven, hpass', rfl⟩
  · rintro ⟨expression, given, d, hexpression, _, hgiven, _, rfl⟩
    exact ⟨expression, d, hexpression, bind_eq_ok_iff.mpr ⟨given, e, hgiven, rfl⟩⟩

lemma selectedField_eq_error_iff (hpath : c.isAtQualifiedStar = false) (hstar : c.kind ≠ .star)
    {failure : Failure} : selectedField inner c = .error failure ↔
      inner.expression .select c = .error failure ∨ ∃ expression d,
        inner.expression .select c = .ok (expression, d) ∧ aliasClause d = .error failure := by
  rw [selectedField_of_not_isAtQualifiedStar hpath hstar, bind_eq_error_iff]
  refine or_congr_right (exists₂_congr fun expression d => and_congr_right fun _ => ?_)
  rw [bind_eq_error_iff]
  constructor
  · rintro (hgiven | ⟨given, e, _, hpure⟩)
    · exact hgiven
    · cases hpure
  · exact .inl

lemma exists_of_isAtQualifiedStar (h : c.isAtQualifiedStar = true) :
    ∃ w ∈ Token.starPaths, w <+: c.rest := by
  simp only [Cursor.isAtQualifiedStar, Bool.and_eq_true, Cursor.isAt_iff] at h
  obtain ⟨hkind, hahead⟩ := h
  obtain ⟨groups, dot, star, later, hgroups, hdot, hstar, hfollowing⟩ :=
    Token.exists_of_leadToStar hahead
  refine ⟨c.current :: (groups.flatten ++ [dot, star]),
    Token.mem_starPaths_iff.mpr ⟨c.current, groups, dot, star, hkind, hgroups, hdot, hstar, rfl⟩,
    later, ?_⟩
  rw [Cursor.rest, hfollowing]
  simp

/-- The rounds that take a path up to its star, as many as there are. The star is looked for before a
dot is taken and once more behind it, since it stands in the place of a name. -/
inductive StarRounds : Cursor → List Token → Cursor → Prop where
  | leave {c : Cursor} (hstar : c.kind = .star) : StarRounds c [] c
  | last {c e : Cursor} {w : List Token} (hstar : c.kind ≠ .star) (hnext : c.advance.kind = .star)
      (hmore : StarRounds c.advance w e) : StarRounds c (c.current :: w) e
  | round {c e : Cursor} {w : List Token} (hstar : c.kind ≠ .star) (hnext : c.advance.kind ≠ .star)
      (hname : c.advance.kind.isName = true) (hmore : StarRounds c.advance.advance w e) :
      StarRounds c (c.current :: c.advance.current :: w) e

lemma StarRounds.unique {v : List Token} {e : Cursor} (h : StarRounds c w d)
    (h' : StarRounds c v e) : w = v ∧ d = e := by
  induction h generalizing v e with
  | leave hstar =>
    cases h' with
    | leave _ => exact ⟨rfl, rfl⟩
    | last hstar' _ _ | round hstar' _ _ _ => exact absurd hstar hstar'
  | last hstar hnext _ ih =>
    cases h' with
    | leave hstar' => exact absurd hstar' hstar
    | last _ _ hmore =>
      obtain ⟨rfl, rfl⟩ := ih hmore
      exact ⟨rfl, rfl⟩
    | round _ hnext' _ _ => exact absurd hnext hnext'
  | round hstar hnext _ _ ih =>
    cases h' with
    | leave hstar' => exact absurd hstar' hstar
    | last _ hnext' _ => exact absurd hnext' hnext
    | round _ _ _ hmore =>
      obtain ⟨rfl, rfl⟩ := ih hmore
      exact ⟨rfl, rfl⟩

/-- Where dots with names and a dot with a star lie ahead, the rounds come to the star. -/
lemma exists_starRounds_of_passes {groups : List (List Token)} {dot star : Token}
    (hgroups : ∀ group ∈ groups, Token.IsStep group) (hdot : dot.kind = .dot)
    (hstar : star.kind = .star) (hpass : c.Passes (groups.flatten ++ [dot, star]) d) :
    ∃ e, StarRounds c (groups.flatten ++ [dot]) e ∧ c.Passes (groups.flatten ++ [dot]) e ∧
      e.Passes [star] d := by
  induction groups generalizing c with
  | nil =>
    have hnext : c.advance.kind = .star := hpass.advance.kind.trans hstar
    have hround := StarRounds.last (by simp [hpass.kind, hdot]) hnext (.leave hnext)
    rw [hpass.current] at hround
    exact ⟨c.advance, hround, hpass.current ▸ Cursor.passes_advance hpass.following_ne_nil,
      hpass.advance⟩
  | cons group groups ih =>
    obtain ⟨⟨mark, name, hmark, hname, rfl⟩, hlater⟩ := List.forall_mem_cons.mp hgroups
    have hpass' : c.Passes (mark :: name :: (groups.flatten ++ [dot, star])) d := hpass
    have hkind : c.advance.kind = name.kind := hpass'.advance.kind
    obtain ⟨e, hmore, hrest, he⟩ := ih hlater hpass'.advance.advance
    refine ⟨e, ?_, ?_, he⟩
    · have hround := StarRounds.round (by simp [hpass'.kind, hmark])
        (by rintro heq; simp [← hkind, heq, TokenKind.isName] at hname) (hkind ▸ hname) hmore
      rwa [hpass'.current, hpass'.advance.current] at hround
    · exact Cursor.passes_cons_iff.mpr ⟨hpass'.current, hpass'.following_ne_nil,
        Cursor.passes_cons_iff.mpr
          ⟨hpass'.advance.current, hpass'.advance.following_ne_nil, hrest⟩⟩

/-- Where looking ahead finds a path with a star, the rounds behind its first name come to the star,
and what is read is the name, the tokens of the rounds and the star. -/
lemma exists_starRounds (h : c.isAtQualifiedStar = true) (hc : c.EndsAhead) :
    ∃ w e, StarRounds c.advance w e ∧ c.advance.Passes w e ∧ e.advance.EndsAhead ∧
      qualifiedStar c = .ok ((c.current :: w ++ [e.current]).map .leaf, e.advance) := by
  obtain ⟨path, hpath, hahead⟩ := exists_of_isAtQualifiedStar h
  obtain ⟨d, hpass, hd⟩ := hc.exists_passes hahead (Token.inside_of_mem_starPaths hpath)
  have hread := (qualifiedStar_of_mem_starPaths hpath hpass).2.2
  obtain ⟨first, groups, dot, star, _, hgroups, hdot, hstar, rfl⟩ :=
    Token.mem_starPaths_iff.mp hpath
  obtain ⟨e, hrounds, hrest, he⟩ := exists_starRounds_of_passes hgroups hdot hstar hpass.advance
  obtain rfl : e.advance = d := Cursor.passes_nil_iff.mp he.advance
  refine ⟨groups.flatten ++ [dot], e, hrounds, hrest, hd, ?_⟩
  rw [hread, hpass.current, he.current]
  simp

/-- Looking ahead for a path with a star and reading one agree, at any place in a list of tokens. Such
a path is found exactly if one lies ahead. Then there is one only, and the item is read as the
tokens of it, up to its star. Where none is found and no star stands by itself, the item is read as
an expression with its alias: it takes their tokens, and fails where one of them fails. -/
theorem selectedField_agrees (hc : (Cursor.ofTokens tokens).Passes before c) :
    (c.isAtQualifiedStar = true ↔ ∃ w ∈ Token.starPaths, w <+: c.rest) ∧
    (c.isAtQualifiedStar = true → ∃ w ∈ Token.starPaths, ∃ d, c.Passes w d ∧
      (∀ token ∈ w.dropLast, token.kind ≠ .star) ∧
      (∀ v ∈ Token.starPaths, v <+: c.rest → v = w) ∧
      ∀ inner, selectedField inner c = .ok (.node .selectedField (w.map .leaf), d)) ∧
    (c.isAtQualifiedStar = false → c.kind ≠ .star → ∀ inner : Nested, inner.Sound →
      (∀ field e, selectedField inner c = .ok (field, e) ↔ ∃ expression given d,
        inner.expression .select c = .ok (expression, d) ∧ c.Passes expression.tokens d ∧
        aliasClause d = .ok (given, e) ∧ d.Passes (Phrase.tokensAll given) e ∧
        field = .node .selectedField (expression :: given)) ∧
      ∀ failure, selectedField inner c = .error failure ↔
        inner.expression .select c = .error failure ∨ ∃ expression d,
          inner.expression .select c = .ok (expression, d) ∧ aliasClause d = .error failure) := by
  have hpasses {w : List Token} (hw : w ∈ Token.starPaths) (hahead : w <+: c.rest) :
      ∃ d, c.Passes w d := by
    refine Cursor.exists_passes_of_isPrefix hc hahead fun token htoken => ?_
    rw [(Token.star_last_of_mem_starPaths hw).2 token htoken]
    simp
  refine ⟨⟨exists_of_isAtQualifiedStar, ?_⟩, fun hfound => ?_, fun hnone hstar inner hinner => ?_⟩
  · rintro ⟨w, hw, hahead⟩
    obtain ⟨d, hpass⟩ := hpasses hw hahead
    exact (selectedField_of_mem_starPaths hw hpass unbounded).1
  · obtain ⟨w, hw, hahead⟩ := exists_of_isAtQualifiedStar hfound
    obtain ⟨d, hpass⟩ := hpasses hw hahead
    have hread := fun inner => (selectedField_of_mem_starPaths hw hpass inner).2
    refine ⟨w, hw, d, hpass, (Token.star_last_of_mem_starPaths hw).1, fun v hv hahead' => ?_, hread⟩
    obtain ⟨d', hpass'⟩ := hpasses hv hahead'
    have hsame := (selectedField_of_mem_starPaths hv hpass' unbounded).2.symm.trans
      (hread unbounded)
    have hfields := (Prod.mk.inj (Except.ok.inj hsame)).1
    have htokens := congrArg Phrase.tokens hfields
    rwa [Phrase.tokens_node, Phrase.tokens_node, Phrase.tokensAll_map_leaf,
      Phrase.tokensAll_map_leaf] at htokens
  · exact ⟨fun field e => selectedField_eq_ok_iff hnone hstar hinner,
      fun failure => selectedField_eq_error_iff hnone hstar⟩

/-- `d.JOIN.*, t.a * 2 n, t.`, which ends in the middle of a path. -/
def starredTokens : List Token :=
  [⟨.identifier, ⟨0, 1⟩, "d"⟩, ⟨.dot, ⟨1, 2⟩, "."⟩, ⟨.keyword .join, ⟨2, 6⟩, "JOIN"⟩,
    ⟨.dot, ⟨6, 7⟩, "."⟩, ⟨.star, ⟨7, 8⟩, "*"⟩, ⟨.comma, ⟨8, 9⟩, ","⟩,
    ⟨.identifier, ⟨10, 11⟩, "t"⟩, ⟨.dot, ⟨11, 12⟩, "."⟩, ⟨.identifier, ⟨12, 13⟩, "a"⟩,
    ⟨.star, ⟨14, 15⟩, "*"⟩, ⟨.number, ⟨16, 17⟩, "2"⟩, ⟨.identifier, ⟨18, 19⟩, "n"⟩,
    ⟨.comma, ⟨19, 20⟩, ","⟩, ⟨.identifier, ⟨21, 22⟩, "t"⟩, ⟨.dot, ⟨22, 23⟩, "."⟩]

/-- The first item is a path with a star, up to the comma. The second is an expression with its alias,
although there is a star in it. The third breaks off behind its dot and is no path with a star. -/
theorem selectedField_agrees_starred : ∃ c d second e third : Cursor,
    c = .ofTokens starredTokens ∧ c.Passes (starredTokens.take 5) d ∧ d.kind = .comma ∧
    c.isAtQualifiedStar = true ∧ selectedField unbounded c =
      .ok (.node .selectedField ((starredTokens.take 5).map .leaf), d) ∧
    c.Passes (starredTokens.take 6) second ∧ second.isAtQualifiedStar = false ∧ e.position = 12 ∧
    (∃ expression given m, unbounded.expression .select second = .ok (expression, m) ∧
      second.Passes expression.tokens m ∧ m.Passes (Phrase.tokensAll given) e ∧
      selectedField unbounded second = .ok (.node .selectedField (expression :: given), e)) ∧
    c.Passes (starredTokens.take 13) third ∧ ¬ ∃ w ∈ Token.starPaths, w <+: third.rest := by
  let c : Cursor := .ofTokens starredTokens
  let place (n : Nat) : Cursor :=
    ⟨n, (c.rest.drop n).headD (.eof 0), (c.rest.drop n).tail⟩
  have hsecond : c.Passes (starredTokens.take 6) (place 6) := ⟨by decide +kernel, rfl⟩
  have hthird : c.Passes (starredTokens.take 13) (place 13) := ⟨by decide +kernel, rfl⟩
  have hfirst : starredTokens.take 5 ∈ Token.starPaths := by
    refine Token.mem_starPaths_iff.mpr ⟨⟨.identifier, ⟨0, 1⟩, "d"⟩,
      [[⟨.dot, ⟨1, 2⟩, "."⟩, ⟨.keyword .join, ⟨2, 6⟩, "JOIN"⟩]], ⟨.dot, ⟨6, 7⟩, "."⟩,
      ⟨.star, ⟨7, 8⟩, "*"⟩, rfl, ?_, rfl, rfl, rfl⟩
    exact List.forall_mem_singleton.mpr ⟨_, _, rfl, rfl, rfl⟩
  have hahead : starredTokens.take 5 <+: c.rest := by decide +kernel
  obtain ⟨hfound, hstarred, _⟩ := selectedField_agrees (.refl c)
  have hpath := hfound.mpr ⟨_, hfirst, hahead⟩
  obtain ⟨w, _, d, hpass, _, hunique, hread⟩ := hstarred hpath
  obtain rfl := hunique _ hfirst hahead
  have hcomma : d = place 5 := hpass.unique ⟨by decide +kernel, rfl⟩
  have hnone : (place 6).isAtQualifiedStar = false := by decide +kernel
  have hposition : ((selectedField unbounded (place 6)).toOption.map fun result =>
      result.2.position) = some 12 := by decide +kernel
  obtain ⟨⟨field, e⟩, hresult, hposition⟩ := Option.map_eq_some_iff.mp hposition
  have hfield : selectedField unbounded (place 6) = .ok (field, e) := by
    cases houtcome : selectedField unbounded (place 6) with
    | error failure =>
      rw [houtcome] at hresult
      cases hresult
    | ok result =>
      rw [houtcome] at hresult
      cases hresult
      rfl
  obtain ⟨expression, given, m, hexpression, hpasses, _, hpasses', rfl⟩ :=
    (((selectedField_agrees hsecond).2.2 hnone (by decide +kernel) unbounded unbounded_sound).1
      field e).mp hfield
  refine ⟨c, d, place 6, e, place 13, rfl, hpass, by rw [hcomma]; rfl, hpath, hread unbounded,
    hsecond, hnone, hposition, ⟨expression, given, m, hexpression, hpasses, hpasses', hfield⟩,
    hthird, fun hstar => ?_⟩
  have hthirdFound := (selectedField_agrees hthird).1.mpr hstar
  exact absurd hthirdFound (by decide +kernel)

end Grammar

end NullGuard
