import NullGuard.Proofs.AssembledExpressions
import NullGuard.Proofs.QualifiedStars

namespace NullGuard

open Grammar (selects_of_kind selects_isAtAny)
open Parse (selects_isAt)

namespace Assemble

variable {asm : Assembler} {inner : Nested} {b : Builder} {c e : Cursor} {w : List Token}

lemma aliasClause_assembles : AssemblesAll Grammar.aliasClause aliasClause := by
  intro b
  refine .here fun c => .ite (fun hc => ?_) fun _ => .ite (fun hc => ?_) fun _ => Steps.pure c
  · exact .bump hc (Cursor.inside_of_isAt hc rfl) fun _ =>
      (expectAs_assembles rfl _).bind (fun _ _ => .nodes _) _
  · exact .bump hc (Cursor.inside_of_isAt hc rfl) fun _ => Steps.nodes _ _

/-- The nodes up to a star are those of the tokens that the rounds take. -/
lemma starPathWithin_of_rounds (h : Grammar.StarRounds c w e) {ahead : List Token}
    (hahead : w.length < ahead.length) (b : Builder) : ∃ ids b',
      starPathWithin ahead ⟨c, b⟩ = (.ok ids, ⟨e, b'⟩) ∧ b.LaysAll (w.map .leaf) ids b' := by
  induction h generalizing ahead b with
  | leave hstar =>
    obtain ⟨token, ahead, rfl⟩ := List.exists_cons_of_length_pos hahead
    refine ⟨[], b, ?_, b.laysAll_nil⟩
    rw [starPathWithin, here_bind, if_pos (Cursor.isAt_iff.mpr hstar)]
    rfl
  | @last c e w hstar hnext _ ih =>
    obtain ⟨token, ahead, rfl⟩ := List.exists_cons_of_length_pos (Nat.zero_lt_of_lt hahead)
    obtain ⟨dot, b₁, hdot⟩ := b.exists_lays (.leaf c.current)
    obtain ⟨ids, b', hmore, hids⟩ := ih (Nat.lt_of_succ_lt_succ hahead) b₁
    refine ⟨dot :: ids, b', ?_, hdot.cons hids⟩
    have hnone : (!c.advance.isAt .star) = false := by simp [Cursor.isAt_iff.mpr hnext]
    rw [starPathWithin, here_bind, if_neg (mt Cursor.isAt_iff.mp hstar),
      bind_of_ok (bump_of_lays hdot), bind_of_ok (readIf_of_false hnone), bind_of_ok hmore]
    rfl
  | @round c e w hstar hnext hname _ ih =>
    obtain ⟨token, ahead, rfl⟩ := List.exists_cons_of_length_pos (Nat.zero_lt_of_lt hahead)
    obtain ⟨dot, b₁, hdot⟩ := b.exists_lays (.leaf c.current)
    obtain ⟨id, b₂, hid⟩ := b₁.exists_lays (.leaf c.advance.current)
    have hlength : w.length < ahead.length := by
      simp only [List.length_cons] at hahead
      omega
    obtain ⟨ids, b', hmore, hids⟩ := ih hlength b₂
    refine ⟨dot :: id :: ids, b', ?_, hdot.cons (hid.cons hids)⟩
    have hsome : (!c.advance.isAt .star) = true := by
      rw [Bool.not_eq_true', ← Bool.not_eq_true]
      exact mt Cursor.isAt_iff.mp hnext
    have hread : name ⟨c.advance, b₁⟩ = (.ok id, ⟨c.advance.advance, b₂⟩) :=
      (require_of_true hname).trans (bump_of_lays hid)
    rw [starPathWithin, here_bind, if_neg (mt Cursor.isAt_iff.mp hstar),
      bind_of_ok (bump_of_lays hdot),
      bind_of_ok ((readIf_of_true hsome).trans (one_of_ok hread)), bind_of_ok hmore]
    rfl

lemma qualifiedStar_assembles (hc : c.isAtQualifiedStar = true) :
    AssemblesAllAt c Grammar.qualifiedStar qualifiedStar := by
  intro b b₁ hlaid hends
  obtain rfl := hlaid.eq_of_nil
  obtain ⟨w, e, hrounds, hpass, hstop, hread⟩ := Grammar.exists_starRounds hc hends
  obtain ⟨first, b₂, hfirst⟩ := b₁.exists_lays (.leaf c.current)
  obtain ⟨ids, b₃, hmade, hids⟩ := starPathWithin_of_rounds hrounds hpass.length_lt b₂
  obtain ⟨star, b₄, hstar⟩ := b₃.exists_lays (.leaf e.current)
  rw [hread, qualifiedStar, bind_of_ok (bump_of_lays hfirst), here_bind, bind_of_ok hmade,
    bind_of_ok (bump_of_lays hstar), List.map_append]
  exact .ok ((hfirst.cons hids).append hstar.all) hstop

lemma selectedField_assembles (h : asm.Follows inner) :
    Assembles (Grammar.selectedField inner) (selectedField asm) := by
  intro b
  refine .here fun c => .ite (fun hc => ?_) fun _ => .ite (fun hc => ?_) fun _ => ?_
  · exact .bump hc (Cursor.inside_of_isAt hc rfl) fun _ => Steps.node _ _
  · exact (qualifiedStar_assembles hc).bind fun _ _ _ => .node _
  · exact (h.expression .select).bind (fun _ _ =>
      aliasClause_assembles.bind fun _ _ _ => .node _) c

lemma limitation_assembles :
    AssemblesLed (·.isAtAny [.keyword .allowed, .keyword .distinct, .keyword .top])
      Grammar.limitation limitation id := by
  intro c b hlead hc
  have hinside := Grammar.selects_limitation.inside _ hlead
  obtain ⟨word, b₁, hword⟩ := b.exists_lays (.leaf c.current)
  have hadvance := (hc.advance hinside).2
  rw [Grammar.limitation, limitation, here_bind]
  by_cases htop : c.current.kind = .keyword .top
  · rw [if_pos htop, if_pos (Cursor.isAt_iff.mpr htop), bind_of_ok (bump_of_lays hword)]
    exact (expectAs_assembles rfl _).bind (fun _ _ => .pure) c.advance b₁ hword.all hadvance
  · rw [if_neg htop, if_neg (mt Cursor.isAt_iff.mp htop), one, bind_of_ok (bump_of_lays hword)]
    exact .ok hword.all hadvance

lemma limitations_assembles : AssemblesAll Grammar.limitations limitations := by
  intro b c b₁ hlaid hc
  have hloop := manyLed_assembles Grammar.selects_limitation limitation_assembles b c b₁ hlaid hc
  refine hloop.bind fun items ids d b' hread hitems hd => ?_
  have hmeets := Parse.manyLed_meets Phrase.tokensAll _ Grammar.selects_limitation
    fun _ => Grammar.limitation_makes
  obtain ⟨_, _, _, _, hgroups⟩ := hmeets.of_ok hread
  have hempty := hitems.isEmpty_eq
  cases items with
  | nil =>
    obtain rfl := List.isEmpty_iff.mp hempty
    exact .ok hitems hd
  | cons item items =>
    have hne := (hgroups item (by simp)).2
    have hids : ids.isEmpty = false := by simp [hempty, hne]
    rw [List.flatMap_id] at hitems
    rw [hids]
    exact .ok (hitems.node _).all hd

lemma selectList_assembles (h : asm.Follows inner) :
    Assembles (Grammar.selectList inner) (selectList asm) := fun _ =>
  (commaSeparated_assembles (one_assembles (selectedField_assembles h))).bind fun _ _ _ => .node _

lemma temporaryTable_assembles : AssemblesLed (·.isAt (.keyword .into)) Grammar.temporaryTable
    temporaryTable id :=
  .of_bump (selects_isAt rfl) fun _ _ _ _ => (expectAs_assembles rfl _).bind fun _ _ => .nodes _

lemma dataSources_assembles (h : asm.Follows inner) : AssemblesLed (·.isAt (.keyword .from_))
    (Grammar.dataSources inner) (dataSources asm) id :=
  .of_bump (selects_isAt rfl) fun _ _ _ _ =>
    (commaSeparated_assembles (one_assembles h.source)).bind fun _ _ _ => .nodes _

lemma whereClause_assembles (h : asm.Follows inner) : AssemblesLed (·.isAt (.keyword .where_))
    (Grammar.whereClause inner) (whereClause asm) id :=
  .of_bump (selects_isAt rfl) fun _ _ _ _ =>
    (h.expression .filter).bind fun _ _ => .wrap _ fun _ => .nodes _

lemma byWord_assembles : Assembles Grammar.byWord byWord :=
  require_assembles (selects_isAtAny (by decide)) _

lemma groupBy_assembles (h : asm.Follows inner) : AssemblesLed (·.isAt (.keyword .group))
    (Grammar.groupBy inner) (groupBy asm) id :=
  .of_bump (selects_isAt rfl) fun _ _ _ _ => byWord_assembles.bind fun _ _ =>
    (commaSeparated_assembles (one_assembles (h.expression .clause))).bind fun _ _ _ => .nodes _

lemma having_assembles (h : asm.Follows inner) : AssemblesLed (·.isAt (.keyword .having))
    (Grammar.having inner) (having asm) id :=
  .of_bump (selects_isAt rfl) fun _ _ _ _ => (h.expression .clause).bind fun _ _ => .nodes _

lemma orderKey_assembles (h : asm.Follows inner) :
    AssemblesAll (Grammar.orderKey inner) (orderKey asm) := fun _ =>
  (h.expression .clause).bind fun _ _ =>
    (optional_assembles (selects_isAtAny (by decide))).bind fun _ _ _ => .pure

lemma orderBy_assembles (h : asm.Follows inner) : AssemblesLed (·.isAt (.keyword .order))
    (Grammar.orderBy inner) (orderBy asm) id :=
  .of_bump (selects_isAt rfl) fun _ _ _ _ => byWord_assembles.bind fun _ _ =>
    (commaSeparated_assembles (orderKey_assembles h)).bind fun _ _ _ => .nodes _

lemma query_assembles (h : asm.Follows inner) :
    Assembles (Grammar.query inner) (query asm) := by
  refine fun b => (keyword_assembles .select).bind fun word _ =>
    limitations_assembles.bind fun limits _ _ => (selectList_assembles h).bind fun fields _ =>
    (optionalLed_assembles (selects_isAt rfl) temporaryTable_assembles).bind fun into _ hinto =>
    (optionalLed_assembles (selects_isAt rfl) (dataSources_assembles h)).bind fun sources _ _ =>
    (optionalLed_assembles (selects_isAt rfl) (whereClause_assembles h)).bind fun filter _ _ =>
    (optionalLed_assembles (selects_isAt rfl) (groupBy_assembles h)).bind fun groups _ _ =>
    (optionalLed_assembles (selects_isAt rfl) (having_assembles h)).bind fun having _ _ =>
    (optionalLed_assembles (selects_isAt rfl) (orderBy_assembles h)).bind fun order _ _ => ?_
  simp only [hinto, List.append_assoc, List.cons_append, List.nil_append]
  exact .node _

lemma unionMember_assembles (h : asm.Follows inner) :
    AssemblesAll (Grammar.unionMember inner) (unionMember asm) := fun _ =>
  (optional_assembles (selects_isAt rfl)).bind fun _ _ _ => (query_assembles h).bind fun _ _ =>
    .pure

section Loops

variable {kind : TokenKind} {item : Parse (List Phrase)} {ps : List Phrase} {d : Cursor}

lemma manyBehind_of_not (h : c.isAt kind = false) : Parse.manyBehind kind item c = .ok ([], c) := by
  have hloop : Parse.manyLed (·.isAt kind) (fun mark => do
      let phrases ← item
      return .leaf mark :: phrases) c = .ok ([], c) :=
    Parse.manyLedWithin_of_not_wanted h c.following
  rw [Parse.manyBehind, Parse.bind_of_ok hloop]
  rfl

lemma ne_nil_of_manyBehind (hc : c.EndsAhead) (hat : c.isAt kind = true)
    (hkind : kind.endsStatement = false) (h : Parse.manyBehind kind item c = .ok (ps, d)) :
    ps ≠ [] := by
  have hinside := Cursor.inside_of_isAt hat hkind
  obtain ⟨next, later, hlater⟩ := List.exists_cons_of_ne_nil (hc.advance hinside).1
  obtain ⟨groups, e, hgroups, hflat⟩ := Parse.bind_eq_ok_iff.mp h
  rw [Parse.manyLed, Parse.bind_of_ok rfl, hlater, manyLedWithin_of_inside hc hinside hat]
    at hgroups
  simp only [bind_assoc, pure_bind] at hgroups
  obtain ⟨phrases, _, _, hmore⟩ := Parse.bind_eq_ok_iff.mp hgroups
  obtain ⟨more, _, _, hmore⟩ := Parse.bind_eq_ok_iff.mp hmore
  cases hmore
  cases hflat
  simp

end Loops

lemma statement_assembles (h : asm.Follows inner) :
    Assembles (Grammar.statement inner) (statement asm) := by
  refine fun b => (query_assembles h).bind fun first id c b₁ hlaid hc => ?_
  have hmany : AssemblesAll (Parse.manyBehind (.keyword .union) (Grammar.unionMember inner))
      (readBehind (.keyword .union) (unionMember asm)) :=
    manyBehind_assembles (unionMember_assembles h) rfl
  rw [here_bind]
  by_cases hat : c.isAt (.keyword .union) = true
  · rw [if_pos hat]
    have hmore := (hmany b₁ c b₁ b₁.laysAll_nil hc).mono hlaid.grows
    refine hmore.bind fun more ids d b' hread hids hd => ?_
    have hne := ne_nil_of_manyBehind hc hat rfl hread
    rw [if_neg (mt List.isEmpty_iff.mp hne)]
    exact .ok ((hlaid.append hids).node _) hd
  · rw [if_neg hat, Parse.bind_of_ok (manyBehind_of_not (Bool.eq_false_iff.mpr hat))]
    exact Steps.single c b₁ hlaid hc

/-- The arguments of a table behind the first one, up to the closing bracket. -/
def argumentsBehind (inner : Nested) (ahead : List Token) : Parse (List Phrase) := do
  let groups ← Parse.manyLedWithin (·.isAt .comma) (fun mark => do
    let argument ← Grammar.tableArgument inner
    return .leaf mark :: argument) ahead
  let closing ← Parse.expectAs .rparen .argumentEnd
  return groups.flatten ++ [closing]

def argumentsToEnd (asm : Assembler) (ahead : List Token) : Assemble (List NodeId) := do
  let arguments ← tableArgumentsWithin asm ahead
  let closing ← bump
  return arguments ++ [closing]

lemma argumentsBehind_of_not (h : c.isAtAny [.comma, .rparen] = false) (ahead : List Token) :
    argumentsBehind inner ahead c = .error ⟨.argumentEnd, c⟩ := by
  have hkind : c.kind ≠ .comma ∧ c.kind ≠ .rparen := by simpa [Cursor.isAtAny] using h
  have hcomma : c.isAt .comma = false := decide_eq_false hkind.1
  have hclosing : c.isAt .rparen = false := decide_eq_false hkind.2
  rw [argumentsBehind, Parse.bind_of_ok (Parse.manyLedWithin_of_not_wanted hcomma ahead)]
  exact Parse.bind_of_error (Parse.require_of_not_wanted hclosing)

/-- An argument that is there takes a token, so the rounds that are left are enough for the rest. -/
lemma argument_assembles (h : asm.Follows inner) {behind : Parse (List Phrase)}
    (hfails : ∀ d, d.isAtAny [.comma, .rparen] = false → behind d = .error ⟨.argumentEnd, d⟩)
    (hbehind : ∀ d b ahead, d.isAtAny [.comma, .rparen] = true →
      d.following.length ≤ c.following.length → d.following.length < ahead.length → d.EndsAhead →
      Agree b b.LaysAll (behind d) (argumentsToEnd asm ahead ⟨d, b⟩))
    {ahead : List Token} (hahead : c.following.length < ahead.length) (hc : c.EndsAhead) :
    Agree b b.LaysAll ((do
        let argument ← Grammar.tableArgument inner
        let more ← behind
        return argument ++ more : Parse (List Phrase)) c) (argumentsToEnd asm ahead ⟨c, b⟩) := by
  by_cases hat : c.isAtAny [.comma, .rparen] = true
  · have hnone : Grammar.tableArgument inner c = .ok ([], c) := by
      rw [Grammar.tableArgument, Parse.bind_of_ok rfl, if_pos hat]
      rfl
    rw [Parse.bind_of_ok hnone]
    simp only [List.nil_append, bind_pure]
    exact hbehind c b ahead hat (Nat.le_refl _) hahead hc
  · obtain ⟨token, ahead, rfl⟩ := List.exists_cons_of_length_pos (Nat.zero_lt_of_lt hahead)
    have hkind : c.kind ≠ .comma ∧ c.kind ≠ .rparen := by simpa [Cursor.isAtAny] using hat
    rw [Grammar.tableArgument, bind_assoc, Parse.bind_of_ok rfl, if_neg hat, Parse.one, bind_assoc,
      argumentsToEnd, tableArgumentsWithin, bind_assoc, here_bind,
      if_neg (mt Cursor.isAt_iff.mp hkind.2), if_neg (mt Cursor.isAt_iff.mp hkind.1), bind_assoc]
    refine (h.expression .clause b c b b.laysAll_nil hc).bind fun p id d b' hread hp hd => ?_
    obtain ⟨taken, hpass, _, htaken, hbuilds⟩ := (h.sound.expression .clause).of_ok hread
    have hlength : d.following.length < c.following.length := by
      have hne : taken ≠ [] := by
        rw [htaken]
        simpa using hbuilds.tokensAll_ne_nil rfl
      rw [hpass.length_following]
      exact Nat.lt_add_of_pos_left (List.length_pos_iff.mpr hne)
    rw [bind_assoc, here_bind, pure_bind]
    by_cases hend : d.isAtAny [.comma, .rparen] = true
    · have hrest := (hbehind d b' ahead hend hlength.le (by
        simp only [List.length_cons] at hahead
        omega) hd).mono hp.grows
      have hmade := hrest.bind (W := b.LaysAll) (f := fun more => pure ([p] ++ more))
        (g := fun ids => pure (id :: ids)) fun more ids e b'' _ hmore he => .ok (hp.cons hmore) he
      rw [if_pos hend]
      simp only [argumentsToEnd, bind_assoc, pure_bind, List.cons_append] at hmade ⊢
      exact hmade
    · rw [if_neg hend, Parse.bind_of_error (hfails d (Bool.eq_false_iff.mpr hend))]
      exact .error hp.grows

lemma argumentsBehind_of_closing (hclosing : c.isAt .rparen = true) (ahead : List Token)
    {ahead' : List Token} (hahead' : 0 < ahead'.length) (hc : c.EndsAhead) :
    Agree b b.LaysAll (argumentsBehind inner ahead c) (argumentsToEnd asm ahead' ⟨c, b⟩) := by
  obtain ⟨token, ahead', rfl⟩ := List.exists_cons_of_length_pos hahead'
  obtain ⟨closing, b₁, hleaf⟩ := b.exists_lays (.leaf c.current)
  have hinside := Cursor.inside_of_isAt hclosing rfl
  have hcomma : c.isAt .comma = false := by simp [Cursor.isAt, Cursor.isAt_iff.mp hclosing]
  have hread : Parse.expectAs .rparen .argumentEnd c = .ok (.leaf c.current, c.advance) :=
    require_of_inside hc hinside hclosing
  rw [argumentsBehind, Parse.bind_of_ok (Parse.manyLedWithin_of_not_wanted hcomma ahead),
    Parse.bind_of_ok hread, argumentsToEnd, tableArgumentsWithin, bind_assoc, here_bind,
    if_pos hclosing, pure_bind, bind_of_ok (bump_of_lays hleaf)]
  exact .ok hleaf.all (hc.advance hinside).2

lemma argumentsBehind_of_comma (hcomma : c.isAt .comma = true) (hc : c.EndsAhead) {token : Token}
    {ahead : List Token} : argumentsBehind inner (token :: ahead) c = ((do
        let argument ← Grammar.tableArgument inner
        let more ← argumentsBehind inner ahead
        return argument ++ more : Parse (List Phrase)) >>= fun more =>
          pure (.leaf c.current :: more)) c.advance := by
  rw [argumentsBehind, Parse.manyLedWithin, bind_assoc,
    Parse.bind_of_ok (takeIf_of_inside hc (Cursor.inside_of_isAt hcomma rfl) hcomma)]
  simp only [argumentsBehind, bind_assoc, pure_bind, List.flatten_cons, List.append_assoc,
    List.cons_append]

lemma argumentsToEnd_of_comma (hcomma : c.isAt .comma = true) {comma : NodeId} {b₁ : Builder}
    (hleaf : b.Lays (.leaf c.current) comma b₁) {token : Token} {ahead : List Token} :
    argumentsToEnd asm (token :: ahead) ⟨c, b⟩ =
      (argumentsToEnd asm ahead >>= fun ids => pure (comma :: ids)) ⟨c.advance, b₁⟩ := by
  have hclosing : ¬ c.isAt .rparen = true := by simp [Cursor.isAt, Cursor.isAt_iff.mp hcomma]
  rw [argumentsToEnd, tableArgumentsWithin, bind_assoc, here_bind, if_neg hclosing, if_pos hcomma,
    bind_assoc, bind_of_ok (bump_of_lays hleaf)]
  simp only [argumentsToEnd, bind_assoc, pure_bind, List.cons_append]

/-- The rounds that take a comma or an argument make the nodes of the arguments behind commas. -/
lemma argumentsBehind_assembles (h : asm.Follows inner) {ahead ahead' : List Token}
    (hat : c.isAtAny [.comma, .rparen] = true) (hahead : c.following.length ≤ ahead.length)
    (hahead' : c.following.length < ahead'.length) (hc : c.EndsAhead) :
    Agree b b.LaysAll (argumentsBehind inner ahead c) (argumentsToEnd asm ahead' ⟨c, b⟩) := by
  induction ahead generalizing b c ahead' with
  | nil =>
    have hkind : c.kind = .comma ∨ c.kind = .rparen := by simpa [Cursor.isAtAny] using hat
    have hinside : c.kind.endsStatement = false := by
      rcases hkind with hkind | hkind <;> rw [hkind] <;> rfl
    exact absurd (List.length_eq_zero_iff.mp (Nat.le_zero.mp hahead)) (hc.advance hinside).1
  | cons token ahead ih =>
    by_cases hclosing : c.isAt .rparen = true
    · exact argumentsBehind_of_closing hclosing _ (Nat.zero_lt_of_lt hahead') hc
    have hcomma : c.isAt .comma = true := by
      simpa [Cursor.isAtAny, mt Cursor.isAt_iff.mpr hclosing, Cursor.isAt] using hat
    obtain ⟨mark, ahead', rfl⟩ := List.exists_cons_of_length_pos (Nat.zero_lt_of_lt hahead')
    obtain ⟨comma, b₁, hleaf⟩ := b.exists_lays (.leaf c.current)
    obtain ⟨hne, hadvance⟩ := hc.advance (Cursor.inside_of_isAt hcomma rfl)
    have hlength := (Cursor.passes_advance hne).length_following
    simp only [List.length_cons, List.length_nil] at hlength hahead hahead'
    rw [argumentsBehind_of_comma hcomma hc, argumentsToEnd_of_comma hcomma hleaf]
    have hleft : c.advance.following.length < ahead'.length := by omega
    have hall := argument_assembles (b := b₁) h (fun d hd => argumentsBehind_of_not hd ahead)
      (fun d b₂ more hend hd hmore => ih hend (by omega) hmore) hleft hadvance
    exact Agree.bind (hall.mono hleaf.grows) fun more ids e b' _ hmore he =>
      .ok (hleaf.cons hmore) he

lemma tableArguments_eq (opening : Token) : Grammar.tableArguments inner opening = ((do
    let argument ← Grammar.tableArgument inner
    let more ← argumentsBehind inner (← get).following
    return argument ++ more : Parse (List Phrase)) >>= fun more =>
      pure (.leaf opening :: more)) := by
  simp only [Grammar.tableArguments, Parse.commaSeparated, Parse.manyBehind, Parse.manyLed,
    argumentsBehind, bind_assoc, pure_bind, List.append_assoc, List.cons_append]

lemma tableArguments_assembles (h : asm.Follows inner) : AssemblesLed (·.isAt .lparen)
    (Grammar.tableArguments inner) (tableArguments asm) id := by
  intro c b hlead hc
  obtain ⟨opening, b₁, hleaf⟩ := b.exists_lays (.leaf c.current)
  have hadvance := (hc.advance (Cursor.inside_of_isAt hlead rfl)).2
  have hahead : c.advance.following.length < c.advance.rest.length := Nat.lt_succ_self _
  have hmade : tableArguments asm ⟨c, b⟩ = (argumentsToEnd asm c.advance.rest >>= fun ids =>
      pure (opening :: ids)) ⟨c.advance, b₁⟩ := by
    rw [tableArguments, bind_of_ok (bump_of_lays hleaf), here_bind]
    simp only [argumentsToEnd, bind_assoc, pure_bind, List.cons_append]
  have hall := argument_assembles (b := b₁) h (fun d hd => argumentsBehind_of_not hd d.following)
    (fun d b₂ more hend _ hmore => argumentsBehind_assembles h hend (Nat.le_refl _) hmore)
    hahead hadvance
  rw [tableArguments_eq, hmade]
  exact Agree.bind (hall.mono hleaf.grows) fun more ids e b' _ hmore he => .ok (hleaf.cons hmore) he

lemma table_assembles (h : asm.Follows inner) (hc : c.isAt .identifier = true) :
    AssemblesAt c (Grammar.table inner) (table asm) := fun _ =>
  .bump hc (Cursor.inside_of_isAt hc rfl) fun _ => path_assembles.bind (fun _ _ _ =>
    (optionalLed_assembles (selects_isAt rfl) (tableArguments_assembles h)).bind fun _ _ _ =>
    .node _) _

lemma bracketedSource_assembles (h : asm.Follows inner) (hc : c.isAt .lparen = true) :
    AssemblesAllAt c (Grammar.bracketedSource inner) (bracketedSource asm) := fun _ =>
  .bump hc (Cursor.inside_of_isAt hc rfl) fun _ => h.source.bind (fun _ _ =>
    (expect_assembles rfl).bind fun _ _ => .pure) _

lemma sourceBody_assembles (h : asm.Follows inner) :
    AssemblesAll (Grammar.sourceBody inner) (sourceBody asm) := by
  intro b
  refine .here fun c => .ite (fun _ => one_assembles (subquery_assembles h) b c) fun _ =>
    .ite (fun hc => bracketedSource_assembles h hc b) fun _ => ?_
  have hmade : (if c.isAt .parameter = true then one bump
      else if c.isAt .identifier = true then one (table asm) else refuse .source) =
      if c.isAt .identifier = true then one (table asm)
      else if c.isAt .parameter = true then one bump else refuse .source := by
    simp only [Cursor.isAt_iff]
    by_cases hc : c.kind = .identifier <;> simp [hc]
  rw [hmade]
  refine .ite (fun hc => (table_assembles h hc).bind fun _ _ => .pure) fun _ b₁ hlaid hc => ?_
  have hlast : (if c.isAt .parameter = true then one bump else refuse .source) ⟨c, b₁⟩ =
      one (expectAs .parameter .source) ⟨c, b₁⟩ := by
    by_cases hat : c.isAt .parameter = true
    · rw [if_pos hat]
      exact (bind_congr_at (require_of_true hat)).symm
    · rw [if_neg hat]
      exact (bind_of_error (require_of_false (Bool.eq_false_iff.mpr hat))).symm
  rw [hlast]
  exact one_assembles (expectAs_assembles rfl .source) b c b₁ hlaid hc

lemma joinWords_assembles : AssemblesLed (·.kind.startsJoin) Grammar.joinWords joinWords id := by
  intro c b hlead hc
  obtain ⟨word, b₁, hword⟩ := b.exists_lays (.leaf c.current)
  have hadvance := (hc.advance (Grammar.endsStatement_of_startsJoin hlead)).2
  rw [Grammar.joinWords, joinWords]
  by_cases hjoin : c.current.kind = .keyword .join
  · have hside : c.isAtAny [.keyword .inner, .keyword .left, .keyword .right, .keyword .full] =
        false := by simp [Cursor.isAtAny, Cursor.kind, hjoin]
    have houter : c.isAt (.keyword .outer) = false := by simp [Cursor.isAt, Cursor.kind, hjoin]
    have hread : keyword .join ⟨c, b⟩ = (.ok word, ⟨c.advance, b₁⟩) :=
      (require_of_true (Cursor.isAt_iff.mpr hjoin)).trans (bump_of_lays hword)
    rw [if_pos hjoin, eat, bind_of_ok (readIf_of_false hside), eat,
      bind_of_ok (readIf_of_false houter), bind_of_ok hread]
    exact .ok hword.all hadvance
  · have hside : c.isAtAny [.keyword .inner, .keyword .left, .keyword .right, .keyword .full] =
        true := by
      have hstarts : c.kind.startsJoin = true := hlead
      unfold TokenKind.startsJoin at hstarts
      split at hstarts <;> simp_all [Cursor.isAtAny, Cursor.kind]
    rw [if_neg hjoin, bind_of_ok (eat_of_lays hside hword)]
    exact (optional_assembles (selects_isAt rfl)).bind (fun _ _ _ =>
      (keyword_assembles .join).bind fun _ _ => .pure) c.advance b₁ hword.all hadvance

lemma join_assembles (h : asm.Follows inner) : AssemblesLed (·.kind.startsJoin)
    (Grammar.join inner) (join asm) fun p => [p] := by
  refine joinWords_assembles.bind fun b words ids => h.source.bind fun source _ =>
    (keyword_assembles .on).bind fun on _ => (h.expression .join).bind fun condition _ =>
    .wrap .joinExpression fun _ c b₁ hlaid hc => ?_
  simp only [List.append_assoc, List.cons_append, List.nil_append] at hlaid
  exact .ok (hlaid.node _).all hc

lemma source_assembles (h : asm.Follows inner) :
    Assembles (Grammar.source inner) (source asm) := by
  refine fun b => (sourceBody_assembles h).bind fun body _ _ =>
    aliasClause_assembles.bind fun given _ _ c b₁ hlaid hc => ?_
  have hloop := manyLed_assembles (selects_of_kind fun _ => Grammar.endsStatement_of_startsJoin)
    (join_assembles h) b₁ c b₁ b₁.laysAll_nil hc
  refine (hloop.mono hlaid.grows).bind fun joins ids d b' _ hjoins hd => ?_
  rw [List.flatMap_singleton'] at hjoins
  exact .ok ((hlaid.append hjoins).node _) hd

lemma nested_follows (depth : Nat) : (nested depth).Follows (Grammar.nested depth) := by
  induction depth with
  | zero =>
    exact ⟨fun _ _ => .refuse _, fun _ => .refuse _, fun _ => .refuse _, Grammar.nested_sound 0⟩
  | succ depth ih =>
    exact {
      expression := fun _ b c => expression_assembles ih b c
      statement := fun b c => statement_assembles ih b c
      source := fun b c => source_assembles ih b c
      sound := Grammar.nested_sound (depth + 1) }

/-- The nodes that are made of a statement are those of the phrase that is read. -/
lemma wholeStatement_assembles : Assembles Parse.statement wholeStatement := by
  intro b c b₁ hlaid hc
  have hnested := (nested_follows c.rest.length).statement b c b₁ hlaid hc
  rw [Parse.statement, wholeStatement]
  exact hnested

end Assemble

end NullGuard
