import NullGuard.Proofs.ReaderCompleteness

namespace NullGuard

open Parse Cursor

namespace Grammar

variable {inner : Nested} {n : Nat}

lemma aliasClause_reads (bound : Nat) : aliasClause.ReadsAll (.opt .aliasClause) bound
    (fun d => d.kind ≠ .keyword .as ∧ d.kind ≠ .identifier) := by
  intro ps hps _
  simp only [Form.aliasClause, builds_opt, builds_node, builds_append, builds_word, builds_tok] at hps
  obtain rfl | ⟨_, ⟨left, _, hleft, ⟨name, hname, rfl⟩, rfl⟩, rfl⟩ := hps
  · refine .pass (fun c d hpass hd => ?_) (.pass (fun c d hpass hd => ?_) (.settle .pure))
    · rw [isAt_iff, Cursor.passes_nil_iff.mp hpass]
      exact hd.1
    · rw [isAt_iff, Cursor.passes_nil_iff.mp hpass]
      exact hd.2
  · rcases hleft with rfl | ⟨word, hword, rfl⟩
    · refine .pass (fun c d hpass _ => ?_) (.choose (fun c d hpass _ => ?_) (.settle
        ((expect_gives hname).map.mono fun _ _ => trivial)))
      · simp [isAt_iff, hpass.kind, hname]
      · exact isAt_iff.mpr (hpass.kind.trans hname)
    · refine .choose (fun c d hpass _ => isAt_iff.mpr (hpass.kind.trans hword)) (.settle
        ((keyword_gives hword).bind ((expectAs_gives hname).map.mono fun _ _ => trivial) .any))

lemma leadToStar_of_path {names : List Phrase} (hnames : Builds .path names) {dot star : Token}
    (hdot : dot.kind = .dot) (hstar : star.kind = .star) (later : List Token) :
    Token.leadToStar (Phrase.tokensAll names ++ dot :: star :: later) = true := by
  obtain ⟨groups, hgroups, rfl⟩ := builds_many.mp hnames
  clear hnames
  induction groups with
  | nil => simp [Token.leadToStar, hdot, hstar]
  | cons group groups ih =>
    have hrest := ih fun other hother => hgroups other (List.mem_cons_of_mem _ hother)
    obtain ⟨left, right, hleft, hright, rfl⟩ := builds_append.mp (hgroups group (by simp))
    obtain ⟨mark, hmark, rfl⟩ := builds_tok.mp hleft
    obtain ⟨name, hname, rfl⟩ := builds_token.mp hright
    simp only [List.flatten_cons, List.cons_append, Phrase.tokensAll_cons,
      Phrase.tokens_leaf, List.nil_append, Token.leadToStar, hmark, hname, hrest]
    simp

lemma qualifiedStar_reads {ps : List Phrase}
    (hps : Builds (.tok .identifier ++ .path ++ .tok .dot ++ .tok .star) ps) :
    qualifiedStar.Gives (Phrase.tokensAll ps) (fun _ => True) ps ∧
      ∀ c d : Cursor, c.Passes (Phrase.tokensAll ps) d → c.kind = .identifier ∧ c.isAtQualifiedStar = true := by
  simp only [builds_append, builds_tok] at hps
  obtain ⟨_, _, ⟨_, _, ⟨_, names, ⟨first, hfirst, rfl⟩, hnames, rfl⟩, ⟨dot, hdot, rfl⟩, rfl⟩,
    ⟨star, hstar, rfl⟩, rfl⟩ := hps
  constructor
  · obtain ⟨groups, hgroups, rfl⟩ := builds_many.mp hnames
    have hitem : ∀ group ∈ groups, Led (fun c => c.isAt .dot && c.nextKind ≠ .star)
        (fun dot => do let name ← Parse.name; return [.leaf dot, name]) (fun _ => True)
        (Phrase.tokensAll group) group := by
      intro group hgroup
      obtain ⟨left, right, hleft, hright, rfl⟩ := builds_append.mp (hgroups group hgroup)
      obtain ⟨mark, hmark, rfl⟩ := builds_tok.mp hleft
      obtain ⟨name, hname, rfl⟩ := builds_token.mp hright
      have hne : name.kind ≠ .star := by
        intro hkind
        simp [hkind, TokenKind.isName] at hname
      refine ⟨mark, [name], rfl, fun c d hpass => ?_, (require_gives fun c hc => ?_).map⟩
      · simp [isAt_iff.mpr (hpass.kind.trans hmark), hpass.nextKind, hne]
      · rwa [Cursor.kind, hc]
    have hloop := manyLed_gives groups Phrase.tokensAll hitem fun _ _ => trivial
    rw [List.append_assoc]
    refine .cast ((expect_gives hfirst).bind (hloop.bind ((expect_gives hdot).bind
      (expect_gives hstar).map .any) fun c d hpass _ => ?_) .any) ?_
    · -- the last dot has the star behind it
      exact ⟨trivial, by simp [hpass.nextKind, hstar]⟩
    · simp [Phrase.tokensAll_flatten]
  · intro c d hpass
    have hpass' : c.Passes (first :: (Phrase.tokensAll names ++ [dot, star])) d := by
      simpa using hpass
    have hkind := hpass'.kind.trans hfirst
    refine ⟨hkind, ?_⟩
    have hfollowing : c.following = Phrase.tokensAll names ++ dot :: star :: d.rest := by
      have hrest := hpass'.rest
      simp only [Cursor.rest, List.cons_append, List.append_assoc, List.cons.injEq,
        List.nil_append] at hrest
      exact hrest.2
    rw [isAtQualifiedStar, isAt_iff.mpr hkind, hfollowing, leadToStar_of_path hnames hdot hstar,
      Bool.true_and]

/-- An alias without its word is a name, and no second name stands behind it. -/
lemma aliasClause_follows {given : List Phrase} (hgiven : Builds (.opt .aliasClause) given) :
    Follows (Phrase.tokensAll given) EndsItem EndsExpression := by
  simp only [Form.aliasClause, builds_opt, builds_node, builds_append, builds_word,
    builds_tok] at hgiven
  obtain rfl | ⟨_, ⟨left, _, hleft, ⟨name, hname, rfl⟩, rfl⟩, rfl⟩ := hgiven
  · exact .nil fun d hd => hd.endsExpression
  · rcases hleft with rfl | ⟨word, hword, rfl⟩
    · intro c d hpass hd
      have hkind : c.kind = .identifier := hpass.kind.trans hname
      have hnext : c.nextKind = d.kind := hpass.nextKind_single
      have hitem : ∀ kind : TokenKind, kind.endsItem = true → kind ≠ .identifier := by decide
      rw [EndsExpression, hkind, hnext]
      exact ⟨rfl, fun _ => hitem _ hd⟩
    · exact .cons fun c hc => .of_kind (hc.trans hword) rfl (by decide)

lemma isAtQualifiedStar_of_starFree {c d : Cursor} {v w : List Token} (hv : StarFree v)
    (hw : ∀ token ∈ (w ++ d.rest).head?, token.kind ≠ .dot) (hpass : c.Passes (v ++ w) d) :
    c.isAtQualifiedStar = false := by
  have hrest : c.rest = v ++ (w ++ d.rest) := by rw [hpass.rest, List.append_assoc]
  have hfree := hv _ hw
  rwa [← hrest] at hfree

lemma selectedField_reads (h : inner.Complete n) :
    (selectedField inner).Reads .selectedField n EndsItem := by
  intro p hp hlen
  obtain ⟨ps, hps, hp⟩ := builds_node.mp hp
  obtain rfl := List.singleton_inj.mp hp
  simp only [builds_or] at hps
  rcases hps with (hps | hps) | hps
  · obtain ⟨star, hstar, rfl⟩ := builds_tok.mp hps
    exact .choose (fun c d hpass _ => isAt_iff.mpr (hpass.kind.trans hstar)) (.settle
      ((expect_gives hstar).map.mono fun _ _ => trivial))
  · obtain ⟨hgives, hahead⟩ := qualifiedStar_reads hps
    refine .pass (fun c d hpass _ => ?_) (.choose (fun c d hpass _ => (hahead c d hpass).2) (.settle
      (hgives.map.mono fun _ _ => trivial)))
    simp [isAt_iff, (hahead c d hpass).1]
  · obtain ⟨_, given, hfirst, hgiven, rfl⟩ := builds_append.mp hps
    obtain ⟨expression, rfl⟩ := hfirst.exists_single rfl
    have hinner : expression.tokens.length ≤ n ∧ (Phrase.tokensAll given).length ≤ n := by
      simp at hlen
      omega
    have hitem : ∀ kind : TokenKind, kind.endsItem = true →
        kind ≠ .keyword .as ∧ kind ≠ .identifier := by decide
    have hreads := (aliasClause_reads n given hgiven hinner.2).mono
      fun d (hd : d.EndsItem) => hitem _ hd
    have hstar : ∀ kind : TokenKind, kind.startsExpression = true → kind ≠ .star := by decide
    refine .cast (.pass (fun c d hpass hd => ?_) (.pass (fun c d hpass hd => ?_) (.settle
      ((h.expression .select expression hfirst hinner.1).bind hreads.map ?_)))) (by simp)
    · exact mt isAt_iff.mp (hstar _ (expr_start hfirst hpass))
    · have halias : (Form.opt .aliasClause).Leads (fun kind => kind ≠ .dot) :=
        ⟨trivial, ⟨trivial, Form.leads_tok rfl⟩, .inr (Form.leads_tok rfl)⟩
      have hdot : ∀ kind : TokenKind, kind.endsItem = true → kind ≠ .dot := by decide
      have hahead := forall_mem_head?_append (w := d.rest) (fun token htoken =>
        of_decide_eq_true (hgiven.head halias token htoken)) (.inr (by simpa [rest, Cursor.kind] using hdot _ hd))
      simp [isAtQualifiedStar_of_starFree hfirst.starFree_expr hahead hpass]
    · exact aliasClause_follows hgiven

/-- The words that limit the rows of a query. -/
def limitationWords : List TokenKind := [.keyword .allowed, .keyword .distinct, .keyword .top]

lemma limitation_led {group : List Phrase}
    (hgroup : Builds (.word .allowed ||| .word .distinct ||| .word .top ++ .tok .number) group) :
    Led (·.isAtAny limitationWords) limitation (fun _ => True) (Phrase.tokensAll group) group := by
  simp only [builds_or, builds_append, builds_word, builds_tok] at hgroup
  have hword : ∀ {word : Token}, (word.kind = .keyword .allowed ∨ word.kind = .keyword .distinct) →
      Led (·.isAtAny limitationWords) limitation (fun _ => True) [word] [.leaf word] := by
    intro word hkind
    refine ⟨word, [], rfl, fun c d hpass => ?_, ?_⟩
    · rcases hkind with hkind | hkind <;> simp [isAtAny, limitationWords, hpass.kind, hkind]
    · have hne : word.kind ≠ .keyword .top := by rcases hkind with hkind | hkind <;> simp [hkind]
      rw [limitation, if_neg hne]
      exact .pure
  obtain (⟨word, hkind, rfl⟩ | ⟨word, hkind, rfl⟩) |
    ⟨_, _, ⟨word, hkind, rfl⟩, ⟨count, hcount, rfl⟩, rfl⟩ := hgroup
  · exact hword (.inl hkind)
  · exact hword (.inr hkind)
  · refine ⟨word, [count], rfl, fun c d hpass => ?_, ?_⟩
    · simp [isAtAny, limitationWords, hpass.kind, hkind]
    · rw [limitation, if_pos hkind]
      exact (expectAs_gives hcount).map

lemma limitations_reads (bound : Nat) :
    limitations.ReadsAll .limitations bound (·.isAtAny limitationWords = false) := by
  intro ps hps _
  obtain ⟨left, right, hleft, hright, hps⟩ := builds_extended.mp hps
  obtain rfl := builds_empty.mp hleft
  obtain ⟨groups, hgroups, rfl⟩ := builds_many.mp hright
  have hvalue : ps = if groups.isEmpty then [] else [.node .limitations groups.flatten] := by
    cases groups with
    | nil => exact hps
    | cons group groups =>
      have hne : group ≠ [] := by
        rintro rfl
        simpa using hgroups [] (by simp)
      rw [hps]
      simp [hne]
  have htokens : Phrase.tokensAll ps = groups.flatMap Phrase.tokensAll := by
    rw [hvalue]
    cases groups <;> simp [Phrase.tokensAll_flatten]
  have hloop := manyLed_gives groups Phrase.tokensAll (fun group hgroup =>
    limitation_led (hgroups group hgroup)) fun _ _ => trivial
  rw [htokens, hvalue]
  exact hloop.map.mono fun d hd => ⟨trivial, hd⟩

lemma selectList_reads (h : inner.Complete n) :
    (selectList inner).Reads .selectList n (fun d => d.EndsItem ∧ d.kind ≠ .comma) := by
  intro p hp hlen
  obtain ⟨fields, hfields, hp⟩ := builds_node.mp hp
  obtain rfl := List.singleton_inj.mp hp
  have hcomma : ∀ c : Cursor, c.kind = .comma → c.EndsItem := fun c hc => by rw [EndsItem, hc]; rfl
  exact (commaSeparated_reads (one_reads (selectedField_reads h) rfl) hcomma fields hfields hlen).map

section Clauses

lemma temporaryTable_reads (bound : Nat) :
    ReadsBehind temporaryTable (.keyword .into) .temporaryTable bound (fun _ => True) := by
  intro ps hps _
  simp only [Form.temporaryTable, builds_node, builds_append, builds_word, builds_tok] at hps
  obtain ⟨_, ⟨_, _, ⟨word, hword, rfl⟩, ⟨name, hname, rfl⟩, rfl⟩, rfl⟩ := hps
  exact .of_kind hword (expectAs_gives hname).map rfl

lemma dataSources_reads (h : inner.Complete n) :
    ReadsBehind (dataSources inner) (.keyword .from_) .dataSources n
      (fun d => d.EndsItem ∧ d.kind ≠ .comma) := by
  intro ps hps hlen
  simp only [Form.dataSources, builds_node, builds_append, builds_word] at hps
  obtain ⟨_, ⟨_, sources, ⟨word, hword, rfl⟩, hsources, rfl⟩, rfl⟩ := hps
  have hinner : (Phrase.tokensAll sources).length ≤ n := by
    simp at hlen
    omega
  have hcomma : ∀ c : Cursor, c.kind = .comma → c.EndsItem := fun c hc => by rw [EndsItem, hc]; rfl
  exact .of_kind hword (commaSeparated_reads (one_reads h.source rfl) hcomma sources hsources
    hinner).map (by simp)

lemma whereClause_reads (h : inner.Complete n) :
    ReadsBehind (whereClause inner) (.keyword .where_) .whereClause n EndsExpression := by
  intro ps hps hlen
  simp only [Form.whereClause, builds_node, builds_append, builds_word] at hps
  obtain ⟨_, ⟨_, _, ⟨word, hword, rfl⟩, ⟨conditions, hconditions, rfl⟩, rfl⟩, rfl⟩ := hps
  obtain ⟨condition, rfl⟩ := hconditions.exists_single rfl
  have hinner : condition.tokens.length ≤ n := by
    simp at hlen
    omega
  exact .of_kind hword (h.expression .filter condition hconditions hinner).map (by simp)

lemma byWord_gives {p : Phrase} (hp : Builds .byWord [p]) :
    byWord.Gives p.tokens (fun _ => True) p := by
  simp only [Form.byWord, builds_or, builds_word, List.cons.injEq, and_true] at hp
  obtain ⟨word, hword, rfl⟩ | ⟨word, hword, rfl⟩ := hp
  · exact require_gives fun c hc => by simp [isAtAny, Cursor.kind, hc, hword]
  · exact require_gives fun c hc => by simp [isAtAny, Cursor.kind, hc, hword]

lemma groupBy_reads (h : inner.Complete n) : ReadsBehind (groupBy inner) (.keyword .group) .groupBy n
    (fun d => d.EndsExpression ∧ d.kind ≠ .comma) := by
  intro ps hps hlen
  simp only [Form.groupBy, builds_node, builds_append, builds_word] at hps
  obtain ⟨_, ⟨_, keys, ⟨_, _, ⟨word, hword, rfl⟩, hlink, rfl⟩, hkeys, rfl⟩, rfl⟩ := hps
  obtain ⟨link, rfl⟩ := hlink.exists_single rfl
  have hinner : (Phrase.tokensAll keys).length ≤ n := by
    simp at hlen
    omega
  exact .of_kind hword ((byWord_gives hlink).bind (commaSeparated_reads (one_reads
    (h.expression .clause) rfl) (fun c hc => .of_kind hc rfl (by decide)) keys hkeys hinner).map .any)
    (by simp)

lemma having_reads (h : inner.Complete n) :
    ReadsBehind (having inner) (.keyword .having) .having n EndsExpression := by
  intro ps hps hlen
  simp only [Form.having, builds_node, builds_append, builds_word] at hps
  obtain ⟨_, ⟨_, _, ⟨word, hword, rfl⟩, hcondition, rfl⟩, rfl⟩ := hps
  obtain ⟨condition, rfl⟩ := hcondition.exists_single rfl
  have hinner : condition.tokens.length ≤ n := by
    simp at hlen
    omega
  exact .of_kind hword (h.expression .clause condition hcondition hinner).map (by simp)

lemma orderKey_reads (h : inner.Complete n) : (orderKey inner).ReadsAll .orderKey n EndsItem := by
  intro ps hps hlen
  obtain ⟨_, direction, hkey, hdirection, rfl⟩ := builds_append.mp hps
  obtain ⟨key, rfl⟩ := hkey.exists_single rfl
  have hinner : key.tokens.length ≤ n ∧ (Phrase.tokensAll direction).length ≤ n := by
    simp at hlen
    omega
  have hdirection' : Builds (.opt (.token fun token =>
      [.keyword .asc, .keyword .desc].contains token.kind)) direction := by
    simp only [builds_opt, builds_or, builds_word, builds_token] at hdirection ⊢
    rcases hdirection with rfl | ⟨word, hword, rfl⟩ | ⟨word, hword, rfl⟩
    · exact .inl rfl
    · exact .inr ⟨word, by simp [hword], rfl⟩
    · exact .inr ⟨word, by simp [hword], rfl⟩
  have hoptional : (optional (·.isAtAny [.keyword .asc, .keyword .desc])).Gives
      (Phrase.tokensAll direction) _ direction :=
    optional_reads n (fun c hc => hc) direction hdirection' hinner.2
  have hitem : ∀ kind : TokenKind, kind.endsItem = true →
      [TokenKind.keyword .asc, .keyword .desc].contains kind = false := by decide
  have hword : ∀ kind : TokenKind, (kind = .keyword .asc || kind = .keyword .desc) = true →
      kind.extendsExpression = false ∧ kind ≠ .identifier := by decide
  have hleads : (Form.opt (.word .asc ||| .word .desc)).Leads
      (fun kind => kind = .keyword .asc || kind = .keyword .desc) :=
    ⟨trivial, Form.leads_tok rfl, Form.leads_tok rfl⟩
  refine .cast ((h.expression .clause key hkey hinner.1).bind
    (hoptional.map.mono fun d hd => hitem _ hd) ?_) (by simp)
  exact .leads_last hdirection hleads (fun c hc => .of_kind rfl (hword _ hc).1 (hword _ hc).2)
    fun d hd => hd.endsExpression

lemma orderBy_reads (h : inner.Complete n) : ReadsBehind (orderBy inner) (.keyword .order) .orderBy n
    (fun d => d.EndsItem ∧ d.kind ≠ .comma) := by
  intro ps hps hlen
  simp only [Form.orderBy, builds_node, builds_append, builds_word] at hps
  obtain ⟨_, ⟨_, keys, ⟨_, _, ⟨word, hword, rfl⟩, hlink, rfl⟩, hkeys, rfl⟩, rfl⟩ := hps
  obtain ⟨link, rfl⟩ := hlink.exists_single rfl
  have hinner : (Phrase.tokensAll keys).length ≤ n := by
    simp at hlen
    omega
  have hcomma : ∀ c : Cursor, c.kind = .comma → c.EndsItem := fun c hc => by rw [EndsItem, hc]; rfl
  exact .of_kind hword ((byWord_gives hlink).bind (commaSeparated_reads (orderKey_reads h) hcomma keys
    hkeys hinner).map .any) (by simp)

/-- The place of a clause among the clauses of a query, by its first word; what can stand behind a
query comes last, and zero is for all other kinds. -/
def clauseRank : TokenKind → Nat
  | .keyword .into => 1
  | .keyword .from_ => 2
  | .keyword .where_ => 3
  | .keyword .group => 4
  | .keyword .having => 5
  | .keyword .order => 6
  | .keyword .union | .rparen | .semicolon | .eof => 7
  | _ => 0

/-- Only clauses behind the given place can come here, and the end of a query. -/
def EndsClause (rank : Nat) (c : Cursor) : Prop := rank < clauseRank c.kind

lemma EndsClause.endsItem {rank : Nat} {c : Cursor} (h : EndsClause rank c) :
    c.EndsItem ∧ c.kind ≠ .comma := by
  have hkind : ∀ kind : TokenKind, 0 < clauseRank kind → kind.endsItem = true ∧ kind ≠ .comma := by
    decide
  exact hkind _ (Nat.zero_lt_of_lt h)

/-- A clause is read, or it is missing and a later one comes. -/
lemma clause_reads {item : Token → Parse (List Phrase)} {word : Keyword} {form : Form}
    {stop : Cursor → Prop} {rank : Nat} (h : ReadsBehind item (.keyword word) form n stop)
    (hrank : clauseRank (.keyword word) = rank)
    (hstop : ∀ c : Cursor, c.EndsItem ∧ c.kind ≠ .comma → stop c) :
    (optionalLed (·.isAt (.keyword word)) item).ReadsAll (.opt form) n (EndsClause rank) := by
  intro ps hps hlen
  refine (optionalLed_reads h ps hps hlen).mono fun d hd => ⟨hstop d hd.endsItem, ?_⟩
  intro hkind
  rw [EndsClause, hkind, hrank] at hd
  omega

lemma clause_follows {word : Keyword} {form : Form} {ps : List Phrase} (hps : Builds (.opt form) ps)
    (hform : form.StartsWith (.keyword word)) {w : List Token} {stop : Cursor → Prop} {rank : Nat}
    (hrank : clauseRank (.keyword word) = rank + 1) (hw : Follows w stop (EndsClause (rank + 1))) :
    Follows (Phrase.tokensAll ps ++ w) stop (EndsClause rank) := by
  refine .maybe hps (Form.startsWith_opt hform) (fun c hc => ?_) fun c d hpass hd => ?_
  · rw [EndsClause, hc, hrank]
    omega
  · exact Nat.lt_of_succ_lt (hw c d hpass hd)

lemma selectList_leads : Form.selectList.Leads
    (fun kind => kind = .star || kind.startsExpression) := by
  have hexpression : (Form.expr .select).Leads (fun kind => kind = .star || kind.startsExpression) :=
    (Form.expr_leads .select).mono (by decide)
  exact ⟨⟨⟨Form.leads_tok rfl, ⟨⟨⟨Form.leads_tok rfl, .inl rfl⟩, .inl rfl⟩, .inl rfl⟩⟩, hexpression,
    .inl rfl⟩, .inl rfl⟩

/-- A query is read back with all of its clauses; its kind is by the temporary table. -/
lemma clauses_reads (h : inner.Complete n) {form : Form}
    (hform : ∀ into, Builds form into → Builds (.opt .temporaryTable) into) {ps : List Phrase}
    (hps : Builds (.clauses form) ps) (hlen : (Phrase.tokensAll ps).length ≤ n + 1) :
    ∃ into, Builds form into ∧ (query inner).Gives (Phrase.tokensAll ps) (EndsClause 6)
      (.node (if into.isEmpty then .query else .temporaryTableQuery) ps) := by
  simp only [Form.clauses, builds_append, builds_word] at hps
  obtain ⟨_, order, ⟨_, having, ⟨_, groups, ⟨_, filter, ⟨_, sources, ⟨_, into, ⟨_, _, ⟨_, limits,
    ⟨word, hword, rfl⟩, hlimits, rfl⟩, hfields, rfl⟩, hinto, rfl⟩, hsources, rfl⟩, hfilter, rfl⟩,
    hgroups, rfl⟩, hhaving, rfl⟩, horder, rfl⟩ := hps
  obtain ⟨fields, rfl⟩ := hfields.exists_single rfl
  refine ⟨into, hinto, ?_⟩
  replace hinto := hform into hinto
  simp only [Phrase.tokensAll_append, List.length_append, Phrase.tokensAll_cons,
    Phrase.tokens_leaf, Phrase.tokensAll_nil, List.length_cons, List.length_nil] at hlen
  have rlimits := limitations_reads n limits hlimits (by omega)
  have rfields := selectList_reads h fields hfields (by omega)
  have rinto := clause_reads (temporaryTable_reads n) rfl (fun _ _ => trivial) into hinto (by omega)
  have rsources := clause_reads (dataSources_reads h) rfl (fun _ hc => hc) sources hsources (by omega)
  have rfilter := clause_reads (whereClause_reads h) rfl (fun _ hc => hc.1.endsExpression) filter
    hfilter (by omega)
  have rgroups := clause_reads (groupBy_reads h) rfl (fun _ hc => ⟨hc.1.endsExpression, hc.2⟩) groups
    hgroups (by omega)
  have rhaving := clause_reads (having_reads h) rfl (fun _ hc => hc.1.endsExpression) having hhaving
    (by omega)
  have rorder := clause_reads (orderBy_reads h) rfl (fun _ hc => hc) order horder (by omega)
  have forder := clause_follows horder ⟨⟨Form.startsWith_tok, .inl rfl⟩, .inl rfl⟩ rfl
    (.nil fun d (hd : EndsClause 6 d) => hd)
  rw [List.append_nil] at forder
  have fhaving := clause_follows hhaving ⟨Form.startsWith_tok, .inl rfl⟩ rfl forder
  have fgroups := clause_follows hgroups ⟨⟨Form.startsWith_tok, .inl rfl⟩, .inl rfl⟩ rfl fhaving
  have ffilter := clause_follows hfilter ⟨Form.startsWith_tok, .inl rfl⟩ rfl fgroups
  have fsources := clause_follows hsources ⟨Form.startsWith_tok, .inl rfl⟩ rfl ffilter
  have finto := clause_follows hinto ⟨Form.startsWith_tok, .inl rfl⟩ rfl fsources
  have hfirst : ∀ kind : TokenKind, (kind = .star || kind.startsExpression) = true →
      limitationWords.contains kind = false := by decide
  rw [List.append_assoc ([Phrase.leaf word] ++ limits)]
  refine .cast ((keyword_gives hword).bind (rlimits.bind (rfields.bind (rinto.bind (rsources.bind
    (rfilter.bind (rgroups.bind (rhaving.bind rorder.map forder) fhaving) fgroups) ffilter) fsources)
    fun c d hpass hd => (finto c d hpass hd).endsItem) ?_) .any) (by simp)
  intro c d hpass _
  exact hfirst _ (hfields.kind_of_passes selectList_leads rfl (by simpa using hpass))

lemma query_reads (h : inner.Complete n) : (query inner).Reads .query (n + 1) (EndsClause 6) := by
  intro p hp hlen
  simp only [Form.query, builds_or, builds_node, List.cons.injEq, and_true] at hp
  obtain ⟨ps, hps, rfl⟩ | ⟨ps, hps, rfl⟩ := hp
  · obtain ⟨into, hinto, hgives⟩ := clauses_reads h (fun _ hinto => .first hinto) hps hlen
    obtain rfl := builds_empty.mp hinto
    exact hgives
  · obtain ⟨into, hinto, hgives⟩ := clauses_reads h (fun _ hinto => .second hinto) hps hlen
    obtain ⟨table, rfl⟩ := hinto.exists_single rfl
    exact hgives

end Clauses

lemma unionMember_reads (h : inner.Complete n) :
    (unionMember inner).ReadsAll (.opt (.word .all) ++ .query) (n + 1) (EndsClause 6) := by
  intro ps hps hlen
  obtain ⟨all, _, hall, hnext, rfl⟩ := builds_append.mp hps
  obtain ⟨next, rfl⟩ := hnext.exists_single rfl
  have hinner : (Phrase.tokensAll all).length ≤ n + 1 ∧ next.tokens.length ≤ n + 1 := by
    simp at hlen
    omega
  refine .cast ((optional_isAt_reads (.keyword .all) _ all hall hinner.1).bind
    (query_reads h next hnext hinner.2).map fun c d hpass _ => ?_) (by simp)
  simp [of_decide_eq_true (hnext.kind_of_passes_single Form.query_startsWith rfl hpass)]

lemma statement_reads (h : inner.Complete n) :
    (statement inner).Reads .statement (n + 1) EndsStatement := by
  intro p hp hlen
  obtain ⟨left, more, hleft, hmore, hp⟩ := builds_extended.mp hp
  obtain ⟨first, rfl⟩ := hleft.exists_single rfl
  have hvalue : p = if more.isEmpty then first else .node .union (first :: more) := by
    cases more with
    | nil => exact List.singleton_inj.mp hp
    | cons next rest => exact List.singleton_inj.mp hp
  have htokens : p.tokens = first.tokens ++ Phrase.tokensAll more := by
    rw [hvalue]
    cases more <;> simp
  have hend : ∀ kind : TokenKind, kind = .rparen ∨ kind.endsStatement = true →
      6 < clauseRank kind ∧ kind ≠ .keyword .union := by decide
  have hunion : ∀ c : Cursor, c.kind = .keyword .union → EndsClause 6 c := fun c hc => by
    rw [EndsClause, hc]
    decide
  rw [htokens, List.length_append] at hlen
  rw [htokens, hvalue]
  exact (query_reads h first hleft (by omega)).bind ((manyBehind_reads (unionMember_reads h) hunion more
    hmore (by omega)).map.mono fun d hd => hend _ hd)
    (.maybe_last hmore Form.startsWith_many hunion fun d hd => (hend _ hd).1)

section Sources

lemma tableArgument_reads (h : inner.Complete n) : (tableArgument inner).ReadsAll
    (.opt (.expr .clause)) n (fun d => d.kind = .comma ∨ d.kind = .rparen) := by
  intro ps hps hlen
  rcases builds_opt.mp hps with rfl | hps
  · refine .choose (fun c d hpass hd => ?_) (.settle .pure)
    obtain rfl := Cursor.passes_nil_iff.mp hpass
    rcases hd with hd | hd <;> simp [isAtAny, hd]
  · obtain ⟨expression, rfl⟩ := hps.exists_single rfl
    have hkind : ∀ kind : TokenKind, kind.startsExpression = true →
        [TokenKind.comma, .rparen].contains kind = false := by decide
    have hreads := one_reads (h.expression .clause) rfl [expression] hps hlen
    refine .pass (fun c d hpass _ => ?_) (.settle (hreads.mono fun d hd => ?_))
    · have hstart := hps.kind_of_passes_single (Form.expr_leads .clause) rfl (by simpa using hpass)
      simpa [isAtAny] using hkind _ hstart
    · rcases hd with hd | hd
      · exact .of_kind hd rfl (by decide)
      · exact .of_kind hd rfl (by decide)

lemma tableArguments_reads (h : inner.Complete n) : ReadsBehind (tableArguments inner) .lparen
    (.tok .lparen ++ .tableArguments ++ .tok .rparen) (n + 1) (fun _ => True) := by
  intro ps hps hlen
  simp only [builds_append, builds_tok] at hps
  obtain ⟨_, _, ⟨_, arguments, ⟨opening, hopening, rfl⟩, harguments, rfl⟩, ⟨closing, hclosing, rfl⟩,
    rfl⟩ := hps
  have hinner : (Phrase.tokensAll arguments).length ≤ n := by
    simp at hlen
    omega
  have hlist := commaSeparated_reads (tableArgument_reads h) (fun c hc => .inl hc) arguments harguments
    hinner
  refine .of_kind hopening (hlist.bind (expectAs_gives hclosing).map ?_) (by simp)
  exact .cons fun c hc => ⟨.inr (hc.trans hclosing), by simp [hc, hclosing]⟩

lemma table_reads (h : inner.Complete n) : (table inner).Reads .table (n + 1) EndsOperand := by
  intro p hp hlen
  obtain ⟨_, hparts, hp⟩ := builds_node.mp hp
  obtain rfl := List.singleton_inj.mp hp
  simp only [builds_append, builds_tok] at hparts
  obtain ⟨_, arguments, ⟨_, more, ⟨first, hfirst, rfl⟩, hmore, rfl⟩, harguments, rfl⟩ := hparts
  have hinner : (Phrase.tokensAll more).length ≤ n + 1 ∧
      (Phrase.tokensAll arguments).length ≤ n + 1 := by
    simp at hlen
    omega
  have hreads := optionalLed_reads (tableArguments_reads h) arguments harguments hinner.2
  have hstarts : (Form.opt (.tok .lparen ++ .tableArguments ++ .tok .rparen)).StartsWith .lparen :=
    Form.startsWith_opt ⟨⟨Form.startsWith_tok, .inl rfl⟩, .inl rfl⟩
  refine .cast ((expect_gives hfirst).bind ((path_reads _ more hmore hinner.1).bind
    (hreads.map.mono fun d hd => ⟨trivial, (endsOperand_iff.mp hd).2⟩) ?_) .any) (by simp)
  exact .maybe_last harguments hstarts (fun c hc => by simp [hc]) fun d hd => (endsOperand_iff.mp hd).1

lemma source_call_leads :
    (Form.call .source).Leads (fun kind => [.lparen, .identifier, .parameter].contains kind) :=
  fun _ hps => hps.head Form.source_leads

lemma bracketedSource_reads (h : inner.Complete n) {ps : List Phrase}
    (hps : Builds (.tok .lparen ++ .call .source ++ .tok .rparen) ps)
    (hlen : (Phrase.tokensAll ps).length ≤ n + 1) :
    (bracketedSource inner).Gives (Phrase.tokensAll ps) (fun _ => True) ps := by
  simp only [builds_append, builds_tok] at hps
  obtain ⟨_, _, ⟨_, _, ⟨opening, hopening, rfl⟩, hsource, rfl⟩, ⟨closing, hclosing, rfl⟩, rfl⟩ := hps
  obtain ⟨source, rfl⟩ := hsource.exists_single rfl
  have hinner : source.tokens.length ≤ n := by
    simp at hlen
    omega
  refine .cast ((expect_gives hopening).bind ((h.source source hsource hinner).bind
    (expect_gives hclosing).map ?_) .any) (by simp)
  exact .cons fun c hc => by rw [EndsItem, hc, hclosing]; rfl

lemma sourceBody_reads (h : inner.Complete n) :
    (sourceBody inner).ReadsAll .sourceBody (n + 1) EndsOperand := by
  intro ps hps hlen
  simp only [Form.sourceBody, builds_or] at hps
  rcases hps with ((hps | hps) | hps) | hps
  · obtain ⟨p, rfl⟩ := hps.exists_single rfl
    exact .choose (fun c d hpass _ => (subquery_ahead hps (by simpa using hpass)).2) (.settle
      ((one_reads (subquery_reads h) rfl [p] hps hlen).mono fun _ _ => trivial))
  · have hahead := fun c d (hpass : Cursor.Passes c (Phrase.tokensAll ps) d) =>
      bracket_ahead_of_ne_select source_call_leads rfl rfl hps hpass
    refine .pass (fun c d hpass _ => by simp [(hahead c d hpass).2]) (.choose (fun c d hpass _ => ?_)
      (.settle ((bracketedSource_reads h hps hlen).mono fun _ _ => trivial)))
    exact isAt_iff.mpr (hahead c d hpass).1
  · obtain ⟨token, htoken, rfl⟩ := builds_tok.mp hps
    refine .pass (fun c d hpass _ => ?_) (.pass (fun c d hpass _ => ?_) (.pass (fun c d hpass _ => ?_)
      (.settle ((expectAs_gives htoken).map.mono fun _ _ => trivial))))
    · simp [startsSubquery, isAt, hpass.kind, htoken]
    · simp [isAt_iff, hpass.kind, htoken]
    · simp [isAt_iff, hpass.kind, htoken]
  · obtain ⟨p, rfl⟩ := hps.exists_single rfl
    have hstarts : Form.table.StartsWith .identifier :=
      ⟨⟨Form.startsWith_tok, .inl rfl⟩, .inl rfl⟩
    have hahead := fun c d (hpass : Cursor.Passes c (Phrase.tokensAll [p]) d) => of_decide_eq_true
      (hps.kind_of_passes_single hstarts rfl (by simpa using hpass))
    refine .pass (fun c d hpass _ => ?_) (.pass (fun c d hpass _ => ?_) (.choose (fun c d hpass _ => ?_)
      (.settle (one_reads (table_reads h) rfl [p] hps hlen))))
    · simp [startsSubquery, isAt, hahead c d hpass]
    · simp [isAt_iff, hahead c d hpass]
    · exact isAt_iff.mpr (hahead c d hpass)

lemma joinWords_gives {ps : List Phrase} (hps : Builds .joinWords ps) :
    ∃ first body, Phrase.tokensAll ps = first :: body ∧ first.kind.startsJoin = true ∧
      (joinWords first).Gives body (fun _ => True) ps := by
  simp only [Form.joinWords, Form.joinSide, builds_or, builds_append, builds_word] at hps
  rcases hps with ⟨word, hword, rfl⟩ | ⟨_, _, ⟨side, outer, hside, houter, rfl⟩, ⟨word, hword, rfl⟩, rfl⟩
  · refine ⟨word, [], rfl, by rw [hword]; rfl, ?_⟩
    rw [joinWords, if_pos hword]
    exact .pure
  · obtain ⟨first, hstarts, hjoin, rfl⟩ : ∃ first : Token, first.kind.startsJoin = true ∧
        first.kind ≠ .keyword .join ∧ side = [.leaf first] := by
      rcases hside with ((⟨first, hfirst, rfl⟩ | ⟨first, hfirst, rfl⟩) | ⟨first, hfirst, rfl⟩) |
        ⟨first, hfirst, rfl⟩ <;> exact ⟨first, by rw [hfirst]; rfl, by simp [hfirst], rfl⟩
    have hoptional := optional_isAt_reads (.keyword .outer) _ outer houter (Nat.le_refl _)
    refine ⟨first, Phrase.tokensAll outer ++ [word], by simp, hstarts, ?_⟩
    rw [joinWords, if_neg hjoin]
    exact hoptional.bind (keyword_gives hword).map (.cons fun c hc => by simp [hc, hword])

lemma join_led (h : inner.Complete n) {p : Phrase} (hp : Builds .join [p])
    (hlen : p.tokens.length ≤ n + 1) :
    Led (·.kind.startsJoin) (join inner) EndsExpression p.tokens p := by
  obtain ⟨_, hparts, hp⟩ := builds_node.mp hp
  obtain rfl := List.singleton_inj.mp hp
  simp only [builds_append, builds_word, builds_node] at hparts
  obtain ⟨_, _, ⟨_, _, ⟨words, _, hwords, hsource, rfl⟩, ⟨on, hon, rfl⟩, rfl⟩, ⟨_, hcondition, rfl⟩, rfl⟩ :=
    hparts
  obtain ⟨source, rfl⟩ := hsource.exists_single rfl
  obtain ⟨condition, rfl⟩ := hcondition.exists_single rfl
  obtain ⟨first, body, htokens, hfirst, hgives⟩ := joinWords_gives hwords
  have hinner : source.tokens.length ≤ n ∧ condition.tokens.length ≤ n := by
    simp [htokens] at hlen
    omega
  refine ⟨first, body ++ (source.tokens ++ on :: condition.tokens), by simp [htokens], ?_, ?_⟩
  · intro c d hpass
    have hpass' : c.Passes (first :: (body ++ (source.tokens ++ on :: condition.tokens))) d := by
      simpa [htokens] using hpass
    simpa only [hpass'.kind] using hfirst
  · rw [List.append_assoc, List.append_assoc]
    refine hgives.bind ((h.source source hsource hinner.1).bind ((keyword_gives hon).bind
      (h.expression .join condition hcondition hinner.2).map .any) ?_) .any
    exact .cons fun c hc => by rw [EndsItem, hc, hon]; rfl

lemma source_reads (h : inner.Complete n) : (source inner).Reads .source (n + 1) EndsItem := by
  intro p hp hlen
  obtain ⟨_, hparts, hp⟩ := builds_node.mp hp
  obtain rfl := List.singleton_inj.mp hp
  simp only [builds_append] at hparts
  obtain ⟨_, joins, ⟨body, given, hbody, hgiven, rfl⟩, hjoins, rfl⟩ := hparts
  have hinner : (Phrase.tokensAll body).length ≤ n + 1 ∧ (Phrase.tokensAll given).length ≤ n + 1 ∧
      (Phrase.tokensAll joins).length ≤ n + 1 := by
    simp at hlen
    omega
  have hjoin : ∀ join ∈ joins, Builds .join [join] := by
    obtain ⟨groups, hgroups, rfl⟩ := builds_many.mp hjoins
    intro join hmem
    obtain ⟨group, hgroup, hmem⟩ := List.mem_flatten.mp hmem
    obtain ⟨q, rfl⟩ := (hgroups group hgroup).exists_single rfl
    obtain rfl := List.mem_singleton.mp hmem
    exact hgroups _ hgroup
  have hstarts : ∀ kind : TokenKind, kind.startsJoin = true → kind.extendsOperand = false ∧
      kind.extendsExpression = false ∧ kind ≠ .keyword .as ∧ kind ≠ .identifier := by decide
  have hends : ∀ kind : TokenKind, kind.endsItem = true → kind.extendsOperand = false ∧
      kind.startsJoin = false ∧ kind ≠ .keyword .as ∧ kind ≠ .identifier := by decide
  have hloop : (manyLed (·.kind.startsJoin) (join inner)).Gives (Phrase.tokensAll joins)
      (fun d => d.EndsExpression ∧ d.kind.startsJoin = false) joins := by
    rw [Phrase.tokensAll_eq_flatMap joins] at hinner ⊢
    refine manyLed_gives joins Phrase.tokens (fun join hmem => join_led h (hjoin join hmem) ?_)
      fun c hc => .of_kind rfl (hstarts _ hc).2.1 (hstarts _ hc).2.2.2
    have := length_le_flatMap Phrase.tokens hmem
    omega
  have hleads : (Form.many .join).Leads TokenKind.startsJoin :=
    ⟨⟨⟨⟨Form.leads_tok rfl, ⟨⟨⟨⟨Form.leads_tok rfl, Form.leads_tok rfl⟩, Form.leads_tok rfl⟩,
      Form.leads_tok rfl⟩, .inl rfl⟩, .inl rfl⟩, .inl rfl⟩, .inl rfl⟩, .inl rfl⟩
  have halias : (Form.opt .aliasClause).Leads
      (fun kind => kind = .keyword .as || kind = .identifier) :=
    ⟨trivial, ⟨trivial, Form.leads_tok rfl⟩, .inr (Form.leads_tok rfl)⟩
  have hname : ∀ kind : TokenKind, (kind = .keyword .as || kind = .identifier) = true →
      kind.extendsOperand = false := by decide
  refine .cast ((sourceBody_reads h body hbody hinner.1).bind ((aliasClause_reads _ given hgiven
    hinner.2.1).bind (hloop.map.mono fun d hd => ⟨hd.endsExpression, (hends _ hd).2.1⟩) ?_) ?_)
    (by simp)
  · exact .leads_last hjoins hleads (fun c hc => (hstarts _ hc).2.2) fun d hd => (hends _ hd).2.2
  · exact .leads hgiven halias (fun c hc => hname _ hc) (.leads_last hjoins hleads
      (fun c hc => (hstarts _ hc).1) fun d hd => (hends _ hd).1)

end Sources

/-- The readers for a depth give all constructs with at most so many tokens. -/
lemma nested_complete (depth : Nat) : (nested depth).Complete depth := by
  induction depth with
  | zero =>
    have hnone : ∀ {construct : Construct} {p : Phrase}, Builds (.call construct) [p] →
        ¬ p.tokens.length ≤ 0 := fun hp hlen => by
      have := hp.tokens_length_pos
      omega
    exact {
      expression := fun _ _ hp hlen => absurd hlen (hnone hp)
      statement := fun _ hp hlen => absurd hlen (hnone hp)
      source := fun _ hp hlen => absurd hlen (hnone hp) }
  | succ depth ih =>
    exact {
      expression := fun _ p hp => expression_reads ih p (builds_call.mp hp)
      statement := fun p hp => statement_reads ih p (builds_call.mp hp)
      source := fun p hp => source_reads ih p (builds_call.mp hp) }

end Grammar

/-- A statement of the grammar is read back, wherever its tokens lie with a right end behind. -/
theorem Parse.statement_reads {p : Phrase} (hp : Builds (.call .statement) [p]) :
    Parse.statement.Gives p.tokens EndsStatement p := by
  intro c d hpass hd
  rw [Parse.statement]
  exact (Grammar.nested_complete c.rest.length).statement p hp (Nat.le_of_lt hpass.length_lt) c d hpass
    hd

end NullGuard
