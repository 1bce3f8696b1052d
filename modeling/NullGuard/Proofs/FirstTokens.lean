import NullGuard.Proofs.FormLanguage

namespace NullGuard

def TokenKind.every : List TokenKind :=
  Keyword.every.map .keyword ++ [.identifier, .number, .string, .parameter, .plus, .minus, .star,
    .slash, .eq, .notEq, .lt, .gt, .ltEq, .gtEq, .lparen, .rparen, .comma, .dot, .semicolon, .eof]

lemma Keyword.mem_every (word : Keyword) : word ∈ Keyword.every := by
  cases word <;> decide

lemma TokenKind.mem_every (kind : TokenKind) : kind ∈ TokenKind.every := by
  cases kind with
  | keyword word => exact List.mem_append_left _ (List.mem_map_of_mem (Keyword.mem_every word))
  | _ => exact List.mem_append_right _ (by decide)

/-- What is said of all kinds can be tried out. -/
instance {p : TokenKind → Prop} [DecidablePred p] : Decidable (∀ kind, p kind) :=
  decidable_of_iff (∀ kind ∈ TokenKind.every, p kind)
    ⟨fun h kind => h kind kind.mem_every, fun h kind _ => h kind⟩

/-- Whether the first token, if there is one, of all that a form builds is of a class of kinds. -/
def Form.Leads (test : TokenKind → Bool) : Form → Prop
  | token accepts => ∀ token, accepts token = true → test token.kind = true
  | empty => True
  | seq first second => first.Leads test ∧ (first.filled = true ∨ second.Leads test)
  | either first second => first.Leads test ∧ second.Leads test
  | many item => item.Leads test
  | node _ parts => parts.Leads test
  | chain _ _ operand => operand.filled = true ∧ operand.Leads test
  | led _ operator operand => test operator = true ∧ operand.Leads test
  | extended _ first more => first.Leads test ∧ (first.filled = true ∨ more.Leads test)
  | call construct =>
    ∀ ps, Builds construct.form ps → ∀ token ∈ (Phrase.tokensAll ps).head?, test token.kind = true

section Heads

variable {test : TokenKind → Bool} {v w : List Token} {form : Form} {ps : List Phrase}

lemma forall_mem_head?_append {P : Token → Prop} (hv : ∀ token ∈ v.head?, P token)
    (hw : v ≠ [] ∨ ∀ token ∈ w.head?, P token) : ∀ token ∈ (v ++ w).head?, P token := by
  cases v with
  | nil => simpa using hw
  | cons token v => simpa using hv

lemma forall_mem_head?_flatten {P : Token → Prop} {groups : List (List Phrase)}
    (h : ∀ group ∈ groups, ∀ token ∈ (Phrase.tokensAll group).head?, P token) :
    ∀ token ∈ (Phrase.tokensAll groups.flatten).head?, P token := by
  induction groups with
  | nil => simp
  | cons group groups ih =>
    rw [List.flatten_cons, Phrase.tokensAll_append]
    refine forall_mem_head?_append (h group (by simp)) (.inr (ih fun other hother => ?_))
    exact h other (List.mem_cons_of_mem _ hother)

/-- The first token is as the form says. -/
lemma Builds.head (h : Builds form ps) (hform : form.Leads test) :
    ∀ token ∈ (Phrase.tokensAll ps).head?, test token.kind = true := by
  induction h with
  | token h => simpa using hform _ h
  | empty => simp
  | seq ha _ iha ihb =>
    rw [Phrase.tokensAll_append]
    exact forall_mem_head?_append (iha hform.1) (hform.2.imp ha.tokensAll_ne_nil ihb)
  | first _ ih => exact ih hform.1
  | second _ ih => exact ih hform.2
  | many groups _ ih => exact forall_mem_head?_flatten fun group hgroup => ih group hgroup hform
  | node _ ih => simpa using ih hform
  | chain start pairs hstart _ _ ih _ =>
    have hne := hstart.tokensAll_ne_nil hform.1
    simp only [Phrase.tokensAll_cons, Phrase.tokensAll_nil, List.append_nil] at hne ih ⊢
    rw [Phrase.tokens_chained]
    exact forall_mem_head?_append (ih hform.2) (.inl hne)
  | led operators inmost hoperator _ ih =>
    simp only [Phrase.tokensAll_cons, Phrase.tokensAll_nil, List.append_nil] at ih ⊢
    rw [Phrase.tokens_behind]
    refine forall_mem_head?_append (fun token htoken => ?_) (.inr (ih hform.2))
    rw [hoperator token (List.mem_of_mem_head? htoken)]
    exact hform.1
  | plain _ _ ih _ => exact ih hform.1
  | extended ha _ _ iha ihb =>
    simp only [Phrase.tokensAll_cons, Phrase.tokensAll_nil, List.append_nil, Phrase.tokens_node,
      Phrase.tokensAll_append]
    exact forall_mem_head?_append (iha hform.1) (hform.2.imp ha.tokensAll_ne_nil ihb)
  | call h _ => exact hform _ h

/-- The same, where there is a first token. -/
lemma Builds.kind_of_passes {c d : Cursor} (h : Builds form ps) (hform : form.Leads test)
    (hfilled : form.filled = true) (hpass : c.Passes (Phrase.tokensAll ps ++ w) d) :
    test c.kind = true := by
  obtain ⟨token, rest, htokens⟩ := List.exists_cons_of_ne_nil (h.tokensAll_ne_nil hfilled)
  have hhead := h.head hform token (by rw [htokens]; rfl)
  rw [htokens] at hpass
  rwa [hpass.kind]

lemma Builds.kind_of_passes_single {p : Phrase} {c d : Cursor} (h : Builds form [p])
    (hform : form.Leads test) (hfilled : form.filled = true) (hpass : c.Passes p.tokens d) :
    test c.kind = true :=
  h.kind_of_passes (w := []) hform hfilled (by simpa using hpass)

end Heads

section Leads

variable {test : TokenKind → Bool} {form : Form} {kind : TokenKind}

lemma Form.leads_tok (h : test kind = true) : (Form.tok kind).Leads test := by
  intro token htoken
  rw [of_decide_eq_true htoken, h]

/-- The first token, if there is one, of all that the form builds is of the kind. -/
def Form.StartsWith (form : Form) (kind : TokenKind) : Prop := form.Leads (fun k => k = kind)

lemma Form.startsWith_tok : (Form.tok kind).StartsWith kind := leads_tok (decide_eq_true rfl)

lemma Form.startsWith_many : (Form.many (.tok kind ++ form)).StartsWith kind :=
  ⟨startsWith_tok, .inl rfl⟩

lemma Form.startsWith_opt (h : form.StartsWith kind) : (Form.opt form).StartsWith kind :=
  ⟨trivial, h⟩

end Leads

def TokenKind.startsExpression (kind : TokenKind) : Bool :=
  kind.isLiteral || [.keyword .not, .keyword .isNull, .keyword .case, .minus, .lparen, .identifier,
    .parameter].contains kind

def TokenKind.startsPrimary (kind : TokenKind) : Bool :=
  kind.startsExpression && kind ≠ .minus && kind ≠ .keyword .not

def TokenKind.startsTest (kind : TokenKind) : Bool :=
  kind.isComparison || kind = .keyword .is || kind = .keyword .not || kind = .identifier ||
    Grammar.isMembership kind

namespace Form

lemma primary_leads (context : Context) : (primary context).Leads TokenKind.startsPrimary := by
  have hguard : (guardCall context).Leads TokenKind.startsPrimary :=
    ⟨⟨⟨⟨⟨leads_tok rfl, .inl rfl⟩, .inl rfl⟩, .inl rfl⟩, .inl rfl⟩, .inl rfl⟩
  have hbracket : ∀ rest : Form, (tok .lparen ++ rest ++ tok .rparen).Leads TokenKind.startsPrimary :=
    fun rest => ⟨⟨leads_tok rfl, .inl rfl⟩, .inl rfl⟩
  have hcall : (functionCall context).Leads TokenKind.startsPrimary :=
    ⟨⟨⟨⟨leads_tok rfl, .inl rfl⟩, .inl rfl⟩, .inl rfl⟩, .inl rfl⟩
  have hcase : (caseExpression context).Leads TokenKind.startsPrimary :=
    ⟨⟨⟨⟨leads_tok rfl, .inl rfl⟩, .inl rfl⟩, .inl rfl⟩, .inl rfl⟩
  have hkind : ∀ kind : TokenKind, kind.isLiteral = true → kind.startsPrimary = true := by decide
  have hliteral : (Form.token (·.kind.isLiteral)).Leads TokenKind.startsPrimary :=
    fun token => hkind token.kind
  have hoperand : (operand context).Leads TokenKind.startsPrimary :=
    ⟨⟨⟨⟨hcall, leads_tok rfl, .inl rfl⟩, hcase⟩, leads_tok rfl⟩, hliteral⟩
  exact ⟨⟨⟨hguard, hbracket _⟩, hbracket _⟩, hoperand⟩

lemma Leads.mono {test test' : TokenKind → Bool} (h : ∀ kind, test kind = true → test' kind = true)
    {form : Form} (hform : form.Leads test) : form.Leads test' := by
  induction form with
  | token accepts => exact fun token htoken => h _ (hform token htoken)
  | empty => trivial
  | seq a b iha ihb => exact ⟨iha hform.1, hform.2.imp id ihb⟩
  | either a b iha ihb => exact ⟨iha hform.1, ihb hform.2⟩
  | many item ih => exact ih hform
  | node kind parts ih => exact ih hform
  | chain kind operator operand ih => exact ⟨hform.1, ih hform.2⟩
  | led kind operator operand ih => exact ⟨h _ hform.1, ih hform.2⟩
  | extended kind a b iha ihb => exact ⟨iha hform.1, hform.2.imp id ihb⟩
  | call construct => exact fun ps hps token htoken => h _ (hform ps hps token htoken)

lemma additive_leads (context : Context) :
    (additive context).Leads fun kind => kind.startsExpression && kind ≠ .keyword .not :=
  ⟨rfl, rfl, rfl, (primary_leads context).mono (by decide)⟩

lemma expression_leads (context : Context) :
    (expression context).Leads TokenKind.startsExpression :=
  ⟨rfl, rfl, rfl, (additive_leads context).mono (by decide), .inl rfl⟩

lemma expr_leads (context : Context) : (expr context).Leads TokenKind.startsExpression :=
  fun _ hps => hps.head (expression_leads context)

lemma membership_leads (context : Context) :
    (membership context).Leads Grammar.isMembership :=
  ⟨⟨⟨⟨leads_tok rfl, .inl rfl⟩, .inl rfl⟩, ⟨⟨leads_tok rfl, .inl rfl⟩, .inl rfl⟩, .inl rfl⟩,
    leads_tok rfl, .inl rfl⟩

lemma test_leads (context : Context) : (opt (test context)).Leads TokenKind.startsTest := by
  have hcomparison : ∀ kind : TokenKind, kind.isComparison = true → kind.startsTest = true := by
    decide
  have hword : ∀ word : ContextWord, (Form.token (·.spells word)).Leads TokenKind.startsTest := by
    intro word token htoken
    simp only [Token.spells, Bool.and_eq_true, decide_eq_true_eq] at htoken
    rw [htoken.1]
    rfl
  exact ⟨trivial, ⟨⟨⟨fun token => hcomparison token.kind, .inl rfl⟩, ⟨leads_tok rfl, .inl rfl⟩,
    .inl rfl⟩, hword _, .inl rfl⟩, ⟨trivial, leads_tok rfl⟩,
    .inr ((membership_leads context).mono (by decide))⟩

lemma query_startsWith : query.StartsWith (.keyword .select) := by
  have hclauses : ∀ into, (clauses into).StartsWith (.keyword .select) := fun into =>
    ⟨⟨⟨⟨⟨⟨⟨⟨startsWith_tok, .inl rfl⟩, .inl rfl⟩, .inl rfl⟩, .inl rfl⟩, .inl rfl⟩, .inl rfl⟩,
      .inl rfl⟩, .inl rfl⟩
  exact ⟨hclauses _, hclauses _⟩

lemma statement_startsWith : statement.StartsWith (.keyword .select) := ⟨query_startsWith, .inl rfl⟩

lemma source_leads :
    source.Leads (fun kind => [.lparen, .identifier, .parameter].contains kind) :=
  ⟨⟨⟨⟨⟨⟨⟨leads_tok rfl, .inl rfl⟩, .inl rfl⟩, ⟨⟨leads_tok rfl, .inl rfl⟩, .inl rfl⟩⟩,
    leads_tok rfl⟩, ⟨⟨leads_tok rfl, .inl rfl⟩, .inl rfl⟩⟩, .inl rfl⟩, .inl rfl⟩

end Form

section Stars

/-- Whether tokens are a name with a path behind it that ends with a star. -/
def Token.areQualifiedStar : List Token → Bool
  | first :: rest => first.kind = .identifier && Token.leadToStar rest
  | [] => false

/-- No tokens behind, if they do not begin with a dot, make a qualified star of these. -/
def StarFree (w : List Token) : Prop :=
  ∀ later : List Token, (∀ token ∈ later.head?, token.kind ≠ .dot) →
    Token.areQualifiedStar (w ++ later) = false

variable {v w : List Token}

lemma StarFree.append (hv : StarFree v) (hw : ∀ token ∈ w.head?, token.kind ≠ .dot) :
    StarFree (v ++ w) := by
  intro later hlater
  rw [List.append_assoc]
  exact hv _ (forall_mem_head?_append hw (.inr hlater))

lemma starFree_cons {token : Token} (h : token.kind ≠ .identifier) : StarFree (token :: w) := by
  intro later _
  simp [Token.areQualifiedStar, h]

lemma leadToStar_of_head {w : List Token} (h : ∀ token ∈ w.head?, token.kind ≠ .dot) :
    Token.leadToStar w = false := by
  match w with
  | [] | [_] => rfl
  | dot :: next :: later =>
    have hdot := h dot rfl
    simp [Token.leadToStar, hdot]

/-- A path has no star at its end. -/
lemma leadToStar_path {ps : List Phrase} (h : Builds .path ps) {later : List Token}
    (hlater : ∀ token ∈ later.head?, token.kind ≠ .dot) :
    Token.leadToStar (Phrase.tokensAll ps ++ later) = false := by
  obtain ⟨groups, hgroups, rfl⟩ := builds_many.mp h
  clear h
  induction groups with
  | nil => simpa using leadToStar_of_head hlater
  | cons group groups ih =>
    have hrest := ih fun other hother => hgroups other (List.mem_cons_of_mem _ hother)
    obtain ⟨left, right, hleft, hright, rfl⟩ := builds_append.mp (hgroups group (by simp))
    obtain ⟨dot, hdot, rfl⟩ := builds_tok.mp hleft
    obtain ⟨name, hname, rfl⟩ := builds_token.mp hright
    have hstar : name.kind ≠ .star := by
      intro hstar
      simp [hstar, TokenKind.isName] at hname
    simpa [Token.leadToStar, hdot, hstar, hname] using hrest

lemma Builds.starFree_of_leads {form : Form} {ps : List Phrase} (h : Builds form ps)
    (hfilled : form.filled = true) (hform : form.Leads (fun kind => kind ≠ .identifier)) :
    StarFree (Phrase.tokensAll ps) := by
  obtain ⟨token, rest, htokens⟩ := List.exists_cons_of_ne_nil (h.tokensAll_ne_nil hfilled)
  have hhead := h.head hform token (by rw [htokens]; rfl)
  rw [htokens]
  exact starFree_cons (of_decide_eq_true hhead)

lemma Builds.starFree_operand {context : Context} {ps : List Phrase}
    (h : Builds (.operand context) ps) : StarFree (Phrase.tokensAll ps) := by
  simp only [Form.operand, builds_or] at h
  rcases h with (((h | h) | h) | h) | h
  · -- the bracket of a call stands right behind its name
    simp only [Form.functionCall, builds_node, builds_append, builds_tok] at h
    obtain ⟨_, ⟨_, _, ⟨_, _, ⟨_, _, ⟨_, _, ⟨name, _, rfl⟩, ⟨opening, hopening, rfl⟩, rfl⟩, _, rfl⟩, _,
      rfl⟩, _, rfl⟩, rfl⟩ := h
    intro later _
    have hbehind : ∀ rest : List Token, Token.leadToStar (opening :: rest) = false := fun rest =>
      leadToStar_of_head (by simp [hopening])
    simp [Token.areQualifiedStar, hbehind]
  · simp only [Form.column, builds_node, builds_append, builds_tok] at h
    obtain ⟨_, ⟨_, path, ⟨first, _, rfl⟩, hpath, rfl⟩, rfl⟩ := h
    intro later hlater
    simpa [Token.areQualifiedStar] using fun _ => leadToStar_path hpath hlater
  · exact h.starFree_of_leads rfl ⟨⟨⟨⟨Form.leads_tok rfl, .inl rfl⟩, .inl rfl⟩, .inl rfl⟩, .inl rfl⟩
  · exact h.starFree_of_leads rfl (Form.leads_tok rfl)
  · have hkind : ∀ kind : TokenKind, kind.isLiteral = true → (kind ≠ .identifier) := by decide
    exact h.starFree_of_leads rfl fun token htoken => decide_eq_true (hkind _ htoken)

lemma Builds.starFree_primary {context : Context} {ps : List Phrase}
    (h : Builds (.primary context) ps) : StarFree (Phrase.tokensAll ps) := by
  have hbracket : ∀ rest : Form,
      (Form.tok .lparen ++ rest ++ .tok .rparen).Leads (fun kind => kind ≠ .identifier) :=
    fun rest => ⟨⟨Form.leads_tok rfl, .inl rfl⟩, .inl rfl⟩
  simp only [Form.primary, builds_or] at h
  rcases h with ((h | h) | h) | h
  · exact h.starFree_of_leads rfl
      ⟨⟨⟨⟨⟨Form.leads_tok rfl, .inl rfl⟩, .inl rfl⟩, .inl rfl⟩, .inl rfl⟩, .inl rfl⟩
  · exact h.starFree_of_leads rfl (hbracket _)
  · exact h.starFree_of_leads rfl (hbracket _)
  · simp only [Form.wrapped, builds_node] at h
    obtain ⟨_, ⟨qs, hqs, rfl⟩, rfl⟩ := h
    simpa using hqs.starFree_operand

section Operators

variable {kind : NodeKind} {operand more : Form} {p : Phrase}

lemma starFree_chain {operator : TokenKind → Bool}
    (h : ∀ q, Builds operand [q] → StarFree q.tokens) (hdot : operator .dot = false)
    (hp : Builds (.chain kind operator operand) [p]) : StarFree p.tokens := by
  obtain ⟨start, pairs, hstart, hpairs, hp⟩ := builds_chain.mp hp
  obtain rfl := List.singleton_inj.mp hp
  rw [Phrase.tokens_chained]
  refine (h start hstart).append fun token htoken => ?_
  cases pairs with
  | nil => simp at htoken
  | cons pair pairs =>
    simp only [List.flatMap_cons, List.cons_append, List.head?_cons, Option.mem_some_iff] at htoken
    have hoperator := (hpairs pair (by simp)).1
    rw [htoken] at hoperator
    rintro hkind
    simp [hkind, hdot] at hoperator

lemma starFree_led {operator : TokenKind} (h : ∀ q, Builds operand [q] → StarFree q.tokens)
    (hname : operator ≠ .identifier) (hp : Builds (.led kind operator operand) [p]) :
    StarFree p.tokens := by
  obtain ⟨operators, inmost, hoperators, hinmost, hp⟩ := builds_led.mp hp
  obtain rfl := List.singleton_inj.mp hp
  rw [Phrase.tokens_behind]
  cases operators with
  | nil => exact h inmost hinmost
  | cons token operators =>
    refine starFree_cons ?_
    rwa [hoperators token (by simp)]

lemma starFree_extended (h : ∀ q, Builds operand [q] → StarFree q.tokens)
    (hsingle : operand.single = true) (hmore : more.Leads (fun kind => kind ≠ .dot))
    (hp : Builds (.extended kind operand more) [p]) : StarFree p.tokens := by
  obtain ⟨left, right, hleft, hright, hp⟩ := builds_extended.mp hp
  obtain ⟨q, rfl⟩ := hleft.exists_single hsingle
  have hhead := hright.head hmore
  have htokens : p.tokens = q.tokens ++ Phrase.tokensAll right := by
    cases right with
    | nil =>
      obtain rfl := List.singleton_inj.mp hp
      simp
    | cons r right =>
      obtain rfl := List.singleton_inj.mp hp
      simp
  rw [htokens]
  exact (h q hleft).append fun token htoken => of_decide_eq_true (hhead token htoken)

end Operators

/-- An expression is never mistaken for all fields of a source. -/
lemma Builds.starFree_expr {context : Context} {p : Phrase} (h : Builds (.expr context) [p]) :
    StarFree p.tokens := by
  have hprimary : ∀ q, Builds (.primary context) [q] → StarFree q.tokens := fun q hq => by
    simpa using hq.starFree_primary
  have hadditive : ∀ q, Builds (.additive context) [q] → StarFree q.tokens := fun q =>
    starFree_chain (fun q => starFree_chain (fun q => starFree_led hprimary (by decide)) rfl) rfl
  exact starFree_chain (fun q => starFree_chain (fun q => starFree_led (fun q =>
    starFree_extended hadditive rfl ((Form.test_leads context).mono (by decide))) (by decide)) rfl) rfl
    (builds_call.mp h)

end Stars

end NullGuard
