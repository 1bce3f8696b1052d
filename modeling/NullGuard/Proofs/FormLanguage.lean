import NullGuard.Proofs.GrammarForms

namespace NullGuard

namespace Form

/-- Whether the form builds one phrase at a time. -/
def single : Form → Bool
  | token _ | node _ _ | chain _ _ _ | led _ _ _ | call _ => true
  | empty | seq _ _ | many _ => false
  | either first second => first.single && second.single
  | extended _ first _ => first.single

/-- Whether there is a token in all that the form builds. -/
def filled : Form → Bool
  | token _ | call _ => true
  | empty | many _ => false
  | seq first second => first.filled || second.filled
  | either first second => first.filled && second.filled
  | node _ parts => parts.filled
  | chain _ _ operand | led _ _ operand => operand.filled
  | extended _ first _ => first.filled

/-- Whether all operands in the form are single phrases. -/
def proper : Form → Bool
  | token _ | empty | call _ => true
  | seq first second | either first second | extended _ first second =>
    first.proper && second.proper
  | many item | node _ item => item.proper
  | chain _ _ operand | led _ _ operand => operand.single && operand.proper

end Form

lemma Construct.single_form (construct : Construct) : construct.form.single = true := by
  cases construct <;> rfl

lemma Construct.filled_form (construct : Construct) : construct.form.filled = true := by
  cases construct <;> rfl

lemma Construct.proper_form (construct : Construct) : construct.form.proper = true := by
  cases construct with
  | expression context => cases context <;> rfl
  | statement => rfl
  | source => rfl

lemma Builds.exists_single {form : Form} {ps : List Phrase} (h : Builds form ps)
    (hform : form.single = true) : ∃ p, ps = [p] := by
  induction h with
  | token _ => exact ⟨_, rfl⟩
  | empty | seq _ _ | many _ _ => simp [Form.single] at hform
  | first _ ih =>
    simp only [Form.single, Bool.and_eq_true] at hform
    exact ih hform.1
  | second _ ih =>
    simp only [Form.single, Bool.and_eq_true] at hform
    exact ih hform.2
  | node _ | chain _ _ _ _ _ | led _ _ _ _ | extended _ _ _ => exact ⟨_, rfl⟩
  | plain _ _ ih _ => exact ih hform
  | call _ ih => exact ih (Construct.single_form _)

lemma Builds.tokensAll_ne_nil {form : Form} {ps : List Phrase} (h : Builds form ps)
    (hform : form.filled = true) : Phrase.tokensAll ps ≠ [] := by
  induction h with
  | token _ => simp
  | empty | many _ _ => simp [Form.filled] at hform
  | seq _ _ iha ihb =>
    simp only [Form.filled, Bool.or_eq_true] at hform
    rcases hform with hform | hform
    · simp [iha hform]
    · simp [ihb hform]
  | first _ ih =>
    simp only [Form.filled, Bool.and_eq_true] at hform
    exact ih hform.1
  | second _ ih =>
    simp only [Form.filled, Bool.and_eq_true] at hform
    exact ih hform.2
  | node _ ih =>
    have := ih hform
    simpa using this
  | chain start pairs _ _ _ ih _ =>
    have := ih hform
    simp only [Phrase.tokensAll_cons, Phrase.tokensAll_nil, List.append_nil] at this ⊢
    simp [Phrase.tokens_chained, this]
  | led operators inmost _ _ ih =>
    have := ih hform
    simp only [Phrase.tokensAll_cons, Phrase.tokensAll_nil, List.append_nil] at this ⊢
    simp [Phrase.tokens_behind, this]
  | plain _ _ ih _ => exact ih hform
  | extended _ _ _ ih _ => simp [ih hform]
  | call _ ih => exact ih (Construct.filled_form _)

/-- A construct takes a token at least. -/
lemma Builds.tokens_length_pos {construct : Construct} {p : Phrase}
    (h : Builds (.call construct) [p]) : 0 < p.tokens.length := by
  have hne := h.tokensAll_ne_nil rfl
  simp only [Phrase.tokensAll_cons, Phrase.tokensAll_nil, List.append_nil] at hne
  exact List.length_pos_iff.mpr hne

lemma Derives.many_of_forall {item : Form} {groups : List (List Token)}
    (h : ∀ group ∈ groups, Derives item group) : Derives (.many item) groups.flatten := by
  induction groups with
  | nil => exact .none
  | cons group groups ih =>
    rw [List.flatten_cons]
    exact .more (h group (by simp)) (ih fun g hg => h g (by simp [hg]))

lemma Builds.derives {form : Form} {ps : List Phrase} (h : Builds form ps) :
    Derives form (Phrase.tokensAll ps) := by
  induction h with
  | token h => exact .token h
  | empty => exact .empty
  | seq _ _ iha ihb =>
    rw [Phrase.tokensAll_append]
    exact .seq iha ihb
  | first _ ih => exact .first ih
  | second _ ih => exact .second ih
  | many groups _ ih =>
    rw [Phrase.tokensAll_flatten, List.flatMap_def]
    apply Derives.many_of_forall
    simpa using ih
  | node _ ih => simpa using Derives.node ih
  | chain start pairs _ hoperator _ ihstart ihright =>
    apply Derives.chain
    simp only [Phrase.tokensAll_cons, Phrase.tokensAll_nil, List.append_nil] at ihstart ihright ⊢
    rw [Phrase.tokens_chained, List.flatMap_def]
    refine .seq ihstart (Derives.many_of_forall ?_)
    simp only [List.mem_map, forall_exists_index, and_imp, forall_apply_eq_imp_iff₂]
    intro pair hpair
    exact .seq (.token (hoperator pair hpair)) (ihright pair hpair)
  | @led _ operator _ operators inmost hoperator _ ih =>
    apply Derives.led
    simp only [Phrase.tokensAll_cons, Phrase.tokensAll_nil, List.append_nil] at ih ⊢
    rw [Phrase.tokens_behind]
    refine .seq ?_ ih
    have hmany : Derives (.many (.token (·.kind = operator))) (operators.map ([·])).flatten := by
      apply Derives.many_of_forall
      simp only [List.mem_map, forall_exists_index, and_imp, forall_apply_eq_imp_iff₂]
      intro token htoken
      exact .token (by simpa using hoperator token htoken)
    rwa [← List.flatMap_def, List.flatMap_singleton'] at hmany
  | plain _ _ ih ihmore => simpa using Derives.extended (.seq ih ihmore)
  | extended _ _ _ ih ihmore => simpa using Derives.extended (.seq ih ihmore)
  | call _ ih => exact .call ih

/-- The repetitions behind the first operand of a chain are pairs of an operator and an operand. -/
lemma exists_pairs {accepts : Token → Bool} {operand : Form} (hoperand : operand.single = true)
    {groups : List (List Phrase)}
    (h : ∀ group ∈ groups, Builds (.token accepts ++ operand) group) :
    ∃ pairs : List (Token × Phrase),
      (∀ pair ∈ pairs, accepts pair.1 = true ∧ Builds operand [pair.2]) ∧
      groups = pairs.map fun pair => [.leaf pair.1, pair.2] := by
  induction groups with
  | nil => exact ⟨[], by simp, rfl⟩
  | cons group groups ih =>
    obtain ⟨pairs, hpairs, rfl⟩ := ih fun g hg => h g (by simp [hg])
    obtain ⟨_, right, hmark, hright, rfl⟩ := builds_append.mp (h group (by simp))
    obtain ⟨mark, haccepts, rfl⟩ := builds_token.mp hmark
    obtain ⟨p, rfl⟩ := hright.exists_single hoperand
    refine ⟨(mark, p) :: pairs, ?_, rfl⟩
    intro pair hpair
    rcases List.mem_cons.mp hpair with rfl | hpair
    · exact ⟨haccepts, hright⟩
    · exact hpairs pair hpair

/-- Repetitions of a token are leaves. -/
lemma exists_operators {accepts : Token → Bool} {groups : List (List Phrase)}
    (h : ∀ group ∈ groups, Builds (.token accepts) group) :
    ∃ operators : List Token, (∀ token ∈ operators, accepts token = true) ∧
      groups = operators.map fun token => [.leaf token] := by
  induction groups with
  | nil => exact ⟨[], by simp, rfl⟩
  | cons group groups ih =>
    obtain ⟨operators, hoperators, rfl⟩ := ih fun g hg => h g (by simp [hg])
    obtain ⟨mark, haccepts, rfl⟩ := builds_token.mp (h group (by simp))
    refine ⟨mark :: operators, ?_, rfl⟩
    intro token htoken
    rcases List.mem_cons.mp htoken with rfl | htoken
    · exact haccepts
    · exact hoperators token htoken

lemma Derives.exists_builds {form : Form} {w : List Token} (h : Derives form w)
    (hform : form.proper = true) : ∃ ps, Builds form ps ∧ Phrase.tokensAll ps = w := by
  induction h with
  | token h => exact ⟨_, .token h, rfl⟩
  | empty => exact ⟨_, .empty, rfl⟩
  | seq _ _ iha ihb =>
    simp only [Form.proper, Bool.and_eq_true] at hform
    obtain ⟨ps, hps, rfl⟩ := iha hform.1
    obtain ⟨qs, hqs, rfl⟩ := ihb hform.2
    exact ⟨_, .seq hps hqs, Phrase.tokensAll_append ps qs⟩
  | first _ ih =>
    simp only [Form.proper, Bool.and_eq_true] at hform
    obtain ⟨ps, hps, rfl⟩ := ih hform.1
    exact ⟨_, .first hps, rfl⟩
  | second _ ih =>
    simp only [Form.proper, Bool.and_eq_true] at hform
    obtain ⟨ps, hps, rfl⟩ := ih hform.2
    exact ⟨_, .second hps, rfl⟩
  | none => exact ⟨[], builds_many.mpr ⟨[], by simp, rfl⟩, rfl⟩
  | more _ _ ihv ihw =>
    obtain ⟨ps, hps, rfl⟩ := ihv hform
    obtain ⟨qs, hqs, rfl⟩ := ihw hform
    obtain ⟨groups, hgroups, rfl⟩ := builds_many.mp hqs
    refine ⟨ps ++ groups.flatten, builds_many.mpr ⟨ps :: groups, ?_, rfl⟩,
      Phrase.tokensAll_append _ _⟩
    intro group hgroup
    rcases List.mem_cons.mp hgroup with rfl | hgroup
    · exact hps
    · exact hgroups group hgroup
  | node _ ih =>
    obtain ⟨ps, hps, rfl⟩ := ih hform
    exact ⟨_, .node hps, by simp⟩
  | chain _ ih =>
    simp only [Form.proper, Bool.and_eq_true] at hform
    obtain ⟨_, hps, rfl⟩ := ih (by simp [Form.proper, hform.2])
    obtain ⟨_, _, hfirst, hmore, rfl⟩ := builds_append.mp hps
    obtain ⟨start, rfl⟩ := hfirst.exists_single hform.1
    obtain ⟨_, hgroups, rfl⟩ := builds_many.mp hmore
    obtain ⟨pairs, hpairs, rfl⟩ := exists_pairs hform.1 hgroups
    refine ⟨_, builds_chain.mpr ⟨start, pairs, hfirst, hpairs, rfl⟩, ?_⟩
    simp only [Phrase.tokensAll_cons, Phrase.tokensAll_nil, Phrase.tokens_chained,
      Phrase.tokensAll_flatten, List.flatMap_map, Phrase.tokens_leaf,
      List.append_nil, List.singleton_append]
  | led _ ih =>
    simp only [Form.proper, Bool.and_eq_true] at hform
    obtain ⟨_, hps, rfl⟩ := ih (by simp [Form.proper, hform.2])
    obtain ⟨_, _, hmore, hinmost, rfl⟩ := builds_append.mp hps
    obtain ⟨inmost, rfl⟩ := hinmost.exists_single hform.1
    obtain ⟨_, hgroups, rfl⟩ := builds_many.mp hmore
    obtain ⟨operators, hoperators, rfl⟩ := exists_operators hgroups
    refine ⟨_, builds_led.mpr ⟨operators, inmost, by simpa using hoperators, hinmost, rfl⟩, ?_⟩
    have hleaves : (operators.map fun token => [Phrase.leaf token]).flatten =
        operators.map .leaf := by
      rw [← List.flatMap_def, ← List.map_eq_flatMap]
    simp only [Phrase.tokensAll_cons, Phrase.tokensAll_nil, Phrase.tokens_behind,
      Phrase.tokensAll_append, hleaves, Phrase.tokensAll_map_leaf, List.append_nil]
  | extended _ ih =>
    obtain ⟨_, hps, rfl⟩ := ih hform
    obtain ⟨left, right, hleft, hright, rfl⟩ := builds_append.mp hps
    refine ⟨_, builds_extended.mpr ⟨left, right, hleft, hright, rfl⟩, ?_⟩
    cases right <;> simp
  | call _ ih =>
    obtain ⟨ps, hps, rfl⟩ := ih (Construct.proper_form _)
    exact ⟨ps, .call hps, rfl⟩

/-- The token lists of a construct are those of the phrases that it builds. -/
theorem derives_call_iff {construct : Construct} {w : List Token} :
    Derives (.call construct) w ↔ ∃ p, Builds (.call construct) [p] ∧ p.tokens = w := by
  constructor
  · intro h
    obtain ⟨ps, hps, rfl⟩ := h.exists_builds rfl
    obtain ⟨p, rfl⟩ := hps.exists_single rfl
    exact ⟨p, hps, by simp⟩
  · rintro ⟨p, hp, rfl⟩
    simpa using hp.derives

end NullGuard
