import NullGuard.Proofs.UnboundedReaders

namespace NullGuard

open Parse

namespace Grammar

variable {α : Type} {inner : Nested}

/-- A loop of a reader: the tokens that lead in a round, and what is read behind one of them. -/
structure Body (α : Type) where
  lead : Cursor → Bool
  item : Token → Parse α

def Body.read (body : Body α) : Parse (List α) := manyLed body.lead body.item

/-- The rounds from a place on are those that the loop reads. -/
def Body.Ends (body : Body α) (c : Cursor) : Prop := Rounds body.lead body.item c (body.read c)

/-- Items with tokens of a kind before them. -/
def Body.behind (kind : TokenKind) (item : Parse (List Phrase)) :
    Body (List Phrase) where
  lead := (·.isAt kind)
  item := fun mark => do
    let phrases ← item
    return .leaf mark :: phrases

/-- Operands with operators before them. -/
def Body.chain (isOperator : TokenKind → Bool) (operand : Parse Phrase) :
    Body (Token × Phrase) where
  lead := (isOperator ·.kind)
  item := fun operator => do
    let right ← operand
    return (operator, right)

/-- The loops of the grammar, by what they read. -/
inductive Loop where
  | unions
  | limitations
  | fields
  | starPath
  | sources
  | joins
  | path
  | tableArguments
  | groupKeys
  | orderKeys
  | alternatives (context : Context)
  | conditions (context : Context)
  | negations (context : Context)
  | terms (context : Context)
  | factors (context : Context)
  | signs (context : Context)
  | items (context : Context)
  | arguments (context : Context)
  | precisions
  | cases (context : Context)

@[reducible]
def Loop.Item : Loop → Type
  | joins => Phrase
  | alternatives _ | conditions _ | terms _ | factors _ => Token × Phrase
  | negations _ | signs _ => Token
  | _ => List Phrase

def Loop.body (inner : Nested) : (loop : Loop) → Body loop.Item
  | unions => .behind (.keyword .union) (unionMember inner)
  | limitations => ⟨(·.isAtAny [.keyword .allowed, .keyword .distinct, .keyword .top]), limitation⟩
  | fields => .behind .comma (one (selectedField inner))
  | starPath => ⟨fun c => c.isAt .dot && c.nextKind ≠ .star, fun dot => do
      let name ← name
      return [Phrase.leaf dot, name]⟩
  | sources => .behind .comma (one inner.source)
  | joins => ⟨(·.kind.startsJoin), join inner⟩
  | path => .behind .dot (one name)
  | tableArguments => .behind .comma (tableArgument inner)
  | groupKeys => .behind .comma (one (inner.expression .clause))
  | orderKeys => .behind .comma (orderKey inner)
  | alternatives context => .chain (· = .keyword .or) (conjunction inner context)
  | conditions context => .chain (· = .keyword .and) (negation inner context)
  | negations _ => ⟨(·.isAt (.keyword .not)), pure⟩
  | terms context => .chain (fun kind => kind = .plus || kind = .minus) (term inner context)
  | factors context => .chain (fun kind => kind = .star || kind = .slash) (factor inner context)
  | signs _ => ⟨(·.isAt .minus), pure⟩
  | items context | arguments context => .behind .comma (one (inner.expression context))
  | precisions => .behind .comma (one (expectAs .number .typePrecision))
  | cases context => .behind (.keyword .when) (caseArm inner context)

/-- The reader that a loop is a part of. A clause is read behind the token that leads it in. -/
def Loop.reader (inner : Nested) (mark : Token) : Loop → Parse (List Phrase)
  | unions => one (statement inner)
  | limitations => Grammar.limitations
  | fields => one (selectList inner)
  | starPath => qualifiedStar
  | sources => dataSources inner mark
  | joins => one (source inner)
  | path => Parse.path
  | tableArguments => Grammar.tableArguments inner mark
  | groupKeys => groupBy inner mark
  | orderKeys => orderBy inner mark
  | alternatives context => one (expression inner context)
  | conditions context => one (conjunction inner context)
  | negations context => one (negation inner context)
  | terms context => one (additive inner context)
  | factors context => one (term inner context)
  | signs context => one (factor inner context)
  | items context => one (inList inner context)
  | arguments context => Grammar.arguments inner context
  | precisions => typeSize mark
  | cases context => one (caseExpression inner context)

/-- One item and the rounds behind it. -/
def withRounds (item : Parse (List Phrase)) (rounds : Parse (List (List Phrase))) :
    Parse (List Phrase) := do
  let first ← item
  let more ← rounds
  return first ++ more.flatten

/-- What the reader of a loop does with its rounds. -/
def Loop.around (inner : Nested) (mark : Token) :
    (loop : Loop) → Parse (List loop.Item) → Parse (List Phrase)
  | unions, rounds => do
    let first ← query inner
    let more ← rounds
    return [if more.flatten.isEmpty then first else .node .union (first :: more.flatten)]
  | limitations, rounds => do
    let items ← rounds
    return if items.isEmpty then [] else [.node .limitations items.flatten]
  | fields, rounds => do
    return [.node .selectList (← withRounds (one (selectedField inner)) rounds)]
  | starPath, rounds => do
    let first ← expect .identifier
    let names ← rounds
    let dot ← expect .dot
    let star ← expect .star
    return first :: names.flatten ++ [dot, star]
  | sources, rounds => do
    let sources ← withRounds (one inner.source) rounds
    return [.node .dataSources (.leaf mark :: sources)]
  | joins, rounds => do
    let body ← sourceBody inner
    let given ← aliasClause
    let joins ← rounds
    return [.node .dataSource (body ++ given ++ joins)]
  | path, rounds => withRounds (pure []) rounds
  | tableArguments, rounds => do
    let arguments ← withRounds (tableArgument inner) rounds
    let closing ← expectAs .rparen .argumentEnd
    return .leaf mark :: arguments ++ [closing]
  | groupKeys, rounds => do
    let link ← byWord
    let keys ← withRounds (one (inner.expression .clause)) rounds
    return [.node .groupBy (.leaf mark :: link :: keys)]
  | orderKeys, rounds => do
    let link ← byWord
    let keys ← withRounds (orderKey inner) rounds
    return [.node .orderBy (.leaf mark :: link :: keys)]
  | alternatives context, rounds => do
    let first ← conjunction inner context
    return [.chained context.wrapper first (← rounds)]
  | conditions context, rounds => do
    let first ← negation inner context
    return [.chained context.wrapper first (← rounds)]
  | negations context, rounds => do
    let operators ← rounds
    return [.behind context.wrapper operators (← predicate inner context)]
  | terms context, rounds => do
    let first ← term inner context
    return [.chained context.wrapper first (← rounds)]
  | factors context, rounds => do
    let first ← factor inner context
    return [.chained context.wrapper first (← rounds)]
  | signs context, rounds => do
    let operators ← rounds
    return [.behind context.wrapper operators (← primary inner context)]
  | items context, rounds => do
    if (← get).startsSubquery then
      one (subquery inner)
    else
      let opening ← expect .lparen
      let items ← withRounds (one (inner.expression context)) rounds
      let closing ← expect .rparen
      return [.node .expressionList (opening :: items ++ [closing])]
  | arguments context, rounds => do
    let c ← get
    if c.isAt .star then
      one (expect .star)
    else if c.isAt .rparen then
      return []
    else
      let first ← inner.expression context
      let type ← optionalLed (·.isAt (.keyword .as)) castType
      withRounds (pure (first :: type)) rounds
  | precisions, rounds => do
    let length ← expectAs .number .typeLength
    let precision ← withRounds (pure []) rounds
    let closing ← expect .rparen
    return .leaf mark :: length :: precision ++ [closing]
  | cases context, rounds => do
    let word ← keyword .case
    let when_ ← keyword .when
    let arms ← withRounds (caseArm inner context) rounds
    let otherwise ← optionalLed (·.isAt (.keyword .else_)) (caseDefault inner context)
    let closing ← keyword .end_
    return [.node .caseExpression (word :: when_ :: arms ++ otherwise ++ [closing])]

lemma manyBehind_eq (kind : TokenKind) (item : Parse (List Phrase)) :
    manyBehind kind item = withRounds (pure []) (Body.behind kind item).read := rfl

lemma commaSeparated_eq (item : Parse (List Phrase)) :
    commaSeparated item = withRounds item (Body.behind .comma item).read := by
  simp only [commaSeparated, withRounds, manyBehind_eq, bind_assoc, pure_bind, List.nil_append]

/-- The readers of the grammar run the loops. -/
theorem Loop.reader_eq (inner : Nested) (mark : Token) (loop : Loop) :
    loop.reader inner mark = loop.around inner mark (loop.body inner).read := by
  cases loop with
  | unions => simp only [reader, around, body, one, statement, manyBehind_eq, withRounds,
      bind_assoc, pure_bind, List.nil_append]
  | limitations => rfl
  | fields => simp only [reader, around, body, one, selectList, commaSeparated_eq, bind_assoc,
      pure_bind]
  | starPath => rfl
  | sources => simp only [reader, around, body, dataSources, commaSeparated_eq]
  | joins =>
    simp only [reader, around, body, one, source, bind_assoc, pure_bind]
    rfl
  | path => rfl
  | tableArguments => simp only [reader, around, body, Grammar.tableArguments, commaSeparated_eq]
  | groupKeys => simp only [reader, around, body, groupBy, commaSeparated_eq]
  | orderKeys => simp only [reader, around, body, orderBy, commaSeparated_eq]
  | alternatives context =>
    simp only [reader, around, body, one, expression_eq, chain, bind_assoc, pure_bind]
    rfl
  | conditions context =>
    simp only [reader, around, body, one, conjunction, chain, bind_assoc, pure_bind]
    rfl
  | negations context =>
    simp only [reader, around, body, one, negation, led, bind_assoc, pure_bind]
    rfl
  | terms context =>
    simp only [reader, around, body, one, additive_eq, chain, bind_assoc, pure_bind]
    rfl
  | factors context =>
    simp only [reader, around, body, one, term, chain, bind_assoc, pure_bind]
    rfl
  | signs context =>
    simp only [reader, around, body, one, factor, led, bind_assoc, pure_bind]
    rfl
  | items context =>
    simp only [reader, around, body, one, inList, commaSeparated_eq, bind_assoc]
    congr 1
    funext c
    split
    · rfl
    · simp only [bind_assoc, pure_bind]
  | arguments context => simp only [reader, around, body, Grammar.arguments, manyBehind_eq,
      withRounds, bind_assoc, pure_bind, List.nil_append]
  | precisions => simp only [reader, around, body, typeSize, manyBehind_eq]
  | cases context => simp only [reader, around, body, one, caseExpression, manyBehind_eq,
      withRounds, bind_assoc, pure_bind, List.nil_append, List.append_assoc, List.cons_append]

/-- The tokens that lead in a round are inside of a statement, and what is read behind them moves
on. -/
def Body.Steady (body : Body α) : Prop :=
  ∃ accepts, Selects body.lead accepts ∧
    ∀ mark, accepts mark = true → (body.item mark).Meets fun _ _ => True

lemma Body.Steady.ends {body : Body α} (h : body.Steady) (c : Cursor) : body.Ends c := by
  obtain ⟨accepts, hselects, hitem⟩ := h
  exact manyLed_rounds hselects hitem c

lemma Body.steady_behind {kind : TokenKind} {item : Parse (List Phrase)} {form : Form}
    (h : item.MakesAll form) (hkind : kind.endsStatement = false) : (behind kind item).Steady :=
  ⟨_, selects_isAt hkind, fun _ _ => h.bind fun _ _ _ => .pure trivial⟩

lemma Body.steady_chain {isOperator : TokenKind → Bool} {operand : Parse Phrase} {form : Form}
    (h : operand.Makes form)
    (hoperator : ∀ kind, isOperator kind = true → kind.endsStatement = false) :
    (chain isOperator operand).Steady :=
  ⟨_, selects_of_kind hoperator, fun _ _ => h.bind fun _ _ _ => .pure trivial⟩

lemma Body.steady_single {kind : TokenKind} (hkind : kind.endsStatement = false) :
    (Body.mk (·.isAt kind) (pure : Token → Parse Token)).Steady :=
  ⟨_, selects_isAt hkind, fun _ _ => .pure trivial⟩

lemma Loop.steady (h : inner.Sound) (loop : Loop) : (loop.body inner).Steady := by
  cases loop with
  | unions => exact Body.steady_behind (unionMember_makes h) rfl
  | limitations =>
    exact ⟨_, selects_limitation, fun _ hword => (limitation_makes hword).mono fun _ _ _ => trivial⟩
  | fields => exact Body.steady_behind (one_makes (selectedField_makes h)) rfl
  | starPath =>
    exact ⟨_, selects_dotBeforeName, fun _ _ => name_makes.bind fun _ _ _ => .pure trivial⟩
  | sources => exact Body.steady_behind (one_makes h.source) rfl
  | joins =>
    exact ⟨_, selects_of_kind fun _ => endsStatement_of_startsJoin, fun _ hmark =>
      (join_makes h hmark).mono fun _ _ _ => trivial⟩
  | path => exact Body.steady_behind (one_makes name_makes) rfl
  | tableArguments => exact Body.steady_behind (tableArgument_makes h) rfl
  | orderKeys => exact Body.steady_behind (orderKey_makes h) rfl
  | alternatives context =>
    refine Body.steady_chain (conjunction_makes h) fun kind hkind => ?_
    rw [of_decide_eq_true hkind]
    rfl
  | conditions context =>
    refine Body.steady_chain (negation_makes h) fun kind hkind => ?_
    rw [of_decide_eq_true hkind]
    rfl
  | negations context => exact Body.steady_single rfl
  | terms context =>
    refine Body.steady_chain (term_makes h) fun kind hkind => ?_
    simp only [Bool.or_eq_true, decide_eq_true_eq] at hkind
    rcases hkind with rfl | rfl <;> rfl
  | factors context =>
    refine Body.steady_chain (factor_makes h) fun kind hkind => ?_
    simp only [Bool.or_eq_true, decide_eq_true_eq] at hkind
    rcases hkind with rfl | rfl <;> rfl
  | signs context => exact Body.steady_single rfl
  | items context | arguments context =>
    exact Body.steady_behind (one_makes (h.expression context)) rfl
  | groupKeys => exact Body.steady_behind (one_makes (h.expression .clause)) rfl
  | precisions => exact Body.steady_behind (one_makes (expectAs_makes rfl (by simp))) rfl
  | cases context => exact Body.steady_behind (caseArm_makes h) rfl

end Grammar

end NullGuard
