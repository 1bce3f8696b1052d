import NullGuard.Proofs.Passage

/-!
# The grammar as forms

The grammar of statements written down as data, without any lookahead. A form is sequences,
alternatives and repetitions of tokens and of the three constructs that nest, and it names the
nodes that are made of them. `Derives` reads a form as a language of token lists and does not look
at the nodes; `Builds` reads the same form as a set of phrases. The two agree.
-/

namespace NullGuard

/-- The constructs that can stand inside of each other. -/
inductive Construct where
  | expression (context : Context)
  | statement
  | source

/-- What a piece of a statement looks like. -/
inductive Form where
  /-- One token. -/
  | token (accepts : Token → Bool)
  | empty
  | seq (first second : Form)
  | either (first second : Form)
  /-- Any number of times. -/
  | many (item : Form)
  /-- What makes a node of its own. -/
  | node (kind : NodeKind) (parts : Form)
  /-- Operands with operators between them, which make nodes from the left. -/
  | chain (kind : NodeKind) (operator : TokenKind → Bool) (operand : Form)
  /-- An operand behind any number of operators, which make nodes from the right. -/
  | led (kind : NodeKind) (operator : TokenKind) (operand : Form)
  /-- One behind the other; they make a node together if there is anything in the second. -/
  | extended (kind : NodeKind) (first more : Form)
  | call (construct : Construct)

namespace Form

instance : Append Form := ⟨.seq⟩

instance : OrOp Form := ⟨.either⟩

def opt (item : Form) : Form := .empty ||| item

def tok (kind : TokenKind) : Form := .token (·.kind = kind)

def word (word : Keyword) : Form := tok (.keyword word)

/-- One item or more with commas between them. -/
def list (item : Form) : Form := item ++ .many (tok .comma ++ item)

/-- Names behind dots. A keyword is a name there. -/
def path : Form := .many (tok .dot ++ .token (·.kind.isName))

/-- An expression that stands in a context. -/
def expr (context : Context) : Form := .call (.expression context)

def subquery : Form := .node .subquery (tok .lparen ++ .call .statement ++ tok .rparen)

def column : Form := .node .column (tok .identifier ++ path)

def referencedTable : Form := .node .table (tok .identifier ++ path)

def typeSize : Form := tok .lparen ++ tok .number ++ .many (tok .comma ++ tok .number) ++ tok .rparen

def castType : Form := word .as ++ tok .identifier ++ path ++ opt typeSize

def arguments (context : Context) : Form :=
  tok .star ||| .empty |||
    expr context ++ opt castType ++ .many (tok .comma ++ expr context)

def functionCall (context : Context) : Form :=
  .node .functionCall (tok .identifier ++ tok .lparen ++ opt (word .distinct) ++
    arguments context ++ tok .rparen)

def caseArm (context : Context) : Form :=
  word .when ++ (expr context ++ word .then_ ++ expr context)

def caseExpression (context : Context) : Form :=
  .node .caseExpression (word .case ++ caseArm context ++ .many (caseArm context) ++
    opt (word .else_ ++ expr context) ++ word .end_)

def operand (context : Context) : Form :=
  functionCall context ||| column ||| caseExpression context ||| tok .parameter |||
    .token (·.kind.isLiteral)

def guardCall (context : Context) : Form :=
  .node context.wrapper (word .isNull ++ tok .lparen ++ expr context ++ tok .comma ++
    expr context ++ tok .rparen)

def bracketed (context : Context) : Form :=
  .node context.wrapper (tok .lparen ++ expr context ++ tok .rparen)

def wrapped (context : Context) (operand : Form) : Form :=
  .node context.wrapper (.node .statement operand)

def primary (context : Context) : Form :=
  guardCall context ||| wrapped context subquery ||| bracketed context |||
    wrapped context (operand context)

def factor (context : Context) : Form := .led context.wrapper .minus (primary context)

def term (context : Context) : Form :=
  .chain context.wrapper (fun kind => kind = .star || kind = .slash) (factor context)

def additive (context : Context) : Form :=
  .chain context.wrapper (fun kind => kind = .plus || kind = .minus) (term context)

def inList (context : Context) : Form :=
  subquery ||| .node .expressionList (tok .lparen ++ list (expr context) ++ tok .rparen)

def membership (context : Context) : Form :=
  word .in_ ++ opt (.token (·.spells .hierarchy)) ++ inList context |||
    word .between ++ additive context ++ word .and ++ additive context |||
    word .like ++ additive context

def test (context : Context) : Form :=
  .token (·.kind.isComparison) ++ additive context |||
    word .is ++ opt (word .not) ++ word .null |||
    .token (·.spells .refs) ++ referencedTable |||
    opt (word .not) ++ membership context

def predicate (context : Context) : Form :=
  .extended context.wrapper (additive context) (opt (test context))

def negation (context : Context) : Form := .led context.wrapper (.keyword .not) (predicate context)

def conjunction (context : Context) : Form :=
  .chain context.wrapper (fun kind => kind = .keyword .and) (negation context)

def expression (context : Context) : Form :=
  .chain context.wrapper (fun kind => kind = .keyword .or) (conjunction context)

def aliasClause : Form := .node .aliasClause (opt (word .as) ++ tok .identifier)

def selectedField : Form :=
  .node .selectedField (tok .star ||| tok .identifier ++ path ++ tok .dot ++ tok .star |||
    expr .select ++ opt aliasClause)

def limitations : Form :=
  .extended .limitations .empty
    (.many (word .allowed ||| word .distinct ||| word .top ++ tok .number))

def selectList : Form := .node .selectList (list selectedField)

def temporaryTable : Form := .node .temporaryTable (word .into ++ tok .identifier)

def dataSources : Form := .node .dataSources (word .from_ ++ list (.call .source))

def whereClause : Form :=
  .node .whereClause (word .where_ ++ .node .whereExpression (expr .filter))

def byWord : Form := word .by_ ||| word .on

def groupBy : Form := .node .groupBy (word .group ++ byWord ++ list (expr .clause))

def having : Form := .node .having (word .having ++ expr .clause)

def orderKey : Form := expr .clause ++ opt (word .asc ||| word .desc)

def orderBy : Form := .node .orderBy (word .order ++ byWord ++ list orderKey)

def clauses (into : Form) : Form :=
  word .select ++ limitations ++ selectList ++ into ++ opt dataSources ++ opt whereClause ++
    opt groupBy ++ opt having ++ opt orderBy

def query : Form :=
  .node .query (clauses .empty) ||| .node .temporaryTableQuery (clauses temporaryTable)

def unionMember : Form := word .union ++ (opt (word .all) ++ query)

def statement : Form := .extended .union query (.many unionMember)

/-- Expressions and commas in any order, where no two expressions stand side by side. -/
def tableArguments : Form := list (opt (expr .clause))

def table : Form :=
  .node .table (tok .identifier ++ path ++ opt (tok .lparen ++ tableArguments ++ tok .rparen))

def sourceBody : Form :=
  subquery ||| tok .lparen ++ .call .source ++ tok .rparen ||| tok .parameter ||| table

def joinSide : Form := word .inner ||| word .left ||| word .right ||| word .full

def joinWords : Form := word .join ||| joinSide ++ opt (word .outer) ++ word .join

def join : Form :=
  .node .join (joinWords ++ .call .source ++ word .on ++ .node .joinExpression (expr .join))

def source : Form := .node .dataSource (sourceBody ++ opt aliasClause ++ .many join)

end Form

def Construct.form : Construct → Form
  | expression context => .expression context
  | statement => .statement
  | source => .source

/-- The token lists of a form. Chains and operators in front are repetitions here, and nodes mean
nothing. -/
inductive Derives : Form → List Token → Prop where
  | token {accepts : Token → Bool} {token : Token} (h : accepts token = true) :
      Derives (.token accepts) [token]
  | empty : Derives .empty []
  | seq {a b : Form} {v w : List Token} (ha : Derives a v) (hb : Derives b w) :
      Derives (.seq a b) (v ++ w)
  | first {a b : Form} {w : List Token} (h : Derives a w) : Derives (.either a b) w
  | second {a b : Form} {w : List Token} (h : Derives b w) : Derives (.either a b) w
  | none {item : Form} : Derives (.many item) []
  | more {item : Form} {v w : List Token} (hv : Derives item v) (hw : Derives (.many item) w) :
      Derives (.many item) (v ++ w)
  | node {kind : NodeKind} {parts : Form} {w : List Token} (h : Derives parts w) :
      Derives (.node kind parts) w
  | chain {kind : NodeKind} {operator : TokenKind → Bool} {operand : Form} {w : List Token}
      (h : Derives (.seq operand (.many (.seq (.token (operator ·.kind)) operand))) w) :
      Derives (.chain kind operator operand) w
  | led {kind : NodeKind} {operator : TokenKind} {operand : Form} {w : List Token}
      (h : Derives (.seq (.many (.token (·.kind = operator))) operand) w) :
      Derives (.led kind operator operand) w
  | extended {kind : NodeKind} {first more : Form} {w : List Token}
      (h : Derives (.seq first more) w) : Derives (.extended kind first more) w
  | call {construct : Construct} {w : List Token} (h : Derives construct.form w) :
      Derives (.call construct) w

namespace Phrase

/-- A phrase with operators and right operands added to it one by one. -/
def chained (kind : NodeKind) (first : Phrase) (pairs : List (Token × Phrase)) : Phrase :=
  pairs.foldl (fun left pair => .node kind [left, .leaf pair.1, pair.2]) first

/-- A phrase behind operators, the last of which binds first. -/
def behind (kind : NodeKind) (operators : List Token) (inmost : Phrase) : Phrase :=
  operators.foldr (fun operator phrase => .node kind [.leaf operator, phrase]) inmost

lemma tokens_chained (kind : NodeKind) (first : Phrase) (pairs : List (Token × Phrase)) :
    (chained kind first pairs).tokens =
      first.tokens ++ pairs.flatMap fun pair => pair.1 :: pair.2.tokens := by
  induction pairs generalizing first with
  | nil => simp [chained]
  | cons pair pairs ih =>
    have hstep : chained kind first (pair :: pairs) =
        chained kind (.node kind [first, .leaf pair.1, pair.2]) pairs := rfl
    rw [hstep, ih]
    simp

lemma tokens_behind (kind : NodeKind) (operators : List Token) (inmost : Phrase) :
    (behind kind operators inmost).tokens = operators ++ inmost.tokens := by
  induction operators with
  | nil => rfl
  | cons operator operators ih =>
    have hstep : behind kind (operator :: operators) inmost =
        .node kind [.leaf operator, behind kind operators inmost] := rfl
    rw [hstep, tokens_node, tokensAll_cons, tokensAll_cons, ih]
    simp

end Phrase

/-- The phrases of a form. -/
inductive Builds : Form → List Phrase → Prop where
  | token {accepts : Token → Bool} {token : Token} (h : accepts token = true) :
      Builds (.token accepts) [.leaf token]
  | empty : Builds .empty []
  | seq {a b : Form} {ps qs : List Phrase} (ha : Builds a ps) (hb : Builds b qs) :
      Builds (.seq a b) (ps ++ qs)
  | first {a b : Form} {ps : List Phrase} (h : Builds a ps) : Builds (.either a b) ps
  | second {a b : Form} {ps : List Phrase} (h : Builds b ps) : Builds (.either a b) ps
  | many {item : Form} (groups : List (List Phrase)) (h : ∀ group ∈ groups, Builds item group) :
      Builds (.many item) groups.flatten
  | node {kind : NodeKind} {parts : Form} {ps : List Phrase} (h : Builds parts ps) :
      Builds (.node kind parts) [.node kind ps]
  | chain {kind : NodeKind} {operator : TokenKind → Bool} {operand : Form} (start : Phrase)
      (pairs : List (Token × Phrase)) (hstart : Builds operand [start])
      (hoperator : ∀ pair ∈ pairs, operator pair.1.kind = true)
      (hright : ∀ pair ∈ pairs, Builds operand [pair.2]) :
      Builds (.chain kind operator operand) [Phrase.chained kind start pairs]
  | led {kind : NodeKind} {operator : TokenKind} {operand : Form} (operators : List Token)
      (inmost : Phrase) (hoperator : ∀ token ∈ operators, token.kind = operator)
      (h : Builds operand [inmost]) :
      Builds (.led kind operator operand) [Phrase.behind kind operators inmost]
  | plain {kind : NodeKind} {first more : Form} {ps : List Phrase} (h : Builds first ps)
      (hmore : Builds more []) : Builds (.extended kind first more) ps
  | extended {kind : NodeKind} {first more : Form} {ps qs : List Phrase} (h : Builds first ps)
      (hmore : Builds more qs) (hne : qs ≠ []) :
      Builds (.extended kind first more) [.node kind (ps ++ qs)]
  | call {construct : Construct} {ps : List Phrase} (h : Builds construct.form ps) :
      Builds (.call construct) ps

section Inversion

variable {a b item parts first more operand : Form} {kind : NodeKind} {ps : List Phrase}

@[simp]
lemma builds_token {accepts : Token → Bool} :
    Builds (.token accepts) ps ↔ ∃ token, accepts token = true ∧ ps = [.leaf token] := by
  constructor
  · rintro ⟨⟩
    exact ⟨_, ‹_›, rfl⟩
  · rintro ⟨token, h, rfl⟩
    exact .token h

@[simp]
lemma builds_empty : Builds .empty ps ↔ ps = [] := by
  constructor
  · rintro ⟨⟩
    rfl
  · rintro rfl
    exact .empty

@[simp]
lemma builds_append :
    Builds (a ++ b) ps ↔ ∃ left right, Builds a left ∧ Builds b right ∧ ps = left ++ right := by
  constructor
  · rintro ⟨⟩
    exact ⟨_, _, ‹_›, ‹_›, rfl⟩
  · rintro ⟨left, right, ha, hb, rfl⟩
    exact .seq ha hb

@[simp]
lemma builds_or : Builds (a ||| b) ps ↔ Builds a ps ∨ Builds b ps := by
  constructor
  · rintro ⟨⟩
    · exact .inl ‹_›
    · exact .inr ‹_›
  · rintro (h | h)
    · exact .first h
    · exact .second h

lemma builds_many :
    Builds (.many item) ps ↔ ∃ groups : List (List Phrase),
      (∀ group ∈ groups, Builds item group) ∧ ps = groups.flatten := by
  constructor
  · rintro ⟨⟩
    exact ⟨_, ‹_›, rfl⟩
  · rintro ⟨groups, h, rfl⟩
    exact .many groups h

@[simp]
lemma builds_node : Builds (.node kind parts) ps ↔ ∃ qs, Builds parts qs ∧ ps = [.node kind qs] := by
  constructor
  · rintro ⟨⟩
    exact ⟨_, ‹_›, rfl⟩
  · rintro ⟨qs, h, rfl⟩
    exact .node h

lemma builds_chain {operator : TokenKind → Bool} :
    Builds (.chain kind operator operand) ps ↔
      ∃ (start : Phrase) (pairs : List (Token × Phrase)), Builds operand [start] ∧
        (∀ pair ∈ pairs, operator pair.1.kind = true ∧ Builds operand [pair.2]) ∧
        ps = [Phrase.chained kind start pairs] := by
  constructor
  · intro h
    cases h with
    | chain start pairs hstart hoperator hright =>
      exact ⟨start, pairs, hstart, fun pair h => ⟨hoperator pair h, hright pair h⟩, rfl⟩
  · rintro ⟨start, pairs, hstart, h, rfl⟩
    exact .chain start pairs hstart (fun pair hp => (h pair hp).1) (fun pair hp => (h pair hp).2)

lemma builds_led {operator : TokenKind} :
    Builds (.led kind operator operand) ps ↔
      ∃ (operators : List Token) (inmost : Phrase),
        (∀ token ∈ operators, token.kind = operator) ∧ Builds operand [inmost] ∧
        ps = [Phrase.behind kind operators inmost] := by
  constructor
  · rintro ⟨⟩
    exact ⟨_, _, ‹_›, ‹_›, rfl⟩
  · rintro ⟨operators, inmost, hoperator, h, rfl⟩
    exact .led operators inmost hoperator h

lemma builds_extended :
    Builds (.extended kind first more) ps ↔ ∃ left right, Builds first left ∧ Builds more right ∧
      ps = if right.isEmpty then left else [.node kind (left ++ right)] := by
  constructor
  · intro h
    cases h with
    | plain hleft hright => exact ⟨_, _, hleft, hright, rfl⟩
    | extended hleft hright hne =>
      refine ⟨_, _, hleft, hright, ?_⟩
      rw [if_neg (by simpa using hne)]
  · rintro ⟨left, right, hleft, hright, rfl⟩
    cases right with
    | nil => exact .plain hleft hright
    | cons p right => exact .extended hleft hright (by simp)

@[simp]
lemma builds_call {construct : Construct} :
    Builds (.call construct) ps ↔ Builds construct.form ps := by
  constructor
  · rintro ⟨⟩
    assumption
  · exact .call

@[simp]
lemma builds_opt : Builds (.opt item) ps ↔ ps = [] ∨ Builds item ps := by
  simp only [Form.opt, builds_or, builds_empty]

@[simp]
lemma builds_tok {kind : TokenKind} :
    Builds (.tok kind) ps ↔ ∃ token : Token, token.kind = kind ∧ ps = [.leaf token] := by
  simp only [Form.tok, builds_token, decide_eq_true_eq]

@[simp]
lemma builds_word {word : Keyword} :
    Builds (.word word) ps ↔ ∃ token : Token, token.kind = .keyword word ∧ ps = [.leaf token] := by
  simp only [Form.word, builds_tok]

end Inversion

end NullGuard
