import NullGuard.Query.Parse

/-!
# Expressions

The grammar of expressions, loosest first: `OR`, `AND`, `NOT`, predicates, `+ -`, `* /`, unary
minus. Operators and calls of `ISNULL` give a node of the kind that the context names; any other
operand is a `statement` in such a node.
-/

namespace NullGuard

/-- Where an expression stands. -/
inductive Context where
  /-- In a select list. -/
  | select
  /-- In the condition of `WHERE`. -/
  | filter
  /-- In the condition of a join. -/
  | join
  /-- In any other clause. -/
  | clause
deriving DecidableEq

/-- The kind of the nodes that wrap expressions in a context. -/
def Context.wrapper : Context → NodeKind
  | select => .selectStatement
  | filter => .whereStatement
  | join => .joinStatement
  | clause => .clauseStatement

/-- The readers of what can stand inside a construct. -/
structure Nested where
  expression : Context → Parse Phrase
  statement : Parse Phrase
  source : Parse Phrase

/-- Whether a subquery starts here. -/
def Cursor.startsSubquery (c : Cursor) : Bool :=
  c.isAt .lparen && c.nextKind = .keyword .select

namespace Grammar

open Parse

/-- A statement in brackets. -/
def subquery (inner : Nested) : Parse Phrase := do
  let opening ← expect .lparen
  let statement ← inner.statement
  let closing ← expect .rparen
  return .node .subquery [opening, statement, closing]

def column : Parse Phrase := do
  let first ← expect .identifier
  let more ← path
  return .node .column (first :: more)

/-- The table that a reference is checked against. -/
def referencedTable : Parse Phrase := do
  let first ← expect .identifier
  let more ← path
  return .node .table (first :: more)

/-- The length and the precision of a type, behind their opening bracket. -/
def typeSize (opening : Token) : Parse (List Phrase) := do
  let length ← expectAs .number .typeLength
  let precision ← manyBehind .comma (one (expectAs .number .typePrecision))
  let closing ← expect .rparen
  return .leaf opening :: length :: precision ++ [closing]

/-- The type that a value is cast to, behind `AS`. -/
def castType (word : Token) : Parse (List Phrase) := do
  let first ← expectAs .identifier .typeName
  let more ← path
  let size ← optionalLed (·.isAt .lparen) typeSize
  return .leaf word :: first :: more ++ size

/-- The arguments of a call: a star, nothing, or expressions, of which the first can be a cast. -/
def arguments (inner : Nested) (context : Context) : Parse (List Phrase) := do
  let c ← get
  if c.isAt .star then
    one (expect .star)
  else if c.isAt .rparen then
    return []
  else
    let first ← inner.expression context
    let type ← optionalLed (·.isAt (.keyword .as)) castType
    let more ← manyBehind .comma (one (inner.expression context))
    return first :: type ++ more

/-- A call of a function other than `ISNULL`. -/
def functionCall (inner : Nested) (context : Context) : Parse Phrase := do
  let function ← expect .identifier
  let opening ← expect .lparen
  let distinct ← optional (·.isAt (.keyword .distinct))
  let arguments ← arguments inner context
  let closing ← expect .rparen
  return .node .functionCall (function :: opening :: distinct ++ arguments ++ [closing])

/-- The condition and the value of a case, behind `WHEN`. -/
def caseArm (inner : Nested) (context : Context) : Parse (List Phrase) := do
  let condition ← inner.expression context
  let link ← keyword .then_
  let value ← inner.expression context
  return [condition, link, value]

/-- The value when no case applies, behind `ELSE`. -/
def caseDefault (inner : Nested) (context : Context) (word : Token) : Parse (List Phrase) := do
  let value ← inner.expression context
  return [.leaf word, value]

def caseExpression (inner : Nested) (context : Context) : Parse Phrase := do
  let word ← keyword .case
  let when_ ← keyword .when
  let first ← caseArm inner context
  let more ← manyBehind (.keyword .when) (caseArm inner context)
  let otherwise ← optionalLed (·.isAt (.keyword .else_)) (caseDefault inner context)
  let closing ← keyword .end_
  return .node .caseExpression (word :: when_ :: first ++ more ++ otherwise ++ [closing])

def operand (inner : Nested) (context : Context) : Parse Phrase := do
  let c ← get
  if c.isAt .identifier then
    if c.nextKind = .lparen then functionCall inner context else column
  else if c.isAt (.keyword .case) then
    caseExpression inner context
  else
    require (fun c => c.isAt .parameter || c.kind.isLiteral) .expression

/-- A call of `ISNULL`, which guards its first argument. -/
def guardCall (inner : Nested) (context : Context) : Parse Phrase := do
  let word ← keyword .isNull
  let opening ← expect .lparen
  let value ← inner.expression context
  let comma ← expect .comma
  let replacement ← inner.expression context
  let closing ← expect .rparen
  return .node context.wrapper [word, opening, value, comma, replacement, closing]

def bracketed (inner : Nested) (context : Context) : Parse Phrase := do
  let opening ← expect .lparen
  let expression ← inner.expression context
  let closing ← expect .rparen
  return .node context.wrapper [opening, expression, closing]

/-- An operand as an expression of its own. -/
def wrapped (context : Context) (operand : Parse Phrase) : Parse Phrase := do
  return .node context.wrapper [.node .statement [← operand]]

/-- An expression without operators outside brackets. -/
def primary (inner : Nested) (context : Context) : Parse Phrase := do
  let c ← get
  if c.isAt (.keyword .isNull) then guardCall inner context
  else if c.startsSubquery then wrapped context (subquery inner)
  else if c.isAt .lparen then bracketed inner context
  else wrapped context (operand inner context)

/-- An operand behind any number of operators. The last operator binds first. -/
def led (context : Context) (operator : TokenKind) (operand : Parse Phrase) : Parse Phrase := do
  let operators ← manyLed (·.isAt operator) pure
  let inmost ← operand
  return operators.foldr (fun op phrase => .node context.wrapper [.leaf op, phrase]) inmost

/-- Operands with operators between them. The first operator binds first. -/
def chain (context : Context) (isOperator : TokenKind → Bool) (operand : Parse Phrase) :
    Parse Phrase := do
  let first ← operand
  let pairs ← manyLed (isOperator ·.kind) fun operator => do
    let right ← operand
    return (operator, right)
  return pairs.foldl (fun left (op, right) => .node context.wrapper [left, .leaf op, right]) first

/-- Terms with `+` and `-` between them, of factors with `*` and `/` between them, each with any
number of minus signs before it. -/
def additive (inner : Nested) (context : Context) : Parse Phrase :=
  let factor := led context .minus (primary inner context)
  let term := chain context (fun kind => kind = .star || kind = .slash) factor
  chain context (fun kind => kind = .plus || kind = .minus) term

/-- The list or the subquery that a value is looked for in. -/
def inList (inner : Nested) (context : Context) : Parse Phrase := do
  if (← get).startsSubquery then
    subquery inner
  else
    let opening ← expect .lparen
    let items ← commaSeparated (one (inner.expression context))
    let closing ← expect .rparen
    return .node .expressionList (opening :: items ++ [closing])

/-- Whether a kind asks for a value to be in a list, in a range, or like a pattern. -/
def isMembership (kind : TokenKind) : Bool :=
  kind = .keyword .in_ || kind = .keyword .between || kind = .keyword .like

def membership (inner : Nested) (context : Context) : Parse (List Phrase) := do
  let c ← get
  if c.isAt (.keyword .in_) then
    let word ← keyword .in_
    let hierarchy ← optional (·.isAtWord .hierarchy)
    let list ← inList inner context
    return word :: hierarchy ++ [list]
  else if c.isAt (.keyword .between) then
    let word ← keyword .between
    let low ← additive inner context
    let link ← keyword .and
    let high ← additive inner context
    return [word, low, link, high]
  else
    let word ← keyword .like
    let pattern ← additive inner context
    return [word, pattern]

/-- What a predicate says of the value before it; nothing if there is no predicate. -/
def test (inner : Nested) (context : Context) : Parse (List Phrase) := do
  let c ← get
  if c.isAtWord .refs && c.nextKind = .identifier then
    let word ← expect .identifier
    let table ← referencedTable
    return [word, table]
  else if c.kind.isComparison then
    let operator ← require (·.kind.isComparison) .expression
    let right ← additive inner context
    return [operator, right]
  else if c.isAt (.keyword .is) then
    let word ← keyword .is
    let negation ← optional (·.isAt (.keyword .not))
    let null ← keyword .null
    return word :: negation ++ [null]
  else if c.isAt (.keyword .not) && isMembership c.nextKind then
    let negation ← keyword .not
    let rest ← membership inner context
    return negation :: rest
  else if isMembership c.kind then
    membership inner context
  else
    return []

/-- A value, with a predicate on it or without. -/
def predicate (inner : Nested) (context : Context) : Parse Phrase := do
  let value ← additive inner context
  let said ← test inner context
  return if said.isEmpty then value else .node context.wrapper (value :: said)

def expression (inner : Nested) (context : Context) : Parse Phrase :=
  let negation := led context (.keyword .not) (predicate inner context)
  let conjunction := chain context (· = .keyword .and) negation
  chain context (· = .keyword .or) conjunction

end Grammar

end NullGuard
