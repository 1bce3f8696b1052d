import NullGuard.Assembly.Workbench
import NullGuard.Query.Expression

namespace NullGuard

/-- The readers of what can stand inside a construct, as they make nodes. -/
structure Assembler where
  expression : Context → Assemble NodeId
  statement : Assemble NodeId
  source : Assemble NodeId

namespace Assemble

def subquery (inner : Assembler) : Assemble NodeId := do
  let opening ← expect .lparen
  let statement ← inner.statement
  let closing ← expect .rparen
  node .subquery [opening, statement, closing]

/-- A name with a path behind it, as a column or as a table. -/
def dotted (kind : NodeKind) : Assemble NodeId := do
  let first ← bump
  let more ← path
  node kind (first :: more)

def typeSize : Assemble (List NodeId) := do
  let opening ← bump
  let length ← expectAs .number .typeLength
  let precision ← readBehind .comma (one (expectAs .number .typePrecision))
  let closing ← expect .rparen
  return opening :: length :: precision ++ [closing]

def castType : Assemble (List NodeId) := do
  let word ← bump
  let first ← expectAs .identifier .typeName
  let more ← path
  let size ← readIf (·.isAt .lparen) typeSize
  return word :: first :: more ++ size

def arguments (inner : Assembler) (context : Context) : Assemble (List NodeId) := do
  let c ← here
  if c.isAt .star then
    one bump
  else if c.isAt .rparen then
    return []
  else
    let first ← inner.expression context
    let type ← readIf (·.isAt (.keyword .as)) castType
    let more ← readBehind .comma (one (inner.expression context))
    return first :: type ++ more

/-- A call of a function. The name and the bracket were seen before. -/
def functionCall (inner : Assembler) (context : Context) : Assemble NodeId := do
  let function ← bump
  let opening ← bump
  let distinct ← eat (·.isAt (.keyword .distinct))
  let arguments ← arguments inner context
  let closing ← expect .rparen
  node .functionCall (function :: opening :: distinct ++ arguments ++ [closing])

def caseArm (inner : Assembler) (context : Context) : Assemble (List NodeId) := do
  let condition ← inner.expression context
  let link ← keyword .then_
  let value ← inner.expression context
  return [condition, link, value]

def caseDefault (inner : Assembler) (context : Context) : Assemble (List NodeId) := do
  let word ← bump
  let value ← inner.expression context
  return [word, value]

def caseExpression (inner : Assembler) (context : Context) : Assemble NodeId := do
  let word ← bump
  let when_ ← keyword .when
  let first ← caseArm inner context
  let more ← readBehind (.keyword .when) (caseArm inner context)
  let otherwise ← readIf (·.isAt (.keyword .else_)) (caseDefault inner context)
  let closing ← keyword .end_
  node .caseExpression (word :: when_ :: first ++ more ++ otherwise ++ [closing])

def operand (inner : Assembler) (context : Context) : Assemble NodeId := do
  let c ← here
  if c.isAt .identifier then
    if c.nextKind = .lparen then functionCall inner context else dotted .column
  else if c.isAt (.keyword .case) then
    caseExpression inner context
  else if c.isAt .parameter then
    bump
  else if c.kind.isLiteral then
    bump
  else
    refuse .expression

def guardCall (inner : Assembler) (context : Context) : Assemble NodeId := do
  let word ← bump
  let opening ← expect .lparen
  let value ← inner.expression context
  let comma ← expect .comma
  let replacement ← inner.expression context
  let closing ← expect .rparen
  node context.wrapper [word, opening, value, comma, replacement, closing]

def bracketed (inner : Assembler) (context : Context) : Assemble NodeId := do
  let opening ← bump
  let expression ← inner.expression context
  let closing ← expect .rparen
  node context.wrapper [opening, expression, closing]

def wrapped (context : Context) (operand : Assemble NodeId) : Assemble NodeId := do
  let content ← operand
  let statement ← node .statement [content]
  node context.wrapper [statement]

def primary (inner : Assembler) (context : Context) : Assemble NodeId := do
  let c ← here
  if c.isAt (.keyword .isNull) then guardCall inner context
  else if c.startsSubquery then wrapped context (subquery inner)
  else if c.isAt .lparen then bracketed inner context
  else wrapped context (operand inner context)

/-- An operand behind operators, at most one for each of the given tokens. The node of an operator is
made when what is behind it is there. -/
def ledWithin (context : Context) (operator : TokenKind) (operand : Assemble NodeId) :
    List Token → Assemble NodeId
  | [] => operand
  | _ :: ahead => do
    if (← here).isAt operator then
      let op ← bump
      let inmost ← ledWithin context operator operand ahead
      node context.wrapper [op, inmost]
    else
      operand

def led (context : Context) (operator : TokenKind) (operand : Assemble NodeId) :
    Assemble NodeId := do
  ledWithin context operator operand (← here).following

/-- Goes on behind an operand while there is an operator, at most once for each of the given tokens.
The node of an operator is made before the next operator is looked for. -/
def chainWithin (context : Context) (isOperator : TokenKind → Bool) (operand : Assemble NodeId) :
    List Token → NodeId → Assemble NodeId
  | [], left => return left
  | _ :: ahead, left => do
    if isOperator (← here).kind then
      let op ← bump
      let right ← operand
      let joined ← node context.wrapper [left, op, right]
      chainWithin context isOperator operand ahead joined
    else
      return left

def chain (context : Context) (isOperator : TokenKind → Bool) (operand : Assemble NodeId) :
    Assemble NodeId := do
  let first ← operand
  chainWithin context isOperator operand (← here).following first

def factor (inner : Assembler) (context : Context) : Assemble NodeId :=
  led context .minus (primary inner context)

def term (inner : Assembler) (context : Context) : Assemble NodeId :=
  chain context (fun kind => kind = .star || kind = .slash) (factor inner context)

def additive (inner : Assembler) (context : Context) : Assemble NodeId :=
  chain context (fun kind => kind = .plus || kind = .minus) (term inner context)

def inList (inner : Assembler) (context : Context) : Assemble NodeId := do
  if (← here).startsSubquery then
    subquery inner
  else
    let opening ← expect .lparen
    let items ← commaSeparated (one (inner.expression context))
    let closing ← expect .rparen
    node .expressionList (opening :: items ++ [closing])

def membership (inner : Assembler) (context : Context) : Assemble (List NodeId) := do
  let c ← here
  if c.isAt (.keyword .in_) then
    let word ← bump
    let hierarchy ← eat (·.isAtWord .hierarchy)
    let list ← inList inner context
    return word :: hierarchy ++ [list]
  else if c.isAt (.keyword .between) then
    let word ← bump
    let low ← additive inner context
    let link ← keyword .and
    let high ← additive inner context
    return [word, low, link, high]
  else
    let word ← bump
    let pattern ← additive inner context
    return [word, pattern]

def test (inner : Assembler) (context : Context) : Assemble (List NodeId) := do
  let c ← here
  if c.isAtWord .refs && c.nextKind = .identifier then
    let word ← bump
    let table ← dotted .table
    return [word, table]
  else if c.kind.isComparison then
    let operator ← bump
    let right ← additive inner context
    return [operator, right]
  else if c.isAt (.keyword .is) then
    let word ← bump
    let negation ← eat (·.isAt (.keyword .not))
    let null ← keyword .null
    return word :: negation ++ [null]
  else if c.isAt (.keyword .not) && Grammar.isMembership c.nextKind then
    let negation ← bump
    let rest ← membership inner context
    return negation :: rest
  else if Grammar.isMembership c.kind then
    membership inner context
  else
    return []

def predicate (inner : Assembler) (context : Context) : Assemble NodeId := do
  let value ← additive inner context
  let said ← test inner context
  if said.isEmpty then return value else node context.wrapper (value :: said)

def negation (inner : Assembler) (context : Context) : Assemble NodeId :=
  led context (.keyword .not) (predicate inner context)

def conjunction (inner : Assembler) (context : Context) : Assemble NodeId :=
  chain context (· = .keyword .and) (negation inner context)

def expression (inner : Assembler) (context : Context) : Assemble NodeId :=
  chain context (· = .keyword .or) (conjunction inner context)

end Assemble

end NullGuard
