import NullGuard.Assembly.Expression
import NullGuard.Query.Statement

namespace NullGuard

namespace Assemble

def aliasClause : Assemble (List NodeId) := do
  let c ← here
  if c.isAt (.keyword .as) then
    let word ← bump
    let name ← expectAs .identifier .aliasName
    one (node .aliasClause [word, name])
  else if c.isAt .identifier then
    let name ← bump
    one (node .aliasClause [name])
  else
    return []

/-- The dots and the names up to a star, in at most one round for each of the given tokens. After a
dot the star is looked for once more, since it stands in the place of a name. -/
def starPathWithin : List Token → Assemble (List NodeId)
  | [] => return []
  | _ :: ahead => do
    if (← here).isAt .star then
      return []
    else
      let dot ← bump
      let names ← readIf (!·.isAt .star) (one name)
      let more ← starPathWithin ahead
      return dot :: names ++ more

def qualifiedStar : Assemble (List NodeId) := do
  let first ← bump
  let more ← starPathWithin (← here).rest
  let star ← bump
  return first :: more ++ [star]

def selectedField (inner : Assembler) : Assemble NodeId := do
  let c ← here
  if c.isAt .star then
    let star ← bump
    node .selectedField [star]
  else if c.isAtQualifiedStar then
    let parts ← qualifiedStar
    node .selectedField parts
  else
    let expression ← inner.expression .select
    let given ← aliasClause
    node .selectedField (expression :: given)

def limitation : Assemble (List NodeId) := do
  if (← here).isAt (.keyword .top) then
    let word ← bump
    let count ← expectAs .number .rowCount
    return [word, count]
  else
    one bump

def limitations : Assemble (List NodeId) := do
  let items ← readWhile (·.isAtAny [.keyword .allowed, .keyword .distinct, .keyword .top]) limitation
  if items.isEmpty then return [] else one (node .limitations items)

def selectList (inner : Assembler) : Assemble NodeId := do
  let fields ← commaSeparated (one (selectedField inner))
  node .selectList fields

def temporaryTable : Assemble (List NodeId) := do
  let word ← bump
  let name ← expectAs .identifier .temporaryTableName
  one (node .temporaryTable [word, name])

def dataSources (inner : Assembler) : Assemble (List NodeId) := do
  let word ← bump
  let sources ← commaSeparated (one inner.source)
  one (node .dataSources (word :: sources))

def whereClause (inner : Assembler) : Assemble (List NodeId) := do
  let word ← bump
  let condition ← inner.expression .filter
  let expression ← node .whereExpression [condition]
  one (node .whereClause [word, expression])

def byWord : Assemble NodeId :=
  require (·.isAtAny [.keyword .by_, .keyword .on]) (.token (.keyword .by_))

def groupBy (inner : Assembler) : Assemble (List NodeId) := do
  let word ← bump
  let link ← byWord
  let keys ← commaSeparated (one (inner.expression .clause))
  one (node .groupBy (word :: link :: keys))

def having (inner : Assembler) : Assemble (List NodeId) := do
  let word ← bump
  let condition ← inner.expression .clause
  one (node .having [word, condition])

def orderKey (inner : Assembler) : Assemble (List NodeId) := do
  let key ← inner.expression .clause
  let direction ← eat (·.isAtAny [.keyword .asc, .keyword .desc])
  return key :: direction

def orderBy (inner : Assembler) : Assemble (List NodeId) := do
  let word ← bump
  let link ← byWord
  let keys ← commaSeparated (orderKey inner)
  one (node .orderBy (word :: link :: keys))

def query (inner : Assembler) : Assemble NodeId := do
  let word ← keyword .select
  let limits ← limitations
  let fields ← selectList inner
  let into ← readIf (·.isAt (.keyword .into)) temporaryTable
  let sources ← readIf (·.isAt (.keyword .from_)) (dataSources inner)
  let filter ← readIf (·.isAt (.keyword .where_)) (whereClause inner)
  let groups ← readIf (·.isAt (.keyword .group)) (groupBy inner)
  let having ← readIf (·.isAt (.keyword .having)) (having inner)
  let order ← readIf (·.isAt (.keyword .order)) (orderBy inner)
  let kind := if into.isEmpty then NodeKind.query else NodeKind.temporaryTableQuery
  node kind (word :: limits ++ fields :: into ++ sources ++ filter ++ groups ++ having ++ order)

def unionMember (inner : Assembler) : Assemble (List NodeId) := do
  let all ← eat (·.isAt (.keyword .all))
  let next ← query inner
  return all ++ [next]

def statement (inner : Assembler) : Assemble NodeId := do
  let first ← query inner
  if (← here).isAt (.keyword .union) then
    let more ← readBehind (.keyword .union) (unionMember inner)
    node .union (first :: more)
  else
    return first

/-- The arguments of a table up to the closing bracket, in at most one round for each of the given
tokens. A round takes a comma, or an argument that a comma or the bracket stands behind. -/
def tableArgumentsWithin (inner : Assembler) : List Token → Assemble (List NodeId)
  | [] => return []
  | _ :: ahead => do
    let c ← here
    if c.isAt .rparen then
      return []
    else if c.isAt .comma then
      let comma ← bump
      let more ← tableArgumentsWithin inner ahead
      return comma :: more
    else
      let argument ← inner.expression .clause
      if (← here).isAtAny [.comma, .rparen] then
        let more ← tableArgumentsWithin inner ahead
        return argument :: more
      else
        refuse .argumentEnd

def tableArguments (inner : Assembler) : Assemble (List NodeId) := do
  let opening ← bump
  let arguments ← tableArgumentsWithin inner (← here).rest
  let closing ← bump
  return opening :: arguments ++ [closing]

def table (inner : Assembler) : Assemble NodeId := do
  let first ← bump
  let more ← path
  let arguments ← readIf (·.isAt .lparen) (tableArguments inner)
  node .table (first :: more ++ arguments)

def bracketedSource (inner : Assembler) : Assemble (List NodeId) := do
  let opening ← bump
  let source ← inner.source
  let closing ← expect .rparen
  return [opening, source, closing]

def sourceBody (inner : Assembler) : Assemble (List NodeId) := do
  let c ← here
  if c.startsSubquery then one (subquery inner)
  else if c.isAt .lparen then bracketedSource inner
  else if c.isAt .parameter then one bump
  else if c.isAt .identifier then one (table inner)
  else refuse .source

/-- The words up to `JOIN`. The word for the side can be left out, and so can `OUTER`. -/
def joinWords : Assemble (List NodeId) := do
  let side ← eat (·.isAtAny [.keyword .inner, .keyword .left, .keyword .right, .keyword .full])
  let outer ← eat (·.isAt (.keyword .outer))
  let word ← keyword .join
  return side ++ outer ++ [word]

def join (inner : Assembler) : Assemble (List NodeId) := do
  let words ← joinWords
  let source ← inner.source
  let on ← keyword .on
  let condition ← inner.expression .join
  let expression ← node .joinExpression [condition]
  one (node .join (words ++ [source, on, expression]))

def source (inner : Assembler) : Assemble NodeId := do
  let body ← sourceBody inner
  let given ← aliasClause
  let joins ← readWhile (·.kind.startsJoin) (join inner)
  node .dataSource (body ++ given ++ joins)

def nested : Nat → Assembler
  | 0 => ⟨fun _ => refuse .expression, refuse .expression, refuse .source⟩
  | depth + 1 =>
    { expression := fun context bench => expression (nested depth) context bench
      statement := fun bench => statement (nested depth) bench
      source := fun bench => source (nested depth) bench }

/-- Reads a statement that is on the workbench. -/
def wholeStatement : Assemble NodeId := fun bench =>
  (nested bench.cursor.rest.length).statement bench

end Assemble

end NullGuard
