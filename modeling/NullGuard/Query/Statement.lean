import NullGuard.Query.Expression

namespace NullGuard

/-- Whether the tokens behind a name go on as a path that ends with a star. -/
def Token.leadToStar : List Token → Bool
  | dot :: next :: later =>
    dot.kind = .dot && (next.kind = .star || (next.kind.isName && leadToStar later))
  | _ => false

/-- Whether the cursor is on a name with a path behind it that ends with a star. -/
def Cursor.isAtQualifiedStar (c : Cursor) : Bool :=
  c.isAt .identifier && Token.leadToStar c.following

namespace Grammar

open Parse

/-- The name that a field or a source is given, with `AS` or without. -/
def aliasClause : Parse (List Phrase) := do
  let c ← get
  if c.isAt (.keyword .as) then
    let word ← keyword .as
    let name ← expectAs .identifier .aliasName
    return [.node .aliasClause [word, name]]
  else if c.isAt .identifier then
    let name ← expect .identifier
    return [.node .aliasClause [name]]
  else
    return []

/-- All fields of a source, `name.*`. -/
def qualifiedStar : Parse (List Phrase) := do
  let first ← expect .identifier
  let names ← manyLed (fun c => c.isAt .dot && c.nextKind ≠ .star) fun dot => do
    let name ← name
    return [.leaf dot, name]
  let dot ← expect .dot
  let star ← expect .star
  return first :: names.flatten ++ [dot, star]

/-- An item of a select list. -/
def selectedField (inner : Nested) : Parse Phrase := do
  let c ← get
  if c.isAt .star then
    return .node .selectedField [← expect .star]
  else if c.isAtQualifiedStar then
    return .node .selectedField (← qualifiedStar)
  else
    let expression ← inner.expression .select
    let given ← aliasClause
    return .node .selectedField (expression :: given)

/-- A limit on the rows of a query, by the word that it starts with. -/
def limitation (word : Token) : Parse (List Phrase) := do
  if word.kind = .keyword .top then
    let count ← expectAs .number .rowCount
    return [.leaf word, count]
  else
    return [.leaf word]

/-- The limits on the rows of a query, in any order. -/
def limitations : Parse (List Phrase) := do
  let items ← manyLed (·.isAtAny [.keyword .allowed, .keyword .distinct, .keyword .top]) limitation
  return if items.isEmpty then [] else [.node .limitations items.flatten]

def selectList (inner : Nested) : Parse Phrase := do
  return .node .selectList (← commaSeparated (one (selectedField inner)))

def temporaryTable (word : Token) : Parse (List Phrase) := do
  let name ← expectAs .identifier .temporaryTableName
  return [.node .temporaryTable [.leaf word, name]]

def dataSources (inner : Nested) (word : Token) : Parse (List Phrase) := do
  let sources ← commaSeparated (one inner.source)
  return [.node .dataSources (.leaf word :: sources)]

def whereClause (inner : Nested) (word : Token) : Parse (List Phrase) := do
  let condition ← inner.expression .filter
  return [.node .whereClause [.leaf word, .node .whereExpression [condition]]]

/-- The word `BY`, also spelled like `ON`. -/
def byWord : Parse Phrase :=
  require (·.isAtAny [.keyword .by_, .keyword .on]) (.token (.keyword .by_))

def groupBy (inner : Nested) (word : Token) : Parse (List Phrase) := do
  let link ← byWord
  let keys ← commaSeparated (one (inner.expression .clause))
  return [.node .groupBy (.leaf word :: link :: keys)]

def having (inner : Nested) (word : Token) : Parse (List Phrase) := do
  let condition ← inner.expression .clause
  return [.node .having [.leaf word, condition]]

def orderKey (inner : Nested) : Parse (List Phrase) := do
  let key ← inner.expression .clause
  let direction ← optional (·.isAtAny [.keyword .asc, .keyword .desc])
  return key :: direction

def orderBy (inner : Nested) (word : Token) : Parse (List Phrase) := do
  let link ← byWord
  let keys ← commaSeparated (orderKey inner)
  return [.node .orderBy (.leaf word :: link :: keys)]

/-- A single query with its clauses. -/
def query (inner : Nested) : Parse Phrase := do
  let word ← keyword .select
  let limits ← limitations
  let fields ← selectList inner
  let into ← optionalLed (·.isAt (.keyword .into)) temporaryTable
  let sources ← optionalLed (·.isAt (.keyword .from_)) (dataSources inner)
  let filter ← optionalLed (·.isAt (.keyword .where_)) (whereClause inner)
  let groups ← optionalLed (·.isAt (.keyword .group)) (groupBy inner)
  let having ← optionalLed (·.isAt (.keyword .having)) (having inner)
  let order ← optionalLed (·.isAt (.keyword .order)) (orderBy inner)
  let kind := if into.isEmpty then NodeKind.query else NodeKind.temporaryTableQuery
  return .node kind
    (word :: limits ++ fields :: into ++ sources ++ filter ++ groups ++ having ++ order)

def unionMember (inner : Nested) : Parse (List Phrase) := do
  let all ← optional (·.isAt (.keyword .all))
  let next ← query inner
  return all ++ [next]

/-- A query, or queries joined by `UNION`. -/
def statement (inner : Nested) : Parse Phrase := do
  let first ← query inner
  let more ← manyBehind (.keyword .union) (unionMember inner)
  return if more.isEmpty then first else .node .union (first :: more)

/-- An argument of a table. It can be left out before a comma and at the end. -/
def tableArgument (inner : Nested) : Parse (List Phrase) := do
  if (← get).isAtAny [.comma, .rparen] then return [] else one (inner.expression .clause)

def tableArguments (inner : Nested) (opening : Token) : Parse (List Phrase) := do
  let arguments ← commaSeparated (tableArgument inner)
  let closing ← expectAs .rparen .argumentEnd
  return .leaf opening :: arguments ++ [closing]

def table (inner : Nested) : Parse Phrase := do
  let first ← expect .identifier
  let more ← path
  let arguments ← optionalLed (·.isAt .lparen) (tableArguments inner)
  return .node .table (first :: more ++ arguments)

def bracketedSource (inner : Nested) : Parse (List Phrase) := do
  let opening ← expect .lparen
  let source ← inner.source
  let closing ← expect .rparen
  return [opening, source, closing]

/-- What a source reads from. -/
def sourceBody (inner : Nested) : Parse (List Phrase) := do
  let c ← get
  if c.startsSubquery then one (subquery inner)
  else if c.isAt .lparen then bracketedSource inner
  else if c.isAt .identifier then one (table inner)
  else one (expectAs .parameter .source)

/-- The words up to `JOIN`, by the first of them. -/
def joinWords (first : Token) : Parse (List Phrase) := do
  if first.kind = .keyword .join then
    return [.leaf first]
  else
    let outer ← optional (·.isAt (.keyword .outer))
    let word ← keyword .join
    return .leaf first :: outer ++ [word]

/-- A join with its source and its condition, by its first word. -/
def join (inner : Nested) (first : Token) : Parse Phrase := do
  let words ← joinWords first
  let source ← inner.source
  let on ← keyword .on
  let condition ← inner.expression .join
  return .node .join (words ++ [source, on, .node .joinExpression [condition]])

/-- A source with its alias and the joins that hang off it. -/
def source (inner : Nested) : Parse Phrase := do
  let body ← sourceBody inner
  let given ← aliasClause
  let joins ← manyLed (·.kind.startsJoin) (join inner)
  return .node .dataSource (body ++ given ++ joins)

/-- The readers for text that is nested less deep than given. -/
def nested : Nat → Nested
  | 0 => ⟨fun _ => refuse .expression, refuse .expression, refuse .source⟩
  | depth + 1 =>
    { expression := fun context c => expression (nested depth) context c
      statement := fun c => statement (nested depth) c
      source := fun c => source (nested depth) c }

end Grammar

/-- Reads a statement. Each level of nesting takes a token, so the tokens ahead bound the depth. -/
def Parse.statement : Parse Phrase := fun c => (Grammar.nested c.rest.length).statement c

end NullGuard
