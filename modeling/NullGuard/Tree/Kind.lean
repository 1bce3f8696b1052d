import NullGuard.Token.Kind

/-!
# Node kinds

What a node of a query tree is. Expressions are wrapped by the place they stand in: the select
list, the `WHERE` clause, a join condition, or another clause. These wrappers nest as operators do,
and a single operand is a `statement` inside one of them.
-/

namespace NullGuard

/-- The kind of a node. -/
inductive NodeKind where
  /-- Statements separated by semicolons. -/
  | package
  | query
  /-- A query whose rows go into a temporary table. -/
  | temporaryTableQuery
  | union
  | temporaryTable
  | limitations
  | selectList
  | selectedField
  | dataSources
  /-- A table, parameter, subquery or source in brackets, with its alias and its joins. -/
  | dataSource
  | table
  | subquery
  /-- The name that a field or a source is given. -/
  | aliasClause
  | join
  | joinExpression
  | whereClause
  | whereExpression
  | groupBy
  | having
  | orderBy
  | selectStatement
  | whereStatement
  | joinStatement
  | clauseStatement
  /-- A single operand. -/
  | statement
  | column
  | functionCall
  | caseExpression
  | expressionList
  /-- A single token. -/
  | terminal (kind : TokenKind)
deriving DecidableEq

namespace NodeKind

def display : NodeKind → String
  | package => "Package"
  | query => "Query"
  | temporaryTableQuery => "TemporaryTableMainQuery"
  | union => "Union"
  | temporaryTable => "TemporaryTable"
  | limitations => "Limitations"
  | selectList => "SelectList"
  | selectedField => "SelectedField"
  | dataSources => "DataSources"
  | dataSource => "DataSource"
  | table => "Table"
  | subquery => "Subquery"
  | aliasClause => "Alias"
  | join => "Join"
  | joinExpression => "JoinExpression"
  | whereClause => "Where"
  | whereExpression => "WhereExpression"
  | groupBy => "GroupBy"
  | having => "Having"
  | orderBy => "OrderBy"
  | selectStatement => "SelectStatement"
  | whereStatement => "WhereStatement"
  | joinStatement => "JoinStatement"
  | clauseStatement => "ClauseStatement"
  | statement => "Statement"
  | column => "Column"
  | functionCall => "FunctionCall"
  | caseExpression => "Case"
  | expressionList => "ExpressionList"
  | terminal kind => "terminal `" ++ kind.display ++ "`"

/-- Whether the kind wraps expressions. -/
def isBoundaryStatement : NodeKind → Bool
  | selectStatement | whereStatement | joinStatement | clauseStatement => true
  | _ => false

/-- Whether the kind owns a select list and a scope of aliases. -/
def isQuery : NodeKind → Bool
  | query | temporaryTableQuery => true
  | _ => false

/-- The token kind of a terminal. -/
def token? : NodeKind → Option TokenKind
  | terminal kind => some kind
  | _ => none

end NodeKind

/-- Which side of a join keeps its rows when nothing matches. -/
inductive JoinKind where
  | inner
  | left
  | right
  | full
deriving DecidableEq

def JoinKind.display : JoinKind → String
  | inner => "inner"
  | left => "left"
  | right => "right"
  | full => "full"

end NullGuard
