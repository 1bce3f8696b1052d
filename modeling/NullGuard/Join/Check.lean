import NullGuard.Event
import NullGuard.Join.Guard
import NullGuard.Join.Scope
import NullGuard.Text.Lower

/-!
# The check of a join

A join is checked by looking for references to the aliases that it makes nullable in the regions of
its query. Each reference outside a call of `ISNULL` is kept once, and together they are one
finding.
-/

namespace NullGuard

/-- What is checked and how it is told. -/
structure Config where
  /-- Look into the select list. -/
  selectList : Bool := true
  /-- Look into the condition of `WHERE`. -/
  whereClause : Bool := true
  /-- Look into the conditions of the other joins of the same source. -/
  siblingJoins : Bool := true
  /-- Add a line on how to mend a finding. -/
  help : Bool := true
deriving DecidableEq

namespace Tree

/-- The regions to look into for a join of a query, each with the node that it starts from. -/
def regions (tree : Tree) (config : Config) (join query : NodeId) : List (Region × NodeId) :=
  let select := if config.selectList then (tree.selectList? query).toList else []
  let filter := if config.whereClause then (tree.whereExpression? query).toList else []
  let siblings := if config.siblingJoins then tree.siblingJoins join else []
  select.map (.select, ·) ++ filter.map (.filter, ·) ++
    (siblings.filterMap tree.joinExpression?).map (.join, ·)

/-- What is found out about a candidate, if it refers to the alias. -/
def reference? (tree : Tree) (name : String) (region : Region) (column : NodeId) : Option Event :=
  match tree.tableAlias? column with
  | none => none
  | some table =>
    if Text.sameIgnoringCase table name then
      if tree.isGuarded region column then some (.guarded column)
      else some (.unguarded column region)
    else
      none

/-- What is found out about an alias in a region. -/
def references (tree : Tree) (name : String) (region : Region) (root : NodeId) : List Event :=
  (tree.guardsPassed region root).map .guardPassed ++
    (tree.candidates region root).filterMap (tree.reference? name region)

/-- What is found out about an alias of a join. -/
def aliasTrail (tree : Tree) (config : Config) (join : NodeId) (name : String) : List Event :=
  match tree.enclosingQuery? join with
  | none => [.joinOutsideQuery name]
  | some query =>
    (tree.regions config join query).flatMap fun (region, root) =>
      tree.references name region root

end Tree

/-- The unguarded columns met so far, and what is told of it. -/
structure Trail where
  columns : List NodeId := []
  events : List Event := []

/-- Goes on by an event. A column that was met before is not told again. -/
def Trail.add (trail : Trail) (event : Event) : Trail :=
  match event with
  | .unguarded column _ =>
    if trail.columns.contains column then trail
    else ⟨trail.columns ++ [column], trail.events ++ [event]⟩
  | _ => { trail with events := trail.events ++ [event] }

/-- What the check of a join gives. -/
structure JoinReview where
  aliases : List String
  /-- The unguarded columns. -/
  columns : List NodeId
  events : List Event

namespace Tree

def reviewJoin (tree : Tree) (config : Config) (join : NodeId) :
    Except MisplacedJoin JoinReview := do
  let aliases ← tree.nullableAliases join
  let trail := (aliases.flatMap (tree.aliasTrail config join)).foldl Trail.add {}
  let start := Event.checkingJoin join (tree.joinKind? join) aliases
  return ⟨aliases, trail.columns, start :: trail.events⟩

/-- The finding about unguarded columns of a join. -/
def finding (tree : Tree) (config : Config) (join : NodeId) (aliases : List String)
    (columns : List NodeId) : Diagnostic :=
  let names := ", ".intercalate (aliases.map fun name => "`" ++ name ++ "`")
  let kind := ((tree.joinKind? join).map JoinKind.display).getD ""
  { Diagnostic.ofRule .unguardedJoinFields
      ("fields of " ++ names ++ " may be NULL after this " ++ kind ++
        " join and are used without ISNULL") with
    labels := ⟨.primary, tree.span join, "outer join"⟩ ::
      (columns.filter (· ≠ join)).map fun column => ⟨.secondary, tree.span column, "+1"⟩
    help := if config.help then some "wrap each marked field in ISNULL(field, default)" else none }

def reviewFinding? (tree : Tree) (config : Config) (join : NodeId) (review : JoinReview) :
    Option Diagnostic :=
  if review.columns.isEmpty then none
  else some (tree.finding config join review.aliases review.columns)

/-- The finding about a join, if there is one. -/
def checkJoin (tree : Tree) (config : Config) (join : NodeId) :
    Except MisplacedJoin (Option Diagnostic) :=
  (tree.reviewJoin config join).map (tree.reviewFinding? config join)

end Tree

end NullGuard
