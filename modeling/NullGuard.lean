import NullGuard.Assembly.Expression
import NullGuard.Assembly.Package
import NullGuard.Assembly.Statement
import NullGuard.Assembly.Workbench
import NullGuard.Diagnostic
import NullGuard.Event
import NullGuard.Join.Check
import NullGuard.Join.Guard
import NullGuard.Join.Nullable
import NullGuard.Join.Region
import NullGuard.Join.Scope
import NullGuard.Lint
import NullGuard.Main
import NullGuard.Query.Expression
import NullGuard.Query.Package
import NullGuard.Query.Parse
import NullGuard.Query.Phrase
import NullGuard.Query.Statement
import NullGuard.Report
import NullGuard.Rule
import NullGuard.Span
import NullGuard.Text.Capital
import NullGuard.Text.Hidden
import NullGuard.Text.Lower
import NullGuard.Text.Quoted
import NullGuard.Token.Basic
import NullGuard.Token.Cursor
import NullGuard.Token.Keyword
import NullGuard.Token.Kind
import NullGuard.Token.Piece
import NullGuard.Token.Scan
import NullGuard.Tree.Basic
import NullGuard.Tree.Builder
import NullGuard.Tree.Kind
import NullGuard.Tree.Walk
import NullGuard.Proofs.GrammarForms
import NullGuard.Proofs.FormLanguage
import NullGuard.Proofs.Readers
import NullGuard.Proofs.ReaderSoundness
import NullGuard.Proofs.FirstTokens
import NullGuard.Proofs.ReadBack
import NullGuard.Proofs.ReaderCompleteness
import NullGuard.Proofs.StatementCompleteness
import NullGuard.Proofs.Layout
import NullGuard.Proofs.Recovery
import NullGuard.Proofs.NodeShape
import NullGuard.Proofs.PackageTree
import NullGuard.Proofs.Acceptance
import NullGuard.Proofs.TreeShape
import NullGuard.Proofs.ExposedColumns
import NullGuard.Proofs.JoinExactness
import NullGuard.Proofs.LintWalk
import NullGuard.Proofs.PieceCuts
import NullGuard.Proofs.TextMending
import NullGuard.Proofs.PhraseMending
import NullGuard.Proofs.GuardedForms
import NullGuard.Proofs.MendedPackage
import NullGuard.Proofs.TreePairs
import NullGuard.Proofs.MendedTrees
import NullGuard.Proofs.Repair
import NullGuard.Proofs.Numbering
import NullGuard.Proofs.Replay
import NullGuard.Proofs.ReaderLockstep
import NullGuard.Proofs.PackageLockstep
import NullGuard.Proofs.AlikeTrees
import NullGuard.Proofs.FlaggedJoins
import NullGuard.Proofs.Indistinct
import NullGuard.Proofs.PackageFindings
import NullGuard.Proofs.Independence
import NullGuard.Proofs.JoinPlaces
import NullGuard.Proofs.ExpressionContexts
import NullGuard.Proofs.NestedQueries
import NullGuard.Proofs.TokenShapes
import NullGuard.Proofs.ScanPartition
import NullGuard.Proofs.LetterCase
import NullGuard.Proofs.RecasedTexts
import NullGuard.Proofs.BuilderRuns
import NullGuard.Proofs.FinishedTrees
import NullGuard.Proofs.LintOrder
import NullGuard.Proofs.NodeSpans
import NullGuard.Proofs.NestedSources
import NullGuard.Proofs.Precedence
import NullGuard.Proofs.GuardSearch
import NullGuard.Proofs.ScanChoice
import NullGuard.Proofs.TurnedParts
import NullGuard.Proofs.TurnedTrees
import NullGuard.Proofs.JoinSides
import NullGuard.Proofs.Rollbacks
import NullGuard.Proofs.AcyclicTrees
import NullGuard.Proofs.KeepingReaders
import NullGuard.Proofs.ViablePrefixes
import NullGuard.Proofs.UnboundedReaders
import NullGuard.Proofs.Progress
import NullGuard.Proofs.TreeNavigation
import NullGuard.Proofs.PrintedTokens
import NullGuard.Proofs.ReportPlaces
import NullGuard.Proofs.SpanOrder
import NullGuard.Proofs.FindingOrder
import NullGuard.Proofs.RegionSearches
import NullGuard.Proofs.QualifiedStars
import NullGuard.Proofs.GrammarLoops
import NullGuard.Proofs.Assembling
import NullGuard.Proofs.AssembledExpressions
import NullGuard.Proofs.AssembledStatements
import NullGuard.Proofs.AssembledPackages
