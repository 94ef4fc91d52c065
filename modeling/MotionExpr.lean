import MotionExpr.Format.Session
import MotionExpr.Lint.Session
import MotionExpr.Main
import MotionExpr.Proofs.Fix.FixedTokens
import MotionExpr.Proofs.Fix.Simultaneous
import MotionExpr.Proofs.Format.Idempotence
import MotionExpr.Proofs.Format.OperatorTokens
import MotionExpr.Proofs.Format.Outcome
import MotionExpr.Proofs.Format.QuoteStyle
import MotionExpr.Proofs.Format.RangeEdits
import MotionExpr.Proofs.Format.SemicolonGroups
import MotionExpr.Proofs.Format.Wrapping
import MotionExpr.Proofs.Lint.Literals
import MotionExpr.Proofs.Token.Coverage
import MotionExpr.Proofs.Token.Literals
import MotionExpr.Proofs.Token.Rendering
import MotionExpr.Proofs.Token.Shape
import MotionExpr.Proofs.Format.Remasking
import MotionExpr.Proofs.Format.BracketPairs
import MotionExpr.Proofs.Format.PaddedLines
import MotionExpr.Proofs.Format.Comments
import MotionExpr.Proofs.Format.Reindented
import MotionExpr.Proofs.Format.SemicolonPlaces
import MotionExpr.Proofs.Format.SpacedAgain
import MotionExpr.Proofs.Format.CleanLines
import MotionExpr.Proofs.Format.OperatorSpaces
import MotionExpr.Proofs.Format.Placeholders
import MotionExpr.Proofs.Format.TypedIndent
import MotionExpr.Proofs.Lint.EditDistance
import MotionExpr.Proofs.Lint.LoopDepth
import MotionExpr.Proofs.Lint.LoopBodies
import MotionExpr.Proofs.Format.HeaderGrammar
import MotionExpr.Proofs.Fix.Naming
import MotionExpr.Proofs.Lint.DeclaredLine
import MotionExpr.Proofs.Command.CheckMode
import MotionExpr.Proofs.Command.UnreadableFile
import MotionExpr.Proofs.Command.LintReport
import MotionExpr.Proofs.Config.Faults
import MotionExpr.Proofs.Lint.Updates
import MotionExpr.Proofs.Format.Breaking
