import Workflow.Main
import Workflow.Schedule.Cache
import Workflow.Proofs.Schedule.CanFire
import Workflow.Expr.Printer
import Workflow.Outputs
import Workflow.Proofs.Schedule.Forecast
import Workflow.Proofs.Schedule.Grammar
import Workflow.Proofs.Schedule.RoundTrip
import Workflow.Proofs.Schedule.Checked
import Workflow.Proofs.Schedule.Cache
import Workflow.Proofs.Eval.CallFree
import Workflow.Proofs.Eval.Callbacks
import Workflow.Proofs.Eval.CutShort
import Workflow.Proofs.Eval.Ending
import Workflow.Proofs.Evaluate
import Workflow.Proofs.Resolve.QuotedKey
import Workflow.Proofs.UnnamedRoots
import Workflow.Proofs.Json.AsExpression
import Workflow.Proofs.Expr.Texts
import Workflow.Proofs.Expr.TextsRead
import Workflow.Proofs.Eval.Fitting
import Workflow.Proofs.Eval.Ensures
import Workflow.Proofs.Eval.FittingCalls
import Workflow.Proofs.Eval.FittingRun
import Workflow.Proofs.FittingOutcome
import Workflow.Proofs.Eval.Size
import Workflow.Proofs.Eval.PayingCalls
import Workflow.Proofs.Eval.PayingRun
import Workflow.Proofs.PaidOutcome
import Workflow.Proofs.Outputs.Writes
import Workflow.Proofs.Outputs.Precedence
import Workflow.Proofs.Eval.Dispatch
import Workflow.Proofs.Time.DateTimeText
import Workflow.Proofs.Schedule.Cadence
import Workflow.Proofs.Schedule.SimpleMode
import Workflow.Proofs.Schedule.FieldByField
import Workflow.Proofs.Schedule.Stored
import Workflow.Proofs.Schedule.Described
import Workflow.Proofs.Path.Composition
import Workflow.Proofs.Reference.Glued
import Workflow.Proofs.Expr.Screened
import Workflow.Proofs.Expr.Hole
import Workflow.Proofs.Eval.SkippedLinks
import Workflow.Proofs.Eval.Sorting
import Workflow.Proofs.Eval.Shallow
import Workflow.Proofs.Eval.AtDepth
import Workflow.Proofs.Eval.ShallowRun
import Workflow.Proofs.Json.Nesting
import Workflow.Proofs.ShallowOutcome
import Workflow.Proofs.Eval.Equality
import Workflow.Proofs.Eval.TimeOrder
import Workflow.Proofs.Eval.UriEscapes
import Workflow.Proofs.Eval.StringSearch
import Workflow.Proofs.Eval.TimeText
import Workflow.Proofs.Eval.UnitBounds
import Workflow.Proofs.Eval.Durations
import Workflow.Proofs.ItemOutcome
import Workflow.Proofs.Time.OffsetText
import Workflow.Proofs.Time.WallTime
import Workflow.Proofs.Number.NumericText
import Workflow.Proofs.Eval.RadixText
import Workflow.Proofs.Expr.Progress
import Workflow.Proofs.Eval.Balance
import Workflow.Proofs.Eval.Search
