import Stacktrace.Environment
import Stacktrace.Event
import Stacktrace.Failure.Alike
import Stacktrace.Failure.Basic
import Stacktrace.Failure.Navigate
import Stacktrace.Failure.Walk
import Stacktrace.Failure.Walker
import Stacktrace.Frame.Basic
import Stacktrace.Frame.Reader
import Stacktrace.Frame.Scan
import Stacktrace.Proofs.AbridgedRows
import Stacktrace.Proofs.AlikeRows
import Stacktrace.Proofs.AlikeText
import Stacktrace.Proofs.BuilderCalls
import Stacktrace.Proofs.CanonicalFrames
import Stacktrace.Proofs.CursorAccount
import Stacktrace.Proofs.CutFrames
import Stacktrace.Proofs.DecodedLinks
import Stacktrace.Proofs.DescentSteps
import Stacktrace.Proofs.Descents
import Stacktrace.Proofs.ElisionCounts
import Stacktrace.Proofs.Elisions
import Stacktrace.Proofs.ErrorLines
import Stacktrace.Proofs.FrameGrammar
import Stacktrace.Proofs.FrameRules
import Stacktrace.Proofs.Legible
import Stacktrace.Proofs.LineCuts
import Stacktrace.Proofs.LineEnds
import Stacktrace.Proofs.Lineage
import Stacktrace.Proofs.MarkRows
import Stacktrace.Proofs.MessageEnds
import Stacktrace.Proofs.Navigation
import Stacktrace.Proofs.Normalise
import Stacktrace.Proofs.Numbered
import Stacktrace.Proofs.Numerals
import Stacktrace.Proofs.OpenStack
import Stacktrace.Proofs.Origins
import Stacktrace.Proofs.Outlines
import Stacktrace.Proofs.ParserSteps
import Stacktrace.Proofs.Places
import Stacktrace.Proofs.Recasts
import Stacktrace.Proofs.RenamedTransforms
import Stacktrace.Proofs.Renaming
import Stacktrace.Proofs.Reprint
import Stacktrace.Proofs.Reread
import Stacktrace.Proofs.RereadFrames
import Stacktrace.Proofs.Rethrow
import Stacktrace.Proofs.RowSteps
import Stacktrace.Proofs.Settled
import Stacktrace.Proofs.Snapshots
import Stacktrace.Proofs.Spellings
import Stacktrace.Proofs.Surrogates
import Stacktrace.Proofs.Survivors
import Stacktrace.Proofs.TextLines
import Stacktrace.Proofs.TracedText
import Stacktrace.Proofs.TrailingRuns
import Stacktrace.Proofs.TransformLinks
import Stacktrace.Proofs.TransformReread
import Stacktrace.Proofs.UnknownTypes
import Stacktrace.Proofs.ValueForms
import Stacktrace.Proofs.WalkedText
import Stacktrace.Proofs.WrittenRows
import Stacktrace.Resolver
import Stacktrace.Session.Address
import Stacktrace.Session.Basic
import Stacktrace.Text.AsciiCase
import Stacktrace.Text.Basic
import Stacktrace.Text.Blank
import Stacktrace.Text.Decimal
import Stacktrace.Text.Lines
import Stacktrace.Text.Quoted
import Stacktrace.Text.Slice
import Stacktrace.Text.Utf8
import Stacktrace.Trace.Codec
import Stacktrace.Trace.Descent
import Stacktrace.Trace.ElisionPattern
import Stacktrace.Trace.Error
import Stacktrace.Trace.Mark
import Stacktrace.Trace.OpenFailure
import Stacktrace.Trace.OpenTexts
import Stacktrace.Trace.Parser
import Stacktrace.Trace.Printer
import Stacktrace.Transform.Basic
import Stacktrace.Transform.Builder
import Stacktrace.Transform.Context
import Stacktrace.Transform.Rule
import Stacktrace.Value.Basic
import Stacktrace.Value.Failure
import Stacktrace.Value.Form
