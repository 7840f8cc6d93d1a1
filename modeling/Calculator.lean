import Calculator.Main
import Calculator.Proofs.Literal
import Calculator.Proofs.Scan
import Calculator.Proofs.ParseTree
import Calculator.Proofs.Chain
import Calculator.Proofs.ChainValue
import Calculator.Proofs.Acceptance
import Calculator.Proofs.ResultText
import Calculator.Proofs.SessionRun
import Calculator.Proofs.BufferShape
import Calculator.Proofs.EqualsFailure
import Calculator.Proofs.FloatFinite
import Calculator.Proofs.DivisionByZero
import Calculator.Proofs.Recording
import Calculator.Proofs.TraceSteps
import Calculator.Proofs.Rounding
import Calculator.Proofs.Reread
import Calculator.Proofs.FloatWord
import Calculator.Proofs.ResultValue
import Calculator.Proofs.RepeatedEquals
import Calculator.Proofs.FrontEnds
import Calculator.Proofs.TypedText
import Calculator.Proofs.WrappedText
import Calculator.Proofs.Moments
import Calculator.Proofs.HistoryItems
import Calculator.Proofs.HistoryScroll
import Calculator.Proofs.Redraws
import Calculator.Proofs.PrintedLines
import Calculator.Proofs.Transcript
import Calculator.Proofs.StackedOperators
import Calculator.Proofs.MissingOperand
import Calculator.Proofs.GenuineSteps
import Calculator.Proofs.WrappedLines
import Calculator.Proofs.FewestLines
import Calculator.Proofs.ScreenCells
import Calculator.Proofs.HistoryRows
import Calculator.Proofs.ItemWidth
import Calculator.Proofs.WiderLines
import Calculator.Proofs.TokenSpans
import Calculator.Proofs.FloatExact
import Calculator.Proofs.TrimmedZeros
import Calculator.Proofs.CanonicalResult
import Calculator.Proofs.DetailedReport
import Calculator.Proofs.FoldedLines
import Calculator.Proofs.HelpEnd
import Calculator.Proofs.HistoryPaging
import Calculator.Proofs.Overflow
import Calculator.Proofs.DivisionFlag
import Calculator.Proofs.SpacedWords
import Calculator.Proofs.Cursor
import Calculator.Proofs.BoundedStacks
