import ThreeAddress.Main
import ThreeAddress.Session
import ThreeAddress.Proofs.Outcome
import ThreeAddress.Proofs.Resolution
import ThreeAddress.Proofs.Verified
import ThreeAddress.Proofs.Typing
import ThreeAddress.Proofs.Transition
import ThreeAddress.Proofs.TypedStack
import ThreeAddress.Proofs.TypedAccess
import ThreeAddress.Proofs.Preservation
import ThreeAddress.Proofs.Safety
import ThreeAddress.Proofs.DeclaredTypes
import ThreeAddress.Proofs.Rounding
import ThreeAddress.Proofs.NumberText
import ThreeAddress.Proofs.TokenText
import ThreeAddress.Proofs.LineTokens
import ThreeAddress.Proofs.LineText
import ThreeAddress.Proofs.PrintableProgram
import ThreeAddress.Proofs.RoundTrip
import ThreeAddress.Proofs.WellFormed
import ThreeAddress.Proofs.Checks
import ThreeAddress.Proofs.Acceptance
import ThreeAddress.Proofs.VerifiedLines
import ThreeAddress.Proofs.Formatting
import ThreeAddress.Proofs.ArrayLayout
import ThreeAddress.Proofs.ArrayMemory
import ThreeAddress.Proofs.CallsInProgress
import ThreeAddress.Proofs.CallEffect
import ThreeAddress.Proofs.Relocation
import ThreeAddress.Proofs.AlikeCalls
import ThreeAddress.Proofs.CallContext
import ThreeAddress.Proofs.OperandFaults
import ThreeAddress.Proofs.RunReport
import ThreeAddress.Proofs.ResourceLimits
import ThreeAddress.Proofs.Unlowering
import ThreeAddress.Proofs.StoredTexts
import ThreeAddress.Proofs.Correspondence
import ThreeAddress.Proofs.Renumbering
import ThreeAddress.Proofs.RenumberedFrames
import ThreeAddress.Proofs.RenumberedRuns
import ThreeAddress.Proofs.DefinitionOrder
import ThreeAddress.Proofs.SessionHistory
import ThreeAddress.Proofs.BlockGrammar
import ThreeAddress.Proofs.FailedSteps
import ThreeAddress.Proofs.MemorySafety
import ThreeAddress.Proofs.PreciseFailures
import ThreeAddress.Proofs.BudgetedRuns
import ThreeAddress.Proofs.FailingOutput
import ThreeAddress.Proofs.FlatReading
import ThreeAddress.Proofs.TrailingBlanks
import ThreeAddress.Proofs.FirstSyntaxError
import ThreeAddress.Proofs.NumberLiterals
import ThreeAddress.Proofs.TokenSpacing
import ThreeAddress.Proofs.WrittenValues
