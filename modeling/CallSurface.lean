import CallSurface.Main
import CallSurface.Program
import CallSurface.Proofs.Fragmentation
import CallSurface.Proofs.Conservation
import CallSurface.Proofs.CleanInput
import CallSurface.Proofs.DecimalNotation
import CallSurface.Proofs.IntegerRoundTrip
import CallSurface.Proofs.BitPattern
import CallSurface.Proofs.FloatRoundTrip
import CallSurface.Proofs.TypedSurface
import CallSurface.Proofs.HeapHistory
import CallSurface.Proofs.OutputIndependence
import CallSurface.Proofs.LineInput
import CallSurface.Proofs.IntegerCast
import CallSurface.Proofs.ExactValue
import CallSurface.Proofs.Division
import CallSurface.Proofs.FloatPrecision
import CallSurface.Proofs.OrderedCast
import CallSurface.Proofs.LongestPrefix
import CallSurface.Proofs.DecimalGrammar
import CallSurface.Proofs.FloatLiteral
import CallSurface.Proofs.CommandGrammar
import CallSurface.Proofs.Prototype
import CallSurface.Proofs.CommandOutcome
import CallSurface.Proofs.CorrectRounding
import CallSurface.Proofs.ScannedDecimal
import CallSurface.Proofs.FloatText
import CallSurface.Proofs.Truncation
import CallSurface.Proofs.FloatCast
import CallSurface.Proofs.FloatArithmetic
import CallSurface.Proofs.FloatRemainder
import CallSurface.Proofs.Shift
import CallSurface.Proofs.Comparison
import CallSurface.Proofs.CommandSpelling
import CallSurface.Proofs.SignatureText
