import Formula.Expr.Evaluate
import Formula.Expr.Reciprocal
import Formula.Main
import Formula.Number.Quantity
import Formula.Number.Text
import Formula.Numeral.Scan
import Formula.Parse.Source
import Formula.Reading
import Formula.RoundTrip
import Formula.Session.Basic
import Formula.Text.Blank
import Formula.Text.Printable
import Formula.Text.Quoted
import Formula.Text.Sorted
import Formula.Text.Word
import Formula.Tour
import Formula.Proofs.Grammar
import Formula.Proofs.Grouping
import Formula.Proofs.Agenda
import Formula.Proofs.Arrangement
import Formula.Proofs.Acceptance
import Formula.Proofs.Binary
import Formula.Proofs.DecimalForm
import Formula.Proofs.Munch
import Formula.Proofs.Scanning
import Formula.Proofs.NumberText
import Formula.Proofs.RoundTrip
import Formula.Proofs.Isolation
import Formula.Proofs.Patch
import Formula.Proofs.Graft
import Formula.Proofs.Outcome
import Formula.Proofs.Substitution
import Formula.Proofs.Viability
import Formula.Proofs.NormalForm
import Formula.Proofs.Minus
import Formula.Proofs.Juxtaposition
import Formula.Proofs.Faults
import Formula.Proofs.Segments
import Formula.Proofs.Layout
import Formula.Proofs.Dependence
import Formula.Proofs.PostorderText
import Formula.Proofs.Readability
import Formula.Proofs.Overflow
import Formula.Proofs.FirstFault
import Formula.Proofs.Division
import Formula.Proofs.Reciprocal
import Formula.Proofs.GeometricMean
import Formula.Proofs.MeanValue
import Formula.Proofs.Integral
import Formula.Proofs.IntegerText
import Formula.Proofs.WrittenTokens
import Formula.Proofs.Stray
import Formula.Proofs.Entries
import Formula.Proofs.Invariant
import Formula.Proofs.Moves
import Formula.Proofs.Pattern
import Formula.Proofs.Rounds
