import NewtonRaphson.Text.Blank
import NewtonRaphson.DenseMatrix.Access
import NewtonRaphson.DenseMatrix.Comparison
import NewtonRaphson.DenseMatrix.Printer
import NewtonRaphson.DenseMatrix.Reading
import NewtonRaphson.Journal.Printer
import NewtonRaphson.Solve
import NewtonRaphson.SingularValues.Jacobi
import NewtonRaphson.Iteration
import NewtonRaphson.Differences
import NewtonRaphson.Session.Recipe
import NewtonRaphson.Session
import NewtonRaphson.Main
import NewtonRaphson.Proofs.Newton.Atomicity
import NewtonRaphson.Proofs.Newton.Decision
import NewtonRaphson.Proofs.Newton.Statuses
import NewtonRaphson.Proofs.Newton.Threshold
import NewtonRaphson.Proofs.Iteration.Exact
import NewtonRaphson.Proofs.Iteration.Course
import NewtonRaphson.Proofs.Iteration.Orbit
import NewtonRaphson.Proofs.Iteration.Resumption
import NewtonRaphson.Proofs.Iteration.StopReason
import NewtonRaphson.Proofs.LinearSystem
import NewtonRaphson.Proofs.LinearSystem.Threshold
import NewtonRaphson.Proofs.SingularValues
import NewtonRaphson.Proofs.Purity
import NewtonRaphson.Proofs.OrderedScalar
import NewtonRaphson.Proofs.OrderedScalar.Binary
import NewtonRaphson.Proofs.OrderedScalar.Positive
import NewtonRaphson.Proofs.Precision
import NewtonRaphson.Proofs.Iteration.PlainLoop
import NewtonRaphson.Proofs.Iteration.Contract
import NewtonRaphson.Proofs.Journal
import NewtonRaphson.Proofs.DenseMatrix.Representable
import NewtonRaphson.Proofs.Frame
import NewtonRaphson.Proofs.Iteration.Refusal
import NewtonRaphson.Proofs.Session.Within
import NewtonRaphson.Proofs.Session.Effect
import NewtonRaphson.Proofs.Session.Runs
import NewtonRaphson.Proofs.Session.Invariant
import NewtonRaphson.Proofs.Session.Footprint
import NewtonRaphson.Proofs.Journal.Directives
import NewtonRaphson.Proofs.Journal.Records
import NewtonRaphson.Proofs.Iteration.Records
import NewtonRaphson.Proofs.Journal.Writing
import NewtonRaphson.Proofs.Binary.Shortening
import NewtonRaphson.Proofs.Double.Rounding
import NewtonRaphson.Proofs.Double.LowerBound
import NewtonRaphson.Proofs.Double.Order
import NewtonRaphson.Proofs.DenseMatrix.Norm
import NewtonRaphson.Proofs.Iteration.ZeroTolerance
import NewtonRaphson.Proofs.OrderedScalar.Monotone
import NewtonRaphson.Proofs.OrderedScalar.Transitive
import NewtonRaphson.Proofs.Iteration.LooserLimits
import NewtonRaphson.Proofs.Iteration.LastPoint
import NewtonRaphson.Proofs.Iteration.SideBySide
import NewtonRaphson.Proofs.Session.Blocks
import NewtonRaphson.Proofs.Differences
import NewtonRaphson.Proofs.Differences.Polynomial
import NewtonRaphson.Proofs.Differences.Exact
import NewtonRaphson.Proofs.Differences.SideBySide
import NewtonRaphson.Proofs.Session.Reconfigured
import NewtonRaphson.Proofs.Noninterference
import NewtonRaphson.Proofs.LinearSystem.Columns
import NewtonRaphson.Proofs.LinearSystem.Conditioning
import NewtonRaphson.Proofs.Newton.Scaling
import NewtonRaphson.Proofs.Differences.Stencil
import NewtonRaphson.Proofs.Session.InPlace
import NewtonRaphson.Proofs.Session.Algebra
import NewtonRaphson.Proofs.Session.Entries
import NewtonRaphson.Proofs.Session.Data
import NewtonRaphson.Proofs.Session.RoundTrip
import NewtonRaphson.Proofs.DenseMatrix.Printing
import NewtonRaphson.Proofs.DenseMatrix.Comparison
