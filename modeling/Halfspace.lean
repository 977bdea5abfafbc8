import Halfspace.Main
import Halfspace.Scaling
import Halfspace.Proofs.Certificate
import Halfspace.Proofs.DeltaOrder
import Halfspace.Proofs.Engine.Rows
import Halfspace.Proofs.Engine.Pivot
import Halfspace.Proofs.Engine.Values
import Halfspace.Proofs.Engine.Step
import Halfspace.Proofs.Engine.Run
import Halfspace.Proofs.Engine.Bland
import Halfspace.Proofs.Engine.Conflict
import Halfspace.Proofs.Engine.Outcomes
import Halfspace.Proofs.Engine.Reversal
import Halfspace.Proofs.Engine.Safety
import Halfspace.Proofs.Registry.Canonical
import Halfspace.Proofs.Registry.Intervals
import Halfspace.Proofs.Registry.Merging
import Halfspace.Proofs.Registry.Registered
import Halfspace.Solver.Session
import Halfspace.Proofs.Registry.Registration
import Halfspace.Proofs.Pipeline.Columns
import Halfspace.Proofs.Pipeline.Evidence
import Halfspace.Proofs.Pipeline.Infinitesimal
import Halfspace.Proofs.Pipeline.Solving
import Halfspace.Proofs.Answers
import Halfspace.Proofs.Limits
import Halfspace.Proofs.Cores
import Halfspace.Proofs.Refinement
import Halfspace.Proofs.Alignment
import Halfspace.Proofs.Completeness
import Halfspace.Proofs.Registrations
import Halfspace.Proofs.Agreement
import Halfspace.Proofs.Additions
import Halfspace.Proofs.Transparency
import Halfspace.Proofs.Models
import Halfspace.Proofs.Contradictions
import Halfspace.Proofs.Rounding
import Halfspace.Proofs.ApproximatePass
import Halfspace.Proofs.Pipeline.Translation
import Halfspace.Proofs.Engine.Iterations
import Halfspace.Proofs.Seeding
import Halfspace.Proofs.Text
import Halfspace.Proofs.ProblemFile.Terms
import Halfspace.Proofs.ProblemFile.Lines
import Halfspace.Proofs.ProblemFile.RoundTrip
import Halfspace.Proofs.Engine.Truncation
import Halfspace.Solver.Edit
import Halfspace.Proofs.Atomicity
import Halfspace.Proofs.ProblemFile.Faults
import Halfspace.Proofs.RoundingOrder
import Halfspace.Proofs.BoundOrder
import Halfspace.Proofs.Doubles
import Halfspace.Proofs.Substitution
import Halfspace.Proofs.Rescaling
import Halfspace.Proofs.Names
import Halfspace.Proofs.Violation
import Halfspace.Proofs.Scaling.Factors
import Halfspace.Proofs.Scaling.Passes
import Halfspace.Proofs.Scaling.Finiteness
import Halfspace.Proofs.Scaling.Problems
