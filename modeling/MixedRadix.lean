import MixedRadix.Angle
import MixedRadix.Builder
import MixedRadix.Butterfly
import MixedRadix.CommandLine
import MixedRadix.Compile
import MixedRadix.Config
import MixedRadix.Config.Output
import MixedRadix.Config.Problem
import MixedRadix.Config.Reader
import MixedRadix.Config.Writer
import MixedRadix.Cosine.Forward
import MixedRadix.Cosine.Inverse
import MixedRadix.Cosine.Scaling
import MixedRadix.DeadCode
import MixedRadix.Decimal.Shortest
import MixedRadix.Decimal.Style
import MixedRadix.DefUse
import MixedRadix.DirectSum
import MixedRadix.Distinct
import MixedRadix.Expr
import MixedRadix.Expr.Text
import MixedRadix.Factorization
import MixedRadix.Fault
import MixedRadix.Fifo
import MixedRadix.FileSystem
import MixedRadix.FileTree
import MixedRadix.Fourier.Called
import MixedRadix.Fourier.Unrolled
import MixedRadix.Instruction
import MixedRadix.Instruction.Text
import MixedRadix.Kernel
import MixedRadix.Lanes
import MixedRadix.Lifetime
import MixedRadix.Lifetime.Check
import MixedRadix.Lifetime.Index
import MixedRadix.Machine
import MixedRadix.Main
import MixedRadix.Path
import MixedRadix.Permutation
import MixedRadix.Plan
import MixedRadix.Proofs.Angle
import MixedRadix.Proofs.Bundle
import MixedRadix.Proofs.Butterfly
import MixedRadix.Proofs.Called
import MixedRadix.Proofs.DeadCode
import MixedRadix.Proofs.Emission
import MixedRadix.Proofs.Exact
import MixedRadix.Proofs.Factorization
import MixedRadix.Proofs.Finished
import MixedRadix.Proofs.Footprint
import MixedRadix.Proofs.FourierKernel
import MixedRadix.Proofs.Kernel
import MixedRadix.Proofs.Lanes
import MixedRadix.Proofs.Lifetime
import MixedRadix.Proofs.Permutation
import MixedRadix.Proofs.Plan
import MixedRadix.Proofs.Rotation
import MixedRadix.Proofs.Scratch
import MixedRadix.Proofs.Spectrum
import MixedRadix.Proofs.Unrolled
import MixedRadix.Rotation
import MixedRadix.Routine
import MixedRadix.Scalar
import MixedRadix.Scalar.Binary64
import MixedRadix.SelfCheck
import MixedRadix.SourceFile
import MixedRadix.Statistics
import MixedRadix.Symbol
import MixedRadix.TempPool
import MixedRadix.Text.Printable
import MixedRadix.Text.Quoted
import MixedRadix.Proofs.Composition
import MixedRadix.Proofs.Renaming
import MixedRadix.Proofs.Cosine.Results
import MixedRadix.Proofs.Cosine.Scaling
import MixedRadix.Proofs.Cosine.Sums
import MixedRadix.Proofs.Cosine.Algorithm
import MixedRadix.Proofs.Cosine.Forward
import MixedRadix.Proofs.Cosine.Inverse
import MixedRadix.Proofs.Admission
import MixedRadix.Proofs.InPlace
import MixedRadix.Proofs.Emitted
import MixedRadix.Proofs.Safety
import MixedRadix.Proofs.Reading
import MixedRadix.Proofs.Rendering
import MixedRadix.Proofs.Statements
import MixedRadix.Proofs.RoundTrip
import MixedRadix.Proofs.Liveness
import MixedRadix.Proofs.Reachability
import MixedRadix.Proofs.Bookkeeping
import MixedRadix.Proofs.Annotation
import MixedRadix.Proofs.Layout
import MixedRadix.Proofs.Waste
import MixedRadix.Proofs.Documents
import MixedRadix.Proofs.NormalForm
import MixedRadix.Proofs.Listing
import MixedRadix.Proofs.Appended
import MixedRadix.Proofs.RotationCode
import MixedRadix.Proofs.Inlining
import MixedRadix.Proofs.Radices
import MixedRadix.Proofs.Cycles
import MixedRadix.Proofs.Arrangement
import MixedRadix.Proofs.DigitReversal
import MixedRadix.Proofs.Tally
import MixedRadix.Proofs.Recycling
import MixedRadix.Proofs.Undefined
import MixedRadix.Proofs.Rejection
