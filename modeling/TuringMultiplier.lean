import TuringMultiplier.Main
import TuringMultiplier.Proofs.Writes
import TuringMultiplier.Proofs.Span
import TuringMultiplier.Proofs.Path
import TuringMultiplier.Proofs.Drive
import TuringMultiplier.Proofs.Advance
import TuringMultiplier.Proofs.Termination
import TuringMultiplier.Proofs.Acts
import TuringMultiplier.Proofs.Contiguity
import TuringMultiplier.Proofs.Place
import TuringMultiplier.Proofs.Layout
import TuringMultiplier.Proofs.Dispatch
import TuringMultiplier.Proofs.Opening
import TuringMultiplier.Proofs.Removal
import TuringMultiplier.Proofs.Addition
import TuringMultiplier.Proofs.Course
import TuringMultiplier.Proofs.Input
import TuringMultiplier.Proofs.Summation
import TuringMultiplier.Proofs.Product
import TuringMultiplier.Proofs.Multiplication
import TuringMultiplier.Proofs.Fuse
import TuringMultiplier.Proofs.Phases
import TuringMultiplier.Proofs.Batches
import TuringMultiplier.Proofs.Patience
import TuringMultiplier.Proofs.Observation
import TuringMultiplier.Proofs.Replies
import TuringMultiplier.Proofs.Reports
import TuringMultiplier.Proofs.Scans
import TuringMultiplier.Proofs.Commands
import TuringMultiplier.Proofs.Faults
import TuringMultiplier.Acceptance
import TuringMultiplier.Proofs.Backtracking
import TuringMultiplier.Proofs.Acceptance
import TuringMultiplier.Proofs.Printing
import TuringMultiplier.Proofs.Rounds
