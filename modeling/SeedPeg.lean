import SeedPeg.Expr.Distinct
import SeedPeg.Matcher
import SeedPeg.Proofs.Run
import SeedPeg.Proofs.Orderly
import SeedPeg.Proofs.Evaluator
import SeedPeg.Proofs.Begins
import SeedPeg.Proofs.Termination
import SeedPeg.Proofs.Derivation
import SeedPeg.Proofs.Meaning
import SeedPeg.Proofs.Conformance
import SeedPeg.Proofs.Direct
import SeedPeg.Proofs.Transparency
import SeedPeg.Proofs.Frame
import SeedPeg.Proofs.Bracketing
import SeedPeg.Proofs.Balance
import SeedPeg.Proofs.Sessions
import SeedPeg.Proofs.Course
import SeedPeg.Proofs.DepthLimit
import SeedPeg.Proofs.Packrat
import SeedPeg.Proofs.Correspondence
import SeedPeg.Proofs.Occurrence
import SeedPeg.Proofs.References
import SeedPeg.Proofs.Suffix
import SeedPeg.Proofs.Reshaping
import SeedPeg.Proofs.Interchange
import SeedPeg.Proofs.Replay
import SeedPeg.Proofs.Rewriting
import SeedPeg.Proofs.Reading
import SeedPeg.Proofs.Quotation
import SeedPeg.Proofs.Notation
import SeedPeg.Proofs.Straight
import SeedPeg.Proofs.Loop
import SeedPeg.Proofs.Recursion
import SeedPeg.Proofs.Growth
import SeedPeg.Proofs.LeftFold
import SeedPeg.Proofs.Aliases
import SeedPeg.Proofs.Tracing
import SeedPeg.Proofs.Repetition
import SeedPeg.Proofs.Lookahead
import SeedPeg.Proofs.Display
import SeedPeg.Proofs.FiniteMap
