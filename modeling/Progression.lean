import Progression.Cursor
import Progression.Main
import Progression.Token.Stream
import Progression.Value.Store
import Progression.Proofs.Pipeline
import Progression.Proofs.Sequential
import Progression.Proofs.Soundness
import Progression.Proofs.Executions
import Progression.Proofs.Safety
import Progression.Proofs.Grammar
import Progression.Proofs.Derivations
import Progression.Proofs.Parsing
import Progression.Proofs.Names
import Progression.Proofs.Rules
import Progression.Proofs.Inertness
import Progression.Proofs.Resolution
import Progression.Proofs.Locations
import Progression.Proofs.Immutability
import Progression.Proofs.Tiling
import Progression.Proofs.Relocation
import Progression.Proofs.RelocatedRuns
import Progression.Proofs.Keywords
import Progression.Proofs.Stages
import Progression.Proofs.Seams
import Progression.Proofs.Composition
import Progression.Proofs.OutputOrder
import Progression.Proofs.LineEnds
import Progression.Proofs.Comments
import Progression.Proofs.Ownership
import Progression.Proofs.Ranges
import Progression.Proofs.Folds
import Progression.Proofs.Sums
import Progression.Proofs.Exactness
import Progression.Proofs.Attempts
import Progression.Proofs.Literals
import Progression.Proofs.Cuts
import Progression.Proofs.Repairs
import Progression.Proofs.Offers
import Progression.Proofs.TextLiterals
import Progression.Proofs.Verification
import Progression.Proofs.Extents
import Progression.Proofs.Spelling
import Progression.Proofs.Announcements
import Progression.Proofs.Cursors
import Progression.Proofs.Partitions
import Progression.Proofs.FloatTexts
import Progression.Proofs.Outlines
import Progression.Proofs.Unambiguity
import Progression.Proofs.Shadowing
