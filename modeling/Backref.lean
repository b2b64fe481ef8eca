import Backref.Main
import Backref.Proofs.Pattern.Grammar
import Backref.Proofs.Pattern.RoundTrip
import Backref.Proofs.Pattern.Layout
import Backref.Proofs.Pattern.Unfolding
import Backref.Proofs.Reference.Relevance
import Backref.Proofs.Pattern.Shape
import Backref.Proofs.Reference.Walk
import Backref.Proofs.Reference.Assignment
import Backref.Proofs.Reference.Exploration
import Backref.Proofs.Reference.Move
import Backref.Proofs.Reference.Exactness
import Backref.Proofs.Reference.DefiniteAssignment
import Backref.Proofs.Reference.Strictness
import Backref.Proofs.Reference.Descent
import Backref.Proofs.Pattern.Links
import Backref.Proofs.Reference.Limit
import Backref.Proofs.Reference.Flow
import Backref.Proofs.Reference.Completion
import Backref.Proofs.Pattern.GroupTable
import Backref.Proofs.Reference.Schedule
import Backref.Proofs.Reference.Pruning
import Backref.Proofs.Pattern.Continuation
import Backref.Proofs.Pattern.Scan
import Backref.Proofs.Pattern.Span
import Backref.Proofs.Pattern.Alignment
import Backref.Proofs.Pattern.Resolution
import Backref.Proofs.Pattern.Fault
import Backref.Proofs.Diagnosis
import Backref.Proofs.Reference.Skeleton
import Backref.Proofs.Reference.Similarity
import Backref.Proofs.Pattern.Ancestry
import Backref.Proofs.Pattern.Enclosure
import Backref.Proofs.Reference.Placement
import Backref.Proofs.Reference.Termination
import Backref.Proofs.Pattern.Replacement
import Backref.Proofs.Reference.Replacement
import Backref.Proofs.Pattern.Wrapping
import Backref.Proofs.Reference.Wrapping
import Backref.Proofs.Text.Utf8
import Backref.Proofs.Text.Lines
import Backref.Proofs.CommandLine.Unbroken
import Backref.Proofs.CommandLine.Report
import Backref.Proofs.CommandLine.ByteExact
import Backref.Proofs.CommandLine.Verbosity
import Backref.Proofs.Reference.Marking
import Backref.Proofs.Reference.Nesting
import Backref.Proofs.Pattern.Arena
import Backref.Proofs.Pattern.Builder
import Backref.Proofs.Pattern.Mirror
import Backref.Proofs.Pattern.Rounds
import Backref.Proofs.Pattern.Run
import Backref.Proofs.Pattern.OpenNodes
