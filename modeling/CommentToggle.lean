import CommentToggle.CommandLine.Run
import CommentToggle.Main
import CommentToggle.Proofs.Block.Derivation
import CommentToggle.Proofs.CommandLine.Agreement
import CommentToggle.Proofs.Config.Layering
import CommentToggle.Proofs.Detect.Answers
import CommentToggle.Proofs.Detect.Mapping
import CommentToggle.Proofs.Document.Containment
import CommentToggle.Proofs.Document.Lines
import CommentToggle.Proofs.Document.Naming
import CommentToggle.Proofs.Document.Recursion
import CommentToggle.Proofs.Encoding.Reading
import CommentToggle.Proofs.Layer.Commented
import CommentToggle.Proofs.Layer.Undo
import CommentToggle.Proofs.Layer.Whole
import CommentToggle.Proofs.Listing.Ending
import CommentToggle.Proofs.Listing.Indentation
import CommentToggle.Proofs.Log.Threshold
import CommentToggle.Proofs.Selection.Joint
import CommentToggle.Proofs.Selection.Policy
import CommentToggle.Proofs.Session.Refinement
import CommentToggle.Proofs.Style.Candidates
import CommentToggle.Proofs.Toggle.Breaks
import CommentToggle.Proofs.Toggle.Dominance
import CommentToggle.Proofs.Toggle.Effective
import CommentToggle.Proofs.Toggle.Faults
import CommentToggle.Proofs.Toggle.HandWritten
import CommentToggle.Proofs.Toggle.LineStates
import CommentToggle.Proofs.Toggle.Restoring
