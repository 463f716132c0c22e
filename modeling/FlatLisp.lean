import FlatLisp.Main
import FlatLisp.Shell.Completion
import FlatLisp.Proofs.Layout
import FlatLisp.Proofs.Lexing
import FlatLisp.Proofs.Numeral
import FlatLisp.Proofs.IntegerLiteral
import FlatLisp.Proofs.Rereading
import FlatLisp.Proofs.Congruence
import FlatLisp.Proofs.Ending
import FlatLisp.Proofs.Coincidence
import FlatLisp.Proofs.Footprint
import FlatLisp.Proofs.Truncation
import FlatLisp.Proofs.Provenance
import FlatLisp.Proofs.Sequencing
import FlatLisp.Proofs.Alignment
import FlatLisp.Proofs.Lines
import FlatLisp.Proofs.Transcript
import FlatLisp.Proofs.Conversation
import FlatLisp.Proofs.Balance
import FlatLisp.Proofs.DirectLexing
import FlatLisp.Proofs.Units
import FlatLisp.Proofs.Termination
import FlatLisp.Proofs.Trace
import FlatLisp.Proofs.Rounds
import FlatLisp.Proofs.Readability
import FlatLisp.Proofs.Arithmetic
import FlatLisp.Proofs.DecimalLiteral
import FlatLisp.Proofs.Nearest
import FlatLisp.Proofs.Unrolling
import FlatLisp.Proofs.FloatText
import FlatLisp.Proofs.Locality
import FlatLisp.Proofs.Descent
import FlatLisp.Proofs.CommentLines
import FlatLisp.Proofs.BindingChain
import FlatLisp.Proofs.Relexing
import FlatLisp.Proofs.Comparison
import FlatLisp.Proofs.Echo
import FlatLisp.Proofs.WordBounds
