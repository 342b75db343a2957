import Switching.Main
import Switching.Proofs.Grammar
import Switching.Proofs.Parsing
import Switching.Proofs.Printing
import Switching.Proofs.Parentheses
import Switching.Proofs.Filling
import Switching.Proofs.Spacing
import Switching.Proofs.References
import Switching.Proofs.Expansion
import Switching.Proofs.Runs
import Switching.Proofs.Resolution
import Switching.Proofs.Locality
import Switching.Proofs.Malformed
import Switching.Proofs.Value
import Switching.Proofs.Memory
import Switching.Proofs.Refusals
import Switching.Proofs.Oversize
import Switching.Proofs.CommonVars
import Switching.Proofs.Stages
import Switching.Proofs.TruthTable
import Switching.Proofs.Bits
import Switching.Proofs.Assignments
import Switching.Proofs.Columns
import Switching.Proofs.Canonical
import Switching.Proofs.History
import Switching.Proofs.Karnaugh
import Switching.Proofs.Renaming
import Switching.Proofs.Joining
import Switching.Proofs.Pages
import Switching.Proofs.Blanks
import Switching.Proofs.CommandText
import Switching.Proofs.Listing
import Switching.Proofs.Replies
import Switching.Proofs.Paging
import Switching.Proofs.Packing
import Switching.Proofs.Rendering
import Switching.Proofs.Substitution
import Switching.Proofs.Confluence
import Switching.Proofs.Course
import Switching.Proofs.Limits
import Switching.Proofs.Retyping
import Switching.Proofs.Redefining
import Switching.Proofs.Conversation
import Switching.Proofs.Reporting
import Switching.Proofs.Viability
import Switching.Proofs.Grafting
import Switching.Proofs.Reuse
import Switching.Proofs.Lexemes
