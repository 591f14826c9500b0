import Innermost.Main
import Innermost.Proofs.Grammar.Spelling
import Innermost.Proofs.Grammar.Acceptance
import Innermost.Proofs.Grammar.Scan
import Innermost.Proofs.Grammar.Counter
import Innermost.Proofs.Grammar.Calls
import Innermost.Proofs.Grammar.Depth
import Innermost.Proofs.Reducing.Nodes
import Innermost.Proofs.Reducing.Paths
import Innermost.Proofs.Reducing.Positions
import Innermost.Proofs.Reducing.Visiting
import Innermost.Proofs.Reducing.Targets
import Innermost.Proofs.Reducing.Questions
import Innermost.Proofs.Reducing.Collapse
import Innermost.Proofs.Reducing.Simplification
import Innermost.Proofs.Reducing.Live
import Innermost.Proofs.Reducing.Confluence
import Innermost.Proofs.Tracing.Rereading
import Innermost.Proofs.Rendering.Marking
import Innermost.Proofs.Rendering.Writing
import Innermost.Proofs.Rendering.RoundTrip
import Innermost.Proofs.Tracing.History
import Innermost.Proofs.Tracing.Resumption
import Innermost.Proofs.Tracing.Length
import Innermost.Proofs.Tracing.Replacement
import Innermost.Proofs.Tracing.Failures
import Innermost.Proofs.Tracing.Limit
import Innermost.Proofs.Tracing.Markers
import Innermost.Proofs.Literal.Lexeme
import Innermost.Proofs.Literal.Climbing
import Innermost.Proofs.Literal.Derivation
import Innermost.Proofs.Literal.Substitution
import Innermost.Proofs.Literal.Restoration
import Innermost.Proofs.Literal.Stratified
import Innermost.Proofs.Literal.Phrase
import Innermost.Proofs.Literal.Places
import Innermost.Proofs.Literal.LongestMatch
import Innermost.Proofs.Text.Regions
import Innermost.Proofs.Grammar.Offset
import Innermost.Proofs.Literal.Regions
import Innermost.Proofs.Literal.Slices
import Innermost.Proofs.Literal.Tiling
import Innermost.Proofs.Literal.Accounts
import Innermost.Proofs.Literal.Culprits
import Innermost.Proofs.Literal.Precedence
import Innermost.Proofs.Literal.Typing
import Innermost.Proofs.Literal.Exactness
import Innermost.Proofs.Meaning.Flattening
import Innermost.Proofs.Meaning.Preservation
import Innermost.Proofs.Meaning.Reflection
import Innermost.Proofs.Meaning.Normalisation
import Innermost.Proofs.Tracing.Regions
import Innermost.Proofs.Meaning.ReadingBack
import Innermost.Proofs.CommandLine.Lines
import Innermost.Proofs.CommandLine.Batch
import Innermost.Proofs.CommandLine.Session
import Innermost.Proofs.Practice.Chain
import Innermost.Proofs.Practice.Generation
import Innermost.Proofs.Tracing.Retelling
import Innermost.Proofs.Rendering.Edits
import Innermost.Proofs.Rendering.Painting
import Innermost.Proofs.Literal.Nesting
import Innermost.Proofs.Meaning.Nesting
