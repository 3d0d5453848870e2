import SpanTree.Operation
import SpanTree.Proofs.Histories
import SpanTree.Proofs.Forest
import SpanTree.Proofs.Rendering
import SpanTree.Proofs.Numerals
import SpanTree.Proofs.Encoding
import SpanTree.Proofs.Members
import SpanTree.Proofs.Storing
import SpanTree.Proofs.RoundTrip
import SpanTree.Proofs.Moments
import SpanTree.Proofs.Tables
import SpanTree.Proofs.Likeness
import SpanTree.Proofs.Conversion
import SpanTree.Proofs.Allocation
import SpanTree.Proofs.Paths
import SpanTree.Proofs.Writing
import SpanTree.Proofs.Confinement
import SpanTree.Proofs.Offences
import SpanTree.Proofs.Copies
import SpanTree.Proofs.Loading
import SpanTree.Proofs.Modes
import SpanTree.Proofs.Navigation
import SpanTree.Call
import SpanTree.Proofs.Handlers
import SpanTree.Proofs.Placing
import SpanTree.Proofs.Reporting
import SpanTree.Proofs.Sentences
import SpanTree.Proofs.Acceptance
import SpanTree.Proofs.Order
import SpanTree.Proofs.Positions
import SpanTree.Proofs.Pinpointing
import SpanTree.Proofs.Succession
import SpanTree.Proofs.Integers
import SpanTree.Proofs.Serialization
import SpanTree.Proofs.Footprint
import SpanTree.Proofs.Resemblance
import SpanTree.Proofs.Commuting
import SpanTree.Proofs.Preorder
import SpanTree.Proofs.Traversal
import SpanTree.Proofs.Keyless
import SpanTree.Proofs.Merging
import SpanTree.Proofs.Recursion
import SpanTree.Proofs.Offspring
import SpanTree.Proofs.Numbering
import SpanTree.Proofs.Nearest
import SpanTree.Proofs.Spellings
import SpanTree.Proofs.Lines
import SpanTree.Proofs.Growth
import SpanTree.Proofs.Journals
import SpanTree.Proofs.Flags
