import Lumen.Bound.Literals
import Lumen.Bound.Passes
import Lumen.Main
import Lumen.Proofs.Binding.Acceptance
import Lumen.Proofs.Binding.Blame
import Lumen.Proofs.Binding.Joining
import Lumen.Proofs.Binding.Naming
import Lumen.Proofs.Binding.Nodes
import Lumen.Proofs.Binding.Redeclaring
import Lumen.Proofs.Binding.Renumbering
import Lumen.Proofs.Binding.Scoping
import Lumen.Proofs.Binding.Stack
import Lumen.Proofs.Binding.Unplaced
import Lumen.Proofs.Binding.Writes
import Lumen.Proofs.Bound.Arithmetic
import Lumen.Proofs.Bound.Counting
import Lumen.Proofs.Bound.Flattening
import Lumen.Proofs.Bound.Jumps
import Lumen.Proofs.Bound.Literals
import Lumen.Proofs.Bound.Paths
import Lumen.Proofs.Bound.Recording
import Lumen.Proofs.Machine.Jumps
import Lumen.Proofs.Machine.Overlay
import Lumen.Proofs.Machine.Passes
import Lumen.Proofs.Machine.Writes
import Lumen.Proofs.Message.Pieces
import Lumen.Proofs.Reader.LookAhead
import Lumen.Proofs.Reader.Recovery
import Lumen.Proofs.Session.Assignment
import Lumen.Proofs.Session.Chain
import Lumen.Proofs.Session.Coherence
import Lumen.Proofs.Session.Handing
import Lumen.Proofs.Session.Layout
import Lumen.Proofs.Session.Overlay
import Lumen.Proofs.Session.Pointing
import Lumen.Proofs.Session.Scoping
import Lumen.Proofs.Session.Typing
import Lumen.Proofs.Session.Values
import Lumen.Proofs.Session.Writes
import Lumen.Proofs.Source.Accounting
import Lumen.Proofs.Source.Layout
import Lumen.Proofs.Source.Nesting
import Lumen.Proofs.Source.Pointing
import Lumen.Proofs.Source.RoundTrip
import Lumen.Proofs.Source.Shape
import Lumen.Proofs.Source.Values
import Lumen.Proofs.Text.LineTable
import Lumen.Proofs.Token.Bytes
import Lumen.Proofs.Token.Grammar
import Lumen.Proofs.Token.Layout
import Lumen.Proofs.Token.Scan
import Lumen.Proofs.Token.Spelling
import Lumen.Proofs.Token.Tiling
import Lumen.Proofs.Tree.Accounting
import Lumen.Proofs.Tree.Completeness
import Lumen.Proofs.Tree.Grammar
import Lumen.Proofs.Tree.Names
import Lumen.Proofs.Tree.Nesting
import Lumen.Proofs.Tree.Parts
import Lumen.Proofs.Tree.Placement
import Lumen.Proofs.Tree.Reading
import Lumen.Proofs.Tree.Recovery
import Lumen.Proofs.Tree.RoundTrip
import Lumen.Proofs.Tree.Scoping
import Lumen.Proofs.Tree.Shape
import Lumen.Proofs.Tree.Unplaced
import Lumen.Proofs.Tree.Visible
import Lumen.Scanner
