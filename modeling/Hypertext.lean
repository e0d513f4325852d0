import Hypertext.Proofs.Chain.Agreement
import Hypertext.Proofs.Chain.Order
import Hypertext.Proofs.Chain.Refusal
import Hypertext.Proofs.Chain.Settlement
import Hypertext.Proofs.Forest.Adding
import Hypertext.Proofs.Forest.DocumentOrder
import Hypertext.Proofs.Forest.Lowering
import Hypertext.Proofs.Forest.Nesting
import Hypertext.Proofs.Forest.RawContent
import Hypertext.Proofs.Forest.TagNames
import Hypertext.Proofs.Isolation.Advancing
import Hypertext.Proofs.Isolation.Calls
import Hypertext.Proofs.Isolation.Chains
import Hypertext.Proofs.Isolation.Documents
import Hypertext.Proofs.Isolation.Following
import Hypertext.Proofs.Isolation.Interleaving
import Hypertext.Proofs.Isolation.Isolated
import Hypertext.Proofs.Isolation.Linking
import Hypertext.Proofs.Isolation.Local
import Hypertext.Proofs.Isolation.Making
import Hypertext.Proofs.Isolation.Pairing
import Hypertext.Proofs.Pipeline.Handles
import Hypertext.Proofs.Pipeline.Layers
import Hypertext.Proofs.Pipeline.Registration
import Hypertext.Proofs.Pipeline.Statistics
import Hypertext.Proofs.Render.Faults
import Hypertext.Proofs.Render.Fixpoint
import Hypertext.Proofs.Render.RoundTrip
import Hypertext.Proofs.Render.Simplified
import Hypertext.Proofs.Render.Stored
import Hypertext.Proofs.Source.Files
import Hypertext.Proofs.Token.Places
import Hypertext.Proofs.Token.RawText
import Hypertext.Proofs.Token.Restart
import Hypertext.Proofs.Token.StartTag
import Hypertext.Proofs.Token.Stream
import Hypertext.Proofs.Token.Tiling
import Hypertext.Proofs.Tree.Elements
import Hypertext.Proofs.Tree.Shape
import Hypertext.Proofs.Value.Subsumption
import Hypertext.Script.Edit
import Hypertext.Script.Session
import Hypertext.Script.Shelf
import Hypertext.Token.Checked
import Hypertext.Token.Cursor
import Hypertext.Tree.Node
