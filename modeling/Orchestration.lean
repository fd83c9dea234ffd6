import Orchestration.Main
import Orchestration.Binary.Program
import Orchestration.Description.Write
import Orchestration.Trace.Recording
import Orchestration.Tree.Creation
import Orchestration.Proofs.Derivation
import Orchestration.Proofs.Events
import Orchestration.Proofs.Potential
import Orchestration.Proofs.Bounds
import Orchestration.Proofs.Pending
import Orchestration.Proofs.Frames
import Orchestration.Proofs.Rollback
import Orchestration.Proofs.Grammar
import Orchestration.Proofs.Lifecycle
import Orchestration.Proofs.Promptness
import Orchestration.Proofs.Precedence
import Orchestration.Proofs.Truncation
import Orchestration.Proofs.Merging
import Orchestration.Proofs.Freezing
import Orchestration.Proofs.Restoration
import Orchestration.Proofs.Accounting
import Orchestration.Proofs.Inlining
import Orchestration.Proofs.Transparency
import Orchestration.Proofs.Contents
import Orchestration.Proofs.Decoding
import Orchestration.Proofs.Encoding
import Orchestration.Proofs.RoundTrip
import Orchestration.Proofs.Unwinding
import Orchestration.Proofs.Delivery
import Orchestration.Proofs.Describing
import Orchestration.Proofs.Observers
import Orchestration.Proofs.Ceiling
import Orchestration.Proofs.Interruption
import Orchestration.Proofs.Resolving
import Orchestration.Proofs.Folding
import Orchestration.Proofs.Ownership
import Orchestration.Proofs.Relaying
import Orchestration.Proofs.Outage
import Orchestration.Proofs.PathGrammar
import Orchestration.Proofs.PathText
import Orchestration.Proofs.Creating
