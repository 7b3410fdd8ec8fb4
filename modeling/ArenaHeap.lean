import ArenaHeap.Proofs.World.Canonical
import ArenaHeap.Proofs.World.Resizing
import ArenaHeap.Proofs.World.DataIndependence
import ArenaHeap.Proofs.World.Failures
import ArenaHeap.Proofs.World.Recovery
import ArenaHeap.Proofs.World.Lookups
import ArenaHeap.Proofs.World.Owners
import ArenaHeap.Proofs.World.References
import ArenaHeap.Proofs.World.FirstFit
import ArenaHeap.Proofs.World.Lifecycle
import ArenaHeap.Proofs.Clients.Segments
import ArenaHeap.Proofs.Facade.Refinement
import ArenaHeap.Session.Facade
import ArenaHeap.Session.Run
import ArenaHeap.Proofs.World.Turnover
import ArenaHeap.Proofs.World.Releasing
import ArenaHeap.Proofs.World.ResizePaths
import ArenaHeap.Proofs.World.Ranges
import ArenaHeap.Proofs.Rounding
import ArenaHeap.Proofs.Texts
import ArenaHeap.Proofs.World.Loops
import ArenaHeap.Proofs.World.Checked
