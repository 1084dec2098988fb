import TiledAutomata.Proofs.Rendezvous
import TiledAutomata.Descriptor.Builtin
import TiledAutomata.Main
import TiledAutomata.StateBuilder
import TiledAutomata.Text.Base64
import TiledAutomata.Proofs.ProgramCaches
import TiledAutomata.Proofs.Printing
import TiledAutomata.Proofs.Descent
import TiledAutomata.Proofs.PackedRuns
import TiledAutomata.Proofs.Wrapping
import TiledAutomata.Proofs.Duplex
import TiledAutomata.Proofs.Pipeline
import TiledAutomata.Proofs.Releases
import TiledAutomata.Proofs.Discards
import TiledAutomata.Proofs.Stragglers
import TiledAutomata.Proofs.Reprinting
import TiledAutomata.Proofs.Substitution
import TiledAutomata.Proofs.Dimensions
import TiledAutomata.Proofs.Recency
import TiledAutomata.Proofs.Ownership
import TiledAutomata.Proofs.Hoisting
import TiledAutomata.Proofs.SnapshotFormat
import TiledAutomata.Proofs.Enumeration
import TiledAutomata.Proofs.Maps
import TiledAutomata.Proofs.Viability
