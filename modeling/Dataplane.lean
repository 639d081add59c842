import Dataplane.Bytes.Word
import Dataplane.Context.Encode
import Dataplane.Context.Traffic
import Dataplane.Dump.Packet
import Dataplane.Dump.Vocabulary
import Dataplane.Report
import Dataplane.Sample
import Dataplane.Session
import Dataplane.Proofs.Bytes.Fields
import Dataplane.Proofs.Checksum.Stamp
import Dataplane.Proofs.Headers.Placement
import Dataplane.Proofs.Packet.Edits
import Dataplane.Proofs.Header.Checksums
import Dataplane.Proofs.Header.IpChecksums
import Dataplane.Proofs.Packet.Checksums
import Dataplane.Proofs.Header.Reading
import Dataplane.Proofs.Packet.Wire
import Dataplane.Proofs.Pipeline.Flat
import Dataplane.Proofs.Pipeline.Relation
import Dataplane.Proofs.Context.Nesting
import Dataplane.Proofs.Context.Invocations
import Dataplane.Proofs.Context.Launches
import Dataplane.Proofs.Registry.Histories
import Dataplane.Proofs.Registry.Identity
import Dataplane.Proofs.Registry.Courses
import Dataplane.Proofs.Registry.Remnants
import Dataplane.Proofs.Registry.Taking
import Dataplane.Proofs.Context.BitUpdates
import Dataplane.Proofs.Context.Building
import Dataplane.Proofs.Context.Depth
import Dataplane.Proofs.Context.Configuring
import Dataplane.Proofs.Context.Sharing
import Dataplane.Proofs.Context.References
import Dataplane.Proofs.Context.Courses
import Dataplane.Proofs.Context.Teardown
import Dataplane.Proofs.Context.Remnants
import Dataplane.Proofs.Context.Removal
import Dataplane.Proofs.Context.Events
import Dataplane.Proofs.Context.Comparing
import Dataplane.Proofs.Context.Replay
import Dataplane.Proofs.Config.Texts
import Dataplane.Proofs.Header.Restamping
import Dataplane.Proofs.Header.Uncovering
import Dataplane.Proofs.Header.Announcing
import Dataplane.Proofs.Headers.Rebuilding
import Dataplane.Proofs.Headers.Agreement
import Dataplane.Proofs.Headers.Layering
import Dataplane.Proofs.Headers.Detours
import Dataplane.Proofs.Packet.Parsed
import Dataplane.Proofs.Packet.Tunnels
import Dataplane.Proofs.Packet.Detours
import Dataplane.Proofs.Packet.Replicas
import Dataplane.Proofs.Packet.Normal
import Dataplane.Proofs.Table.Entries
import Dataplane.Proofs.TokenBucket.Window
import Dataplane.Proofs.InPlace.Packet
import Dataplane.Proofs.Fields.Packet
import Dataplane.Proofs.Header.Stacks
import Dataplane.Proofs.Packet.WireOrder
import Dataplane.Proofs.Packet.Payloads
import Dataplane.Proofs.Packet.Settling
import Dataplane.Proofs.Packet.Stamped
import Dataplane.Proofs.Header.Reloading
import Dataplane.Proofs.Packet.RawFields
import Dataplane.Proofs.Header.Overwriting
import Dataplane.Proofs.Checksum.NetworkOrder
import Dataplane.Proofs.Checksum.Replacing
import Dataplane.Proofs.Checksum.Overflow
import Dataplane.Proofs.Header.Decrement
import Dataplane.Proofs.Header.HopLimits
import Dataplane.Proofs.Packet.Forwarding
import Dataplane.Proofs.Context.Lookups
import Dataplane.Proofs.Packet.Lengths
import Dataplane.Proofs.Packet.Extents
import Dataplane.Proofs.Header.NdOptions
import Dataplane.Proofs.Context.Accounting
import Dataplane.Proofs.Context.Pairing
import Dataplane.Proofs.Frame.Accounts
import Dataplane.Proofs.Bytes.Wrapping
import Dataplane.Proofs.Mac.Octets
import Dataplane.Proofs.Packet.Kinds
import Dataplane.Proofs.Crc.Remainder
