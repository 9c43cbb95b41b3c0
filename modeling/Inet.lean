import Inet.Common.Error
import Inet.Common.StringFormat
import Inet.Lib.BitString
import Inet.Stream.Output
import Inet.Stream.Packed
import Inet.Stream.Input
import Inet.Stream.Consumes
import Inet.Stream.RoundTrip
import Inet.Lib.Outcome
import Inet.Chunk.Basic
import Inet.Chunk.Serialize
import Inet.Chunk.Operations
import Inet.Lib.Segment
import Inet.Chunk.Cells
import Inet.Chunk.Elements
import Inet.Chunk.Merge
import Inet.Chunk.Forward
import Inet.Chunk.Serialized
import Inet.Chunk.Backward
import Inet.Chunk.Bounded
import Inet.Chunk.Typed
import Inet.Chunk.Edit
import Inet.Packet.Basic
import Inet.Packet.Consistent
import Inet.Packet.Back
import Inet.Packet.Content
import Inet.Packet.Erase
import Inet.Packet.Insert
import Inet.Chunk.Within
import Inet.Packet.QueueRun
import Inet.Packet.Run
import Inet.Lib.Span
import Inet.Buffer.Basic
import Inet.Buffer.Refine
import Inet.Buffer.Run
import Inet.Tcp.Seq
import Inet.Tcp.SackRexmitQueue
import Inet.Tcp.NewlySacked
import Inet.Tcp.SackTruth
import Inet.Tcp.Transfer
import Inet.Tcp.HeaderRoundTrip
import Inet.Quic.AckExchange
import Inet.Queueing.EligibilityTime
import Inet.Queueing.TokenConservation
import Inet.Queueing.GateControlList
import Inet.Ieee80211.CompressedRecord
import Inet.Ieee80211.BlockAckTruth
import Inet.Ipv4.HeaderRoundTrip
import Inet.Queueing.PacketQueue
import Inet.Queueing.WrrScheduler
import Inet.Ipv6.Forwarding
import Inet.Ipv6.Reassembly
import Inet.Ethernet.MacForwardingTable
import Inet.Ethernet.MulticastForwarding
import Inet.Ipv4.InterfaceData
import Inet.Ipv4.Listeners
import Inet.Lib.OrderedMap
import Inet.Ipv4.Membership
import Inet.Ipsec.RoundTrip
import Inet.Queueing.PacketBuffer
import Inet.Ipv4.Igmpv3StateChange
import Inet.ProtocolElement.Resynchronization
import Inet.Applications.DhcpAssignment
import Inet.Applications.DhcpRoundTrip
import Inet.Ieee8021d.PortStates
import Inet.Buffer.ReorderRun
import Inet.Stream.PastEnd
import Inet.Checksum.Crc
import Inet.Checksum.InternetChecksum
import Inet.Checksum.Fletcher
import Inet.Tag.RegionRun
import Inet.Tag.Moving
import Inet.Aodv.Runs
import Inet.Ipv4.RoutingRun
import Inet.Tcp.HeaderBounds
import Inet.Ipv4.HeaderBounds
import Inet.Quic.Duplicates
import Inet.Quic.Stream
import Inet.Quic.StreamRcvQueue
import Inet.Ipv6.AddressRoundTrip
import Inet.Ipv4.Igmpv3HostQueries
import Inet.Sctp.GapListRun
import Inet.Sctp.GapPartition
import Inet.Sctp.GapReceived
import Inet.Ieee80211.AggregationRun
import Inet.Math.Intersection
import Inet.Ipv4.NextHop
import Inet.Ipv4.OptimizedForwarding
import Inet.Applications.DhcpOptionsEnd
import Inet.ProtocolElement.ChunkFragments
import Inet.Rip.InvalidatedOnce
