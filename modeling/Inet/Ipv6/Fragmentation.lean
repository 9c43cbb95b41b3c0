import Inet.Buffer.Reassembly
import Inet.Ipv6.RoutingTable

/-! # IPv6 fragmentation and the reassembly buffer

`Ipv6::fragmentAndSend` puts a fragment header behind the base header of each
fragment. `Ipv6FragBuf::addFragment` looks for the data of a fragment behind
all extension headers it finds. Headers that a packet begins with are kept as
records beside it, and the packet here is what follows them.
-/

namespace Inet.Ipv6

open Chunk

/-! ## Headers -/

/-- `IP_PROT_NONE` -/
def ipProtNone : ℕ := 59

/-- `IP_PROT_IPv6EXT_FRAGMENT` -/
def ipProtIpv6ExtFragment : ℕ := 44

/-- Hop-by-hop options, destination options, routing and fragment headers. -/
def isIpv6ExtensionHeader (id : ℕ) : Bool :=
  id == 0 || id == 60 || id == 43 || id == ipProtIpv6ExtFragment

/-- The base header; the payload length is in bytes. -/
structure Ipv6Header where
  version : ℕ := 6
  srcAddress : Ipv6Address
  destAddress : Ipv6Address
  payloadLength : ℤ := -1
  trafficClass : ℤ := 0
  flowLabel : ℕ := 0
  hopLimit : ℤ := 0
  protocolId : ℕ := ipProtNone
  deriving DecidableEq, Repr

structure Ipv6FragmentHeader where
  nextHeaderProtocol : ℕ
  fragmentOffset : ℕ
  moreFragments : Bool
  identification : ℕ
  deriving DecidableEq, Repr

/-- `IPv6_HEADER_BYTES` -/
def headerLength : ℤ := 40

/-- `IPv6_FRAGMENT_HEADER_LENGTH` -/
def fragmentHeaderLength : ℤ := 8

/-- A datagram: the base header, and the extension headers and the payload behind it. -/
structure Datagram where
  ipv6Header : Ipv6Header
  packet : Packet

/-- A fragment: the base header points to the fragment header, which the data follows. -/
structure Fragment where
  ipv6Header : Ipv6Header
  protocolId_eq : ipv6Header.protocolId = ipProtIpv6ExtFragment
  fragmentHeader : Ipv6FragmentHeader
  packet : Packet

/-! ## Sending -/

/-- What `fragmentAndSend` does with a datagram. -/
inductive Sent where
  | timeExceeded
  | whole
  | packetTooBig (mtu : ℤ)
  | fragments (fragments : List Fragment)

/-- The body of the loop. The base header of the datagram points to what follows it. -/
def fragmentAt (datagram : Datagram) (identification : ℕ)
    (payloadLength fragmentLength offset : ℤ) :
    ChunkM Fragment := do
  let lastFragment := decide (offset + fragmentLength ≥ payloadLength)
  let thisFragmentLength := if lastFragment then payloadLength - offset else fragmentLength
  let data ← deref (← datagram.packet.peekDataAt none (8 * offset) (8 * thisFragmentLength) {})
  let fragPk ← (← Packet.new).insertAtBack data
  assert (8 * (headerLength + fragmentHeaderLength) + fragPk.getDataLength =
      8 * (headerLength + fragmentHeaderLength + thisFragmentLength))
    "fragPk->getDataLength() == headerLength + IPv6_FRAGMENT_HEADER_LENGTH + thisFragmentLength"
  return {
    ipv6Header := { datagram.ipv6Header with
      protocolId := ipProtIpv6ExtFragment
      payloadLength := fragmentHeaderLength + thisFragmentLength }
    protocolId_eq := rfl
    fragmentHeader := {
      identification
      fragmentOffset := (offset % 2 ^ 16).toNat
      moreFragments := !lastFragment
      nextHeaderProtocol := datagram.ipv6Header.protocolId }
    packet := fragPk }

/-- `fragmentAndSend` on an interface with the given MTU: what is sent, and the next id. -/
def fragmentAndSend (mtu : ℤ) (fromHL : Bool) (curFragmentId : ℕ) (datagram : Datagram) :
    ChunkM (Sent × ℕ) := do
  if datagram.ipv6Header.hopLimit ≤ 0 then
    return (.timeExceeded, curFragmentId)
  else if 8 * headerLength + datagram.packet.getDataLength ≤ 8 * mtu then
    return (.whole, curFragmentId)
  else if !fromHL then
    return (.packetTooBig mtu, curFragmentId)
  else
    let payloadLength ← toBytes datagram.packet.getDataLength
    let fragmentLength := (mtu - headerLength - fragmentHeaderLength).tdiv 8 * 8
    assert (fragmentLength > 0) "fragmentLength > B(0)"
    -- the offsets of the loop are the multiples of the fragment length below the payload length
    let noOfFragments := (payloadLength + fragmentLength - 1) / fragmentLength
    let fragments ← (List.range noOfFragments.toNat).mapM fun (k : ℕ) =>
      fragmentAt datagram curFragmentId payloadLength fragmentLength ((k : ℤ) * fragmentLength)
    return (.fragments fragments, (curFragmentId + 1) % 2 ^ 32)

/-! ## Receiving -/

/-- The generated classes of extension headers: which chunks a peek for a protocol accepts and how
it converts others, and the next header field. -/
structure HeaderClasses where
  request : ℕ → PeekRequest
  getNextHeaderProtocol : Chunk → ℕ
  setNextHeaderProtocol : Chunk → ℕ → Chunk

/-- The loop that walks over extension headers in the packet: the headers, and the offset behind
them. An extension header takes some bits, so there is a bound on their number. -/
def walkExtensionHeaders (classes : HeaderClasses) (packet : Packet) :
    ℕ → ℤ → ℕ → ChunkM (List (ℕ × Chunk) × ℤ)
  | 0, _, _ => throw .callDepthExceeded
  | bound + 1, off, nextHdr => do
    if isIpv6ExtensionHeader nextHdr then
      let extHdr ← deref (← packet.peekDataAt (some (classes.request nextHdr)) off (-1) {})
      let (headers, off) ← walkExtensionHeaders classes packet bound (off + extHdr.getChunkLength)
        (classes.getNextHeaderProtocol extHdr)
      return ((nextHdr, extHdr) :: headers, off)
    else
      return ([], off)

namespace Fragment

/-- The extension headers that are found behind the fragment header. -/
def walk (classes : HeaderClasses) (this : Fragment) : ChunkM (List (ℕ × Chunk) × ℤ) :=
  walkExtensionHeaders classes this.packet (this.packet.getDataLength.toNat + 1) 0
    this.fragmentHeader.nextHeaderProtocol

end Fragment

structure Key where
  id : ℕ
  src : Ipv6Address
  dest : Ipv6Address
  deriving DecidableEq, Repr

def Fragment.key (this : Fragment) : Key :=
  ⟨this.fragmentHeader.identification, this.ipv6Header.srcAddress, this.ipv6Header.destAddress⟩

/-- The buffer of a datagram; `packet` is its first fragment. -/
structure DatagramBuffer where
  buf : ReassemblyBuffer
  packet : Option Fragment

def DatagramBuffer.new : DatagramBuffer := ⟨ReassemblyBuffer.new, none⟩

/-- `bufs` -/
abbrev Ipv6FragBuf := Key → Option DatagramBuffer

/-- What `addFragment` returns: a null pointer, in the second case after an ICMP error, or a
datagram. -/
inductive Added where
  | incomplete
  | parameterProblem
  | complete (datagram : Datagram)

/-- The datagram from the first fragment and the reassembled data. -/
def reassemble (classes : HeaderClasses) (first : Fragment) (buf : ReassemblyBuffer) :
    ChunkM Datagram := do
  let (headers, _) ← first.walk classes
  let fragNextHdr := headers.foldl (fun next header =>
      if header.1 = ipProtIpv6ExtFragment then classes.getNextHeaderProtocol header.2 else next)
    first.fragmentHeader.nextHeaderProtocol
  let unfragmentableExtHdrs ←
    (headers.filter fun header => header.1 ≠ ipProtIpv6ExtFragment).mapM fun header =>
      header.2.dupShared
  let hdr := first.ipv6Header
  let (hdr, extHdrs) := match unfragmentableExtHdrs.getLast? with
    | none => ({ hdr with protocolId := fragNextHdr }, [])
    | some last => (hdr, unfragmentableExtHdrs.dropLast ++
        [classes.setNextHeaderProtocol last fragNextHdr])
  let reassembledData ← buf.getReassembledData
  let payloadLength ← toBytes (sumLengths extHdrs + reassembledData.getChunkLength)
  let pk ← (extHdrs ++ [reassembledData]).foldlM (fun pk chunk => pk.insertAtBack chunk)
    (← Packet.new)
  return ⟨{ hdr with payloadLength }, pk⟩

def addFragment (classes : HeaderClasses) (bufs : Ipv6FragBuf) (pk : Fragment) :
    ChunkM (Added × Ipv6FragBuf) := do
  let buf := (bufs pk.key).getD DatagramBuffer.new
  let (_, off) ← pk.walk classes
  let totalHeaderLength := headerLength + fragmentHeaderLength + (← toBytes off)
  let byteLength := headerLength + fragmentHeaderLength + (pk.packet.getDataLength + 7) / 8
  let fragmentLength := byteLength - totalHeaderLength
  let offset := pk.fragmentHeader.fragmentOffset
  let moreFragments := pk.fragmentHeader.moreFragments
  if (moreFragments ∧ fragmentLength % 8 ≠ 0) ∨ offset + fragmentLength > 65535 then
    return (.parameterProblem, Function.update bufs pk.key (some buf))
  else
    let data ← deref (← pk.packet.peekDataAt none
      (8 * (totalHeaderLength - headerLength - fragmentHeaderLength)) (8 * fragmentLength) {})
    let regions ← buf.buf.replace (8 * offset) data
    let regions := if moreFragments then regions
      else regions.setExpectedLength (8 * (offset + fragmentLength))
    let packet := if offset = 0 then some pk else buf.packet
    if regions.isComplete then
      match packet with
      | none => throw (.undefinedBehavior "null pointer dereference")
      | some first =>
        let datagram ← reassemble classes first regions
        return (.complete datagram, Function.update bufs pk.key none)
    else
      return (.incomplete, Function.update bufs pk.key (some ⟨regions, packet⟩))

end Inet.Ipv6
