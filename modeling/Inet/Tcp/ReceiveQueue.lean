import Inet.Buffer.Reorder
import Inet.Packet.Basic
import Inet.Tcp.Seq

/-! # The TCP receive queue

The queue puts the payload of the segments into a reorder buffer. Positions in
the buffer count from the initial sequence number on and do not wrap; a
sequence number stands for the position that is nearest to the expected one.
-/

namespace Inet.Tcp

open Chunk ChunkBuffer Outcome

structure TcpReceiveQueue where
  rcv_nxt : Seq
  reorderBuffer : ReorderBuffer
  deriving Repr

namespace TcpReceiveQueue

/-- `offsetToSeq`; the offset is in bytes. -/
def offsetToSeq (offs : ℤ) : Seq := BitVec.ofInt 32 offs

/-- `seqToOffset`; the offset is in bytes. -/
def seqToOffset (this : TcpReceiveQueue) (seq : Seq) : ChunkM ℤ := do
  let expOffs ← toBytes this.reorderBuffer.expectedOffset
  let expSeq := offsetToSeq expOffs
  return if seqGE seq expSeq then expOffs + (seq - expSeq).toNat else expOffs - (expSeq - seq).toNat

def init (startSeq : Seq) : TcpReceiveQueue := ⟨startSeq, ⟨⟨[]⟩, 8 * startSeq.toNat⟩⟩

/-- `offsetToSeq` of an offset in bits. -/
def bitsToSeq (offset : ℤ) : ChunkM Seq := do return offsetToSeq (← toBytes offset)

/-- The check of a debug build: the new segment and the queue are inside one window. -/
def checkRange (this : TcpReceiveQueue) (seq : Seq) (tcpPayloadLength : ℤ) : ChunkM Unit :=
  match this.reorderBuffer.regions.head?, this.reorderBuffer.regions.getLast? with
  | some first, some last => do
    let ob ← bitsToSeq first.getStartOffset
    let oe ← bitsToSeq last.getEndOffset
    let nb := seq
    let ne := seq + BitVec.ofInt 32 tcpPayloadLength
    let minb := seqMin ob nb
    let maxe := seqMax oe ne
    if seqGE minb oe || seqGE minb ne || seqGE ob maxe || seqGE nb maxe then
      throw (.runtime "The new segment is [%u, %u) out of the acceptable range at the queue %s")
  | _, _ => return

/-- `rcv_nxt` is the end of the first region, unless that begins behind it. -/
def updateRcvNxt (this : TcpReceiveQueue) : ChunkM TcpReceiveQueue :=
  match this.reorderBuffer.regions.head? with
  | some region => do
    if seqGE this.rcv_nxt (← bitsToSeq region.getStartOffset) then
      return { this with
        rcv_nxt := ← bitsToSeq (region.getStartOffset + region.data.getChunkLength) }
    else
      return this
  | none => throw (.undefinedBehavior "region index out of range")

/-- The payload that is not before the expected offset goes into the buffer. -/
def insertPayload (this : TcpReceiveQueue) (tcpSegment : Packet)
    (tcpHeaderLength tcpPayloadLength : ℤ) (seq buffSeq : Seq) : ChunkM TcpReceiveQueue := do
  let offs := if seqLess seq buffSeq then (buffSeq - seq).toNat else 0
  let seq := if seqLess seq buffSeq then buffSeq else seq
  let tcpPayloadLength := tcpPayloadLength - offs
  let payload ← deref (← tcpSegment.peekDataAt none (8 * (tcpHeaderLength + offs))
    (8 * tcpPayloadLength) {})
  let offset ← this.seqToOffset seq
  let buffer ← this.reorderBuffer.replace (8 * offset) payload
  updateRcvNxt { this with reorderBuffer := ⟨buffer, this.reorderBuffer.expectedOffset⟩ }

/-- `insertBytesFromSegment`, in a build with or without `NDEBUG`; `seq` and `tcpHeaderLength` are
those of the header. It returns `rcv_nxt`, which is in the queue. -/
def insertBytesFromSegment (ndebug : Bool) (this : TcpReceiveQueue) (tcpSegment : Packet)
    (tcpHeaderLength : ℤ) (seq : Seq) : ChunkM TcpReceiveQueue := do
  let tcpPayloadLength ← toBytes (tcpSegment.getDataLength - 8 * tcpHeaderLength)
  let buffSeq ← bitsToSeq this.reorderBuffer.expectedOffset
  if ndebug then
    this.insertPayload tcpSegment tcpHeaderLength tcpPayloadLength seq buffSeq
  else
    this.checkRange seq tcpPayloadLength
    this.insertPayload tcpSegment tcpHeaderLength tcpPayloadLength seq buffSeq

/-- `extractBytesUpTo`: the packet for the application and the queue afterwards. -/
def extractBytesUpTo (this : TcpReceiveQueue) (seq : Seq) :
    ChunkM (Option Packet × TcpReceiveQueue) := do
  assert (seqLE seq this.rcv_nxt) "seqLE(seq, rcv_nxt)"
  if this.reorderBuffer.regions.isEmpty then
    return (none, this)
  else
    let seqOffs ← this.seqToOffset seq
    let maxLength := 8 * seqOffs - this.reorderBuffer.expectedOffset
    if maxLength ≤ 0 then
      return (none, this)
    else
      let (chunk, reorderBuffer) ← this.reorderBuffer.popAvailableData maxLength
      let this := { this with reorderBuffer := reorderBuffer }
      assert (this.reorderBuffer.expectedOffset ≤ 8 * (← this.seqToOffset seq))
        "reorderBuffer.getExpectedOffset() <= seqToOffset(seq)"
      match chunk with
      | some chunk =>
        let msg ← Packet.new
        return (some (← msg.insertAtBack chunk), this)
      | none => return (none, this)

end TcpReceiveQueue

end Inet.Tcp
