import Inet.Quic.StreamSndQueue

/-! # Stream frames

The scheduler asks a stream for the size of its next frame, and then has it
generate the frame. The length of the header depends on the length of the
data, which is shortened until both fit.
-/

namespace Inet.Quic

open Chunk Outcome

/-- A number of bytes as a `uint64_t`. -/
def toUint64 (bytes : ℤ) : ℕ := (bytes % 2 ^ 64).toNat

structure StreamFrameHeader where
  streamId : ℕ
  offset : ℕ
  length : ℕ
  deriving DecidableEq, Repr

namespace StreamFrameHeader

/-- The length that `calcChunkLength` sets, in bytes. -/
def calcChunkLength (header : StreamFrameHeader) : ℕ :=
  1 + getVariableLengthIntegerSize header.streamId + getVariableLengthIntegerSize header.offset +
    getVariableLengthIntegerSize header.length

end StreamFrameHeader

inductive BlockedFrameHeader where
  | dataBlocked (dataLimit : ℕ)
  | streamDataBlocked (streamId streamDataLimit : ℕ)
  deriving DecidableEq, Repr

structure FlowController where
  maxDataOffset : ℕ
  highestSendOffset : ℕ := 0
  lastDataLimit : ℕ := 0
  deriving DecidableEq, Repr

namespace FlowController

def onStreamFrameSent (this : FlowController) (size : ℕ) : FlowController :=
  { this with highestSendOffset := add64 this.highestSendOffset size }

/-- What `generateDataBlockFrame` leaves of the controller; its frame has the highest offset. -/
def dataBlocked (this : FlowController) : FlowController :=
  { this with lastDataLimit := this.highestSendOffset }

end FlowController

/-- A stream, with the flow controller and the control queue of its connection. -/
structure Stream where
  id : ℕ
  sendQueue : StreamSndQueue
  streamFlowController : FlowController
  connectionFlowController : FlowController
  controlQueue : List BlockedFrameHeader

namespace Stream

open StreamSndQueue (Region)

/-- The frame with the header, after the region has been sent. -/
def sendRegion (this : Stream) (region : Region) (header : StreamFrameHeader) :
    Except Error (Option StreamFrameHeader × Stream) := do
  let this := { this with sendQueue := this.sendQueue.addOutstandingRegion region }
  let _ ← this.sendQueue.getTotalDataLengthToSend
  let length ← toBytes region.length
  return (some header, { this with
    streamFlowController := this.streamFlowController.onStreamFrameSent (toUint64 length)
    connectionFlowController := this.connectionFlowController.onStreamFrameSent (toUint64 length) })

variable {this next : Stream} {maxFrameSize offset length rwnd frame : ℕ}

/-- The header in front of so much data, at the offset. -/
def headerOf (this : Stream) (offset length : ℕ) : StreamFrameHeader :=
  ⟨this.id, toUint64 offset, length⟩

/-- The region of the given bytes is the next one to send. -/
def Offers (this : Stream) (offset length : ℕ) : Prop :=
  this.sendQueue.getNextSendRegion 0 = .ok ⟨8 * offset, 8 * length⟩

/-- A frame for at most so many bytes of data, within the given size. -/
structure Fits (this : Stream) (length size : ℕ) (header : StreamFrameHeader) : Prop where
  streamId_eq : header.streamId = this.id
  length_pos : 0 < header.length
  length_le : header.length ≤ length
  size_le : header.calcChunkLength + header.length ≤ size

end Stream

end Inet.Quic
