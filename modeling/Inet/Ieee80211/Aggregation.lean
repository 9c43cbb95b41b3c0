import Inet.Checksum.Crc
import Inet.Packet.Tagged

/-! # A-MPDU aggregation

The frames of an aggregate follow each other as subframes: a header with the
length of the frame, the frame, and padding except behind the last frame. The
names of the packets are left out.
-/

namespace Inet.Ieee80211

open Chunk BitString Checksum

/-! The subframe header. -/

/-- The number of the class `Ieee80211MpduSubframeHeader`, which has no subclasses. -/
def mpduSubframeHeaderType : ℕ := 0

/-- `LENGTH_A_MPDU_SUBFRAME_HEADER` -/
def mpduSubframeHeaderLength : ℤ := 4 + 12 + 8 + 8

def computeMpduDelimiterCrc (delimiter : BitVec 16) : Byte :=
  (genericCrc8 [delimiter.setWidth 8, (delimiter >>> 8).setWidth 8] 0x07 0xFF true true 0xFF 3).getD
    0

/-- The bytes that `Ieee80211MpduSubframeHeaderSerializer` writes for a length. -/
def serializeMpduSubframeHeader (length : ℤ) : Except Error (List Byte) := do
  if length < 0 ∨ 0xFFF < length then
    throw (.runtime "HT MPDU delimiter length is outside the 12-bit range: %d")
  let delimiter := BitVec.ofInt 16 length <<< 4
  return [delimiter.setWidth 8, (delimiter >>> 8).setWidth 8, computeMpduDelimiterCrc delimiter,
    0x4E]

/-- A subframe header with the length. It carries what its serializer writes, so that a length is
refused here and not when the header is serialized. -/
def mpduSubframeHeader (header : ChunkHeader) (length : ℤ) : Except Error Chunk := do
  return fields header mpduSubframeHeaderLength mpduSubframeHeaderType
    (concat (← serializeMpduSubframeHeader length))

/-- The byte that the eight bits from the given byte position on make. -/
def byteOf (serialized : List Bool) (i : ℕ) : Byte :=
  (BitVec.ofBoolListBE ((serialized.drop (8 * i)).take 8)).setWidth 8

/-- The `length` of a subframe header, which is in the high bits of a little-endian number. -/
def getMpduLength : Chunk → ℤ
  | fields _ _ _ serialized => (byteOf serialized 0).toNat / 16 + 16 * (byteOf serialized 1).toNat
  | _ => 0

def readMpduSubframeHeader : Reader Bool := do
  let delimiter ← MemoryInputStream.readUint16Le
  let crc ← MemoryInputStream.readByte
  let signature ← MemoryInputStream.readByte
  return crc ≠ computeMpduDelimiterCrc (BitVec.ofNat 16 delimiter) ∨ signature ≠ 0x4E

/-- `Ieee80211MpduSubframeHeaderSerializer` as a deserializer: the header keeps the bits it was
read from. -/
def deserializeMpduSubframeHeader (stream : MemoryInputStream) : ChunkM Chunk := do
  let header ← newHeader
  let (isIncorrect, after) ← (readMpduSubframeHeader.run stream : Except Error _)
  let chunkLength := after.position - stream.position
  return fields { header with incorrect := isIncorrect, incomplete := after.isReadBeyondEnd }
    chunkLength
    mpduSubframeHeaderType (((concat stream.data).drop stream.position).take chunkLength)

def mpduSubframeHeaderRequest : PeekRequest :=
  fieldsRequest (· = mpduSubframeHeaderType) deserializeMpduSubframeHeader

section Aggregation

variable {Class Fields : Type} (std : TagSort Class Fields)

/-! Aggregation. -/

/-- The loop over the frames. -/
def aggregateFrom : List (TaggedPacket Class Fields) → TaggedPacket Class Fields →
    ChunkM (TaggedPacket Class Fields)
  | [], aggregatedFrame => return aggregatedFrame
  | frame :: frames, aggregatedFrame => do
    let header ← newHeader
    let mpdu ← deref (← frame.peekAll {})
    let mpduSubframeHeader ← (mpduSubframeHeader header (← toBytes mpdu.getChunkLength) :
      Except Error Chunk)
    let aggregatedFrame ← aggregatedFrame.insertAtBack std mpduSubframeHeader
    let aggregatedFrame ← aggregatedFrame.insertAtBack std mpdu
    let aggregatedFrame ← aggregatedFrame.copyTags std frame 0
      (aggregatedFrame.packet.getFrontOffset - frame.packet.getDataLength)
        frame.packet.getDataLength
    let paddingLength :=
      4 - (← toBytes (mpduSubframeHeader.getChunkLength + mpdu.getChunkLength)) % 4
    if frames ≠ [] ∧ paddingLength ≠ 4 then
      let padding := byteCount (← newHeader) paddingLength 63
      aggregateFrom frames (← aggregatedFrame.insertAtBack std padding)
    else
      aggregateFrom frames aggregatedFrame

def aggregateFrames (frames : List (TaggedPacket Class Fields)) :
    ChunkM (TaggedPacket Class Fields) := do
  aggregateFrom std frames (← TaggedPacket.new)

/-! Deaggregation. -/

/-- The flags under which a subframe is visited. -/
def subframeFlags : PeekFlags :=
  { allowIncorrect := true, allowIncomplete := true, allowImproperlyRepresented := true }

section Visit

variable {State : Type} (visitDelimiter : State → Chunk → ℤ → Bool → ChunkM State)
  (visitMpdu : State → Chunk → ℤ → ChunkM State)

/-- The loop of `visitSubframes`, for at most the given number of turns. Positions and lengths that
are numbers of bytes in the code are numbers of bytes here. -/
def visitSubframesFrom (length : ℤ) : ℕ → Packet → State → ChunkM (Bool × State)
  | 0, _, _ => throw .callDepthExceeded
  | turns + 1, aggregate, state => do
    if ¬ 0 < aggregate.getDataLength then
      return (true, state)
    if aggregate.getDataLength < 8 * 4 then
      return (false, state)
    let position := length - (← toBytes aggregate.getDataLength)
    let (delimiter, aggregate) ← aggregate.popAtFront mpduSubframeHeaderRequest (8 * 4)
      { subframeFlags with allowReinterpretation := true }
    let delimiter ← deref delimiter
    let memberLength := getMpduLength delimiter
    let valid := !delimiter.isIncorrect ∧ !delimiter.isIncomplete ∧
      !delimiter.isImproperlyRepresented ∧ 0 ≤ memberLength ∧ memberLength ≤ 4095 ∧
      8 * memberLength ≤ aggregate.getDataLength
    let state ← visitDelimiter state delimiter position valid
    if ¬ valid then
      return (false, state)
    if memberLength = 0 then
      visitSubframesFrom length turns aggregate state
    else
      let (mpdu, aggregate) ← aggregate.popAtFront none (8 * memberLength) subframeFlags
      let state ← visitMpdu state (← deref mpdu) (position + 4)
      if aggregate.getDataLength = 0 then
        return (true, state)
      let padding := (4 - memberLength % 4) % 4
      if 8 * padding > aggregate.getDataLength then
        return (false, state)
      let aggregate ← aggregate.setFrontOffset (aggregate.getFrontOffset + 8 * padding)
      if aggregate.getDataLength = 0 then
        -- no padding behind the last subframe
        return (false, state)
      visitSubframesFrom length turns aggregate state

/-- `visitSubframes`; offset and length are numbers of bytes. -/
def visitSubframes (packet : Packet) (offset length : ℤ) (state : State) :
    ChunkM (Bool × State) := do
  if offset < 0 ∨ length < 0 ∨ 8 * (offset + length) > packet.getDataLength then
    return (false, state)
  if length = 0 then
    return (true, state)
  let content ← deref (← packet.peekDataAt none (8 * offset) (8 * length) subframeFlags)
  -- a turn pops a header of four bytes at least
  visitSubframesFrom visitDelimiter visitMpdu length (length.toNat + 1)
    (Packet.ofContent content) state

end Visit

/-- What `deaggregateFrame` does for an MPDU. -/
def extractFrame (aggregatedFrame : TaggedPacket Class Fields)
    (frames : List (TaggedPacket Class Fields)) (mpdu : Chunk) (offset : ℤ) :
    ChunkM (List (TaggedPacket Class Fields)) := do
  let frame ← (← TaggedPacket.new).insertAtBack std mpdu
  let frame ← frame.copyTags std aggregatedFrame
    (aggregatedFrame.packet.getFrontOffset + 8 * offset) frame.packet.getFrontOffset
    mpdu.getChunkLength
  return frames ++ [frame]

def deaggregateFrame (aggregatedFrame : TaggedPacket Class Fields) :
    ChunkM (List (TaggedPacket Class Fields)) := do
  let (_, frames) ← visitSubframes (fun frames _ _ _ => pure frames)
    (extractFrame std aggregatedFrame) aggregatedFrame.packet 0
    (← toBytes aggregatedFrame.packet.getDataLength) []
  return frames

end Aggregation

end Inet.Ieee80211
