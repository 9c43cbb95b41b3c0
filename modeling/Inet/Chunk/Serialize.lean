import Inet.Chunk.Basic

/-! # Chunk serializers

The serializers of the chunk classes, writing a part of a chunk to a
`MemoryOutputStream`. The serializer of a fields chunk is generated code; the
chunk carries the bits it writes.
-/

namespace Inet

open MemoryOutputStream

namespace Chunk

/-- `ByteCountChunkSerializer`: single bits up to a byte boundary, whole bytes, then single bits. -/
def serializeByteCount (stream : MemoryOutputStream) (data : Byte) (offset length : ℕ) :
    MemoryOutputStream :=
  let last := offset + length
  let boundary := min last ((offset + 7) / 8 * 8)
  let stream := (List.range' offset (boundary - offset)).foldl
    (fun s position => s.writeBit (data.getMsbD (position % 8))) stream
  let byteCount := (last - boundary) / 8
  let stream := stream.writeByteRepeatedly data byteCount
  (List.range' (boundary + 8 * byteCount) (last - (boundary + 8 * byteCount))).foldl
    (fun s position => s.writeBit (data.getMsbD (position % 8))) stream

/-- The stream the field serializer of a fields chunk fills. -/
def serializeFields (serialized : List Bool) : MemoryOutputStream :=
  serialized.foldl writeBit MemoryOutputStream.empty

/-- How an element of a sequence lies with respect to a range of the sequence. -/
inductive ElementPart where
  | whole
  | part (offset length : ℤ)
  | outside
  deriving DecidableEq, Repr

/-- The four-way comparison in the loops over the elements in a range of a sequence. -/
def elementPart (chunkBegin chunkLength first last : ℤ) : ElementPart :=
  let chunkEnd := chunkBegin + chunkLength
  if first ≤ chunkBegin ∧ chunkEnd ≤ last then
    .whole
  else if chunkBegin < first ∧ last < chunkEnd then
    .part (first - chunkBegin) (last - first)
  else if chunkBegin < first ∧ first < chunkEnd then
    .part (first - chunkBegin) (chunkEnd - first)
  else if chunkBegin < last ∧ last < chunkEnd then
    .part 0 (last - chunkBegin)
  else
    .outside

mutual

/-- `Chunk::serialize`, with length `-1` for everything from the offset on. -/
def serialize : Chunk → MemoryOutputStream → ℤ → ℤ → Except Error MemoryOutputStream
  | chunk, stream, offset, length => do
    checkUsage (length ≥ -1) "length is invalid"
    checkUsage (0 ≤ offset ∧ offset ≤ chunk.getChunkLength) "offset is out of range"
    let serializedLength := if length = -1 then chunk.getChunkLength - offset else length
    match chunk with
    | empty _ => do
      assert (offset = 0) "offset == b(0)"
      assert (length = -1 ∨ length = 0) "length == b(-1) || length == b(0)"
      return stream
    | bits _ values => stream.writeBits values offset serializedLength
    | bitCount _ _ data => return stream.writeBitRepeatedly data serializedLength.toNat
    | bytes _ values => stream.writeData values offset.toNat serializedLength.toNat
    | byteCount _ _ data =>
      return serializeByteCount stream data offset.toNat serializedLength.toNat
    | fields _ chunkLength _ serialized => do
      let chunkStream := serializeFields serialized
      checkUsage ((chunkStream.getLength : ℤ) = chunkLength) "serialized length is incorrect"
      stream.writeData chunkStream.getData offset.toNat serializedLength.toNat
    | slice _ chunk sliceOffset sliceLength =>
      serialize chunk stream (sliceOffset + offset)
        (if length = -1 then sliceLength - offset else length)
    | sequence _ chunks =>
      serializeElements chunks stream 0 offset
        (if length = -1 then sumLengths chunks else offset + length)

/-- The loop of `SequenceChunkSerializer`. -/
def serializeElements : List Chunk → MemoryOutputStream → ℤ → ℤ → ℤ →
    Except Error MemoryOutputStream
  | [], stream, _, _, _ => return stream
  | chunk :: chunks, stream, currentOffset, first, last => do
    let stream ← (match elementPart currentOffset chunk.getChunkLength first last with
      | .whole => serialize chunk stream 0 (-1)
      | .part offset length => serialize chunk stream offset length
      | .outside => pure stream : Except Error MemoryOutputStream)
    serializeElements chunks stream (currentOffset + chunk.getChunkLength) first last

end

end Chunk

end Inet
