import Inet.Common.Error
import Inet.Lib.BitString

/-! # The bit output stream

`MemoryOutputStream` appends bits to a byte vector, most significant bit
first. Whatever the alignment, a write appends exactly its bits and leaves the
unused low bits of the last byte clear.
-/

namespace Inet

open BitString

abbrev Byte := BitVec 8

instance : LawfulBEq Byte := inferInstance

/-- A `std::vector<uint8_t>`; `data()` is null exactly when it has no storage. -/
structure ByteVector where
  elems : List Byte
  hasStorage : Bool
  hasStorage_of_ne_nil : elems ≠ [] → hasStorage = true

structure MemoryOutputStream where
  data : List Byte
  length : ℕ
  deriving DecidableEq, Repr

namespace MemoryOutputStream

def empty : MemoryOutputStream := ⟨[], 0⟩

def getLength (s : MemoryOutputStream) : ℕ := s.length

def getData (s : MemoryOutputStream) : List Byte := s.data

def isByteAligned (s : MemoryOutputStream) : Bool := s.length % 8 = 0

def writeBit (s : MemoryOutputStream) (value : Bool) : MemoryOutputStream :=
  let byteIndex := s.length / 8
  let bitIndex := s.length % 8
  let data := if bitIndex = 0 then s.data ++ [0] else s.data
  let data := if value then data.modify byteIndex (· ||| 1#8 <<< (7 - bitIndex)) else data
  ⟨data, s.length + 1⟩

def writeBitRepeatedly (s : MemoryOutputStream) (value : Bool) (count : ℕ) : MemoryOutputStream :=
  (List.replicate count value).foldl writeBit s

def writeBits (s : MemoryOutputStream) (bits : List Bool) (offset length : ℤ) :
    Except Error MemoryOutputStream := do
  assert (0 ≤ offset ∧ offset ≤ bits.length) "b(0) <= offset && offset <= b(bits.size())"
  assert (length = -1 ∨ (0 ≤ length ∧ offset + length ≤ bits.length))
    "length == b(-1) || (b(0) <= length && offset + length <= b(bits.size()))"
  let finish := if length = -1 then (bits.length : ℤ) else offset + length
  return ((bits.drop offset.toNat).take (finish - offset).toNat).foldl writeBit s

def writeByte (s : MemoryOutputStream) (value : Byte) : MemoryOutputStream :=
  let bitOffset := s.length % 8
  if bitOffset = 0 then
    ⟨s.data ++ [value], s.length + 8⟩
  else
    ⟨s.data.modify (s.data.length - 1) (· ||| value >>> bitOffset) ++ [value <<< (8 - bitOffset)],
      s.length + 8⟩

def writeByteRepeatedly (s : MemoryOutputStream) (value : Byte) (count : ℕ) : MemoryOutputStream :=
  (List.replicate count value).foldl writeByte s

/-- `writeBytes(const uint8_t *buffer, B length)`; the null pointer is `none`. -/
def writeBuffer (s : MemoryOutputStream) (buffer : Option (List Byte)) (length : ℤ) :
    Except Error MemoryOutputStream := do
  assert (buffer ≠ none) "buffer != nullptr"
  assert (0 ≤ length) "B(0) <= length"
  if length = 0 then
    return s
  let bytes := (buffer.getD []).take length.toNat
  if s.isByteAligned then
    return ⟨s.data ++ bytes, s.length + 8 * length.toNat⟩
  else
    return bytes.foldl writeByte s

/-- `writeBytes(const std::vector<uint8_t>& bytes, B offset, B length)`. -/
def writeBytes (s : MemoryOutputStream) (bytes : ByteVector) (offset length : ℤ) :
    Except Error MemoryOutputStream := do
  let finish := if length = -1 then (bytes.elems.length : ℤ) else offset + length
  assert (0 ≤ offset ∧ offset ≤ bytes.elems.length) "b(0) <= offset && offset <= B(bytes.size())"
  assert (0 ≤ finish ∧ finish ≤ bytes.elems.length) "b(0) <= end && end <= B(bytes.size())"
  assert (offset ≤ finish) "offset <= end"
  s.writeBuffer (if bytes.hasStorage then some (bytes.elems.drop offset.toNat) else none)
    (finish - offset)

/-- The bits of `src` from position `first` up to `last`, written one at a time. -/
def writeBitRange (s : MemoryOutputStream) (src : List Byte) (first last : ℕ) :
    MemoryOutputStream :=
  (List.range' first (last - first)).foldl
    (fun s pos => s.writeBit ((src.getD (pos / 8) 0).getMsbD (pos % 8))) s

def writeData (s : MemoryOutputStream) (src : List Byte) (srcOffset srcLength : ℕ) :
    Except Error MemoryOutputStream := do
  assert (srcOffset + srcLength ≤ 8 * src.length) "srcOffset + srcLength <= B(src.size())"
  let srcEndPosInBits := srcOffset + srcLength
  -- bits up to the next byte boundary of the source, then whole bytes, then the rest
  let boundary := min srcEndPosInBits ((srcOffset + 7) / 8 * 8)
  let s := s.writeBitRange src srcOffset boundary
  let remainedBytes := (srcEndPosInBits - boundary) / 8
  let s ← (if remainedBytes ≠ 0 then s.writeBuffer (some (src.drop (boundary / 8))) remainedBytes
    else pure s : Except Error MemoryOutputStream)
  return s.writeBitRange src (boundary + 8 * remainedBytes) srcEndPosInBits

/-- The writes `writeByte(static_cast<uint8_t>(value >> shift))` for the given shifts. -/
def writeShifted (s : MemoryOutputStream) (shifts : List ℕ) (value : ℕ) : MemoryOutputStream :=
  shifts.foldl (fun s shift => s.writeByte (BitVec.ofNat 8 (value >>> shift))) s

/-- The writes `writeBit(value & mask)` for the given masks. -/
def writeMasked (s : MemoryOutputStream) (masks : List ℕ) (value : ℕ) : MemoryOutputStream :=
  masks.foldl (fun s mask => s.writeBit (value &&& mask ≠ 0)) s

def writeUint2 (s : MemoryOutputStream) (value : ℕ) : Except Error MemoryOutputStream := do
  assert (value >>> 2 = 0) "value >> 2 == 0"
  return s.writeMasked [0x2, 0x1] value

def writeUint4 (s : MemoryOutputStream) (value : ℕ) : Except Error MemoryOutputStream := do
  assert (value >>> 4 = 0) "value >> 4 == 0"
  return s.writeMasked [0x8, 0x4, 0x2, 0x1] value

def writeUint8 (s : MemoryOutputStream) (value : ℕ) : MemoryOutputStream :=
  s.writeByte (BitVec.ofNat 8 value)

def writeUint16Be (s : MemoryOutputStream) (value : ℕ) : MemoryOutputStream :=
  s.writeShifted [8, 0] value

def writeUint16Le (s : MemoryOutputStream) (value : ℕ) : MemoryOutputStream :=
  s.writeShifted [0, 8] value

def writeUint24Be (s : MemoryOutputStream) (value : ℕ) : Except Error MemoryOutputStream := do
  assert (value >>> 24 = 0) "value >> 24 == 0"
  return s.writeShifted [16, 8, 0] value

def writeUint24Le (s : MemoryOutputStream) (value : ℕ) : Except Error MemoryOutputStream := do
  assert (value >>> 24 = 0) "value >> 24 == 0"
  return s.writeShifted [0, 8, 16] value

def writeUint32Be (s : MemoryOutputStream) (value : ℕ) : MemoryOutputStream :=
  s.writeShifted [24, 16, 8, 0] value

def writeUint32Le (s : MemoryOutputStream) (value : ℕ) : MemoryOutputStream :=
  s.writeShifted [0, 8, 16, 24] value

def writeUint48Be (s : MemoryOutputStream) (value : ℕ) : Except Error MemoryOutputStream := do
  assert (value >>> 48 = 0) "value >> 48 == 0"
  return s.writeShifted [40, 32, 24, 16, 8, 0] value

def writeUint48Le (s : MemoryOutputStream) (value : ℕ) : Except Error MemoryOutputStream := do
  assert (value >>> 48 = 0) "value >> 48 == 0"
  return s.writeShifted [0, 8, 16, 24, 32, 40] value

def writeUint64Be (s : MemoryOutputStream) (value : ℕ) : MemoryOutputStream :=
  s.writeShifted [56, 48, 40, 32, 24, 16, 8, 0] value

def writeUint64Le (s : MemoryOutputStream) (value : ℕ) : MemoryOutputStream :=
  s.writeShifted [0, 8, 16, 24, 32, 40, 48, 56] value

/-- `writeString`: the characters, then a zero byte. `c_str()` is never null. -/
def writeString (s : MemoryOutputStream) (chars : List Byte) : Except Error MemoryOutputStream := do
  let s ← s.writeBuffer (some chars) chars.length
  return s.writeByte 0

/-- The successive values of `mul` in the loops over `n` bits of a 64 bit word. -/
def bitMasks (n : ℕ) : List ℕ := List.iterate (· >>> 1) (1 <<< (n - 1)) n

def writeNBitsOfUint64Be (s : MemoryOutputStream) (value n : ℕ) :
    Except Error MemoryOutputStream := do
  if n > 64 then
    throw (.runtime "Can not write more than 64 bits.")
  return s.writeMasked (bitMasks n) value

end MemoryOutputStream

end Inet
