import Inet.Stream.Output

/-! # The bit input stream

`MemoryInputStream` reads bits from a byte vector at any alignment. A read past
the end returns zeros and sets a flag instead of failing.
-/

namespace Inet

open BitString

structure MemoryInputStream where
  data : List Byte
  length : ℕ
  position : ℕ
  isReadBeyondEnd : Bool
  deriving DecidableEq, Repr

abbrev Reader := StateT MemoryInputStream (Except Error)

/-- The conversion from `b` to `B`, which throws unless the value is a number of bytes. -/
def toBytes {m : Type → Type} [Monad m] [MonadExceptOf Error m] (bits : ℤ) : m ℤ :=
  if bits % 8 = 0 then pure (bits / 8)
  else throw (Error.runtime "Cannot convert between integer units")

namespace MemoryInputStream

/-- `MemoryInputStream(data, length)`, where length `-1` stands for all bytes. -/
def ofData (data : List Byte) (length : ℤ) : Except Error MemoryInputStream := do
  let length := if length = -1 then ((data.length * 8 : ℕ) : ℤ) else length
  assert (0 ≤ length) "b(0) <= this->length"
  return ⟨data, length.toNat, 0, false⟩

def getRemainingLength (s : MemoryInputStream) : ℕ := s.length - s.position

def isByteAligned (s : MemoryInputStream) : Bool := s.position % 8 = 0

def byteAt (data : List Byte) (index : ℕ) : Reader Byte :=
  match data[index]? with
  | some byte => pure byte
  | none => throw (.undefinedBehavior "vector subscript out of range")

def readBit : Reader Bool := do
  let s ← get
  if s.position = s.length then
    set { s with isReadBeyondEnd := true }
    return false
  else
    set { s with position := s.position + 1 }
    match s.data[s.position / 8]? with
    | some byte => return byte.getMsbD (s.position % 8)
    | none => throw (.runtime "out_of_range")

/-- `readBits`: the bits appended to the caller's vector. -/
def readBits : ℕ → Reader (List Bool)
  | 0 => pure []
  | n + 1 => do
    if (← get).isReadBeyondEnd then
      return []
    let bit ← readBit
    let bits ← readBits n
    return bit :: bits

def readByte : Reader Byte := do
  let s ← get
  if s.position + 8 > s.length then
    set { s with isReadBeyondEnd := true, position := s.length }
    return 0
  else
    let result ← (if s.isByteAligned then byteAt s.data (s.position / 8)
      else do
        let l1 := s.position % 8
        let l2 := 8 - l1
        let high ← byteAt s.data ((s.position - l1) / 8)
        let low ← byteAt s.data ((s.position + l2) / 8)
        return high <<< l1 ||| low >>> l2 : Reader Byte)
    set { s with position := s.position + 8 }
    return result

/-- The given number of bytes, read one at a time. -/
def readByteLoop : ℕ → Reader (List Byte)
  | 0 => pure []
  | n + 1 => do
    let byte ← readByte
    let bytes ← readByteLoop n
    return byte :: bytes

/-- `readBytes`: the bytes appended to the caller's vector. -/
def readBytes (length : ℕ) : Reader (List Byte) := do
  let s ← get
  let length ← (if s.position + 8 * length > s.length then do
      let rest ← toBytes ((s.length : ℤ) - s.position)
      set { s with isReadBeyondEnd := true }
      return rest.toNat
    else pure length : Reader ℕ)
  let finish := s.position + 8 * length
  assert (s.position ≤ 8 * s.data.length) "b(0) <= position && position <= B(data.size())"
  assert (finish ≤ 8 * s.data.length) "b(0) <= end && end <= B(data.size())"
  if s.isByteAligned then
    modify fun s => { s with position := s.position + 8 * length }
    return (s.data.drop (s.position / 8)).take length
  else
    readByteLoop length

/-- The reads `value |= readByte() << shift` for the given shifts. -/
def readShifted (shifts : List ℕ) : Reader ℕ :=
  shifts.foldlM (fun value shift => do
    let byte ← readByte
    return value ||| byte.toNat <<< shift) 0

/-- The reads `if (readBit()) value |= mask` for the given masks. -/
def readMasked (masks : List ℕ) : Reader ℕ :=
  masks.foldlM (fun value mask => do
    let bit ← readBit
    return if bit then value ||| mask else value) 0

def readUint2 : Reader ℕ := readMasked [0x2, 0x1]

def readUint4 : Reader ℕ := readMasked [0x8, 0x4, 0x2, 0x1]

def readUint8 : Reader ℕ := do
  let byte ← readByte
  return byte.toNat

def readUint16Be : Reader ℕ := readShifted [8, 0]

def readUint16Le : Reader ℕ := readShifted [0, 8]

def readUint24Be : Reader ℕ := readShifted [16, 8, 0]

def readUint24Le : Reader ℕ := readShifted [0, 8, 16]

def readUint32Be : Reader ℕ := readShifted [24, 16, 8, 0]

def readUint32Le : Reader ℕ := readShifted [0, 8, 16, 24]

def readUint48Be : Reader ℕ := readShifted [40, 32, 24, 16, 8, 0]

def readUint48Le : Reader ℕ := readShifted [0, 8, 16, 24, 32, 40]

def readUint64Be : Reader ℕ := readShifted [56, 48, 40, 32, 24, 16, 8, 0]

def readUint64Le : Reader ℕ := readShifted [0, 8, 16, 24, 32, 40, 48, 56]

/-- The `while` loop of `readString`, for at most the given number of rounds. -/
def readStringLoop : ℕ → Reader (List Byte)
  | 0 => throw .callDepthExceeded
  | n + 1 => do
    let byte ← readByte
    if byte = 0 then
      return []
    let chars ← readStringLoop n
    return byte :: chars

/-- `readString`. Past the end `readByte` returns zero, so the loop ends after the remaining
bytes. -/
def readString : Reader (List Byte) := do
  let s ← get
  readStringLoop (s.getRemainingLength / 8 + 1)

def readNBitsToUint64Be (n : ℕ) : Reader ℕ := do
  if n = 0 ∨ n > 64 then
    throw (.runtime "Can not read 0 bit or more than 64 bits.")
  readMasked (MemoryOutputStream.bitMasks n)

end MemoryInputStream

end Inet
