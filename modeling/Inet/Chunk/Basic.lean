import Inet.Stream.Input

/-! # Chunks

The chunk classes as one inductive type. A chunk object is the value it holds
together with its id, so comparing pointers is comparing values. Chunks are in
their shared, immutable state; an object under construction is a value not yet
stored anywhere.
-/

namespace Inet

/-- The fields of the base class `Chunk`: the id and the boolean flags. -/
structure ChunkHeader where
  id : ℕ
  incomplete : Bool
  incorrect : Bool
  improperlyRepresented : Bool
  deriving DecidableEq, Repr

/-- A chunk; lengths and offsets are in bits, the length of a byte count in bytes. A fields chunk
carries its class and the bits its serializer writes. -/
inductive Chunk where
  | empty (header : ChunkHeader)
  | bits (header : ChunkHeader) (bits : List Bool)
  | bitCount (header : ChunkHeader) (length : ℤ) (data : Bool)
  | bytes (header : ChunkHeader) (bytes : List Byte)
  | byteCount (header : ChunkHeader) (length : ℤ) (data : Byte)
  | fields (header : ChunkHeader) (chunkLength : ℤ) (type : ℕ) (serialized : List Bool)
  | slice (header : ChunkHeader) (chunk : Chunk) (offset length : ℤ)
  | sequence (header : ChunkHeader) (chunks : List Chunk)
  deriving Repr

inductive ChunkType where
  | empty | bitCount | bits | byteCount | bytes | slice | sequence | fields
  deriving DecidableEq, Repr

namespace Chunk

def getChunkType : Chunk → ChunkType
  | empty .. => .empty
  | bits .. => .bits
  | bitCount .. => .bitCount
  | bytes .. => .bytes
  | byteCount .. => .byteCount
  | fields .. => .fields
  | slice .. => .slice
  | sequence .. => .sequence

mutual

def getChunkLength : Chunk → ℤ
  | empty _ => 0
  | bits _ values => values.length
  | bitCount _ length _ => length
  | bytes _ values => 8 * values.length
  | byteCount _ length _ => 8 * length
  | fields _ chunkLength _ _ => chunkLength
  | slice _ _ _ length => length
  | sequence _ chunks => sumLengths chunks

def sumLengths : List Chunk → ℤ
  | [] => 0
  | chunk :: chunks => getChunkLength chunk + sumLengths chunks

end

mutual

/-- Whether the chunk, or a chunk it is made of, carries the given flag. -/
def hasFlag (flag : ChunkHeader → Bool) : Chunk → Bool
  | empty header => flag header
  | bits header _ => flag header
  | bitCount header _ _ => flag header
  | bytes header _ => flag header
  | byteCount header _ _ => flag header
  | fields header _ _ _ => flag header
  | slice header chunk _ _ => flag header || hasFlag flag chunk
  | sequence header chunks => flag header || anyHasFlag flag chunks

def anyHasFlag (flag : ChunkHeader → Bool) : List Chunk → Bool
  | [] => false
  | chunk :: chunks => hasFlag flag chunk || anyHasFlag flag chunks

end

def isIncomplete : Chunk → Bool := hasFlag ChunkHeader.incomplete

def isIncorrect : Chunk → Bool := hasFlag ChunkHeader.incorrect

def isImproperlyRepresented : Chunk → Bool := hasFlag ChunkHeader.improperlyRepresented

mutual

/-- Pointer equality. -/
def same : Chunk → Chunk → Bool
  | empty h, empty h' => h == h'
  | bits h values, bits h' values' => h == h' && values == values'
  | bitCount h length data, bitCount h' length' data' =>
    h == h' && length == length' && data == data'
  | bytes h values, bytes h' values' => h == h' && values == values'
  | byteCount h length data, byteCount h' length' data' =>
    h == h' && length == length' && data == data'
  | fields h chunkLength type serialized, fields h' chunkLength' type' serialized' =>
    h == h' && chunkLength == chunkLength' && type == type' && serialized == serialized'
  | slice h chunk offset length, slice h' chunk' offset' length' =>
    h == h' && offset == offset' && length == length' && same chunk chunk'
  | sequence h chunks, sequence h' chunks' => h == h' && sameAll chunks chunks'
  | _, _ => false

def sameAll : List Chunk → List Chunk → Bool
  | [], [] => true
  | chunk :: chunks, chunk' :: chunks' => same chunk chunk' && sameAll chunks chunks'
  | _, _ => false

end

mutual

/-- The number of chunk objects a chunk is made of. -/
def size : Chunk → ℕ
  | slice _ chunk _ _ => size chunk + 1
  | sequence _ chunks => sumSizes chunks + 1
  | _ => 1

def sumSizes : List Chunk → ℕ
  | [] => 0
  | chunk :: chunks => size chunk + sumSizes chunks

end

end Chunk

/-- Position and index of an iterator, measured from the beginning or from the end. -/
structure Chunk.Iterator where
  isForward : Bool
  position : ℤ
  index : ℤ
  deriving DecidableEq, Repr

namespace Chunk.Iterator

/-- The conversion of a position to an `Iterator`. -/
def ofPosition (position : ℤ) : Iterator := ⟨true, position, if position = 0 then 0 else -1⟩

/-- `ForwardIterator(position)`. -/
def forward (position : ℤ) : Iterator := ⟨true, position, -1⟩

/-- `BackwardIterator(position)`. -/
def backward (position : ℤ) : Iterator := ⟨false, position, -1⟩

end Chunk.Iterator

/-- The `PF_ALLOW_...` flags of the peek functions. -/
structure PeekFlags where
  allowNullptr : Bool := false
  allowEmpty : Bool := false
  allowIncomplete : Bool := false
  allowIncorrect : Bool := false
  allowImproperlyRepresented : Bool := false
  allowReinterpretation : Bool := false
  deriving DecidableEq, Repr

def PeekFlags.allowAll : PeekFlags := ⟨true, true, true, true, true, true⟩

/-- Chunk operations allocate ids and may throw. -/
abbrev ChunkM := StateT ℕ (Except Error)

/-- The header of a new chunk object. -/
def newHeader : ChunkM ChunkHeader := do
  let id ← get
  set (id + 1)
  return ⟨id, false, false, false⟩

/-- The copy constructor of `Chunk`: a new id and the same flags. -/
def copyHeader (header : ChunkHeader) : ChunkM ChunkHeader := do
  let new ← newHeader
  return { header with id := new.id }

def Chunk.header : Chunk → ChunkHeader
  | empty h => h
  | bits h _ => h
  | bitCount h _ _ => h
  | bytes h _ => h
  | byteCount h _ _ => h
  | fields h _ _ _ => h
  | slice h _ _ _ => h
  | sequence h _ => h

def Chunk.withHeader (h : ChunkHeader) : Chunk → Chunk
  | empty _ => empty h
  | bits _ values => bits h values
  | bitCount _ length data => bitCount h length data
  | bytes _ values => bytes h values
  | byteCount _ length data => byteCount h length data
  | fields _ chunkLength type serialized => fields h chunkLength type serialized
  | slice _ chunk offset length => slice h chunk offset length
  | sequence _ chunks => sequence h chunks

/-- The copy of a chunk shares the sliced chunk or the elements. -/
def Chunk.dupShared (chunk : Chunk) : ChunkM Chunk := do
  let header ← copyHeader chunk.header
  return chunk.withHeader header

/-- `makeExclusivelyOwnedMutableChunk`. A chunk without other owners is reused by the code instead
of copied; nothing else refers to it, so its id makes no difference. -/
def makeExclusivelyOwnedMutableChunk (chunk : Chunk) : ChunkM Chunk := chunk.dupShared

/-- Using a pointer that may be null. -/
def deref (pointer : Option Chunk) : ChunkM Chunk :=
  match pointer with
  | some chunk => pure chunk
  | none => throw (.undefinedBehavior "null pointer dereference")

end Inet
