import Inet.Chunk.Serialize

/-! # Peeking, inserting and removing

The virtual functions of the chunk classes. A class calls the functions of
other objects through a `Dispatch`, which bounds the nesting of virtual calls;
the public functions start with as many levels as the chunks have objects.
-/

namespace Inet

namespace Chunk

/-- The end of a chunk at which data is inserted or removed. -/
inductive Side where
  | front
  | back
  deriving DecidableEq, Repr

end Chunk

open Chunk

/-- The predicate and the converter of a peek with a requested type. -/
structure PeekRequest where
  predicate : Option Chunk → Bool
  converter : Chunk → Iterator → ℤ → PeekFlags → ChunkM Chunk

/-- `predicate == nullptr || predicate(chunk)`. -/
def accepts (request : Option PeekRequest) (chunk : Option Chunk) : Bool :=
  match request with
  | none => true
  | some request => request.predicate chunk

/-- The virtual functions of chunks. -/
structure Dispatch where
  peekUnchecked : Chunk → Option PeekRequest → Iterator → ℤ → PeekFlags → ChunkM (Option Chunk)
  insertAt : Side → Chunk → Chunk → ChunkM Chunk

/-- `EmptyChunk::getEmptyChunk`. -/
def getEmptyChunk (flags : PeekFlags) : ChunkM (Option Chunk) := do
  if flags.allowNullptr then
    return none
  else if flags.allowEmpty then
    return some (.empty (← newHeader))
  else
    throw (.runtime "Returning an empty chunk is not allowed according to the flags")

/-- `Chunk::checkPeekResult`. -/
def checkPeekResult (chunk : Option Chunk) (flags : PeekFlags) : ChunkM (Option Chunk) := do
  match chunk with
  | none =>
    if !flags.allowNullptr then
      throw (.runtime "Returning an empty chunk (nullptr) is not allowed according to the flags")
  | some chunk =>
    if chunk.getChunkType = .empty then
      if !flags.allowEmpty then
        throw (.runtime
          "Returning an empty chunk (EmptyChunk) is not allowed according to the flags")
    else
      if chunk.isIncomplete && !flags.allowIncomplete then
        throw (.runtime "Returning an incomplete chunk is not allowed according to the flags")
      if chunk.isIncorrect && !flags.allowIncorrect then
        throw (.runtime "Returning an incorrect chunk is not allowed according to the flags")
      if chunk.isImproperlyRepresented && !flags.allowImproperlyRepresented then
        throw (.runtime
          "Returning an improperly represented chunk is not allowed according to the flags")
  return chunk

/-- The elements between two iterators of a vector. -/
def subrange {α : Type} (values : List α) (first last : ℤ) : ChunkM (List α) :=
  if 0 ≤ first ∧ first ≤ last ∧ last ≤ values.length then
    pure ((values.drop first.toNat).take (last - first).toNat)
  else throw (.undefinedBehavior "iterator out of range")

/-- The length a possibly negative length stands for at a position. -/
def partLength (chunkLength position length : ℤ) : ℤ :=
  if length < 0 then min (-length) (chunkLength - position) else length

/-- The offset `peekConverted` computes, after its usage check. -/
def convertedOffset (this : Chunk) (iterator : Iterator) (length : ℤ) : ChunkM ℤ := do
  checkUsage (iterator.isForward ∨ length ≥ 0)
    "chunk conversion using backward iterator with undefined length is invalid"
  return if iterator.isForward then iterator.position
    else this.getChunkLength - iterator.position - length

namespace SliceChunk

/-- The constructor `SliceChunk(chunk, offset, length)`. -/
def make (chunk : Chunk) (offset length : ℤ) : ChunkM Chunk := do
  return .slice (← newHeader) chunk offset (partLength chunk.getChunkLength offset length)

def convertChunk (chunk : Chunk) (offset length : ℤ) : ChunkM Chunk := do
  let chunkLength := chunk.getChunkLength
  let sliceLength := if length < 0 then min (-length) chunkLength - offset else length
  make chunk offset sliceLength

/-- `peekConverted<SliceChunk>`. -/
def peekConverted (this : Chunk) (iterator : Iterator) (length : ℤ) : ChunkM (Option Chunk) := do
  let offset ← convertedOffset this iterator length
  return some (← convertChunk this offset length)

end SliceChunk

namespace Chunk

/-- `peekUnchecked` of the chunks without parts: an empty part, the whole chunk, a part in the
chunk's own representation, or a conversion. -/
def peekUncheckedWith (part : ChunkM (Option Chunk)) (this : Chunk)
    (request : Option PeekRequest) (iterator : Iterator) (length : ℤ) (flags : PeekFlags) :
    ChunkM (Option Chunk) := do
  let chunkLength := this.getChunkLength
  checkUsage (0 ≤ iterator.position ∧ iterator.position ≤ chunkLength) "iterator is out of range"
  if (length = 0 ∨ (iterator.position = chunkLength ∧ length < 0)) ∧ accepts request none then
    getEmptyChunk flags
  else if (iterator.position = 0 ∧ (-length ≥ chunkLength ∨ length = chunkLength)) ∧
      accepts request (some this) then
    return some this
  else
    match request with
    | none => part
    | some request => return some (← request.converter this iterator length flags)

end Chunk

/-- `EmptyChunk::peekUnchecked`. -/
def EmptyChunk.peekUnchecked (this : Chunk) (request : Option PeekRequest) (iterator : Iterator)
    (length : ℤ) (flags : PeekFlags) : ChunkM (Option Chunk) := do
  checkUsage (iterator.position = 0) "iterator is out of range"
  checkUsage (length ≤ 0) "length is invalid"
  if accepts request none then
    getEmptyChunk flags
  else if accepts request (some this) then
    return some this
  else
    match request with
    | none => return some this
    | some request => return some (← request.converter this iterator length flags)

/-- `BitsChunk::peekUnchecked`. -/
def BitsChunk.peekUnchecked (this : Chunk) (values : List Bool) (request : Option PeekRequest)
    (iterator : Iterator) (length : ℤ) (flags : PeekFlags) : ChunkM (Option Chunk) :=
  peekUncheckedWith (do
    let startOffset := iterator.position
    let endOffset := iterator.position + partLength this.getChunkLength iterator.position length
    let values ← subrange values startOffset endOffset
    return some (.bits (← newHeader) values)) this request iterator length flags

/-- `BitCountChunk::peekUnchecked`. -/
def BitCountChunk.peekUnchecked (this : Chunk) (data : Bool) (request : Option PeekRequest)
    (iterator : Iterator) (length : ℤ) (flags : PeekFlags) : ChunkM (Option Chunk) :=
  peekUncheckedWith (do
    let resultLength := partLength this.getChunkLength iterator.position length
    checkUsage (resultLength ≥ 0) "length is invalid"
    return some (.bitCount (← newHeader) resultLength data)) this request iterator length flags

/-- `BytesChunk::peekUnchecked`. -/
def BytesChunk.peekUnchecked (this : Chunk) (values : List Byte) (request : Option PeekRequest)
    (iterator : Iterator) (length : ℤ) (flags : PeekFlags) : ChunkM (Option Chunk) :=
  peekUncheckedWith (do
    if iterator.position % 8 = 0 ∧ (length < 0 ∨ length % 8 = 0) then
      let startOffset ← toBytes iterator.position
      let endOffset ← toBytes
        (iterator.position + partLength this.getChunkLength iterator.position length)
      let values ← subrange values startOffset endOffset
      return some (.bytes (← newHeader) values)
    else
      SliceChunk.peekConverted this iterator length) this request iterator length flags

/-- `ByteCountChunk::peekUnchecked`. -/
def ByteCountChunk.peekUnchecked (this : Chunk) (data : Byte) (request : Option PeekRequest)
    (iterator : Iterator) (length : ℤ) (flags : PeekFlags) : ChunkM (Option Chunk) :=
  peekUncheckedWith (do
    if iterator.position % 8 = 0 ∧ (length < 0 ∨ length % 8 = 0) then
      let resultLength ← toBytes (partLength this.getChunkLength iterator.position length)
      checkUsage (resultLength ≥ 0) "length is invalid"
      return some (.byteCount (← newHeader) resultLength data)
    else
      SliceChunk.peekConverted this iterator length) this request iterator length flags

/-- `FieldsChunk::peekUnchecked`: a part from the beginning is an incomplete copy if the type
fits. -/
def FieldsChunk.peekUnchecked (this : Chunk) (header : ChunkHeader) (type : ℕ)
    (serialized : List Bool) (request : Option PeekRequest) (iterator : Iterator) (length : ℤ)
    (flags : PeekFlags) : ChunkM (Option Chunk) := do
  let chunkLength := this.getChunkLength
  checkUsage (0 ≤ iterator.position ∧ iterator.position ≤ chunkLength) "iterator is out of range"
  if (length = 0 ∨ (iterator.position = chunkLength ∧ length < 0)) ∧ accepts request none then
    getEmptyChunk flags
  else if (iterator.position = 0 ∧ (-length ≥ chunkLength ∨ length = chunkLength)) ∧
      accepts request (some this) then
    return some this
  else
    match request with
    | none => SliceChunk.peekConverted this iterator length
    | some request =>
      if request.predicate (some this) ∧ iterator.position = 0 then
        let header ← copyHeader header
        return some (.fields { header with incomplete := true } length type serialized)
      else
        return some (← request.converter this iterator length flags)

/-- `SliceChunk::peekUnchecked`. -/
def SliceChunk.peekUnchecked (dispatch : Dispatch) (this chunk : Chunk) (offset : ℤ)
    (request : Option PeekRequest) (iterator : Iterator) (length : ℤ) (flags : PeekFlags) :
    ChunkM (Option Chunk) := do
  let chunkLength := this.getChunkLength
  checkUsage (0 ≤ iterator.position ∧ iterator.position ≤ chunkLength) "iterator is out of range"
  let isWhole := iterator.position = 0 ∧ (-length ≥ chunkLength ∨ length = chunkLength)
  if (length = 0 ∨ (iterator.position = chunkLength ∧ length < 0)) ∧ accepts request none then
    getEmptyChunk flags
  else if isWhole ∧ (offset = 0 ∧ chunkLength = chunk.getChunkLength) ∧
      accepts request (some chunk) then
    return some chunk
  else if isWhole ∧ accepts request (some this) then
    return some this
  else
    dispatch.peekUnchecked chunk request (Iterator.forward (iterator.position + offset))
      (if length < 0 then -min (-length) (chunkLength - offset) else length) flags

/-- `Chunk::peek` without a requested type. -/
def Dispatch.peek (dispatch : Dispatch) (this : Chunk) (iterator : Iterator) (length : ℤ)
    (flags : PeekFlags) : ChunkM (Option Chunk) := do
  let chunk ← dispatch.peekUnchecked this none iterator length flags
  checkPeekResult chunk flags

/-- `Chunk::simplify`. -/
def Dispatch.simplify (dispatch : Dispatch) (this : Chunk) : ChunkM Chunk := do
  deref (← dispatch.peek this (Iterator.ofPosition 0) this.getChunkLength
    { allowIncomplete := true, allowIncorrect := true, allowImproperlyRepresented := true })

namespace Chunk

/-- `canInsertAtFront` and `canInsertAtBack`. -/
def canInsertAtSide (side : Side) : Chunk → Chunk → Bool
  | bits .., chunk => chunk.getChunkType = .bits
  | bitCount .., chunk => chunk.getChunkType = .bitCount
  | bytes .., chunk => chunk.getChunkType = .bytes
  | byteCount _ _ data, byteCount _ _ otherData => data = otherData
  | slice _ chunk offset length, slice _ otherChunk otherOffset otherLength =>
    match side with
    | .front => chunk.same otherChunk && offset = otherOffset + otherLength
    | .back => chunk.same otherChunk && offset + length = otherOffset
  | sequence .., _ => true
  | _, _ => false

def canInsertAtFront : Chunk → Chunk → Bool := canInsertAtSide .front

def canInsertAtBack : Chunk → Chunk → Bool := canInsertAtSide .back

/-- The first or second list in front, as data is inserted at the front or at the back. -/
def Side.join {α : Type} (side : Side) (xs ys : List α) : List α :=
  match side with
  | .front => ys ++ xs
  | .back => xs ++ ys

/-- The elements in the order in which they are inserted at a side. -/
def Side.order {α : Type} (side : Side) (xs : List α) : List α :=
  match side with
  | .front => xs.reverse
  | .back => xs

/-- The element at a side and the other elements. -/
def Side.uncons {α : Type} (side : Side) (xs : List α) : Option (α × List α) :=
  match side with
  | .front => xs.head?.map fun x => (x, xs.tail)
  | .back => xs.getLast?.map fun x => (x, xs.dropLast)

end Chunk

namespace SequenceChunk

/-- `doInsertChunkAtFront` and `doInsertChunkAtBack`: the chunk is merged with its neighbour if the
neighbour can represent the result. -/
def doInsertChunkAt (dispatch : Dispatch) (side : Side) (chunks : List Chunk) (chunk : Chunk) :
    ChunkM (List Chunk) := do
  checkUsage (chunk.getChunkLength > 0) "chunk is empty"
  match side.uncons chunks with
  | none => return [chunk]
  | some (neighbour, others) =>
    if !neighbour.canInsertAtSide side chunk then
      return side.join chunks [chunk]
    else
      let mutableChunk ← makeExclusivelyOwnedMutableChunk neighbour
      let mutableChunk ← dispatch.insertAt side mutableChunk chunk
      let simplified ← dispatch.simplify mutableChunk
      return side.join others [simplified]

/-- The elements of a sequence with their offsets. -/
def withOffsets : List Chunk → ℤ → List (ℤ × Chunk)
  | [], _ => []
  | chunk :: chunks, offset => (offset, chunk) :: withOffsets chunks (offset + chunk.getChunkLength)

/-- The loop body of `doInsertSliceChunkAtFront` and `doInsertSliceChunkAtBack`. -/
def doInsertElementPart (dispatch : Dispatch) (side : Side) (first last : ℤ) (chunks : List Chunk)
    (element : ℤ × Chunk) : ChunkM (List Chunk) := do
  let (chunkBegin, elementChunk) := element
  match elementPart chunkBegin elementChunk.getChunkLength first last with
  | .whole => doInsertChunkAt dispatch side chunks elementChunk
  | .part offset length =>
    let chunk ← deref (← dispatch.peek elementChunk (Iterator.ofPosition offset) length {})
    doInsertChunkAt dispatch side chunks chunk
  | .outside => return chunks

/-- `doInsertAtFront` and `doInsertAtBack`: the elements of sequences, and of slices of sequences,
are inserted one by one. -/
def doInsertAt (dispatch : Dispatch) (side : Side) (chunks : List Chunk) (chunk : Chunk) :
    ChunkM (List Chunk) :=
  match chunk with
  | .slice _ (.sequence _ elements) offset length =>
    (side.order (withOffsets elements 0)).foldlM
      (doInsertElementPart dispatch side offset (offset + length)) chunks
  | .sequence _ elements =>
    (side.order elements).foldlM (doInsertChunkAt dispatch side) chunks
  | chunk => doInsertChunkAt dispatch side chunks chunk

/-- `SequenceChunk::convertChunk`. -/
def convertChunk (dispatch : Dispatch) (chunk : Chunk) (offset length : ℤ) : ChunkM Chunk := do
  let header ← newHeader
  let sliceChunk ← SliceChunk.make chunk offset (partLength chunk.getChunkLength offset length)
  let chunks ← doInsertAt dispatch .back [] sliceChunk
  return .sequence header chunks

/-- `getElementIndex` followed by the subscript. -/
def getElementChunk (chunks : List Chunk) (iterator : Iterator) : ChunkM Chunk :=
  let index := if iterator.isForward then iterator.index else chunks.length - iterator.index - 1
  match if 0 ≤ index then chunks[index.toNat]? else none with
  | some chunk => pure chunk
  | none => throw (.undefinedBehavior "deque subscript out of range")

/-- The loop over the elements in `peekUnchecked`; `none` if no element contains the part. -/
def peekElements (dispatch : Dispatch) (request : Option PeekRequest) (iterator : Iterator)
    (length : ℤ) (flags : PeekFlags) : List Chunk → ℤ → ChunkM (Option (Option Chunk))
  | [], _ => return none
  | chunk :: chunks, position => do
    let elementChunkLength := chunk.getChunkLength
    if (iterator.position = position ∧
        (-length ≥ elementChunkLength ∨ length = elementChunkLength)) ∧
        accepts request (some chunk) then
      return some (some chunk)
    else if position ≤ iterator.position ∧ iterator.position < position + elementChunkLength ∧
        (-length ≥ elementChunkLength ∨
          iterator.position + length ≤ position + elementChunkLength) then
      return some (← dispatch.peekUnchecked chunk request
        ⟨iterator.isForward, iterator.position - position, -1⟩ length flags)
    else
      peekElements dispatch request iterator length flags chunks (position + elementChunkLength)

/-- Step 3 of `peekUnchecked`: the element chunk at the index of the iterator. -/
def peekIndexed (chunks : List Chunk) (request : Option PeekRequest) (iterator : Iterator)
    (length : ℤ) : ChunkM (Option Chunk) := do
  if iterator.index ≠ -1 ∧ iterator.index ≠ chunks.length then
    let chunk ← getElementChunk chunks iterator
    let chunkLength := chunk.getChunkLength
    if (-length ≥ chunkLength ∨ length = chunkLength) ∧ accepts request (some chunk) then
      return some chunk
  return none

/-- `SequenceChunk::peekUnchecked`. -/
def peekUnchecked (dispatch : Dispatch) (this : Chunk) (chunks : List Chunk)
    (request : Option PeekRequest) (iterator : Iterator) (length : ℤ) (flags : PeekFlags) :
    ChunkM (Option Chunk) := do
  let chunkLength := this.getChunkLength
  checkUsage (0 ≤ iterator.position ∧ iterator.position ≤ chunkLength) "iterator is out of range"
  if (length = 0 ∨ (iterator.position = chunkLength ∧ length < 0)) ∧ accepts request none then
    getEmptyChunk flags
  else if (iterator.position = 0 ∧ length = chunkLength) ∧ accepts request (some this) then
    return some this
  else
    match ← peekIndexed chunks request iterator length with
    | some chunk => return some chunk
    | none =>
      let elements := if iterator.isForward then chunks else chunks.reverse
      match ← peekElements dispatch request iterator length flags elements 0 with
      | some result => return result
      | none =>
        match request with
        | none =>
          let offset ← convertedOffset this iterator length
          return some (← convertChunk dispatch this offset length)
        | some request => return some (← request.converter this iterator length flags)

end SequenceChunk

namespace Chunk

/-- `insertAtFront` and `insertAtBack` of all classes. -/
def insertAtSideWith (dispatch : Dispatch) (side : Side) (this chunk : Chunk) : ChunkM Chunk :=
  match this, chunk with
  | bits header values, bits _ otherValues => return bits header (side.join values otherValues)
  | bitCount header length data, bitCount _ otherLength _ =>
    return bitCount header (length + otherLength) data
  | bytes header values, bytes _ otherValues => return bytes header (side.join values otherValues)
  | byteCount header length data, byteCount _ otherLength _ =>
    return byteCount header (length + otherLength) data
  | slice header chunk offset length, slice _ _ _ otherLength =>
    match side with
    | .front => return slice header chunk (offset - otherLength) (length + otherLength)
    | .back => return slice header chunk offset (length + otherLength)
  | sequence header chunks, chunk => do
    return sequence header (← SequenceChunk.doInsertAt dispatch side chunks chunk)
  | empty _, _ | fields .., _ => throw (.runtime "Invalid operation")
  | _, _ => throw (.undefinedBehavior "static_cast to another chunk class")

/-- `peekUnchecked` of all classes. -/
def peekUncheckedOf (dispatch : Dispatch) (this : Chunk) (request : Option PeekRequest)
    (iterator : Iterator) (length : ℤ) (flags : PeekFlags) : ChunkM (Option Chunk) :=
  match this with
  | empty _ => EmptyChunk.peekUnchecked this request iterator length flags
  | bits _ values => BitsChunk.peekUnchecked this values request iterator length flags
  | bitCount _ _ data => BitCountChunk.peekUnchecked this data request iterator length flags
  | bytes _ values => BytesChunk.peekUnchecked this values request iterator length flags
  | byteCount _ _ data => ByteCountChunk.peekUnchecked this data request iterator length flags
  | fields header _ type serialized =>
    FieldsChunk.peekUnchecked this header type serialized request iterator length flags
  | slice _ chunk offset _ =>
    SliceChunk.peekUnchecked dispatch this chunk offset request iterator length flags
  | sequence _ chunks =>
    SequenceChunk.peekUnchecked dispatch this chunks request iterator length flags

end Chunk

/-- Virtual calls nested at most as deep as given. -/
def dispatch : ℕ → Dispatch
  | 0 => ⟨fun _ _ _ _ _ => throw .callDepthExceeded, fun _ _ _ => throw .callDepthExceeded⟩
  | n + 1 => ⟨peekUncheckedOf (dispatch n), insertAtSideWith (dispatch n)⟩

namespace Chunk

def peek (this : Chunk) (iterator : Iterator) (length : ℤ) (flags : PeekFlags) :
    ChunkM (Option Chunk) :=
  (dispatch (this.size + 2)).peek this iterator length flags

/-- `Chunk::peek` with a requested type. -/
def peekAs (this : Chunk) (request : PeekRequest) (iterator : Iterator) (length : ℤ)
    (flags : PeekFlags) : ChunkM (Option Chunk) := do
  checkUsage (flags.allowEmpty = false)
    "peeking with a specific chunk type with PF_ALLOW_EMPTY is an invalid operation"
  let chunk ← (dispatch (this.size + 2)).peekUnchecked this request iterator length flags
  checkPeekResult chunk flags

/-- `Chunk::convertChunk`; the deserializer of the requested class is generated code. -/
def convertChunk (deserialize : MemoryInputStream → ChunkM Chunk) (chunk : Chunk)
    (offset length : ℤ) (flags : PeekFlags) : ChunkM Chunk := do
  if !flags.allowReinterpretation ∧ chunk.getChunkType ≠ .bits ∧ chunk.getChunkType ≠ .bytes then
    throw (.runtime "Cannot convert chunk to the requested type")
  let outputStream ← (chunk.serialize MemoryOutputStream.empty offset
    (partLength chunk.getChunkLength offset length) : Except Error MemoryOutputStream)
  let inputStream ← MemoryInputStream.ofData outputStream.getData (-1)
  deserialize inputStream

/-- The request for a class of fields chunks, given its subclasses and its deserializer. -/
def fieldsRequest (isInstance : ℕ → Bool) (deserialize : MemoryInputStream → ChunkM Chunk) :
    PeekRequest where
  predicate
    | none => true
    | some (fields _ _ type _) => isInstance type
    | some _ => false
  converter chunk iterator length flags := do
    let offset ← convertedOffset chunk iterator length
    convertChunk deserialize chunk offset length flags

def simplify (this : Chunk) : ChunkM Chunk := (dispatch (this.size + 2)).simplify this

def insertAtSide (this : Chunk) (side : Side) (chunk : Chunk) : ChunkM Chunk :=
  (dispatch (this.size + chunk.size)).insertAt side this chunk

def insertAtFront (this chunk : Chunk) : ChunkM Chunk := this.insertAtSide .front chunk

def insertAtBack (this chunk : Chunk) : ChunkM Chunk := this.insertAtSide .back chunk

def canInsertAt (this chunk : Chunk) (_offset : ℤ) : Bool :=
  match this, chunk with
  | bits .., chunk => chunk.getChunkType = .bits
  | bitCount .., chunk => chunk.getChunkType = .bitCount
  | bytes .., chunk => chunk.getChunkType = .bytes
  | byteCount _ _ data, byteCount _ _ otherData => data = otherData
  | _, _ => false

/-- Inserting elements into a vector. -/
def insertElements {α : Type} (values others : List α) (offset : ℤ) : List α :=
  values.take offset.toNat ++ others ++ values.drop offset.toNat

def insertAt (this chunk : Chunk) (offset : ℤ) : ChunkM Chunk := do
  checkUsage (0 ≤ offset ∧ offset ≤ this.getChunkLength) "offset is invalid"
  match this, chunk with
  | bits header values, bits _ others => return bits header (insertElements values others offset)
  | bitCount header length data, bitCount _ otherLength _ =>
    return bitCount header (length + otherLength) data
  | bytes header values, bytes _ others => do
    let offset ← toBytes offset
    return bytes header (insertElements values others offset)
  | byteCount header length data, byteCount _ otherLength _ =>
    return byteCount header (length + otherLength) data
  | empty _, _ | fields .., _ | slice .., _ | sequence .., _ => throw (.runtime "Invalid operation")
  | _, _ => throw (.undefinedBehavior "static_cast to another chunk class")

/-- `canRemoveAtFront` and `canRemoveAtBack`. -/
def canRemoveAtSide (this : Chunk) (length : ℤ) : Bool :=
  match this with
  | bits .. | bitCount .. | sequence .. => true
  | bytes .. | byteCount .. => length % 8 = 0
  | empty _ | fields .. | slice .. => false

def canRemoveAt (this : Chunk) (offset length : ℤ) : Bool :=
  match this with
  | bits .. | bitCount .. => true
  | bytes .. | byteCount .. => offset % 8 = 0 ∧ length % 8 = 0
  | empty _ | fields .. | slice .. | sequence .. => false

/-- Erasing elements at a side of a vector. -/
def Side.erase {α : Type} (side : Side) (values : List α) (count : ℤ) : List α :=
  match side with
  | .front => values.drop count.toNat
  | .back => values.take (values.length - count.toNat)

/-- The loops of `SequenceChunk::doRemoveAtFront` and `doRemoveAtBack`, over the elements from the
side on. -/
def removeElements (side : Side) : List Chunk → ℤ → ChunkM (List Chunk)
  | [], _ => return []
  | chunk :: chunks, length => do
    let chunkLength := chunk.getChunkLength
    if chunkLength ≤ length then
      if length - chunkLength = 0 then
        return chunks
      else
        removeElements side chunks (length - chunkLength)
    else
      let position := match side with
        | .front => length
        | .back => 0
      let part ← deref (← chunk.peek (Iterator.ofPosition position) (chunkLength - length) {})
      return part :: chunks

/-- `removeAtFront` and `removeAtBack`. -/
def removeAtSide (this : Chunk) (side : Side) (length : ℤ) : ChunkM Chunk := do
  checkUsage (0 ≤ length ∧ length ≤ this.getChunkLength) "length is invalid"
  match this with
  | bits header values => return bits header (side.erase values length)
  | bitCount header oldLength data => return bitCount header (oldLength - length) data
  | bytes header values => return bytes header (side.erase values (← toBytes length))
  | byteCount header oldLength data => return byteCount header (oldLength - (← toBytes length)) data
  | slice header chunk offset oldLength =>
    match side with
    | .front => return slice header chunk (offset + length) (oldLength - length)
    | .back => return slice header chunk offset (oldLength - length)
  | sequence header chunks => do
    let elements := match side with
      | .front => chunks
      | .back => chunks.reverse
    let elements ← removeElements side elements length
    return sequence header (match side with
      | .front => elements
      | .back => elements.reverse)
  | empty _ | fields .. => throw (.runtime "Invalid operation")

def removeAtFront (this : Chunk) (length : ℤ) : ChunkM Chunk := this.removeAtSide .front length

def removeAtBack (this : Chunk) (length : ℤ) : ChunkM Chunk := this.removeAtSide .back length

/-- Erasing elements inside a vector. -/
def eraseElements {α : Type} (values : List α) (offset length : ℤ) : List α :=
  values.take offset.toNat ++ values.drop (offset + length).toNat

def removeAt (this : Chunk) (offset length : ℤ) : ChunkM Chunk := do
  let chunkLength := this.getChunkLength
  checkUsage (0 ≤ length ∧ length ≤ chunkLength) "length is invalid"
  checkUsage (0 ≤ offset ∧ offset + length ≤ chunkLength) "offset is invalid"
  match this with
  | bits header values => return bits header (eraseElements values offset length)
  | bitCount header oldLength data => return bitCount header (oldLength - length) data
  | bytes header values =>
    return bytes header (eraseElements values (← toBytes offset) (← toBytes length))
  | byteCount header oldLength data => return byteCount header (oldLength - (← toBytes length)) data
  | empty _ | fields .. | slice .. | sequence .. => throw (.runtime "Invalid operation")

end Chunk

end Inet
