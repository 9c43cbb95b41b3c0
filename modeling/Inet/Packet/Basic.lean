import Inet.Chunk.Operations

/-! # Packets

A packet holds its content in one immutable chunk, with an iterator at each end
of the data part and the cached total length. Region tags do not influence
the content and are left out here.
-/

namespace Inet

open Chunk

namespace SequenceChunk

/-- The loop of `seekIterator`: the index behind the elements that end at the offset. -/
def seekIndex (offset : ℤ) : List Chunk → ℤ → ℤ → ℤ
  | [], _, _ => -1
  | chunk :: chunks, position, i =>
    let position := position + chunk.getChunkLength
    if position = offset then i + 1
    else if position > offset then -1
    else seekIndex offset chunks position (i + 1)

end SequenceChunk

namespace Chunk

/-- The index `seekIterator` computes. -/
def seekedIndex (this : Chunk) (isForward : Bool) (offset : ℤ) : ℤ :=
  if offset = 0 then 0
  else
    match this with
    | sequence _ chunks =>
      SequenceChunk.seekIndex offset (if isForward then chunks else chunks.reverse) 0 0
    | _ => -1

def seekIterator (this : Chunk) (iterator : Iterator) (offset : ℤ) : ChunkM Iterator := do
  if this.getChunkType = .sequence then
    checkUsage (0 ≤ offset ∧ offset ≤ this.getChunkLength) "offset is out of range"
  return ⟨iterator.isForward, offset, this.seekedIndex iterator.isForward offset⟩

def moveIterator (this : Chunk) (iterator : Iterator) (length : ℤ) : ChunkM Iterator :=
  let position := iterator.position + length
  match this with
  | sequence _ chunks => do
    if iterator.index ≠ -1 ∧ iterator.index ≠ chunks.length then
      let chunk ← SequenceChunk.getElementChunk chunks iterator
      if chunk.getChunkLength = length then
        return ⟨iterator.isForward, position, iterator.index + 1⟩
    return ⟨iterator.isForward, position, -1⟩
  | _ => return ⟨iterator.isForward, position, if position = 0 then 0 else -1⟩

def moveIteratorIf (this : Chunk) (needed : Prop) [Decidable needed] (iterator : Iterator)
    (length : ℤ) : ChunkM Iterator :=
  if needed then this.moveIterator iterator length else pure iterator

/-- `makeExclusivelyOwnedMutableChunk` of a chunk that may have no other owner. -/
def mutableCopy (this : Chunk) (isShared : Bool) : ChunkM Chunk :=
  if isShared then makeExclusivelyOwnedMutableChunk this else pure this

/-- Peeking with or without a requested type. -/
def peekAny (this : Chunk) (request : Option PeekRequest) (iterator : Iterator) (length : ℤ)
    (flags : PeekFlags) : ChunkM (Option Chunk) :=
  match request with
  | none => this.peek iterator length flags
  | some request => this.peekAs request iterator length flags

/-- A peeked part in a list, or the empty list if the part is not needed. -/
def partIf (this : Chunk) (needed : Prop) [Decidable needed] (iterator : Iterator) (length : ℤ)
    (flags : PeekFlags) : ChunkM (List Chunk) :=
  if needed then do
    return [← deref (← this.peek iterator length flags)]
  else
    return []

end Chunk

structure Packet where
  content : Chunk
  frontIterator : Iterator
  backIterator : Iterator
  totalLength : ℤ
  deriving Repr

namespace Packet

/-- The constructor of an empty packet. -/
def new : ChunkM Packet := do
  return ⟨.empty (← newHeader), ⟨true, 0, 0⟩, ⟨false, 0, 0⟩, 0⟩

/-- The constructor of a packet with the given content. -/
def ofContent (content : Chunk) : Packet :=
  ⟨content, ⟨true, 0, 0⟩, ⟨false, 0, 0⟩, content.getChunkLength⟩

def getTotalLength (this : Packet) : ℤ := this.totalLength

def getDataLength (this : Packet) : ℤ :=
  this.getTotalLength - this.frontIterator.position - this.backIterator.position

def getFrontOffset (this : Packet) : ℤ := this.frontIterator.position

def getBackOffset (this : Packet) : ℤ := this.getTotalLength - this.backIterator.position

def setFrontOffset (this : Packet) (offset : ℤ) : ChunkM Packet := do
  checkUsage (0 ≤ offset ∧ offset ≤ this.getTotalLength - this.backIterator.position)
    "offset is out of range"
  return { this with frontIterator := ← this.content.seekIterator this.frontIterator offset }

def setBackOffset (this : Packet) (offset : ℤ) : ChunkM Packet := do
  checkUsage (this.frontIterator.position ≤ offset ∧ offset ≤ this.getTotalLength)
    "offset is out of range"
  return { this with
    backIterator := ← this.content.seekIterator this.backIterator (this.getTotalLength - offset) }

/-- `peekAtFront`, with length `-1` if it is unspecified. -/
def peekAtFront (this : Packet) (request : Option PeekRequest) (length : ℤ) (flags : PeekFlags) :
    ChunkM (Option Chunk) := do
  let dataLength := this.getDataLength
  checkUsage (-1 ≤ length ∧ length ≤ dataLength) "length is invalid"
  this.content.peekAny request this.frontIterator (if length = -1 then -dataLength else length)
    flags

def peekAtBack (this : Packet) (request : Option PeekRequest) (length : ℤ) (flags : PeekFlags) :
    ChunkM (Option Chunk) := do
  checkUsage (0 ≤ length ∧ length ≤ this.getDataLength) "length is invalid"
  this.content.peekAny request this.backIterator length flags

def peekDataAt (this : Packet) (request : Option PeekRequest) (offset length : ℤ)
    (flags : PeekFlags) : ChunkM (Option Chunk) := do
  let dataLength := this.getDataLength
  checkUsage (0 ≤ offset ∧ offset ≤ dataLength) "offset is out of range"
  checkUsage (-1 ≤ length ∧ offset + length ≤ dataLength) "length is invalid"
  this.content.peekAny request ⟨true, this.frontIterator.position + offset, -1⟩
    (if length = -1 then -(dataLength - offset) else length) flags

def peekAt (this : Packet) (request : Option PeekRequest) (offset length : ℤ)
    (flags : PeekFlags) : ChunkM (Option Chunk) := do
  let totalLength := this.getTotalLength
  checkUsage (0 ≤ offset ∧ offset ≤ totalLength) "offset is out of range"
  checkUsage (-1 ≤ length ∧ offset + length ≤ totalLength) "length is invalid"
  this.content.peekAny request ⟨true, offset, -1⟩
    (if length = -1 then -(totalLength - offset) else length) flags

/-- `popAtFront`: the chunk and the packet afterwards. -/
def popAtFront (this : Packet) (request : Option PeekRequest) (length : ℤ) (flags : PeekFlags) :
    ChunkM (Option Chunk × Packet) := do
  checkUsage (-1 ≤ length ∧ length ≤ this.getDataLength) "length is invalid"
  match ← this.peekAtFront request length flags with
  | none => return (none, this)
  | some chunk =>
    let frontIterator ← this.content.moveIterator this.frontIterator chunk.getChunkLength
    return (some chunk, { this with frontIterator := frontIterator })

/-- `popAtBack`: the chunk and the packet afterwards. -/
def popAtBack (this : Packet) (request : Option PeekRequest) (length : ℤ) (flags : PeekFlags) :
    ChunkM (Option Chunk × Packet) := do
  checkUsage (0 ≤ length ∧ length ≤ this.getDataLength) "length is invalid"
  match ← this.peekAtBack request length flags with
  | none => return (none, this)
  | some chunk =>
    let backIterator ← this.content.moveIterator this.backIterator chunk.getChunkLength
    return (some chunk, { this with backIterator := backIterator })

/-- The sequence of the given parts, as the functions below build it. -/
def sequenceOf (parts : List Chunk) : ChunkM Chunk := do
  parts.foldlM (fun sequence part => sequence.insertAtBack part) (.sequence (← newHeader) [])

/-- The content that a packet has after `insertAt`. -/
def insertedContent (this : Packet) (chunk : Chunk) (offset : ℤ) : ChunkM Chunk := do
  let content := this.content
  if content.getChunkType = .empty then
    return chunk
  else if offset = 0 ∧ content.canInsertAtFront chunk then
    let newContent ← makeExclusivelyOwnedMutableChunk content
    (← newContent.insertAtFront chunk).simplify
  else if offset = this.getTotalLength ∧ content.canInsertAtBack chunk then
    let newContent ← makeExclusivelyOwnedMutableChunk content
    (← newContent.insertAtBack chunk).simplify
  else if content.canInsertAt chunk offset then
    let newContent ← makeExclusivelyOwnedMutableChunk content
    (← newContent.insertAt chunk offset).simplify
  else
    let front ← content.partIf (offset ≠ 0) ⟨true, 0, 0⟩ offset PeekFlags.allowAll
    let back ← content.partIf (offset ≠ this.getTotalLength) ⟨true, offset, -1⟩
      (this.getTotalLength - offset) PeekFlags.allowAll
    sequenceOf (front ++ chunk :: back)

def insertAt (this : Packet) (chunk : Chunk) (offset : ℤ) : ChunkM Packet := do
  checkUsage (chunk.getChunkLength > 0) "chunk is empty"
  checkUsage (0 ≤ offset ∧ offset ≤ this.getTotalLength) "offset is out of range"
  let content ← this.insertedContent chunk offset
  let chunkLength := chunk.getChunkLength
  let frontIterator ← content.moveIteratorIf (offset < this.getFrontOffset) this.frontIterator
    chunkLength
  let backIterator ← content.moveIteratorIf (offset > this.getBackOffset) this.backIterator
    chunkLength
  return ⟨content, frontIterator, backIterator, this.totalLength + chunkLength⟩

def insertAtFront (this : Packet) (chunk : Chunk) : ChunkM Packet :=
  this.insertAt chunk this.getFrontOffset

def insertAtBack (this : Packet) (chunk : Chunk) : ChunkM Packet :=
  this.insertAt chunk this.getBackOffset

/-- The content that a packet has after `eraseAt`. -/
def erasedContent (this : Packet) (offset length : ℤ) : ChunkM Chunk := do
  let content := this.content
  if content.getChunkLength = length then
    return .empty (← newHeader)
  else if offset = 0 ∧ content.canRemoveAtSide length then
    let newContent ← makeExclusivelyOwnedMutableChunk content
    (← newContent.removeAtFront length).simplify
  else if offset + length = this.getTotalLength ∧ content.canRemoveAtSide length then
    let newContent ← makeExclusivelyOwnedMutableChunk content
    (← newContent.removeAtBack length).simplify
  else if content.canRemoveAt offset length then
    let newContent ← makeExclusivelyOwnedMutableChunk content
    (← newContent.removeAt offset offset).simplify
  else
    let front ← content.partIf (offset ≠ 0) ⟨true, 0, 0⟩ offset {}
    let back ← content.partIf (offset ≠ this.getTotalLength) ⟨true, offset + length, -1⟩
      (this.getTotalLength - offset - length) {}
    sequenceOf (front ++ back)

def eraseAt (this : Packet) (offset length : ℤ) : ChunkM Packet := do
  checkUsage (0 ≤ offset ∧ offset ≤ this.getTotalLength) "offset is out of range"
  checkUsage (-1 ≤ length ∧ offset + length ≤ this.getTotalLength) "length is invalid"
  let content ← this.erasedContent offset length
  let frontEraseLength := this.getFrontOffset - offset
  let backEraseLength := offset + length - this.getBackOffset
  let frontIterator ← content.moveIteratorIf (frontEraseLength > 0) this.frontIterator
    (-frontEraseLength)
  let backIterator ← content.moveIteratorIf (backEraseLength > 0) this.backIterator
    (-backEraseLength)
  return ⟨content, frontIterator, backIterator, this.totalLength - length⟩

def eraseAtBack (this : Packet) (length : ℤ) : ChunkM Packet := do
  checkUsage (-1 ≤ length ∧ length ≤ this.getDataLength) "length is invalid"
  this.eraseAt (this.getBackOffset - length) length

/-- A part of the packet, or nothing if the part is empty. -/
def partAt (this : Packet) (offset length : ℤ) : ChunkM (List Chunk) := do
  if length > 0 then
    return [← deref (← this.peekAt none offset length {})]
  else
    return []

/-- `replaceAt`: the old chunk and the packet afterwards. -/
def replaceAt (this : Packet) (request : Option PeekRequest) (chunk : Chunk) (offset length : ℤ)
    (flags : PeekFlags) : ChunkM (Chunk × Packet) := do
  let totalLength := this.getTotalLength
  checkUsage (chunk.getChunkLength > 0) "chunk is empty"
  checkUsage (0 ≤ offset ∧ offset ≤ totalLength) "offset is out of range"
  checkUsage (-1 ≤ length ∧ offset + length ≤ totalLength) "length is invalid"
  let oldChunk ← deref (← this.peekAt request offset length flags)
  let chunkLength := oldChunk.getChunkLength
  let frontPart ← this.partAt 0 offset
  let backLength := totalLength - offset - chunkLength
  let backPart ← this.partAt (totalLength - backLength) backLength
  let result ← makeExclusivelyOwnedMutableChunk oldChunk
  checkUsage (chunkLength = chunk.getChunkLength) "length is different"
  if offset = 0 ∧ backLength = 0 then
    return (result, { this with content := chunk })
  else
    return (result, { this with content := ← sequenceOf (frontPart ++ chunk :: backPart) })

/-- `updateAt`. A chunk that the peek creates has no other owner: it is updated in place, and the
content stays as it is. -/
def updateAt (this : Packet) (request : Option PeekRequest) (f : Chunk → ChunkM Chunk)
    (offset length : ℤ) (flags : PeekFlags) : ChunkM Packet := do
  let totalLength := this.getTotalLength
  checkUsage (0 ≤ offset ∧ offset ≤ totalLength) "offset is out of range"
  checkUsage (-1 ≤ length ∧ offset + length ≤ totalLength) "length is invalid"
  let nextId ← get
  let chunk ← deref (← this.peekAt request offset length flags)
  let chunkLength := chunk.getChunkLength
  let backLength := totalLength - offset - chunkLength
  let isShared := chunk.header.id < nextId
  let mutableChunk ← f (← chunk.mutableCopy isShared)
  checkUsage (chunkLength = mutableChunk.getChunkLength) "length is different"
  if isShared then
    let frontPart ← this.partAt 0 offset
    let backPart ← this.partAt (totalLength - backLength) backLength
    return { this with content := ← sequenceOf (frontPart ++ mutableChunk :: backPart) }
  else
    return this

end Packet

end Inet
