import Inet.Packet.Basic

/-! # Chunk queues

A queue keeps its data in one immutable chunk. Popping only moves an iterator,
until it has passed half of the chunk.
-/

namespace Inet

open Chunk

structure ChunkQueue where
  pushedLength : ℤ
  poppedLength : ℤ
  content : Chunk
  iterator : Iterator
  deriving Repr

namespace ChunkQueue

/-- The constructor of an empty queue. -/
def new : ChunkM ChunkQueue := do
  return ⟨0, 0, .empty (← newHeader), ⟨true, 0, 0⟩⟩

/-- `Chunk::unspecifiedLength`. -/
def unspecifiedLength : ℤ := -(2 ^ 63 - 1)

def getLength (this : ChunkQueue) : ℤ := this.content.getChunkLength - this.iterator.position

def getPushedLength (this : ChunkQueue) : ℤ := this.pushedLength

def getPoppedLength (this : ChunkQueue) : ℤ := this.poppedLength

/-- The content without its first bits. -/
def removedContent (this : ChunkQueue) (length : ℤ) : ChunkM Chunk := do
  let content := this.content
  if content.getChunkLength = length then
    return .empty (← newHeader)
  else if content.canRemoveAtSide length then
    let newContent ← makeExclusivelyOwnedMutableChunk content
    newContent.removeAtFront length
  else
    deref (← content.peek (Iterator.ofPosition length) (content.getChunkLength - length) {})

def remove (this : ChunkQueue) (length : ℤ) : ChunkM ChunkQueue := do
  let content ← this.removedContent length
  let iterator ← content.seekIterator this.iterator (this.iterator.position - length)
  return { this with content, iterator }

def moveIteratorOrRemove (this : ChunkQueue) (length : ℤ) : ChunkM ChunkQueue := do
  let iterator ← this.content.moveIterator this.iterator length
  let this := { this with poppedLength := this.poppedLength + length, iterator }
  if this.iterator.position > this.content.getChunkLength / 2 then
    this.remove this.iterator.position
  else
    return this

def peek (this : ChunkQueue) (length : ℤ) (flags : PeekFlags) : ChunkM (Option Chunk) := do
  checkUsage (-1 ≤ length ∧ length ≤ this.getLength) "length is invalid"
  this.content.peek this.iterator (if length = -1 then unspecifiedLength else length) flags

def peekAt (this : ChunkQueue) (offset length : ℤ) (flags : PeekFlags) : ChunkM (Option Chunk) := do
  checkUsage (0 ≤ offset ∧ offset ≤ this.getLength) "offset is out of range"
  checkUsage (-1 ≤ length ∧ offset + length ≤ this.getLength) "length is invalid"
  this.content.peek ⟨true, this.iterator.position + offset, -1⟩
    (if length = -1 then unspecifiedLength else length) flags

def peekAll (this : ChunkQueue) (flags : PeekFlags) : ChunkM (Option Chunk) :=
  this.peekAt 0 this.getLength flags

/-- `pop`: the chunk and the queue afterwards. -/
def pop (this : ChunkQueue) (length : ℤ) (flags : PeekFlags) :
    ChunkM (Option Chunk × ChunkQueue) := do
  checkUsage (-1 ≤ length ∧ length ≤ this.getLength) "length is invalid"
  match ← this.peek (if length = -1 then unspecifiedLength else length) flags with
  | none => return (none, this)
  | some chunk => return (some chunk, ← this.moveIteratorOrRemove chunk.getChunkLength)

def clear (this : ChunkQueue) : ChunkM ChunkQueue := do
  let iterator ← this.content.seekIterator this.iterator 0
  return { this with
    poppedLength := this.poppedLength + this.getLength
    iterator
    content := .empty (← newHeader) }

/-- The content merged with a chunk at its end. -/
def mergedContent (this : ChunkQueue) (chunk : Chunk) : ChunkM Chunk := do
  let newContent ← makeExclusivelyOwnedMutableChunk this.content
  (← newContent.insertAtBack chunk).simplify

def push (this : ChunkQueue) (chunk : Chunk) : ChunkM ChunkQueue := do
  checkUsage (chunk.getChunkLength > 0) "chunk is empty"
  let this := { this with pushedLength := this.pushedLength + chunk.getChunkLength }
  if this.content.getChunkType = .empty then
    return { this with content := chunk }
  else if this.content.canInsertAtBack chunk then
    return { this with content := ← this.mergedContent chunk }
  else
    let content ← Packet.sequenceOf [this.content, chunk]
    let iterator ← content.seekIterator this.iterator this.iterator.position
    return { this with content, iterator }

end ChunkQueue

end Inet
