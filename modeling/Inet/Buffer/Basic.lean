import Inet.Chunk.Operations

/-! # Chunk buffers

A chunk buffer holds chunks at offsets, in a vector of regions. A region whose
data has been reset is about to be erased; it is `none` here.
-/

namespace Inet

open Chunk

namespace ChunkBuffer

structure Region where
  offset : ℤ
  data : Chunk
  deriving Repr

namespace Region

def getStartOffset (this : Region) : ℤ := this.offset

def getEndOffset (this : Region) : ℤ := this.offset + this.data.getChunkLength

end Region

/-- `std::lower_bound` with `compareStartOffset`. -/
def lowerBoundStartOffset (regions : List Region) (newRegion : Region) : ℕ :=
  regions.findIdx fun region => !decide (region.getStartOffset < newRegion.getStartOffset)

/-- `std::upper_bound` with `compareStartOffset`. -/
def upperBoundStartOffset (regions : List Region) (newRegion : Region) : ℕ :=
  regions.findIdx fun region => newRegion.getStartOffset < region.getStartOffset

/-- `std::upper_bound` with `compareEndOffset`. -/
def upperBoundEndOffset (regions : List Region) (newRegion : Region) : ℕ :=
  regions.findIdx fun region => newRegion.getEndOffset < region.getEndOffset

def eraseEmptyRegions (regions : List (Option Region)) : List Region := regions.reduceOption

/-- The data of a region in a range given by offsets in the buffer. -/
def peekRegion (region : Region) (startOffset endOffset : ℤ) : ChunkM Chunk := do
  deref (← region.data.peek (Iterator.ofPosition (startOffset - region.getStartOffset))
    (endOffset - startOffset) {})

/-- The loop of `sliceRegions`. It ends when the new region splits an old one. -/
def sliceLoop (newRegion : Region) : List Region → ChunkM (List Region)
  | [] => return []
  | oldRegion :: regions => do
    if newRegion.getEndOffset ≤ oldRegion.getStartOffset ∨
        oldRegion.getEndOffset ≤ newRegion.getStartOffset then
      return oldRegion :: (← sliceLoop newRegion regions)
    else if newRegion.getStartOffset ≤ oldRegion.getStartOffset ∧
        oldRegion.getEndOffset ≤ newRegion.getEndOffset then
      sliceLoop newRegion regions
    else if oldRegion.getStartOffset < newRegion.getStartOffset ∧
        newRegion.getEndOffset < oldRegion.getEndOffset then
      let previousData ← peekRegion oldRegion oldRegion.getStartOffset newRegion.getStartOffset
      let nextData ← peekRegion oldRegion newRegion.getEndOffset oldRegion.getEndOffset
      return ⟨oldRegion.getStartOffset, previousData⟩ :: ⟨newRegion.getEndOffset, nextData⟩ ::
        regions
    else if oldRegion.getEndOffset ≤ newRegion.getEndOffset then
      let data ← peekRegion oldRegion oldRegion.getStartOffset newRegion.getStartOffset
      return ⟨oldRegion.offset, data⟩ :: (← sliceLoop newRegion regions)
    else if newRegion.getStartOffset ≤ oldRegion.getStartOffset then
      let data ← peekRegion oldRegion newRegion.getEndOffset oldRegion.getEndOffset
      return ⟨newRegion.getEndOffset, data⟩ :: (← sliceLoop newRegion regions)
    else
      return oldRegion :: (← sliceLoop newRegion regions)

def sliceRegions (regions : List Region) (newRegion : Region) : ChunkM (List Region) := do
  if regions.isEmpty then
    return regions
  else
    let lower := lowerBoundStartOffset regions newRegion - 1
    let upper := upperBoundEndOffset regions newRegion
    let upper := if upper ≠ regions.length then upper + 1 else upper
    let sliced ← sliceLoop newRegion ((regions.take upper).drop lower)
    return regions.take lower ++ sliced ++ regions.drop (max lower upper)

/-- The data merged into the data of another region at a side. -/
def mergeInto (data : Chunk) (side : Side) (otherData : Chunk) : ChunkM Chunk := do
  let newData ← makeExclusivelyOwnedMutableChunk data
  (← newData.insertAtSide side otherData).simplify

/-- The data of two regions merged as a sequence. -/
def mergeAsSequence (previousData nextData : Chunk) : ChunkM Chunk := do
  let sequenceChunk := Chunk.sequence (← newHeader) []
  let sequenceChunk ← sequenceChunk.insertAtBack previousData
  sequenceChunk.insertAtBack nextData

/-- `mergeRegions`: the two regions afterwards. -/
def mergeRegions (previousRegion nextRegion : Region) :
    ChunkM (Option Region × Option Region) := do
  if previousRegion.getEndOffset = nextRegion.getStartOffset then
    if previousRegion.data.canInsertAtBack nextRegion.data then
      let data ← mergeInto previousRegion.data .back nextRegion.data
      return (some ⟨previousRegion.offset, data⟩, none)
    else if nextRegion.data.canInsertAtFront previousRegion.data then
      let data ← mergeInto nextRegion.data .front previousRegion.data
      return (none, some ⟨previousRegion.offset, data⟩)
    else
      let data ← mergeAsSequence previousRegion.data nextRegion.data
      return (some ⟨previousRegion.offset, data⟩, none)
  else
    return (some previousRegion, some nextRegion)

/-- `mergeRegions` with the region before the new one, if there is one. -/
def mergePrevious (previousRegion : Option Region) (region : Region) :
    ChunkM (Option Region × Option Region) :=
  match previousRegion with
  | none => pure (none, some region)
  | some previousRegion => mergeRegions previousRegion region

/-- `mergeRegions` with the region behind the new one, if there is one. -/
def mergeNext (previousRegion region nextRegion : Option Region) : ChunkM (List (Option Region)) :=
  match nextRegion, region, previousRegion with
  | none, _, _ => return [previousRegion, region]
  | some nextRegion, some region, _ => do
    let (region, nextRegion) ← mergeRegions region nextRegion
    return [previousRegion, region, nextRegion]
  | some nextRegion, none, some previousRegion => do
    let (previousRegion, nextRegion) ← mergeRegions previousRegion nextRegion
    return [previousRegion, none, nextRegion]
  | some _, none, none => throw (.undefinedBehavior "null pointer dereference")

end ChunkBuffer

structure ChunkBuffer where
  regions : List ChunkBuffer.Region
  deriving Repr

namespace ChunkBuffer

def new : ChunkBuffer := ⟨[]⟩

/-- What `replace` does with the regions that `sliceRegions` has cut. -/
def insertRegion (regions : List Region) (newRegion : Region) : ChunkM (List Region) := do
  match regions.head?, regions.getLast? with
  | some front, some back =>
    if back.getEndOffset ≤ newRegion.offset then
      let (previousRegion, region) ← mergeRegions back newRegion
      return regions.dropLast ++ eraseEmptyRegions [previousRegion, region]
    else if newRegion.offset + newRegion.data.getChunkLength ≤ front.getStartOffset then
      let (region, nextRegion) ← mergeRegions newRegion front
      return eraseEmptyRegions [region, nextRegion] ++ regions.tail
    else
      let index := upperBoundStartOffset regions newRegion
      let (previousRegion, region) ← mergePrevious (regions.take index).getLast? newRegion
      let merged ← mergeNext previousRegion region (regions.drop index).head?
      return (regions.take index).dropLast ++ eraseEmptyRegions merged ++ (regions.drop index).tail
  | _, _ => return [newRegion]

def replace (this : ChunkBuffer) (offset : ℤ) (chunk : Chunk) : ChunkM ChunkBuffer := do
  checkUsage (offset ≥ 0) "offset is invalid"
  checkUsage (chunk.getChunkLength > 0) "chunk is empty"
  let newRegion : Region := ⟨offset, chunk⟩
  let regions ← sliceRegions this.regions newRegion
  return ⟨← insertRegion regions newRegion⟩

/-- The loop of `clear`: the regions without the one that is exactly the cleared range. -/
def eraseExact (offset length : ℤ) : List Region → Option (List Region)
  | [] => none
  | region :: regions =>
    if region.offset = offset ∧ region.data.getChunkLength = length then some regions
    else (eraseExact offset length regions).map (region :: ·)

def clear (this : ChunkBuffer) (offset length : ℤ) : ChunkM ChunkBuffer := do
  checkUsage (offset ≥ 0) "offset is invalid"
  checkUsage (length ≥ 0) "length is invalid"
  match eraseExact offset length this.regions with
  | some regions => return ⟨regions⟩
  | none =>
    let data := Chunk.byteCount (← newHeader) (← toBytes length) 63
    return ⟨← sliceRegions this.regions ⟨offset, data⟩⟩

end ChunkBuffer

end Inet
