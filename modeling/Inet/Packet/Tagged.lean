import Inet.Packet.Growing
import Inet.Tag.RegionRun

/-! # Packets with region tags

A packet together with its region tags, which an insertion moves with the data
that they belong to.
-/

namespace Inet

open Chunk Outcome

namespace Outcome

variable {σ ε α : Type} {fail : Prop}

theorem spec_liftM {e : Except ε α} {post : α → Prop} (hfail : ∀ error, e = .error error → fail)
    (hpost : ∀ a, e = .ok a → post a) : Spec fail (liftM e : StateT σ (Except ε) α) post := by
  intro s
  cases he : e with
  | error error => exact hfail error he
  | ok a => exact hpost a he

theorem returns_liftM {e : Except ε α} {a : α} (h : e = .ok a) :
    Spec fail (liftM e : StateT σ (Except ε) α) fun r => r = a := by
  refine spec_liftM (fun error herror => ?_) fun r hr => ?_
  · rw [h] at herror
    cases herror
  · rw [h] at hr
    exact (Except.ok.inj hr).symm

end Outcome

structure TaggedPacket (Class Fields : Type) where
  packet : Packet
  regionTags : SharingRegionTagSet Class Fields

namespace TaggedPacket

variable {Class Fields : Type} (std : TagSort Class Fields) (this : TaggedPacket Class Fields)

def new : ChunkM (TaggedPacket Class Fields) := do
  return ⟨← Packet.new, ⟨[]⟩⟩

/-- How `insertAt` moves the region tags. -/
def movedTags (chunk : Chunk) (offset : ℤ) : Except Error (SharingRegionTagSet Class Fields) :=
  let content := this.packet.content
  if content.getChunkType = .empty then
    return this.regionTags
  else if offset = 0 ∧ content.canInsertAtFront chunk then
    this.regionTags.moveAllTags chunk.getChunkLength
  else if offset = this.packet.getTotalLength ∧ content.canInsertAtBack chunk then
    return this.regionTags
  else
    this.regionTags.moveTags std offset (content.getChunkLength - offset) chunk.getChunkLength

def insertAt (chunk : Chunk) (offset : ℤ) : ChunkM (TaggedPacket Class Fields) := do
  let packet ← this.packet.insertAt chunk offset
  return ⟨packet, ← (this.movedTags std chunk offset : Except Error _)⟩

def insertAtBack (chunk : Chunk) : ChunkM (TaggedPacket Class Fields) :=
  this.insertAt std chunk this.packet.getBackOffset

def peekAll (flags : PeekFlags) : ChunkM (Option Chunk) :=
  this.packet.peekAt none 0 this.packet.getTotalLength flags

/-- Copying region tags of another packet into the packet. -/
def copyTags (source : TaggedPacket Class Fields) (sourceOffset offset length : ℤ) :
    ChunkM (TaggedPacket Class Fields) := do
  let regionTags ← (this.regionTags.copyTags std source.regionTags sourceOffset offset length :
    Except Error _)
  return { this with regionTags := regionTags }

/-! Packets without region tags. -/

theorem movedTags_nil (packet : Packet) (chunk : Chunk) (offset : ℤ) :
    (TaggedPacket.mk packet ⟨[]⟩ : TaggedPacket Class Fields).movedTags std chunk offset =
      .ok ⟨[]⟩ := by
  unfold movedTags
  dsimp only
  split_ifs <;> first | rfl | skip
  unfold SharingRegionTagSet.moveTags
  split_ifs <;> rfl

theorem copyTags_nil (offset length sourceOffset : ℤ) :
    (⟨[]⟩ : SharingRegionTagSet Class Fields).copyTags std ⟨[]⟩ sourceOffset offset length =
      .ok ⟨[]⟩ := rfl

theorem insertAtBack_nil (packet : Packet) (chunk : Chunk) :
    (TaggedPacket.mk packet ⟨[]⟩ : TaggedPacket Class Fields).insertAtBack std chunk =
      (do return ⟨← packet.insertAtBack chunk, ⟨[]⟩⟩) := by
  unfold insertAtBack insertAt
  rw [movedTags_nil]
  rfl

end TaggedPacket

end Inet
