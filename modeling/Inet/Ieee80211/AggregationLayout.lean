import Inet.Ieee80211.Aggregation

/-! # The layout of an aggregate

The subframe headers of an aggregate stay the objects that they are while it
grows, and the cells of a frame stand behind its header. Deaggregation pops
the headers at the positions where they were inserted.
-/

namespace Inet

open Chunk Outcome Packet

namespace Chunk

/-- What a content has is in what it grows to. -/
structure Kept (content after : Chunk) : Prop where
  cells : content.cells <+: after.cells
  elements : ∀ (element : Chunk) (p : ℤ), element.getChunkType = .fields →
    element.ElementAt content p → element.ElementAt after p
  le : content.getChunkLength ≤ after.getChunkLength

variable {content chunk after after' : Chunk} {p : ℤ}

theorem Kept.refl (content : Chunk) : Kept content content :=
  ⟨List.prefix_rfl, fun _ _ _ h => h, le_rfl⟩

theorem Kept.trans (h : Kept content after) (h' : Kept after after') : Kept content after' where
  cells := h.cells.trans h'.cells
  elements element p hfields hat := h'.elements element p hfields (h.elements element p hfields hat)
  le := h.le.trans h'.le

end Chunk

namespace Ieee80211

open BitString

/-! ## Subframe headers -/

/-- A chunk that is the header of a subframe. -/
structure IsSubframeHeader (header : Chunk) (length : ℤ) : Prop where
  fields : header.getChunkType = .fields
  accepted : mpduSubframeHeaderRequest.predicate (some header) = true
  chunkLength : header.getChunkLength = 32
  clashFree : header.ClashFree
  plain : ∀ x ∈ header.cells, x.counted = false
  mpduLength : getMpduLength header = length

/-- At a position stands a subframe: its header, and behind it the cells of the frame. -/
structure HoldsAt (content : Chunk) (p : ℤ) (frame : Chunk) : Prop where
  header : ∃ header, IsSubframeHeader header (frame.getChunkLength / 8) ∧ header.ElementAt content p
  nonneg : 0 ≤ p
  le : p + 32 + frame.getChunkLength ≤ content.getChunkLength
  cells : seg content.cells (p + 32) frame.getChunkLength = frame.cells

/-- The length of the padding behind a frame that is not the last one. -/
def paddingLength (frame : Chunk) : ℤ := 8 * ((4 - frame.getChunkLength / 8 % 4) % 4)

/-- The subframes from a position on, up to the end of the content. -/
def Subframes (content : Chunk) : ℤ → List Chunk → Prop
  | _, [] => True
  | p, frame :: frames => HoldsAt content p frame ∧
      (frames = [] → p + 32 + frame.getChunkLength = content.getChunkLength) ∧
      Subframes content (p + 32 + frame.getChunkLength + paddingLength frame) frames

variable {content after frame : Chunk} {p : ℤ}

theorem HoldsAt.kept (h : HoldsAt content p frame) (hkept : Kept content after)
    (hwf : content.WF) : HoldsAt after p frame where
  header := by
    obtain ⟨header, hheader, hat⟩ := h.header
    exact ⟨header, hheader, hkept.elements header p hheader.fields hat⟩
  nonneg := h.nonneg
  le := h.le.trans hkept.le
  cells := by
    obtain ⟨rest, hrest⟩ := hkept.cells
    have hle := h.le
    have hnonneg := h.nonneg
    rw [← hrest, seg_append_of_le _ _ (by omega) (by rw [hwf.length_cells]; omega)]
    exact h.cells

section Aggregation

variable {Class Fields : Type} (std : TagSort Class Fields)

/-- A packet that can be a subframe. -/
structure IsFrame (frame : TaggedPacket Class Fields) : Prop where
  wf : frame.packet.content.WF
  noClash : NoClash frame.packet.content.cells
  total : frame.packet.getTotalLength = frame.packet.content.getChunkLength
  bytes : frame.packet.content.getChunkLength % 8 = 0
  pos : 0 < frame.packet.content.getChunkLength
  le : frame.packet.content.getChunkLength ≤ 8 * 4095
  tags : ∀ r ∈ frame.regionTags.regionTags, 0 ≤ r.offset ∧ 0 < r.length

/-- A frame that can be read without flags, and has no region tags. -/
structure Untagged (frame : TaggedPacket Class Fields) : Prop where
  clean : frame.packet.content.whole.Clean
  regionTags : frame.regionTags = ⟨[]⟩

variable {frame : TaggedPacket Class Fields}

theorem peekAll_eq (h : IsFrame frame) (flags : PeekFlags) :
    frame.peekAll flags = checkPeekResult (some frame.packet.content.whole) flags := by
  have hpos := h.pos
  have htotal := h.total
  unfold TaggedPacket.peekAll Packet.peekAt
  dsimp only
  rw [checkUsage, if_pos ⟨le_rfl, by omega⟩, pure_bind]
  have hlength : checkUsage (m := ChunkM) (-1 ≤ frame.packet.getTotalLength ∧
      0 + frame.packet.getTotalLength ≤ frame.packet.getTotalLength) "length is invalid" =
        pure () :=
    if_pos ⟨by omega, by omega⟩
  rw [hlength, pure_bind, if_neg (by omega), htotal]
  unfold Chunk.peekAny Chunk.peek Dispatch.peek
  change peekUncheckedOf (dispatch (frame.packet.content.size + 1)) _ none ⟨true, 0, -1⟩ _ flags >>=
    _ = _
  rw [peekUnchecked_whole _ hpos, pure_bind]

theorem getChunkLength_whole {chunk : Chunk} (h : chunk.WF) :
    chunk.whole.getChunkLength = chunk.getChunkLength := by
  have hlength := h.length_cells
  have hlength' := (h.rep (k := False) False.elim).whole.1.wf.length_cells
  rw [cells_whole h] at hlength'
  omega

theorem IsFrame.whole (h : IsFrame frame) (hclean : frame.packet.content.whole.Clean) :
    frame.packet.content.whole.ClashFree ∧
      frame.packet.content.whole.cells = frame.packet.content.cells ∧
      frame.packet.content.whole.getChunkLength = frame.packet.content.getChunkLength := by
  have hcells := cells_whole h.wf
  have hwf := (h.wf.rep (k := False) False.elim).whole.1.wf
  exact ⟨⟨hwf, hclean, hcells ▸ h.noClash⟩, hcells, getChunkLength_whole h.wf⟩

/-- The content of an aggregate so far. -/
structure IsPart (content : Chunk) : Prop where
  clashFree : content.ClashFree
  aligned : content.getChunkLength % 8 = 0
  type : content.getChunkType = .empty ∧ content.getChunkLength = 0 ∨
    content.getChunkType = .sequence ∧ 0 < content.getChunkLength

/-- What peeking all of a frame returns. -/
def mpduOf (frame : TaggedPacket Class Fields) : Chunk := frame.packet.content.whole

end Aggregation

end Ieee80211

end Inet
