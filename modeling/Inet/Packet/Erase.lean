import Inet.Chunk.Serialized
import Inet.Packet.Content

/-! # Erasing

`eraseAt` removes the designated bits from the content and moves the iterators,
as far as the branch that erases inside a chunk erases what it skips, and a part
at the end can be removed there.
-/

namespace Inet

open Chunk Outcome

namespace Packet

variable {k : Prop} {this : Packet} {offset length : ℤ}

theorem length_eraseElements {α : Type} (xs : List α) (h₀ : 0 ≤ offset) (h₁ : 0 ≤ length)
    (h₂ : offset + length ≤ xs.length) :
    ((eraseElements xs offset length).length : ℤ) = xs.length - length := by
  rw [eraseElements_eq_seg _ h₂, List.length_append, Nat.cast_add, length_seg le_rfl h₀ (by omega),
    length_seg (by omega) (by omega) (by omega)]
  omega

theorem spec_eraseAt (h : this.Consistent) (hk : k → this.content.Clean) (h₀ : 0 ≤ offset)
    (h₁ : 0 ≤ length) (h₂ : offset + length ≤ this.getTotalLength)
    (hin : this.RemovesInside offset length → offset = length)
    (hend : k → offset + length = this.getTotalLength → 0 < length →
      length < this.getTotalLength → this.content.canRemoveAtSide length = true)
    (hsafe : k → this.IndexSafe (offset < this.getFrontOffset)
      (this.getBackOffset < offset + length)) :
    Spec (¬ k) (this.eraseAt offset length) fun packet =>
      Edited k this packet (eraseElements this.content.cells offset length)
        (min this.getFrontOffset offset)
        (min this.backIterator.position (this.getTotalLength - offset - length)) := by
  have hcells : (this.content.cells.length : ℤ) = this.getTotalLength := by
    rw [h.wf.length_cells, h.length_eq]
  have hlen := length_eraseElements this.content.cells h₀ h₁ (by omega)
  have hfront : this.getFrontOffset = this.frontIterator.position := rfl
  have hback : this.getBackOffset = this.getTotalLength - this.backIterator.position := rfl
  unfold eraseAt
  rw [checkUsage, if_pos ⟨h₀, by omega⟩, pure_bind, checkUsage, if_pos ⟨by omega, h₂⟩, pure_bind]
  refine (spec_erasedContent h.wf h.length_eq hk h₀ h₁ h₂ hin hend).bind ?_
  rintro content ⟨hrep, hext, hempty⟩
  have hseq : eraseElements this.content.cells offset length = [] →
      content.getChunkType ≠ .sequence := by
    intro hnil
    rw [hnil, List.length_nil] at hlen
    rw [hempty (by omega)]
    decide
  refine (spec_moveIteratorIf h.front_index hrep (fun _ => hseq)
    (fun hk hm => (hsafe hk).front (by omega)) (by omega)).bind ?_
  rintro frontIterator ⟨hff, hfp, hfc⟩
  refine (spec_moveIteratorIf h.back_index hrep (fun _ => hseq)
    (fun hk hm => (hsafe hk).back (by omega)) (by omega)).bind ?_
  rintro backIterator ⟨hbf, hbp, hbc⟩
  refine Spec.pure ⟨hrep, hext, ?_, hff.trans h.isForward, hbf.trans h.isBackward, ?_, ?_, hfc, hbc⟩
  · rw [hlen, hcells]
    rfl
  · rw [show getFrontOffset _ = frontIterator.position from rfl, hfp]
    split_ifs <;> omega
  · dsimp only
    rw [hbp]
    split_ifs <;> omega

end Packet

end Inet
