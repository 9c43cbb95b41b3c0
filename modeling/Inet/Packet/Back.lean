import Inet.Chunk.Backward
import Inet.Packet.Consistent

/-! # The end of the data part

`peekAtBack` and `popAtBack` peek backward, so they return the last bits of the
data part exactly if the backward peek of the content does.
-/

namespace Inet

open Chunk Outcome

namespace Chunk

theorem returns_bits_iff {α : Type} {x : ChunkM α} {g : α → Option Chunk} {xs : List Cell}
    {ys : List Bool} (h : Spec (¬ True) x fun a => HasCells True (g a) xs) (hn : NoClash xs) :
    (Returns x fun a => ∃ part, g a = some part ∧ part.toBits = ys) ↔ xs.map Cell.bit = ys := by
  constructor
  · intro hr
    have hand := (hr.and h).mono (fun hf => hf.1) fun r hr => hr
    obtain ⟨r, ⟨part, hpart, hys⟩, c, hc, hrep⟩ := Returns.exists hand
    rw [hpart] at hc
    obtain rfl := Option.some.inj hc
    rw [← hys, toBits, hrep.cells_eq hn]
  · rintro rfl
    refine h.mono (by simp) fun r hr => ?_
    obtain ⟨c, hc, hrep⟩ := hr
    exact ⟨c, hc, by rw [toBits, hrep.cells_eq hn]⟩

theorem exists_peek_backward {k : Prop} {chunk : Chunk} {iterator : Iterator} {length : ℤ}
    (hwf : chunk.WF) (hk : k → chunk.Clean)
    (hf : iterator.isForward = false) (hc : chunk.Consistent iterator)
    (h₀ : 0 ≤ iterator.position) (h₁ : 0 < length)
    (h₂ : iterator.position + length ≤ chunk.getChunkLength) (flags : PeekFlags) :
    ∃ xs, PeeksInside k chunk iterator.position length (chunk.peek iterator length flags) xs := by
  obtain ⟨xs, hspec, hinfix, hlen, hiff⟩ :=
    peekBackOk (chunk.size + 2) k chunk iterator.position length flags hwf hk h₀ h₁ h₂ le_rfl
  refine ⟨xs, ?_, hinfix, hlen, hiff⟩
  have hi : (dispatch (chunk.size + 2)).peekUnchecked chunk none iterator length flags =
      (dispatch (chunk.size + 2)).peekUnchecked chunk none (Iterator.backward iterator.position)
        length flags := by
    rw [Iterator.backward, ← hf]
    exact peekUncheckedOf_index hwf hc length flags
  unfold peek Dispatch.peek
  rw [hi]
  refine hspec.bind ?_
  rintro _ ⟨c, rfl, hrep⟩
  have hpos : 0 < c.getChunkLength := by
    rw [hrep.length_eq]
    omega
  exact (spec_checkPeekResult hrep.clean hpos flags).mono id fun r hr => ⟨c, hr, hrep⟩

/-- Without bit counts, bits are as good as cells. -/
theorem NoBitCounts.map_bit_eq_iff {chunk : Chunk} (hn : chunk.NoBitCounts) {xs : List Cell}
    (hxs : xs <:+: chunk.cells) (p l : ℤ) :
    xs.map Cell.bit = seg chunk.toBits p l ↔ xs = seg chunk.cells p l := by
  have hplain : ∀ ys : List Cell, ys <:+: chunk.cells → ys = (ys.map Cell.bit).map Cell.plain := by
    intro ys hys
    rw [List.map_map]
    refine (List.map_id ys).symm.trans (List.map_congr_left fun x hx => ?_)
    obtain ⟨bit, counted⟩ := x
    obtain rfl : counted = false := hn.plain _ (hys.subset hx)
    rfl
  rw [toBits, ← map_seg]
  constructor
  · intro h
    rw [hplain xs hxs, h, ← hplain _ (seg_isInfix _ _ _)]
  · rintro rfl
    rfl

/-- The backward peek returns the requested bits, counted from the end. -/
def PeeksBack (chunk : Chunk) (position length : ℤ) : Prop :=
  Returns (chunk.peek (Iterator.backward position) length {}) fun result =>
    ∃ part, result = some part ∧
      part.toBits = seg chunk.toBits (chunk.getChunkLength - position - length) length

end Chunk

namespace Packet

/-- `peekAtBack` returns the last bits of the data part. -/
def PeeksAtBack (this : Packet) (length : ℤ) : Prop :=
  Returns (this.peekAtBack none length {}) fun result =>
    ∃ part, result = some part ∧
      part.toBits = seg this.dataBits (this.getDataLength - length) length

/-- `popAtBack` returns the last bits of the data part. -/
def PopsAtBack (this : Packet) (length : ℤ) : Prop :=
  Returns (this.popAtBack none length {}) fun result =>
    ∃ part, result.1 = some part ∧
      part.toBits = seg this.dataBits (this.getDataLength - length) length

variable {this : Packet} {length : ℤ}

theorem Consistent.seg_dataBits (h : this.Consistent) (h₂ : length ≤ this.getDataLength) :
    seg this.dataBits (this.getDataLength - length) length =
      seg this.content.toBits
        (this.content.getChunkLength - this.backIterator.position - length) length := by
  have := h.front_nonneg
  have := h.length_eq
  rw [dataBits, seg_seg _ h.front_nonneg (by omega) (by omega)]
  congr 1
  rw [getDataLength, h.length_eq, getFrontOffset]
  omega

theorem Consistent.exists_peekAtBack {k : Prop} (h : this.Consistent)
    (hk : k → this.content.Clean) (h₁ : 0 < length) (h₂ : length ≤ this.getDataLength) :
    ∃ xs, PeeksInside k this.content this.backIterator.position length
      (this.peekAtBack none length {}) xs := by
  have hle := h.back_le
  have hfb := h.front_le_back
  have hf := h.front_nonneg
  simp only [getBackOffset, getFrontOffset, getTotalLength] at hle hfb hf
  have h₂' := h₂
  simp only [getDataLength, getTotalLength] at h₂'
  unfold peekAtBack
  rw [checkUsage, if_pos ⟨h₁.le, h₂⟩, pure_bind]
  exact exists_peek_backward h.wf hk h.isBackward h.back_index.consistent (by omega) h₁
    (by rw [h.length_eq, getTotalLength]; omega) {}

/-- The backward peek of a chunk, and with it `peekAtBack` and `popAtBack`, return the requested
bits exactly if no vector or slice in the way has other bits at the mirrored position. -/
theorem peeksBack_iff (chunk : Chunk) (packet : Packet) (position length : ℤ) (h₁ : 0 < length) :
    (chunk.WF → chunk.Clean → chunk.NoBitCounts → 0 ≤ position →
      position + length ≤ chunk.getChunkLength →
      (chunk.PeeksBack position length ↔ chunk.BackwardOk position length)) ∧
    (packet.Consistent → packet.content.Clean → packet.content.NoBitCounts →
      length ≤ packet.getDataLength →
      (packet.PeeksAtBack length ↔
        packet.content.BackwardOk packet.backIterator.position length) ∧
      (packet.PopsAtBack length ↔
        packet.content.BackwardOk packet.backIterator.position length)) := by
  constructor
  · intro hwf hc hn h₀ h₂
    obtain ⟨xs, hspec, hinfix, -, hiff⟩ := exists_peek_backward (k := True) hwf (fun _ => hc)
      (show (Iterator.backward position).isForward = false from rfl) (Or.inl rfl) h₀ h₁ h₂ {}
    exact (returns_bits_iff hspec (hn.noClash.of_isInfix hinfix)).trans
      ((hn.map_bit_eq_iff hinfix _ _).trans hiff)
  · intro h hc hn h₂
    obtain ⟨xs, hspec, hinfix, hlen, hiff⟩ :=
      h.exists_peekAtBack (k := True) (fun _ => hc) h₁ h₂
    have hclash := hn.noClash.of_isInfix hinfix
    have hbits := (hn.map_bit_eq_iff hinfix _ _).trans hiff
    rw [← h.seg_dataBits h₂] at hbits
    refine ⟨(returns_bits_iff hspec hclash).trans hbits, ?_⟩
    have hpop : Spec (¬ True) (packet.popAtBack none length {}) fun r => HasCells True r.1 xs := by
      unfold popAtBack
      rw [checkUsage, if_pos ⟨h₁.le, h₂⟩, pure_bind]
      refine hspec.bind ?_
      rintro _ ⟨c, rfl, hrep⟩
      have hpos : 0 < c.getChunkLength := by
        rw [hrep.length_eq]
        omega
      refine (spec_moveIterator h.wf h.back_index _).bind fun iterator _ => ?_
      exact Spec.pure ⟨c, rfl, hrep⟩
    exact (returns_bits_iff hpop hclash).trans hbits

theorem peeksBack_last_byte :
    let header : ChunkHeader := ⟨0, false, false, false⟩
    (sequence header [bits header [true, false], bytes header [1, 2]]).PeeksBack 0 16 ∧
      (ofContent (sequence header [bits header [true, false], bytes header [1, 2]])).PeeksAtBack
        16 := by
  intro header
  have hwf : (sequence header [bits header [true, false], bytes header [1, 2]]).WF := by
    simp [WF, AllWF, getChunkLength]
  have hc : (sequence header [bits header [true, false], bytes header [1, 2]]).Clean := by
    simp [header, ChunkHeader.Clean]
  have hn : (sequence header [bits header [true, false], bytes header [1, 2]]).NoBitCounts := by
    simp [NoBitCounts, AllNoBitCounts]
  have hok : (sequence header [bits header [true, false], bytes header [1, 2]]).BackwardOk 0 16 :=
    Or.inr (by simp [BackwardOkIn, sumLengths, getChunkLength])
  have hiff := peeksBack_iff (sequence header [bits header [true, false], bytes header [1, 2]])
    (ofContent (sequence header [bits header [true, false], bytes header [1, 2]])) 0 16 (by decide)
  refine ⟨(hiff.1 hwf hc hn (by decide) (by decide)).2 hok,
    (hiff.2 ?_ hc hn (by decide)).1.2 hok⟩
  exact ⟨hwf, rfl, rfl, rfl, by decide, by decide, by decide, Or.inr rfl, Or.inr rfl⟩

/-- The last byte of a byte vector is peeked as its first one. -/
theorem exists_not_peeksBack : ∃ chunk : Chunk, chunk.WF ∧ chunk.Clean ∧ chunk.NoBitCounts ∧
    0 + 8 ≤ chunk.getChunkLength ∧ ¬ chunk.PeeksBack 0 8 := by
  refine ⟨bytes ⟨0, false, false, false⟩ [1, 2], trivial, ⟨rfl, rfl, rfl⟩, trivial, by decide, ?_⟩
  intro h
  have hrun : ((bytes ⟨0, false, false, false⟩ [1, 2]).peek (Iterator.backward 0) 8 {}).run 1 =
      .ok (some (bytes ⟨1, false, false, false⟩ [1]), 2) := rfl
  have hpost := h 1
  rw [hrun] at hpost
  obtain ⟨part, hpart, hbits⟩ := hpost
  rw [← Option.some.inj hpart] at hbits
  exact absurd hbits (by decide)

end Packet

end Inet
