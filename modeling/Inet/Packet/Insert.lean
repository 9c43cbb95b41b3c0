import Inet.Chunk.Backward
import Inet.Packet.Content

/-! # Inserting

`insertAt` puts the bits of the chunk at the offset, in all its branches. The
classes that insert inside themselves do not look at the alignment of the
offset, so bytes are refused there and equal bytes are put at a byte boundary.
-/

namespace Inet

open Chunk Outcome BitString

section Lists

variable {α : Type}

theorem length_insertElements (xs ys : List α) {offset : ℤ} (h : offset ≤ xs.length) :
    (insertElements xs ys offset).length = xs.length + ys.length := by
  simp only [insertElements, List.length_append, List.length_take, List.length_drop]
  omega

theorem map_insertElements {β : Type} (f : α → β) (xs ys : List α) (offset : ℤ) :
    (insertElements xs ys offset).map f = insertElements (xs.map f) (ys.map f) offset := by
  simp [insertElements, List.map_take, List.map_drop]

/-- The fill looks the same from the bit at the offset on. -/
def FillRotates (data : Byte) (offset : ℤ) : Prop :=
  ∀ i < 8, data.getMsbD i = data.getMsbD ((i + offset.toNat) % 8)

end Lists

namespace Chunk

variable {k : Prop} {this chunk : Chunk} {offset : ℤ}

/-- The cells after an insertion: a byte count with the same fill only makes a byte count longer. -/
def insertedCells (this chunk : Chunk) (offset : ℤ) : List Cell :=
  match this, chunk with
  | byteCount header length data, byteCount _ otherLength otherData =>
    if data = otherData then (byteCount header (length + otherLength) data).cells
    else insertElements this.cells chunk.cells offset
  | _, _ => insertElements this.cells chunk.cells offset

/-- Bytes are inserted into bytes at a byte boundary, and into a byte count with the same fill where
the fill looks the same. -/
structure InsertAligned (this chunk : Chunk) (offset : ℤ) : Prop where
  bytes : this.getChunkType = .bytes → chunk.getChunkType = .bytes → offset % 8 = 0
  byteCount : ∀ header length data header' length', this = byteCount header length data →
    chunk = byteCount header' length' data → FillRotates data offset

theorem insertedCells_cases (this chunk : Chunk) (offset : ℤ) :
    (∃ header length data header' length', this = byteCount header length data ∧
      chunk = byteCount header' length' data ∧
      insertedCells this chunk offset = (byteCount header (length + length') data).cells) ∨
    (∀ header length data header' length', this = byteCount header length data →
      chunk ≠ byteCount header' length' data) ∧
      insertedCells this chunk offset = insertElements this.cells chunk.cells offset := by
  cases this with
  | byteCount header length data =>
    cases chunk with
    | byteCount header' length' data' =>
      by_cases h : data = data'
      · subst h
        exact Or.inl ⟨_, _, _, _, _, rfl, rfl, if_pos rfl⟩
      · refine Or.inr ⟨?_, if_neg h⟩
        rintro _ _ _ _ _ h₁ h₂
        cases h₁
        cases h₂
        exact h rfl
    | _ => exact Or.inr ⟨by simp, rfl⟩
  | _ => exact Or.inr ⟨by simp, by cases chunk <;> rfl⟩

theorem cells_byteCount_add (header header' header'' : ChunkHeader) {length length' : ℤ}
    (h : 0 ≤ length) (h' : 0 ≤ length') (data : Byte) :
    (byteCount header (length + length') data).cells =
      (byteCount header' length data).cells ++ (byteCount header'' length' data).cells := by
  rw [cells, cells, cells, ← List.map_append, ← concat_append, List.replicate_append_replicate,
    Int.toNat_add h h']

theorem insertedCells_zero (hwf : this.WF) (hcwf : chunk.WF) :
    insertedCells this chunk 0 = chunk.cells ++ this.cells := by
  rcases insertedCells_cases this chunk 0 with ⟨_, _, _, _, _, rfl, rfl, h⟩ | ⟨-, h⟩
  · rw [h, add_comm, cells_byteCount_add _ _ _ hcwf hwf]
  · simp [h, insertElements]

theorem insertedCells_length (hwf : this.WF) (hcwf : chunk.WF) (he : offset = this.cells.length) :
    insertedCells this chunk offset = this.cells ++ chunk.cells := by
  rcases insertedCells_cases this chunk offset with ⟨_, _, _, _, _, rfl, rfl, h⟩ | ⟨-, h⟩
  · rw [h, cells_byteCount_add _ _ _ hwf hcwf]
  · rw [h, he]
    simp [insertElements]

theorem length_insertedCells (offset : ℤ) (hwf : this.WF) (hcwf : chunk.WF)
    (h₁ : offset ≤ this.getChunkLength) :
    (insertedCells this chunk offset).length = this.cells.length + chunk.cells.length := by
  rcases insertedCells_cases this chunk offset with ⟨_, _, _, _, _, rfl, rfl, h⟩ | ⟨-, h⟩
  · rw [h, cells_byteCount_add _ _ _ hwf hcwf, List.length_append]
  · rw [h, length_insertElements _ _ (by rw [hwf.length_cells]; exact h₁)]

theorem insertedCells_withHeader (header : ChunkHeader) (this chunk : Chunk) (offset : ℤ) :
    insertedCells (this.withHeader header) chunk offset = insertedCells this chunk offset := by
  cases this <;> cases chunk <;> rfl

theorem canInsertAt_withHeader (header : ChunkHeader) (this chunk : Chunk) (offset : ℤ) :
    (this.withHeader header).canInsertAt chunk offset = this.canInsertAt chunk offset := by
  cases this <;> cases chunk <;> rfl

theorem InsertAligned.withHeader (header : ChunkHeader) (h : this.InsertAligned chunk offset) :
    (this.withHeader header).InsertAligned chunk offset := by
  refine ⟨fun ht => h.bytes (by cases this <;> exact ht), ?_⟩
  rintro _ length data header' length' ht hc
  refine h.byteCount this.header length data header' length' ?_ hc
  cases this <;> cases ht
  rfl

theorem canInsertAt_of_byteCount (header header' : ChunkHeader) (length length' : ℤ) (data : Byte) :
    (byteCount header length data).canInsertAt (byteCount header' length' data) offset = true := by
  simp [canInsertAt]

theorem spec_insertAt (hwf : this.WF) (hext : this.Extensible) (hk : k → this.Clean)
    (hcwf : chunk.WF) (hpos : 0 < chunk.getChunkLength) (h₀ : 0 ≤ offset)
    (h₁ : offset ≤ this.getChunkLength) (hcan : this.canInsertAt chunk offset = true)
    (hal : k → this.InsertAligned chunk offset) :
    Spec (¬ k) (this.insertAt chunk offset) fun r =>
      Rep k r (insertedCells this chunk offset) := by
  unfold insertAt
  rw [checkUsage, if_pos ⟨h₀, h₁⟩, pure_bind]
  cases this with
  | empty | fields | slice | sequence => simp [canInsertAt] at hcan
  | bits header values =>
    cases chunk with
    | bits header' values' =>
      refine Spec.pure ?_
      have hrep := WF.rep (k := k)
        (show WF (bits header (insertElements values values' offset)) from trivial) hk
      rwa [cells, map_insertElements] at hrep
    | _ => simp [canInsertAt, getChunkType] at hcan
  | bitCount header length data =>
    cases chunk with
    | bitCount header' length' data' =>
      have hlength : 0 < length := hext
      have hlength' : 0 < length' := hpos
      have h₁ : offset ≤ length := h₁
      refine Spec.pure ⟨by change 0 ≤ length + length'; omega, ?_, fun hn => ?_, hk⟩
      · rw [length_insertedCells offset hwf hcwf h₁]
        simp [cells, getChunkLength]
        omega
      · -- the cells before the inserted ones, or behind them, have the fill of the chunk
        have hn : NoClash (insertElements (List.replicate length.toNat ⟨data, true⟩)
            (List.replicate length'.toNat ⟨data', true⟩) offset) := hn
        have hdata : data = data' := by
          rw [insertElements, List.take_replicate, List.drop_replicate] at hn
          by_cases hzero : 0 < offset
          · exact NoClash.fill_eq .back (by omega) (by omega) hn.left
          · rw [List.append_assoc] at hn
            exact (NoClash.fill_eq .back (by omega) (by omega) hn.right).symm
        subst hdata
        change _ = insertElements (List.replicate length.toNat (⟨data, true⟩ : Cell))
          (List.replicate length'.toNat ⟨data, true⟩) offset
        rw [insertElements, List.take_replicate, List.drop_replicate,
          List.replicate_append_replicate, List.replicate_append_replicate, cells]
        congr 1
        omega
    | _ => simp [canInsertAt, getChunkType] at hcan
  | bytes header values =>
    cases chunk with
    | bytes header' values' =>
      dsimp only
      by_cases ho : offset % 8 = 0
      · rw [toBytes_eq ho, pure_bind]
        refine Spec.pure ?_
        have hrep := WF.rep (k := k)
          (show WF (bytes header (insertElements values values' (offset / 8))) from trivial) hk
        have hconcat : concat (insertElements values values' (offset / 8)) =
            insertElements (concat values) (concat values') offset := by
          rw [insertElements, insertElements, concat_append, concat_append,
            show offset.toNat = 8 * (offset / 8).toNat by omega, take_concat, drop_concat]
        rwa [cells, hconcat, map_insertElements] at hrep
      · rw [toBytes, if_neg ho]
        exact Spec.throw fun h => ho ((hal h).bytes rfl rfl)
    | _ => simp [canInsertAt, getChunkType] at hcan
  | byteCount header length data =>
    cases chunk with
    | byteCount header' length' data' =>
      obtain rfl : data = data' := by simpa [canInsertAt] using hcan
      refine Spec.pure ?_
      have hrep := WF.rep (k := k)
        (show WF (byteCount header (length + length') data) from Int.add_nonneg hwf hcwf) hk
      rwa [show insertedCells (byteCount header length data)
        (byteCount header' length' data) offset =
        (byteCount header (length + length') data).cells from if_pos rfl]
    | _ => simp [canInsertAt] at hcan

end Chunk

namespace Packet

variable {k : Prop} {this : Packet} {chunk : Chunk} {offset : ℤ}

theorem spec_insertedContent (hwf : this.content.WF)
    (hlen : this.content.getChunkLength = this.getTotalLength) (hext : this.content.Extensible)
    (hk : k → this.content.Clean) (hcwf : chunk.WF) (hpos : 0 < chunk.getChunkLength)
    (hck : k → chunk.Clean) (h₀ : 0 ≤ offset) (h₁ : offset ≤ this.getTotalLength)
    (hal : k → this.content.InsertAligned chunk offset) :
    Spec (¬ k) (this.insertedContent chunk offset) fun c =>
      Rep k c (insertedCells this.content chunk offset) := by
  have hcells : (this.content.cells.length : ℤ) = this.getTotalLength := by
    rw [hwf.length_cells, hlen]
  have hne : insertedCells this.content chunk offset ≠ [] := by
    intro hnil
    have hlength := length_insertedCells offset hwf hcwf (by omega)
    have := hcwf.length_cells
    rw [hnil, List.length_nil] at hlength
    omega
  unfold insertedContent
  dsimp only
  split_ifs with hempty hfront hback hinside
  · refine Spec.pure ?_
    cases hc : this.content with
    | empty header =>
      have hrep := hcwf.rep hck
      simpa [insertedCells, cells, insertElements] using hrep
    | _ => simp [hc, getChunkType] at hempty
  · obtain ⟨rfl, hcan⟩ := hfront
    rw [insertedCells_zero hwf hcwf]
    exact spec_mergeAtSide hwf hext hk hcwf hpos hck hcan
  · obtain ⟨rfl, hcan⟩ := hback
    rw [insertedCells_length hwf hcwf hcells.symm]
    exact spec_mergeAtSide hwf hext hk hcwf hpos hck hcan
  · refine spec_editAndSimplify (fun header hh => ?_) hne
    have hinsert := spec_insertAt (k := k)
      ((wf_withHeader _ _).2 hwf) (by cases hc : this.content <;> rw [hc] at hext <;> exact hext)
      (fun h => hh h (hk h)) hcwf hpos h₀ (by simpa [hlen] using h₁)
      ((canInsertAt_withHeader _ _ _ _).trans hinside) fun h => (hal h).withHeader header
    rwa [insertedCells_withHeader] at hinsert
  · refine (spec_partIf hwf hk (consistent_ofPosition _ 0) le_rfl h₀ (by omega)
      (by omega)).bind ?_
    rintro front ⟨xss, hxss, hflat⟩
    refine (spec_partIf hwf hk (Or.inl rfl) h₀ (by omega) (by omega) (by omega)).bind ?_
    rintro back ⟨yss, hyss, hflat'⟩
    have hparts := List.rel_append hxss (List.Forall₂.cons ⟨hcwf.rep hck, hpos⟩ hyss)
    refine (spec_sequenceOf hparts).mono id fun c hc => ?_
    have hrep := hc.1
    have heq : insertedCells this.content chunk offset =
        insertElements this.content.cells chunk.cells offset := by
      rcases insertedCells_cases this.content chunk offset with
        ⟨_, _, _, _, _, hthis, rfl, -⟩ | ⟨-, heq⟩
      · rw [hthis, canInsertAt_of_byteCount] at hinside
        exact absurd rfl hinside
      · exact heq
    rw [List.flatten_append, List.flatten_cons, hflat, hflat', ← List.append_assoc] at hrep
    rw [heq, insertElements]
    convert hrep using 2
    · rw [seg, Int.toNat_zero, List.drop_zero]
    · rw [seg, List.take_of_length_le (by simp; omega)]

theorem spec_insertAt (h : this.Consistent) (hext : this.content.Extensible)
    (hk : k → this.content.Clean) (hcwf : chunk.WF) (hpos : 0 < chunk.getChunkLength)
    (hck : k → chunk.Clean) (h₀ : 0 ≤ offset) (h₁ : offset ≤ this.getTotalLength)
    (hal : k → this.content.InsertAligned chunk offset)
    (hsafe : k → this.IndexSafe (offset < this.getFrontOffset) (this.getBackOffset < offset)) :
    Spec (¬ k) (this.insertAt chunk offset) fun packet =>
      Edited k this packet (insertedCells this.content chunk offset)
        (if offset < this.getFrontOffset then this.getFrontOffset + chunk.getChunkLength
          else this.getFrontOffset)
        (if this.getBackOffset < offset then this.backIterator.position + chunk.getChunkLength
          else this.backIterator.position) := by
  have hcells : (this.content.cells.length : ℤ) = this.getTotalLength := by
    rw [h.wf.length_cells, h.length_eq]
  have hlen := length_insertedCells offset h.wf hcwf (by rw [h.length_eq]; exact h₁)
  have hclen := hcwf.length_cells
  have hne : insertedCells this.content chunk offset ≠ [] := by
    intro hnil
    rw [hnil, List.length_nil] at hlen
    omega
  have hback : this.getBackOffset = this.getTotalLength - this.backIterator.position := rfl
  have hfront : this.getFrontOffset = this.frontIterator.position := rfl
  unfold insertAt
  rw [checkUsage, if_pos hpos, pure_bind, checkUsage, if_pos ⟨h₀, h₁⟩, pure_bind]
  refine (spec_insertedContent h.wf h.length_eq hext hk hcwf hpos hck h₀ h₁ hal).bind ?_
  rintro content hrep
  refine (spec_moveIteratorIf h.front_index hrep (fun _ hnil => absurd hnil hne)
    (fun hk hm => (hsafe hk).front hm) (by omega)).bind ?_
  rintro frontIterator ⟨hff, hfp, hfc⟩
  refine (spec_moveIteratorIf h.back_index hrep (fun _ hnil => absurd hnil hne)
    (fun hk hm => (hsafe hk).back hm) (by omega)).bind ?_
  rintro backIterator ⟨hbf, hbp, hbc⟩
  refine Spec.pure ⟨hrep, extensible_of_pos ?_, ?_, hff.trans h.isForward, hbf.trans h.isBackward,
    hfp, hbp, hfc, hbc⟩
  · rw [hrep.length_eq, hlen]
    omega
  · rw [hlen, Nat.cast_add, hcells, hclen]
    rfl

end Packet

end Inet
