import Inet.Buffer.Keep

/-! # Reorder buffers

A reorder buffer hands out the data at the expected offset as soon as it has
been stored, and expects the data behind it then.
-/

namespace Inet

open Chunk Outcome

structure ReorderBuffer extends ChunkBuffer where
  expectedOffset : ℤ
  deriving Repr

namespace ReorderBuffer

def getAvailableDataLength (this : ReorderBuffer) : ℤ :=
  match this.regions.head? with
  | some region => if region.offset = this.expectedOffset then region.data.getChunkLength else 0
  | none => 0

/-- `popAvailableData`, with length `-1` if it is unspecified: the data and the buffer
afterwards. -/
def popAvailableData (this : ReorderBuffer) (length : ℤ) :
    ChunkM (Option Chunk × ReorderBuffer) :=
  match this.regions.head? with
  | some region => do
    if region.offset = this.expectedOffset then
      let (data, dataLength) ←
        if length ≠ -1 then do
          pure (← region.data.peek (Iterator.ofPosition 0) length {}, length)
        else pure (some region.data, region.data.getChunkLength)
      let buffer ← this.clear this.expectedOffset dataLength
      return (data, ⟨buffer, this.expectedOffset + dataLength⟩)
    else
      return (none, this)
  | none => return (none, this)

end ReorderBuffer

namespace ChunkBuffer

variable {stored : ℤ → Option Cell} {this : ChunkBuffer} {region : Region} {offset length i : ℤ}

theorem Keeps.eq_cell (h : Keeps stored this) (hr : region ∈ this.regions)
    (h₀ : region.offset ≤ i) (h₁ : i < region.getEndOffset) :
    stored i = region.data.cells[(i - region.offset).toNat]? := by
  rw [← (h.ok region hr).stop_span] at h₁
  rw [← h.lookup_eq, Span.lookup_of_mem h.separated (List.mem_map_of_mem hr) h₀ h₁, Span.get]
  exact if_pos h₀

theorem Keeps.isSome_of_mem (h : Keeps stored this) (hr : region ∈ this.regions)
    (h₀ : region.offset ≤ i) (h₁ : i < region.getEndOffset) : (stored i).isSome := by
  rw [← (h.ok region hr).stop_span] at h₁
  rw [← h.lookup_eq]
  exact Span.lookup_isSome_iff.2 ⟨region.span, List.mem_map_of_mem hr, h₀, h₁⟩

theorem Keeps.exists_of_isSome (h : Keeps stored this) (hi : (stored i).isSome) :
    ∃ region ∈ this.regions, region.offset ≤ i ∧ i < region.getEndOffset := by
  rw [← h.lookup_eq] at hi
  obtain ⟨s, hs, h₀, h₁⟩ := Span.lookup_isSome_iff.1 hi
  obtain ⟨region, hr, rfl⟩ := List.mem_map.1 hs
  rw [(h.ok region hr).stop_span] at h₁
  exact ⟨region, hr, h₀, h₁⟩

theorem Keeps.end_eq_none (h : Keeps stored this) (hr : region ∈ this.regions) :
    stored region.getEndOffset = none := by
  by_contra hne
  rw [← h.lookup_eq] at hne
  obtain ⟨s, hs, h₀, h₁⟩ := Span.lookup_isSome_iff.1 (Option.ne_none_iff_isSome.1 hne)
  rw [← (h.ok region hr).stop_span] at h₀ h₁
  have hpos := Span.offset_lt_stop (h.separated.ne_nil _ (List.mem_map_of_mem hr))
  rcases Span.eq_or_gap_of_mem h.separated hs (List.mem_map_of_mem hr) with rfl | hgap | hgap
  · omega
  · omega
  · omega

theorem Keeps.length_pos (h : Keeps stored this) (hr : region ∈ this.regions) :
    region.offset < region.getEndOffset := by
  have hpos := (filled_of_mem h.separated h.ok hr).pos
  have hend : region.getEndOffset = region.offset + region.data.getChunkLength := rfl
  omega

theorem Keeps.head_le (h : Keeps stored this) {first : Region} {regions : List Region}
    (hregions : this.regions = first :: regions) (hr : region ∈ this.regions) :
    first.offset ≤ region.offset := by
  have hfirst : first ∈ this.regions := by rw [hregions]; exact List.mem_cons_self
  have hpos := h.length_pos hfirst
  have hsep := h.separated
  rw [hregions] at hr
  rw [hregions, List.map_cons, Span.separated_cons] at hsep
  rcases List.mem_cons.1 hr with rfl | hr
  · exact le_rfl
  · have hgap := hsep.2.1 region.span (List.mem_map_of_mem hr)
    rw [(h.ok first hfirst).stop_span] at hgap
    have hspan : region.span.offset = region.offset := rfl
    omega

theorem Keeps.exists_head (h : Keeps stored this) (hlow : ∀ i < offset, stored i = none)
    (hsome : (stored offset).isSome) :
    ∃ region regions, this.regions = region :: regions ∧ region.offset = offset := by
  obtain ⟨region, hr, h₀, h₁⟩ := h.exists_of_isSome hsome
  have hoff : ∀ r ∈ this.regions, offset ≤ r.offset := by
    intro r hr
    by_contra hlt
    have hs := h.isSome_of_mem hr le_rfl (h.length_pos hr)
    rw [hlow _ (not_le.1 hlt)] at hs
    cases hs
  cases hregions : this.regions with
  | nil =>
    rw [hregions] at hr
    cases hr
  | cons first regions =>
    refine ⟨first, regions, rfl, ?_⟩
    have hfirst : first ∈ this.regions := by rw [hregions]; exact List.mem_cons_self
    have hle := h.head_le hregions hr
    have := hoff first hfirst
    omega

/-- The chunk is the data that is stored in a range. -/
structure IsPart (stored : ℤ → Option Cell) (offset length : ℤ) (chunk : Chunk) : Prop where
  wf : chunk.WF
  clean : chunk.Clean
  noClash : NoClash chunk.cells
  length_eq : chunk.getChunkLength = length
  cells_eq : ∀ k : ℕ, k < length → chunk.cells[k]? = stored (offset + k)

theorem Keeps.spec_peek (h : Keeps stored this) (hr : region ∈ this.regions)
    (h₀ : region.offset ≤ offset) (hpos : 0 < length)
    (h₁ : offset + length ≤ region.getEndOffset) :
    Returns (region.data.peek (Iterator.ofPosition (offset - region.offset)) length {})
      fun data => ∃ chunk, data = some chunk ∧ IsPart stored offset length chunk := by
  have hok := h.ok region hr
  have hend : region.getEndOffset = region.offset + region.data.getChunkLength := rfl
  have hlen := hok.wf.length_cells
  have hspec := Chunk.spec_peek (k := True) (dispatch_ok _).1 hok.wf (fun _ => hok.clean) rfl
    (consistent_ofPosition region.data (offset - region.offset))
    (by simp only [Iterator.ofPosition]; omega) hpos (by simp only [Iterator.ofPosition]; omega)
    le_rfl {}
  refine hspec.mono (by simp) ?_
  rintro _ ⟨chunk, rfl, hrep, -, -⟩
  have hnoClash := hok.noClash.seg (offset - region.offset) length
  have hcells : chunk.cells = seg region.data.cells (offset - region.offset) length :=
    hrep.cells_eq hnoClash
  refine ⟨chunk, rfl, hrep.wf, hrep.clean trivial, hcells ▸ hnoClash, ?_, fun k hk => ?_⟩
  · rw [← hrep.wf.length_cells, hcells, length_seg (by omega) hpos.le (by omega)]
  · rw [h.eq_cell hr (by omega) (by omega), hcells, seg, List.getElem?_take_of_lt (by omega),
      List.getElem?_drop]
    congr 1
    omega

theorem Keeps.le_getEndOffset (h : Keeps stored this) (hr : region ∈ this.regions)
    (hsome : ∀ i, offset ≤ i → i < offset + length → (stored i).isSome)
    (h₁ : offset ≤ region.getEndOffset) : offset + length ≤ region.getEndOffset := by
  by_contra hlt
  have hs := hsome region.getEndOffset h₁ (by omega)
  rw [h.end_eq_none hr] at hs
  cases hs

end ChunkBuffer

namespace ReorderBuffer

open ChunkBuffer

variable {stored : ℤ → Option Cell} {this : ReorderBuffer} {length : ℤ}

/-- The buffer keeps nothing before the expected offset. -/
structure Expects (stored : ℤ → Option Cell) (this : ReorderBuffer) : Prop where
  keeps : Keeps stored this.toChunkBuffer
  nonneg : 0 ≤ this.expectedOffset
  low : ∀ i < this.expectedOffset, stored i = none

theorem offset_ne_expectedOffset {region : Region} (h : Keeps stored this.toChunkBuffer)
    (hnone : stored this.expectedOffset = none) (hr : region ∈ this.regions) :
    region.offset ≠ this.expectedOffset := by
  intro hoff
  have hs := h.isSome_of_mem hr le_rfl (h.length_pos hr)
  rw [hoff, hnone] at hs
  cases hs

theorem getAvailableDataLength_eq_zero (h : Keeps stored this.toChunkBuffer)
    (hnone : stored this.expectedOffset = none) : this.getAvailableDataLength = 0 := by
  unfold getAvailableDataLength
  cases hregions : this.regions with
  | nil => rfl
  | cons region regions =>
    rw [List.head?_cons]
    dsimp only
    exact if_neg (offset_ne_expectedOffset h hnone (hregions ▸ List.mem_cons_self))

theorem Expects.available (h : Expects stored this) :
    0 ≤ this.getAvailableDataLength ∧
      (∀ i, this.expectedOffset ≤ i → i < this.expectedOffset + this.getAvailableDataLength →
        (stored i).isSome) ∧
      stored (this.expectedOffset + this.getAvailableDataLength) = none := by
  unfold getAvailableDataLength
  by_cases hsome : (stored this.expectedOffset).isSome
  · obtain ⟨region, regions, hregions, hoff⟩ := h.keeps.exists_head h.low hsome
    have hr : region ∈ this.regions := by rw [hregions]; exact List.mem_cons_self
    have hpos := h.keeps.length_pos hr
    have hend : region.getEndOffset = region.offset + region.data.getChunkLength := rfl
    rw [hregions, List.head?_cons]
    dsimp only
    rw [if_pos hoff, ← hoff, ← hend]
    exact ⟨by omega, fun i h₀ h₁ => h.keeps.isSome_of_mem hr h₀ h₁, h.keeps.end_eq_none hr⟩
  · have hnone : stored this.expectedOffset = none := Option.not_isSome_iff_eq_none.1 hsome
    have hzero := getAvailableDataLength_eq_zero h.keeps hnone
    unfold getAvailableDataLength at hzero
    rw [hzero, add_zero]
    exact ⟨le_rfl, fun i h₀ h₁ => by omega, hnone⟩

theorem Expects.spec_popAvailableData (h : Expects stored this) (hpos : 0 < length)
    (hbytes : length % 8 = 0 ∨ stored (this.expectedOffset + length) = none)
    (hsome : ∀ i, this.expectedOffset ≤ i → i < this.expectedOffset + length →
      (stored i).isSome) :
    Returns (this.popAvailableData length) fun result =>
      (∃ chunk, result.1 = some chunk ∧ IsPart stored this.expectedOffset length chunk) ∧
      Expects (cleared stored this.expectedOffset length) result.2 ∧
      result.2.expectedOffset = this.expectedOffset + length := by
  obtain ⟨region, regions, hregions, hoff⟩ :=
    h.keeps.exists_head h.low (hsome _ le_rfl (by omega))
  have hr : region ∈ this.regions := by rw [hregions]; exact List.mem_cons_self
  have hle := h.keeps.le_getEndOffset hr hsome (hoff ▸ (h.keeps.length_pos hr).le)
  have hpeek := h.keeps.spec_peek hr hoff.le hpos hle
  have hnonneg := h.nonneg
  rw [hoff, sub_self] at hpeek
  unfold popAvailableData
  rw [hregions, List.head?_cons]
  dsimp only
  rw [if_pos hoff, if_pos (by omega)]
  simp only [pure_bind]
  refine hpeek.bind fun data hdata => ?_
  have hexact : length % 8 = 0 ∨ Exact stored this.expectedOffset length :=
    hbytes.imp_right fun hnone => ⟨hsome, h.low _ (by omega), hnone⟩
  refine (h.keeps.spec_clear h.nonneg hpos.le hexact (by omega)).bind fun buffer hbuffer =>
    Spec.pure ⟨hdata, ⟨hbuffer, by dsimp only; omega, fun i hi => ?_⟩, rfl⟩
  dsimp only at hi
  unfold cleared
  split_ifs with hin
  · rfl
  · exact h.low i (by omega)

theorem Expects.spec_popAvailableData_all (h : Expects stored this)
    (hsome : (stored this.expectedOffset).isSome) :
    Returns (this.popAvailableData (-1)) fun result =>
      (∃ chunk, result.1 = some chunk ∧
        IsPart stored this.expectedOffset this.getAvailableDataLength chunk) ∧
      Expects (cleared stored this.expectedOffset this.getAvailableDataLength) result.2 ∧
      result.2.expectedOffset = this.expectedOffset + this.getAvailableDataLength := by
  obtain ⟨-, havailable, hnone⟩ := h.available
  obtain ⟨region, regions, hregions, hoff⟩ := h.keeps.exists_head h.low hsome
  have hr : region ∈ this.regions := by rw [hregions]; exact List.mem_cons_self
  have hpos := h.keeps.length_pos hr
  have hok := h.keeps.ok region hr
  have hend : region.getEndOffset = region.offset + region.data.getChunkLength := rfl
  have hlength : this.getAvailableDataLength = region.data.getChunkLength := by
    unfold getAvailableDataLength
    rw [hregions, List.head?_cons]
    exact if_pos hoff
  rw [hlength] at havailable hnone ⊢
  have hexact : Exact stored this.expectedOffset region.data.getChunkLength :=
    ⟨havailable, h.low _ (by omega), hnone⟩
  have hpart : IsPart stored this.expectedOffset region.data.getChunkLength region.data := by
    refine ⟨hok.wf, hok.clean, hok.noClash, rfl, fun k hk => ?_⟩
    rw [h.keeps.eq_cell hr (by omega) (by omega), ← hoff]
    congr 1
    omega
  unfold popAvailableData
  rw [hregions, List.head?_cons]
  dsimp only
  rw [if_pos hoff, if_neg (by simp)]
  simp only [pure_bind]
  refine (h.keeps.spec_clear h.nonneg (by omega) (Or.inr hexact) (by omega)).bind
    fun buffer hbuffer =>
    Spec.pure ⟨⟨region.data, rfl, hpart⟩, ⟨hbuffer, ?_, fun i hi => ?_⟩, rfl⟩
  · have hnonneg := h.nonneg
    dsimp only
    omega
  · dsimp only at hi
    unfold cleared
    split_ifs with hin
    · rfl
    · exact h.low i (by omega)

theorem popAvailableData_eq (h : Keeps stored this.toChunkBuffer)
    (hnone : stored this.expectedOffset = none) (length : ℤ) :
    this.popAvailableData length = pure (none, this) := by
  unfold popAvailableData
  cases hregions : this.regions with
  | nil => rfl
  | cons region regions =>
    rw [List.head?_cons]
    dsimp only
    exact if_neg (offset_ne_expectedOffset h hnone (hregions ▸ List.mem_cons_self))

end ReorderBuffer

end Inet
