import Inet.Buffer.Refine

/-! # What a chunk buffer keeps

The regions of a buffer keep a cell at some of the positions. `replace` writes
the cells of a chunk over them and `clear` takes cells away, as long as bit
counts that meet agree.
-/

namespace Inet

open Chunk Outcome

namespace ChunkBuffer

/-- Neighbouring bits of bit counts are equal. -/
def Agrees (stored : ℤ → Option Cell) : Prop :=
  ∀ i a b, stored i = some a → stored (i + 1) = some b →
    a.counted = true → b.counted = true → a.bit = b.bit

/-- The range is one of the maximal ranges in which something is stored. -/
def Exact (stored : ℤ → Option Cell) (offset length : ℤ) : Prop :=
  (∀ i, offset ≤ i → i < offset + length → (stored i).isSome) ∧
    stored (offset - 1) = none ∧ stored (offset + length) = none

/-- The regions keep the cells. -/
structure Keeps (stored : ℤ → Option Cell) (this : ChunkBuffer) : Prop where
  ok : ∀ region ∈ this.regions, region.Ok
  separated : Span.Separated (this.regions.map Region.span)
  lookup_eq : ∀ i, Span.lookup (this.regions.map Region.span) i = stored i

/-- Cells written over those that are stored. -/
def written (stored : ℤ → Option Cell) (offset : ℤ) (cells : List Cell) (i : ℤ) : Option Cell :=
  if offset ≤ i ∧ i < offset + cells.length then cells[(i - offset).toNat]? else stored i

/-- The stored cells without those in a range. -/
def cleared (stored : ℤ → Option Cell) (offset length i : ℤ) : Option Cell :=
  if offset ≤ i ∧ i < offset + length then none else stored i

variable {stored : ℤ → Option Cell} {this : ChunkBuffer} {offset length i : ℤ}

theorem agrees_of_uncounted (h : ∀ i cell, stored i = some cell → cell.counted = false) :
    Agrees stored := by
  intro i a b ha _ hcounted
  rw [h i a ha] at hcounted
  cases hcounted

theorem mem_of_written {cells : List Cell} {cell : Cell}
    (h : written stored offset cells i = some cell) : cell ∈ cells ∨ stored i = some cell := by
  unfold written at h
  split_ifs at h
  · exact Or.inl (List.mem_of_getElem? h)
  · exact Or.inr h

theorem agrees_of_uncounted_lookup {spans : List (Span Cell)} {cells : List Cell}
    (hspans : ∀ span ∈ spans, ∀ cell ∈ span.values, cell.counted = false)
    (hcells : ∀ cell ∈ cells, cell.counted = false) :
    Agrees (written (Span.lookup spans) offset cells) := by
  refine agrees_of_uncounted fun i cell hcell => ?_
  rcases mem_of_written hcell with hmem | hstored
  · exact hcells cell hmem
  · obtain ⟨span, hspan, hget⟩ := List.exists_of_findSome?_eq_some hstored
    unfold Span.get at hget
    split_ifs at hget
    exact hspans span hspan cell (List.mem_of_getElem? hget)

theorem Agrees.noClash {cells : List Cell} (h : Agrees (written stored offset cells)) :
    NoClash cells := by
  unfold NoClash
  rw [List.isChain_iff_getElem]
  intro n hn
  have hget : ∀ m, (hm : m < cells.length) →
      written stored offset cells (offset + m) = some cells[m] := by
    intro m hm
    rw [written, if_pos (by omega), show (offset + m - offset).toNat = m by omega,
      List.getElem?_eq_getElem hm]
  refine h (offset + n) _ _ (hget n (by omega)) ?_
  rw [add_assoc]
  exact_mod_cast hget (n + 1) hn

theorem keeps_new : Keeps (fun _ => none) new := ⟨by simp [new], Span.separated_nil, fun _ => rfl⟩

theorem Keeps.spec_replace {chunk : Chunk} (h : Keeps stored this) (hoffset : 0 ≤ offset)
    (hwf : chunk.WF) (hpos : 0 < chunk.getChunkLength) (hclean : chunk.Clean)
    (hagrees : Agrees (written stored offset chunk.cells)) :
    Returns (this.replace offset chunk) (Keeps (written stored offset chunk.cells)) := by
  unfold replace
  rw [checkUsage, if_pos hoffset, pure_bind, checkUsage, if_pos hpos, pure_bind]
  have hlen := hwf.length_cells
  set newRegion : Region := ⟨offset, chunk⟩ with hnew
  set spans := (this.regions.map Region.span).flatMap
    (Span.cut offset (offset + chunk.getChunkLength)) with hspans
  have hne : newRegion.span.values ≠ [] := List.length_pos_iff.1 (by
    change 0 < chunk.cells.length
    omega)
  have hstop : newRegion.span.stop = offset + chunk.getChunkLength := by
    rw [← hlen]
    rfl
  have hsep : Span.Separated spans := Span.separated_flatMap_cut h.separated (Or.inl (by omega))
  have hclear : Span.Clear newRegion.span spans := by
    intro s hs
    obtain ⟨t, ht, hs⟩ := List.mem_flatMap.1 hs
    obtain ⟨-, -, -, hout⟩ := Span.mem_cut hs (h.separated.ne_nil t ht)
    rwa [hstop]
  have hlookup : ∀ i, Span.lookup (Span.put newRegion.span spans) i =
      written stored offset chunk.cells i := by
    intro i
    rw [Span.lookup_put hsep hne hclear, hspans, Span.lookup_flatMap_cut (by omega), h.lookup_eq,
      written, hlen]
    by_cases hin : offset ≤ i ∧ i < offset + chunk.getChunkLength
    · rw [if_pos hin, if_pos hin, Option.or_none]
      exact if_pos hin.1
    · rw [if_neg hin, if_neg hin, Span.get_eq_none_iff.2, Option.none_or]
      rw [hstop]
      change i < offset ∨ _
      omega
  have hsepPut := Span.separated_put hsep hne hclear
  have hnoClash : ∀ s ∈ Span.put newRegion.span spans, NoClash s.values := by
    intro s hs
    refine Span.isChain_of_lookup hsepPut hs fun i a b ha hb => ?_
    rw [hlookup] at ha hb
    exact hagrees i a b ha hb
  have hfilled : newRegion.Filled := by
    obtain ⟨t, ht, hpart⟩ := Span.exists_mem_put newRegion.span spans
    exact ⟨⟨hwf, hclean, (hnoClash t ht).of_isInfix hpart⟩, hpos⟩
  refine (spec_sliceRegions newRegion h.ok h.separated).bind fun regions hregions => ?_
  have hspansEq : regions.map Region.span = spans := hregions.spans_eq
  refine (spec_insertRegion (hspansEq ▸ hsep) hfilled (hspansEq ▸ hclear) hregions.ok
    (hspansEq ▸ hnoClash)).bind fun rs hrs => Spec.pure ?_
  have hrsEq := hrs.spans_eq
  rw [hspansEq] at hrsEq
  exact ⟨hrs.ok, hrsEq ▸ hsepPut, fun i => hrsEq ▸ hlookup i⟩

theorem eraseExact_eq_some {offset length : ℤ} {regions rs : List Region}
    (h : eraseExact offset length regions = some rs) :
    ∃ l r region, regions = l ++ region :: r ∧ rs = l ++ r ∧ region.offset = offset ∧
      region.data.getChunkLength = length := by
  induction regions generalizing rs with
  | nil => cases h
  | cons region regions ih =>
    rw [eraseExact] at h
    split_ifs at h with hexact
    · cases h
      exact ⟨[], regions, region, rfl, rfl, hexact⟩
    · obtain ⟨rs', hrs, rfl⟩ := Option.map_eq_some_iff.1 h
      obtain ⟨l, r, region', rfl, rfl, hexact⟩ := ih hrs
      exact ⟨region :: l, r, region', rfl, rfl, hexact⟩

theorem eraseExact_eq_none {offset length : ℤ} {regions : List Region}
    (h : eraseExact offset length regions = none) {region : Region} (hr : region ∈ regions) :
    ¬ (region.offset = offset ∧ region.data.getChunkLength = length) := by
  induction regions with
  | nil => cases hr
  | cons region' regions ih =>
    rw [eraseExact] at h
    split_ifs at h with hexact
    rcases List.mem_cons.1 hr with rfl | hr
    · exact hexact
    · exact ih (Option.map_eq_none_iff.1 h) hr

theorem Keeps.exists_region (h : Keeps stored this) (hpos : 0 < length)
    (hexact : Exact stored offset length) :
    ∃ region ∈ this.regions, region.offset = offset ∧ region.data.getChunkLength = length := by
  obtain ⟨hsome, hfirst, hlast⟩ := hexact
  obtain ⟨s, hs, ho, hstop⟩ :=
    Span.exists_mem_of_exact (o := offset) (e := offset + length) h.separated
    (by omega) (fun i h₀ h₁ => by rw [h.lookup_eq]; exact hsome i h₀ h₁)
    (by rw [h.lookup_eq, hfirst]) (by rw [h.lookup_eq, hlast])
  obtain ⟨region, hregion, rfl⟩ := List.mem_map.1 hs
  rw [(h.ok region hregion).stop_span] at hstop
  have hoff : region.offset = offset := ho
  refine ⟨region, hregion, hoff, ?_⟩
  have hend : region.getEndOffset = region.offset + region.data.getChunkLength := rfl
  omega

theorem Keeps.spec_clear_cut (h : Keeps stored this) (hlen : 0 ≤ length)
    (hoff : 0 ≤ offset)
    (hbytes : length % 8 = 0 ∨ Exact stored offset length) :
    Returns (this.clear offset length) fun result =>
      Holds result.regions ((this.regions.map Region.span).flatMap
        (Span.cut offset (offset + length))) := by
  unfold clear
  rw [checkUsage, if_pos hoff, pure_bind, checkUsage, if_pos hlen, pure_bind]
  cases hexact : eraseExact offset length this.regions with
  | some rs =>
    obtain ⟨l, r, region, hregions, rfl, rfl, rfl⟩ := eraseExact_eq_some hexact
    refine Spec.pure ?_
    have hsep := h.separated
    have hstop := (h.ok region (by simp [hregions])).stop_span
    rw [hregions, List.map_append, List.map_cons] at hsep ⊢
    rw [show region.offset + region.data.getChunkLength = region.span.stop from hstop.symm,
      show region.offset = region.span.offset from rfl, Span.flatMap_cut_mem hsep,
      ← List.map_append]
    refine holds_of_ok fun r hr => h.ok r ?_
    rw [hregions]
    rcases List.mem_append.1 hr with hr | hr <;> simp [hr]
  | none =>
    have hmod : length % 8 = 0 := by
      rcases hlen.lt_or_eq with hpos | rfl
      · refine hbytes.resolve_right fun hexact' => ?_
        obtain ⟨region, hregion, hsame⟩ := h.exists_region hpos hexact'
        exact eraseExact_eq_none hexact hregion hsame
      · rfl
    refine spec_newHeader.bind fun header _ => ?_
    rw [toBytes_eq hmod, pure_bind]
    refine (spec_sliceRegions ⟨offset, .byteCount header (length / 8) 63⟩ h.ok
      h.separated).bind fun rs hrs => Spec.pure ?_
    have hend : Region.getEndOffset ⟨offset, .byteCount header (length / 8) 63⟩ = offset +
      length := by
      rw [Region.getEndOffset, getChunkLength]
      dsimp only
      omega
    rwa [hend] at hrs

theorem Keeps.spec_clear (h : Keeps stored this) (hoff : 0 ≤ offset) (hlen : 0 ≤ length)
    (hbytes : length % 8 = 0 ∨ Exact stored offset length)
    (hempty : length = 0 → stored (offset - 1) = none ∨ stored offset = none) :
    Returns (this.clear offset length) (Keeps (cleared stored offset length)) := by
  refine (h.spec_clear_cut hlen hoff hbytes).mono id fun result hresult =>
    ⟨hresult.ok, ?_, fun i => ?_⟩
  · rw [hresult.spans_eq]
    refine Span.separated_flatMap_cut h.separated ?_
    rcases hlen.lt_or_eq with hpos | hzero
    · exact Or.inl (by omega)
    · refine Or.inr fun s hs => ?_
      have hout : ∀ i, stored i = none → ¬ (s.offset ≤ i ∧ i < s.stop) := by
        intro i hi hin
        rw [← h.lookup_eq] at hi
        simpa [hi] using Span.lookup_isSome_iff.2 ⟨s, hs, hin⟩
      rcases hempty hzero.symm with hnone | hnone
      · have := hout _ hnone
        omega
      · have := hout _ hnone
        omega
  · rw [hresult.spans_eq, Span.lookup_flatMap_cut (by omega), h.lookup_eq]
    rfl

end ChunkBuffer

end Inet
