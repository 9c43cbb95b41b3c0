import Inet.Buffer.Reorder
import Inet.Lib.Cover

/-! # Assembling a stream

A reorder buffer that is given parts of one stream of bytes hands out the
stream. Positions in the stream are in bytes, and the buffer may begin to
count at any offset.
-/

namespace Inet

open Chunk Outcome

/-- The bits of a stream in a range. -/
def streamBits (S : ℕ → Bool) (start length : ℕ) : List Bool :=
  (List.range length).map fun k => S (start + k)

variable {S : ℕ → Bool}

theorem streamBits_append (a b : ℕ) :
    streamBits S 0 a ++ streamBits S a b = streamBits S 0 (a + b) := by
  unfold streamBits
  rw [List.range_add, List.map_append, List.map_map]
  congr 1
  exact List.map_congr_left fun k _ => by simp

theorem eq_streamBits {xs : List Bool} {start length : ℕ} (hlen : xs.length = length)
    (h : ∀ k < length, xs[k]? = some (S (start + k))) : xs = streamBits S start length := by
  refine List.ext_getElem? fun k => ?_
  by_cases hk : k < length
  · rw [h k hk, streamBits, List.getElem?_map, List.getElem?_range hk]
    rfl
  · rw [List.getElem?_eq_none (by omega), List.getElem?_eq_none (by simpa [streamBits] using hk)]

namespace ChunkBuffer

variable {stored : ℤ → Option Cell} {this : ChunkBuffer} {region : Region}

theorem Keeps.start_eq_none (h : Keeps stored this) (hr : region ∈ this.regions) :
    stored (region.offset - 1) = none := by
  by_contra hne
  rw [← h.lookup_eq] at hne
  obtain ⟨s, hs, h₀, h₁⟩ := Span.lookup_isSome_iff.1 (Option.ne_none_iff_isSome.1 hne)
  have hpos := Span.offset_lt_stop (h.separated.ne_nil _ (List.mem_map_of_mem hr))
  have hspan : region.span.offset = region.offset := rfl
  rcases Span.eq_or_gap_of_mem h.separated hs (List.mem_map_of_mem hr) with rfl | hgap | hgap
  · omega
  · omega
  · omega

end ChunkBuffer

namespace ReorderBuffer

open ChunkBuffer

/-- The buffer keeps the bytes of the stream that have been received and not been handed out. -/
structure Assembles (S : ℕ → Bool) (base : ℕ) (received : List (ℕ × ℕ)) (extracted : ℕ)
    (stored : ℤ → Option Cell) (this : ReorderBuffer) : Prop where
  expects : Expects stored this
  expected_eq : this.expectedOffset = 8 * (base + extracted)
  isSome_iff : ∀ j : ℕ, (stored (8 * base + j)).isSome ↔
    8 * extracted ≤ j ∧ Covered received (j / 8)
  bit_eq : ∀ (j : ℕ) (cell : Cell), stored (8 * base + j) = some cell → cell.bit = S j

variable {base extracted : ℕ} {received received' : List (ℕ × ℕ)} {stored : ℤ → Option Cell}
  {this : ReorderBuffer} {region : Region}

theorem assembles_new (S : ℕ → Bool) (base : ℕ) :
    Assembles S base [] 0 (fun _ => none) ⟨ChunkBuffer.new, 8 * base⟩ where
  expects := ⟨keeps_new, by dsimp only; omega, fun _ _ => rfl⟩
  expected_eq := by simp
  isSome_iff j := by simp [Covered]
  bit_eq j cell h := by cases h

theorem Assembles.exists_bounds (h : Assembles S base received extracted stored this)
    (hr : region ∈ this.regions) :
    ∃ k₀ k₁ : ℕ, region.getStartOffset = 8 * (base + k₀) ∧ region.getEndOffset = 8 * (base + k₁) ∧
      extracted ≤ k₀ ∧ k₀ < k₁ ∧ ∀ k, k₀ ≤ k → k < k₁ → Covered received k := by
  have hkeeps := h.expects.keeps
  have hpos := hkeeps.length_pos hr
  have hexp := h.expected_eq
  have hlow : 8 * (base + extracted) ≤ region.offset := by
    by_contra hlt
    have hs := hkeeps.isSome_of_mem hr le_rfl hpos
    rw [h.expects.low _ (by omega)] at hs
    cases hs
  obtain ⟨j₀, hj₀⟩ : ∃ j : ℕ, region.offset = 8 * base + j :=
    ⟨(region.offset - 8 * base).toNat, by omega⟩
  obtain ⟨j₁, hj₁⟩ : ∃ j : ℕ, region.getEndOffset = 8 * base + j :=
    ⟨(region.getEndOffset - 8 * base).toNat, by omega⟩
  have hin : ∀ j : ℕ, j₀ ≤ j → j < j₁ → Covered received (j / 8) := fun j h₀ h₁ =>
    ((h.isSome_iff j).1 (hkeeps.isSome_of_mem hr (by omega) (by omega))).2
  have hstart : j₀ % 8 = 0 := by
    by_contra hne
    have hnone := hkeeps.start_eq_none hr
    rw [show region.offset - 1 = 8 * base + ((j₀ - 1 : ℕ) : ℤ) by omega] at hnone
    have hs := (h.isSome_iff (j₀ - 1)).2 ⟨by omega, by
      rw [show (j₀ - 1) / 8 = j₀ / 8 by omega]
      exact hin j₀ le_rfl (by omega)⟩
    rw [hnone] at hs
    cases hs
  have hstop : j₁ % 8 = 0 := by
    by_contra hne
    have hnone := hkeeps.end_eq_none hr
    rw [hj₁] at hnone
    have hs := (h.isSome_iff j₁).2 ⟨by omega, by
      rw [show j₁ / 8 = (j₁ - 1) / 8 by omega]
      exact hin (j₁ - 1) (by omega) (by omega)⟩
    rw [hnone] at hs
    cases hs
  have hstartOffset : region.getStartOffset = region.offset := rfl
  refine ⟨j₀ / 8, j₁ / 8, by omega, by omega, by omega, by omega, fun k h₀ h₁ => ?_⟩
  have := hin (8 * k) (by omega) (by omega)
  rwa [Nat.mul_div_cancel_left k (by omega)] at this

theorem Assembles.getAvailableDataLength_eq (h : Assembles S base received extracted stored this)
    (hle : extracted ≤ coveredPrefix received) :
    this.getAvailableDataLength = 8 * (coveredPrefix received - extracted) := by
  obtain ⟨hnonneg, hsome, hnone⟩ := h.expects.available
  have hexp := h.expected_eq
  obtain ⟨L, hL⟩ : ∃ L : ℕ, this.getAvailableDataLength = L :=
    ⟨_, (Int.toNat_of_nonneg hnonneg).symm⟩
  rw [hL] at hsome hnone ⊢
  have hin : ∀ j : ℕ, 8 * extracted ≤ j → j < 8 * extracted + L → Covered received (j / 8) :=
    fun j h₀ h₁ => ((h.isSome_iff j).1 (hsome _ (by omega) (by omega))).2
  rw [show this.expectedOffset + (L : ℤ) = 8 * base + ((8 * extracted + L : ℕ) : ℤ) by omega]
    at hnone
  have hend : ¬ Covered received ((8 * extracted + L) / 8) := by
    intro hc
    have hs := (h.isSome_iff (8 * extracted + L)).2 ⟨by omega, hc⟩
    rw [hnone] at hs
    cases hs
  have hmod : L % 8 = 0 := by
    by_contra hne
    refine hend ?_
    rw [show (8 * extracted + L) / 8 = (8 * extracted + L - 1) / 8 by omega]
    exact hin _ (by omega) (by omega)
  have hcov : coveredPrefix received = extracted + L / 8 := by
    refine coveredPrefix_eq (fun k hk => ?_) ?_
    · by_cases hk' : k < extracted
      · exact covered_of_lt (by omega)
      · have := hin (8 * k) (by omega) (by omega)
        rwa [Nat.mul_div_cancel_left k (by omega)] at this
    · rwa [show extracted + L / 8 = (8 * extracted + L) / 8 by omega]
  omega

theorem Assembles.spec_replace (h : Assembles S base received extracted stored this)
    {start length : ℕ} {chunk : Chunk} (hle : extracted ≤ start) (hpos : 0 < length)
    (hwf : chunk.WF) (hclean : chunk.Clean) (hlen : chunk.getChunkLength = 8 * length)
    (hbits : ∀ k < 8 * length, (chunk.cells[k]?).map Cell.bit = some (S (8 * start + k)))
    (hagrees : Agrees (written stored (8 * (base + start)) chunk.cells))
    (hreceived : ∀ k, extracted ≤ k → (Covered received' k ↔
      (start ≤ k ∧ k < start + length) ∨ Covered received k)) :
    Returns (this.replace (8 * (base + start)) chunk) fun buffer =>
      Assembles S base received' extracted (written stored (8 * (base + start)) chunk.cells)
        ⟨buffer, this.expectedOffset⟩ := by
  have hexp := h.expected_eq
  have hcells := hwf.length_cells
  refine (h.expects.keeps.spec_replace (by omega) hwf (by omega) hclean hagrees).mono id
    fun buffer hbuffer => ⟨⟨hbuffer, h.expects.nonneg, fun i hi => ?_⟩, hexp, fun j => ?_,
      fun j cell hj => ?_⟩
  · dsimp only at hi
    rw [written, if_neg (by omega)]
    exact h.expects.low i hi
  · by_cases hin : 8 * start ≤ j ∧ j < 8 * (start + length)
    · rw [written, if_pos (by omega), List.getElem?_eq_getElem (by omega)]
      refine ⟨fun _ => ⟨by omega, (hreceived _ (by omega)).2 (Or.inl (by omega))⟩, fun _ => rfl⟩
    · rw [written, if_neg (by omega), h.isSome_iff]
      refine and_congr_right fun hj => ?_
      rw [hreceived _ (by omega)]
      constructor
      · exact Or.inr
      · rintro (hk | hk)
        · exact absurd hk (by omega)
        · exact hk
  · by_cases hin : 8 * start ≤ j ∧ j < 8 * (start + length)
    · rw [written, if_pos (by omega)] at hj
      have hbit := hbits (j - 8 * start) (by omega)
      rw [show (8 * (base : ℤ) + j - 8 * (base + start)).toNat = j - 8 * start by omega] at hj
      rw [hj, show 8 * start + (j - 8 * start) = j by omega] at hbit
      exact Option.some.inj hbit
    · rw [written, if_neg (by omega)] at hj
      exact h.bit_eq j cell hj

theorem Assembles.spec_popAvailableData (h : Assembles S base received extracted stored this)
    {n : ℕ} (hpos : 0 < n) (hle : extracted + n ≤ coveredPrefix received) :
    Returns (this.popAvailableData (8 * n)) fun result =>
      (∃ chunk, result.1 = some chunk ∧ 0 < chunk.getChunkLength ∧
        chunk.WF ∧ chunk.Clean ∧ chunk.toBits = streamBits S (8 * extracted) (8 * n)) ∧
      result.2.expectedOffset = 8 * (base + ↑(extracted + n)) ∧
      ∃ stored', Assembles S base received (extracted + n) stored' result.2 := by
  have hexp := h.expected_eq
  have hsome : ∀ j : ℕ, 8 * extracted ≤ j → j < 8 * (extracted + n) →
      (stored (8 * base + j)).isSome := fun j h₀ h₁ =>
    (h.isSome_iff j).2 ⟨h₀, covered_of_lt (by omega)⟩
  refine (h.expects.spec_popAvailableData (show 0 < 8 * (n : ℤ) by omega) (Or.inl (by omega))
    fun i h₀ h₁ => ?_).mono id ?_
  · rw [show i = 8 * (base : ℤ) + ((i - 8 * base).toNat : ℤ) by omega]
    exact hsome _ (by omega) (by omega)
  · rintro result ⟨⟨chunk, hchunk, hpart⟩, hexpects, hoff⟩
    have hlen := hpart.wf.length_cells
    have hchunkLen := hpart.length_eq
    refine ⟨⟨chunk, hchunk, by omega, hpart.wf, hpart.clean, ?_⟩, by omega, _, hexpects, by omega,
      fun j => ?_, fun j cell hj => ?_⟩
    · refine eq_streamBits (by rw [toBits, List.length_map]; omega) fun k hk => ?_
      obtain ⟨cell, hcell⟩ := Option.isSome_iff_exists.1 (hsome (8 * extracted + k) (by omega)
        (by omega))
      have hk' := hpart.cells_eq k (by omega)
      rw [show this.expectedOffset + (k : ℤ) = 8 * base + ((8 * extracted + k : ℕ) : ℤ) by omega,
        hcell] at hk'
      rw [toBits, List.getElem?_map, hk', Option.map_some, h.bit_eq _ cell hcell]
    · unfold cleared
      split_ifs with hin
      · simp only [Option.isSome_none, Bool.false_eq_true, false_iff]
        omega
      · rw [h.isSome_iff]
        refine and_congr_left fun _ => ?_
        omega
    · unfold cleared at hj
      split_ifs at hj with hin
      exact h.bit_eq j cell hj

end ReorderBuffer

end Inet
