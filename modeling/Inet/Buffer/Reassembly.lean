import Inet.Buffer.Assemble

/-! # Reassembly buffers

A reassembly buffer that is given parts of one sequence of bytes is complete
exactly when the parts cover the sequence, and its data is the sequence then.
-/

namespace Inet

open Chunk Outcome

structure ReassemblyBuffer extends ChunkBuffer where
  expectedLength : ℤ
  deriving Repr

namespace ReassemblyBuffer

def new : ReassemblyBuffer := ⟨ChunkBuffer.new, -1⟩

def setExpectedLength (this : ReassemblyBuffer) (expectedLength : ℤ) : ReassemblyBuffer :=
  { this with expectedLength }

/-- `ChunkBuffer::replace` -/
def replace (this : ReassemblyBuffer) (offset : ℤ) (chunk : Chunk) : ChunkM ReassemblyBuffer := do
  return ⟨← this.toChunkBuffer.replace offset chunk, this.expectedLength⟩

def isComplete (this : ReassemblyBuffer) : Bool :=
  match this.regions with
  | [region] =>
    decide (region.offset = 0 ∧ region.data.getChunkLength = this.expectedLength)
  | _ => false

def getReassembledData (this : ReassemblyBuffer) : ChunkM Chunk :=
  if !this.isComplete then throw (.runtime "Reassembly is incomplete")
  else
    match this.regions.head? with
    | some region => pure region.data
    | none => throw (.undefinedBehavior "region index out of range")

end ReassemblyBuffer

/-- The cells of the covered bytes. -/
def coveredCells (cells : List Cell) (received : List (ℕ × ℕ)) (i : ℤ) : Option Cell :=
  if 0 ≤ i ∧ Covered received (i.toNat / 8) then cells[i.toNat]? else none

namespace ReassemblyBuffer

open ChunkBuffer

/-- The buffer keeps those of the cells that have been received. -/
def Collects (cells : List Cell) (received : List (ℕ × ℕ)) (this : ReassemblyBuffer) : Prop :=
  Keeps (coveredCells cells received) this.toChunkBuffer

variable {cells : List Cell} {received : List (ℕ × ℕ)} {this : ReassemblyBuffer} {n : ℕ}

theorem collects_new (cells : List Cell) : Collects cells [] new := by
  have hnone : coveredCells cells [] = fun _ => none := by
    funext i
    exact if_neg fun h => by simp [Covered] at h
  rw [Collects, hnone]
  exact keeps_new

theorem isSome_coveredCells_iff {k : ℕ} (hcells : cells.length = 8 * n) (hk : k < 8 * n) :
    (coveredCells cells received k).isSome ↔ Covered received (k / 8) := by
  rw [coveredCells, Int.toNat_natCast]
  by_cases hcovered : Covered received (k / 8)
  · rw [if_pos ⟨by omega, hcovered⟩, List.getElem?_eq_getElem (by omega)]
    exact iff_of_true rfl hcovered
  · rw [if_neg fun h => hcovered h.2]
    exact iff_of_false (by simp) hcovered

theorem coveredCells_eq_none (hcells : cells.length = 8 * n) {i : ℤ} (hi : i < 0 ∨ 8 * n ≤ i) :
    coveredCells cells received i = none := by
  unfold coveredCells
  split_ifs with h
  · exact List.getElem?_eq_none (by omega)
  · rfl

theorem agrees_coveredCells (h : NoClash cells) : Agrees (coveredCells cells received) := by
  intro i a b ha hb
  unfold coveredCells at ha hb
  split_ifs at ha hb with hi hi'
  rw [show (i + 1).toNat = i.toNat + 1 by omega] at hb
  obtain ⟨hlt, rfl⟩ := List.getElem?_eq_some_iff.1 ha
  obtain ⟨hlt', rfl⟩ := List.getElem?_eq_some_iff.1 hb
  exact List.isChain_iff_getElem.1 h i.toNat hlt'

theorem written_coveredCells {start length : ℕ} (hle : 8 * (start + length) ≤ cells.length) :
    written (coveredCells cells received) (8 * start) (seg cells (8 * start) (8 * length)) =
      coveredCells cells ((start, length) :: received) := by
  have hlen : ((seg cells (8 * start) (8 * length)).length : ℤ) = 8 * length :=
    length_seg (by omega) (by omega) (by omega)
  funext i
  rw [written, hlen]
  by_cases hin : 8 * (start : ℤ) ≤ i ∧ i < 8 * start + 8 * length
  · rw [if_pos hin, getElem?_seg, if_pos (by omega), coveredCells,
      if_pos ⟨by omega, covered_cons.2 (.inl (by dsimp only; omega))⟩]
    congr 1
    omega
  · rw [if_neg hin, coveredCells, coveredCells]
    refine if_congr (and_congr_right fun hi => ?_) rfl rfl
    rw [covered_cons]
    refine ⟨.inr, fun h => h.resolve_left ?_⟩
    dsimp only
    omega

/-- A part of the sequence at its place. -/
theorem Collects.spec_replace (h : Collects cells received this) (hclash : NoClash cells)
    {start length : ℕ} {chunk : Chunk} (hpos : 0 < length)
    (hle : 8 * (start + length) ≤ cells.length)
    (hchunk : Rep True chunk (seg cells (8 * start) (8 * length))) :
    Returns (this.replace (8 * start) chunk) fun buffer =>
      Collects cells ((start, length) :: received) buffer ∧
        buffer.expectedLength = this.expectedLength := by
  have hcells := hchunk.cells_eq (hclash.seg _ _)
  have hlen : chunk.getChunkLength = 8 * length := by
    rw [hchunk.length_eq]
    exact length_seg (by omega) (by omega) (by omega)
  have hwritten := @written_coveredCells _ received _ _ hle
  refine (Keeps.spec_replace h (by omega) hchunk.wf (by omega) (hchunk.clean trivial) ?_).bind
    fun buffer hbuffer => Spec.pure ⟨?_, rfl⟩
  · rw [hcells, hwritten]
    exact agrees_coveredCells hclash
  · rwa [hcells, hwritten] at hbuffer

/-- The length is known, or the last byte is not there. -/
def Expected (received : List (ℕ × ℕ)) (n : ℕ) (expectedLength : ℤ) : Prop :=
  expectedLength = 8 * n ∨ (expectedLength = -1 ∧ ¬ Covered received (n - 1))

theorem Collects.exists_regions_eq (h : Collects cells received this)
    (hcells : cells.length = 8 * n) (hpos : 0 < n) (hall : ∀ k < n, Covered received k) :
    ∃ region, this.regions = [region] ∧ region.offset = 0 ∧
      region.data.getChunkLength = 8 * n := by
  have hexact : Exact (coveredCells cells received) 0 (8 * n) := by
    refine ⟨?_, coveredCells_eq_none hcells (by omega), coveredCells_eq_none hcells (by omega)⟩
    intro i h₀ h₁
    rw [show i = (i.toNat : ℤ) by omega, isSome_coveredCells_iff hcells (by omega)]
    exact hall _ (by omega)
  obtain ⟨region, hregion, hoffset, hlength⟩ := h.exists_region (by omega) hexact
  refine ⟨region, ?_, hoffset, hlength⟩
  -- any other region would keep a cell outside of the sequence
  have honly : ∀ other ∈ this.regions, other.span = region.span := by
    intro other hother
    have hpos' := h.length_pos hother
    have hbounds : ∀ i, other.offset ≤ i → i < other.getEndOffset → 0 ≤ i ∧ i < 8 * n := by
      intro i h₀ h₁
      by_contra hout
      have hsome := h.isSome_of_mem hother h₀ h₁
      rw [coveredCells_eq_none hcells (by omega)] at hsome
      cases hsome
    have hfirst := hbounds _ le_rfl hpos'
    have hend := (h.ok region hregion).stop_span
    have hend' := (h.ok other hother).stop_span
    rw [Region.getEndOffset, hoffset, hlength] at hend
    have hspan : region.span.offset = region.offset := rfl
    have hspan' : other.span.offset = other.offset := rfl
    rcases Span.eq_or_gap_of_mem h.separated (List.mem_map_of_mem hother)
      (List.mem_map_of_mem hregion) with heq | hgap | hgap
    · exact heq
    · omega
    · omega
  have hsep := h.separated
  cases hregions : this.regions with
  | nil =>
    rw [hregions] at hregion
    cases hregion
  | cons first rest =>
    rw [hregions] at hregion honly hsep
    cases rest with
    | nil =>
      rw [List.mem_singleton] at hregion
      rw [hregion]
    | cons second rest =>
      have hfirst := honly first (by simp)
      have hsecond := honly second (by simp)
      rw [List.map_cons, List.map_cons, Span.separated_cons] at hsep
      have hgap := hsep.2.1 second.span (by simp)
      have hne := Span.offset_lt_stop hsep.1
      rw [hsecond, hfirst] at hgap
      rw [hfirst] at hne
      omega

theorem Collects.isComplete_iff (h : Collects cells received this)
    (hcells : cells.length = 8 * n) (hpos : 0 < n)
    (hexpected : Expected received n this.expectedLength) :
    this.isComplete = true ↔ ∀ k < n, Covered received k := by
  constructor
  · intro hcomplete k hk
    unfold isComplete at hcomplete
    split at hcomplete
    · next region hregions =>
      obtain ⟨hoffset, hlength⟩ := of_decide_eq_true hcomplete
      have hregion : region ∈ this.regions := by rw [hregions]; exact List.mem_cons_self
      have hpos' := h.length_pos hregion
      have hend : region.getEndOffset = region.offset + region.data.getChunkLength := rfl
      rcases hexpected with hexpected | ⟨hexpected, -⟩
      · have hsome := h.isSome_of_mem hregion (show region.offset ≤ ((8 * k : ℕ) : ℤ) by omega)
          (by omega)
        rw [isSome_coveredCells_iff hcells (by omega)] at hsome
        rwa [Nat.mul_div_cancel_left k (by omega)] at hsome
      · omega
    · cases hcomplete
  · intro hall
    obtain ⟨region, hregions, hoffset, hlength⟩ := h.exists_regions_eq hcells hpos hall
    unfold isComplete
    rw [hregions]
    refine decide_eq_true ⟨hoffset, ?_⟩
    rcases hexpected with hexpected | ⟨-, hlast⟩
    · rw [hlength, hexpected]
    · exact absurd (hall (n - 1) (by omega)) hlast

theorem Collects.spec_getReassembledData (h : Collects cells received this)
    (hcells : cells.length = 8 * n) (hpos : 0 < n) (hall : ∀ k < n, Covered received k)
    (hcomplete : this.isComplete = true) :
    Returns this.getReassembledData fun chunk =>
      chunk.WF ∧ chunk.Clean ∧ chunk.cells = cells ∧ chunk.getChunkLength = 8 * n := by
  obtain ⟨region, hregions, hoffset, hlength⟩ := h.exists_regions_eq hcells hpos hall
  have hregion : region ∈ this.regions := by rw [hregions]; exact List.mem_cons_self
  have hok := h.ok region hregion
  unfold getReassembledData
  rw [hcomplete, if_neg (by simp), hregions]
  refine Spec.pure ⟨hok.wf, hok.clean, ?_, hlength⟩
  have hlen := hok.wf.length_cells
  have hend : region.getEndOffset = region.offset + region.data.getChunkLength := rfl
  refine List.ext_getElem? fun k => ?_
  by_cases hk : k < 8 * n
  · have hcell := h.eq_cell hregion (show region.offset ≤ (k : ℤ) by omega) (by omega)
    rw [coveredCells, if_pos ⟨by omega, by rw [Int.toNat_natCast]; exact hall _ (by omega)⟩,
      Int.toNat_natCast, show ((k : ℤ) - region.offset).toNat = k by omega] at hcell
    exact hcell.symm
  · rw [List.getElem?_eq_none (by omega), List.getElem?_eq_none (by omega)]

end ReassemblyBuffer

end Inet
