import Inet.Buffer.Assemble
import Inet.Stream.Input

/-! # The receive queue of a QUIC stream

`push` compares a frame with the stored regions: it may drop it, or store it
below the expected offset. The application is handed the stream whatever happens
to frames, and all of it up to the first gap if they fit.
-/

namespace Inet.Quic

open Chunk ChunkBuffer Outcome

structure StreamRcvQueue where
  reorderBuffer : ReorderBuffer
  numStreamFramesReceived : ℕ
  numDuplFrames : ℕ

namespace StreamRcvQueue

def new : StreamRcvQueue := ⟨⟨ChunkBuffer.new, 0⟩, 0, 0⟩

/-- What `push` does with a frame. -/
inductive Treatment where
  | duplicate
  | replace
  | drop

/-- The loop over the regions. -/
def treatmentLoop (dataStartOffset dataEndOffset : ℤ) : List Region → ChunkM Treatment
  | [] => return .drop
  | region :: regions => do
    let regionStartOffset ← toBytes region.getStartOffset
    let regionEndOffset ← toBytes region.getEndOffset
    if dataStartOffset ≥ regionStartOffset ∧ dataEndOffset ≤ regionEndOffset then
      return .duplicate
    else if dataEndOffset < regionStartOffset ∨ dataEndOffset = regionStartOffset ∨
        dataStartOffset = regionEndOffset then
      return .replace
    else treatmentLoop dataStartOffset dataEndOffset regions

def treatment (this : StreamRcvQueue) (dataStartOffset dataEndOffset : ℤ) : ChunkM Treatment :=
  match this.reorderBuffer.regions.getLast? with
  | some region => do
    if dataStartOffset > (← toBytes region.getEndOffset) then return .replace
    else treatmentLoop dataStartOffset dataEndOffset this.reorderBuffer.regions
  | none => do
    if dataEndOffset ≤ (← toBytes this.reorderBuffer.expectedOffset) then return .duplicate
    else return .replace

def push (this : StreamRcvQueue) (data : Chunk) (offset : ℕ) : ChunkM StreamRcvQueue := do
  let this := { this with numStreamFramesReceived := this.numStreamFramesReceived + 1 }
  let dataEndOffset := offset + (← toBytes data.getChunkLength)
  checkUsage (data.getChunkLength > 0) "data is empty"
  match ← this.treatment offset dataEndOffset with
  | .duplicate => return { this with numDuplFrames := this.numDuplFrames + 1 }
  | .replace =>
    let buffer ← this.reorderBuffer.replace (8 * offset) data
    return { this with reorderBuffer := ⟨buffer, this.reorderBuffer.expectedOffset⟩ }
  | .drop => return this

def pop (this : StreamRcvQueue) (dataSize : ℤ) : ChunkM (Option Chunk × StreamRcvQueue) := do
  if this.reorderBuffer.regions.isEmpty then return (none, this)
  else
    let available ← toBytes this.reorderBuffer.getAvailableDataLength
    let length := if dataSize = 0 then available else min available dataSize
    let (chunk, reorderBuffer) ← this.reorderBuffer.popAvailableData (8 * length)
    return (chunk, { this with reorderBuffer := reorderBuffer })

/-- A frame that carries bytes of a stream. -/
structure Frame (S : ℕ → Bool) (data : Chunk) (offset length : ℕ) : Prop where
  wf : data.WF
  clean : data.Clean
  pos : 0 < length
  length_eq : data.getChunkLength = 8 * length
  bits_eq : ∀ k < 8 * length, (data.cells[k]?).map Cell.bit = some (S (8 * offset + k))

/-- The cells of the queue, by their positions in bits. -/
def stored (this : StreamRcvQueue) : ℤ → Option Cell :=
  Span.lookup (this.reorderBuffer.regions.map Region.span)

/-- The frame has nothing new. -/
def Known (this : StreamRcvQueue) (start stop : ℤ) : Prop :=
  (∃ region ∈ this.reorderBuffer.regions,
    region.getStartOffset ≤ 8 * start ∧ 8 * stop ≤ region.getEndOffset) ∨
  (this.reorderBuffer.regions = [] ∧ 8 * stop ≤ this.reorderBuffer.expectedOffset)

/-- The frame has nothing new, or is all new. -/
def Fits (this : StreamRcvQueue) (start stop : ℤ) : Prop :=
  this.Known start stop ∨ (this.reorderBuffer.expectedOffset ≤ 8 * start ∧
    ∀ region ∈ this.reorderBuffer.regions,
      8 * stop ≤ region.getStartOffset ∨ region.getEndOffset ≤ 8 * start)

/-- The runs of a queue, with the frames that have been pushed and the bits that have been handed
out. No bit counts with different fills meet in the queue, and if `fitting`, every frame fits. -/
inductive Reachable (S : ℕ → Bool) (fitting : Prop) :
    StreamRcvQueue → List (ℕ × ℕ) → List Bool → Prop
  | new : Reachable S fitting new [] []
  | push {this after : StreamRcvQueue} {received : List (ℕ × ℕ)} {output : List Bool}
    {data : Chunk} {offset length s s' : ℕ} : Reachable S fitting this received output →
    Frame S data offset length → Agrees (written this.stored (8 * offset) data.cells) →
    (fitting → this.Fits offset (offset + length)) →
    (this.push data offset).run s = .ok (after, s') →
    Reachable S fitting after ((offset, length) :: received) output
  | pop {this after : StreamRcvQueue} {received : List (ℕ × ℕ)} {output : List Bool}
    {dataSize : ℤ} {data : Option Chunk} {s s' : ℕ} : Reachable S fitting this received output →
    0 ≤ dataSize → (this.pop dataSize).run s = .ok ((data, after), s') →
    Reachable S fitting after received (output ++ (data.map toBits).getD [])

/-- Whole bytes of the stream are stored, at their positions. -/
structure StoresPart (S : ℕ → Bool) (stored : ℤ → Option Cell) : Prop where
  whole : ∀ i, (stored i).isSome ↔ (stored (8 * (i / 8))).isSome
  bit_eq : ∀ i cell, stored i = some cell → 0 ≤ i ∧ cell.bit = S i.toNat

/-- What has been received is stored unless it has been handed out. -/
structure Covers (received : List (ℕ × ℕ)) (length : ℕ) (stored : ℤ → Option Cell) : Prop where
  low : ∀ i < (length : ℤ), stored i = none
  isSome_iff : ∀ k : ℕ, length ≤ 8 * k → ((stored (8 * k)).isSome ↔ Covered received k)
  before : ∀ k, 8 * k < length → Covered received k

/-- What has been handed out is the stream up to the expected offset. -/
structure Holds (S : ℕ → Bool) (fitting : Prop) (received : List (ℕ × ℕ)) (output : List Bool)
    (this : StreamRcvQueue) : Prop where
  keeps : Keeps this.stored this.reorderBuffer.toChunkBuffer
  stores : StoresPart S this.stored
  expected_eq : this.reorderBuffer.expectedOffset = output.length
  whole : output.length % 8 = 0
  output_eq : output = streamBits S 0 output.length
  covers : fitting → Covers received output.length this.stored

variable {S : ℕ → Bool} {fitting : Prop} {received : List (ℕ × ℕ)} {stored : ℤ → Option Cell}
  {this : StreamRcvQueue} {output : List Bool} {data : Chunk} {offset length : ℕ} {region : Region}

theorem StoresPart.written (h : StoresPart S stored) (hframe : Frame S data offset length) :
    StoresPart S (written stored (8 * offset) data.cells) where
  whole i := by
    have hlen := hframe.wf.length_cells
    have hlength := hframe.length_eq
    unfold ChunkBuffer.written
    by_cases hin : 8 * (offset : ℤ) ≤ i ∧ i < 8 * offset + data.cells.length
    · rw [if_pos hin, if_pos (by omega), List.getElem?_eq_getElem (by omega),
        List.getElem?_eq_getElem (by omega)]
      simp
    · rw [if_neg hin, if_neg (by omega)]
      exact h.whole i
  bit_eq i cell hcell := by
    have hlen := hframe.wf.length_cells
    have hlength := hframe.length_eq
    unfold ChunkBuffer.written at hcell
    split_ifs at hcell with hin
    · have hbit := hframe.bits_eq (i - 8 * offset).toNat (by omega)
      rw [hcell, show 8 * offset + (i - 8 * offset).toNat = i.toNat by omega] at hbit
      exact ⟨by omega, Option.some.inj hbit⟩
    · exact h.bit_eq i cell hcell

theorem StoresPart.cleared (h : StoresPart S stored) {start length : ℤ} (hstart : start % 8 = 0)
    (hlength : length % 8 = 0) : StoresPart S (cleared stored start length) where
  whole i := by
    unfold ChunkBuffer.cleared
    by_cases hin : start ≤ i ∧ i < start + length
    · rw [if_pos hin, if_pos (by omega)]
    · rw [if_neg hin, if_neg (by omega)]
      exact h.whole i
  bit_eq i cell hcell := by
    unfold ChunkBuffer.cleared at hcell
    split_ifs at hcell
    exact h.bit_eq i cell hcell

theorem Covers.known (h : Covers received length stored) {range : ℕ × ℕ}
    (hknown : ∀ k, length ≤ 8 * k → range.1 ≤ k → k < range.1 + range.2 → Covered received k) :
    Covers (range :: received) length stored where
  low := h.low
  isSome_iff k hk := by
    rw [h.isSome_iff k hk, covered_cons]
    exact ⟨Or.inr, fun hcovered => hcovered.elim (fun hin => hknown k hk hin.1 hin.2) id⟩
  before k hk := covered_cons.2 (Or.inr (h.before k hk))

theorem Covers.written (h : Covers received length stored) {n : ℕ}
    (hlen : (data.cells.length : ℤ) = 8 * n) (hle : length ≤ 8 * offset) :
    Covers ((offset, n) :: received) length (written stored (8 * offset) data.cells) where
  low i hi := by
    rw [ChunkBuffer.written, if_neg (by omega)]
    exact h.low i hi
  isSome_iff k hk := by
    rw [ChunkBuffer.written, covered_cons]
    by_cases hin : offset ≤ k ∧ k < offset + n
    · rw [if_pos (by omega), List.getElem?_eq_getElem (by omega)]
      exact iff_of_true rfl (Or.inl hin)
    · rw [if_neg (by omega), h.isSome_iff k hk, or_iff_right hin]
  before k hk := covered_cons.2 (Or.inr (h.before k hk))

theorem Covers.cleared (h : Covers received length stored) {n : ℕ}
    (hsome : ∀ i : ℤ, length ≤ i → i < length + 8 * n → (stored i).isSome) :
    Covers received (length + 8 * n) (cleared stored length (8 * n)) where
  low i hi := by
    unfold ChunkBuffer.cleared
    split_ifs
    · rfl
    · exact h.low i (by omega)
  isSome_iff k hk := by
    rw [ChunkBuffer.cleared, if_neg (by omega)]
    exact h.isSome_iff k (by omega)
  before k hk := by
    by_cases hk' : 8 * k < length
    · exact h.before k hk'
    · exact (h.isSome_iff k (by omega)).1 (hsome _ (by omega) (by omega))

theorem stored_eq (h : Keeps stored this.reorderBuffer.toChunkBuffer) : this.stored = stored :=
  funext h.lookup_eq

/-- Regions begin and end at whole bytes. -/
theorem Holds.bounds (h : this.Holds S fitting received output)
    (hr : region ∈ this.reorderBuffer.regions) :
    region.getStartOffset % 8 = 0 ∧ region.getEndOffset % 8 = 0 := by
  have hpos := h.keeps.length_pos hr
  have hstartOffset : region.getStartOffset = region.offset := rfl
  rw [hstartOffset]
  constructor
  · by_contra hne
    have hsome := (h.stores.whole _).1 (h.keeps.isSome_of_mem hr le_rfl hpos)
    rw [show region.offset / 8 = (region.offset - 1) / 8 by omega, ← h.stores.whole,
      h.keeps.start_eq_none hr] at hsome
    cases hsome
  · by_contra hne
    have hsome := (h.stores.whole _).1
      (h.keeps.isSome_of_mem hr (i := region.getEndOffset - 1) (by omega) (by omega))
    rw [show (region.getEndOffset - 1) / 8 = region.getEndOffset / 8 by omega, ← h.stores.whole,
      h.keeps.end_eq_none hr] at hsome
    cases hsome

theorem spec_treatmentLoop (dataStartOffset dataEndOffset : ℤ) {regions : List Region}
    (h : ∀ region ∈ regions, region.getStartOffset % 8 = 0 ∧ region.getEndOffset % 8 = 0) :
    Returns (treatmentLoop dataStartOffset dataEndOffset regions) fun treatment =>
      (treatment = .duplicate → ∃ region ∈ regions,
        region.getStartOffset ≤ 8 * dataStartOffset ∧ 8 * dataEndOffset ≤ region.getEndOffset) ∧
      (treatment = .drop → ∀ region ∈ regions, region.getStartOffset < 8 * dataEndOffset ∧
        8 * dataStartOffset ≠ region.getEndOffset ∧ ¬ (region.getStartOffset ≤ 8 * dataStartOffset ∧
          8 * dataEndOffset ≤ region.getEndOffset)) := by
  induction regions with
  | nil => exact Spec.pure ⟨by simp, by simp⟩
  | cons region regions ih =>
    obtain ⟨hregion, hregions⟩ := List.forall_mem_cons.1 h
    rw [treatmentLoop, toBytes_eq hregion.1, toBytes_eq hregion.2]
    simp only [pure_bind]
    split_ifs with hin hnext
    · exact Spec.pure ⟨fun _ => ⟨region, List.mem_cons_self, by omega, by omega⟩, by simp⟩
    · exact Spec.pure ⟨by simp, by simp⟩
    · refine (ih hregions).mono id fun treatment htreatment => ⟨fun heq => ?_, fun heq => ?_⟩
      · obtain ⟨r, hr, hbounds⟩ := htreatment.1 heq
        exact ⟨r, List.mem_cons_of_mem _ hr, hbounds⟩
      · exact List.forall_mem_cons.2 ⟨⟨by omega, by omega, by omega⟩, htreatment.2 heq⟩

/-- When a frame is treated in each way. -/
def Treats (this : StreamRcvQueue) (start stop : ℤ) : Treatment → Prop
  | .duplicate => this.Known start stop
  | .replace => ¬ (this.reorderBuffer.regions = [] ∧ 8 * stop ≤ this.reorderBuffer.expectedOffset)
  | .drop => ¬ this.Fits start stop

theorem Holds.spec_treatment (h : this.Holds S fitting received output) (start stop : ℤ) :
    Returns (this.treatment start stop) (this.Treats start stop) := by
  unfold treatment
  cases hlast : this.reorderBuffer.regions.getLast? with
  | none =>
    have hexpected := h.expected_eq
    have hwhole := h.whole
    have hempty := List.getLast?_eq_none_iff.1 hlast
    dsimp only
    rw [toBytes_eq (by omega), pure_bind]
    split_ifs
    · exact Spec.pure (Or.inr ⟨hempty, by omega⟩)
    · refine Spec.pure fun hknown => ?_
      omega
  | some region =>
    have hr := List.mem_of_getLast? hlast
    have hne : this.reorderBuffer.regions ≠ [] := List.ne_nil_of_mem hr
    have hbounds := h.bounds hr
    dsimp only
    rw [toBytes_eq hbounds.2, pure_bind]
    split_ifs
    · exact Spec.pure fun hknown => hne hknown.1
    · refine (spec_treatmentLoop start stop fun _ => h.bounds).mono id fun treatment ht => ?_
      cases treatment with
      | duplicate => exact Or.inl (ht.1 rfl)
      | replace => exact fun hknown => hne hknown.1
      | drop =>
        rintro ((⟨r, hr', hin⟩ | hempty) | ⟨-, hapart⟩)
        · exact (ht.2 rfl r hr').2.2 hin
        · exact hne hempty.1
        · have hregion := ht.2 rfl region hr
          have := hapart region hr
          omega

/-- What is known of a frame has been received. -/
theorem Holds.covered_of_known (h : this.Holds S fitting received output) {start stop : ℤ}
    (hcovers : Covers received output.length this.stored) (hknown : this.Known start stop) {k : ℕ}
    (hk : output.length ≤ 8 * k) (h₀ : start ≤ k) (h₁ : k < stop) : Covered received k := by
  rcases hknown with ⟨region, hr, hstart, hstop⟩ | ⟨-, hstop⟩
  · have hstartOffset : region.getStartOffset = region.offset := rfl
    exact (hcovers.isSome_iff k hk).1 (h.keeps.isSome_of_mem hr (by omega) (by omega))
  · have := h.expected_eq
    omega

/-- A frame that is replaced and fits does not start before the expected offset. -/
theorem Holds.le_of_fits (h : this.Holds S fitting received output) {start stop : ℤ}
    (hcovers : Covers received output.length this.stored) (hfits : this.Fits start stop)
    (htreats : this.Treats start stop .replace) : output.length ≤ 8 * start := by
  have hexpected := h.expected_eq
  rcases hfits with (⟨region, hr, hstart, -⟩ | hempty) | ⟨hle, -⟩
  · have hstartOffset : region.getStartOffset = region.offset := rfl
    by_contra hlt
    have hsome := h.keeps.isSome_of_mem hr le_rfl (h.keeps.length_pos hr)
    rw [hcovers.low _ (by omega)] at hsome
    cases hsome
  · exact absurd hempty htreats
  · omega

theorem Holds.push_known (h : this.Holds S fitting received output)
    (hknown : fitting → this.Known offset (offset + length)) {after : StreamRcvQueue}
    (hafter : after.reorderBuffer = this.reorderBuffer) :
    after.Holds S fitting ((offset, length) :: received) output := by
  have hstored : after.stored = this.stored := by rw [stored, stored, hafter]
  refine ⟨?_, ?_, hafter ▸ h.expected_eq, h.whole, h.output_eq, fun hfitting => ?_⟩
  · rw [hstored, hafter]
    exact h.keeps
  · rw [hstored]
    exact h.stores
  · rw [hstored]
    have hcovers := h.covers hfitting
    exact hcovers.known fun k hk h₀ h₁ =>
      h.covered_of_known hcovers (hknown hfitting) hk (by omega) (by omega)

theorem Holds.returns_push (h : this.Holds S fitting received output)
    (hframe : Frame S data offset length)
    (hagrees : Agrees (written this.stored (8 * offset) data.cells))
    (hfits : fitting → this.Fits offset (offset + length)) :
    Returns (this.push data offset) fun after =>
      after.Holds S fitting ((offset, length) :: received) output := by
  have hlen := hframe.wf.length_cells
  have hlength := hframe.length_eq
  have hpos : 0 < data.getChunkLength := by have := hframe.pos; omega
  unfold push
  rw [toBytes_eq (by omega), pure_bind, checkUsage, if_pos hpos, pure_bind,
    show (offset : ℤ) + data.getChunkLength / 8 = offset + length by omega]
  refine (h.spec_treatment _ _).bind fun treatment htreats => ?_
  cases treatment with
  | duplicate => exact Spec.pure (h.push_known (fun _ => htreats) rfl)
  | drop =>
    exact Spec.pure (h.push_known (fun hfitting => absurd (hfits hfitting) htreats) rfl)
  | replace =>
    refine (h.keeps.spec_replace (by omega) hframe.wf hpos hframe.clean hagrees).bind
      fun buffer hbuffer => Spec.pure ?_
    set after : StreamRcvQueue := { this with
      numStreamFramesReceived := this.numStreamFramesReceived + 1
      reorderBuffer := ⟨buffer, this.reorderBuffer.expectedOffset⟩ }
    have hstored : after.stored = ChunkBuffer.written this.stored (8 * offset) data.cells :=
      stored_eq (show Keeps _ after.reorderBuffer.toChunkBuffer from hbuffer)
    refine ⟨hstored ▸ hbuffer, ?_, h.expected_eq, h.whole, h.output_eq, fun hfitting => ?_⟩
    · rw [hstored]
      exact h.stores.written hframe
    · rw [hstored]
      have hle := h.le_of_fits (h.covers hfitting) (hfits hfitting) htreats
      exact (h.covers hfitting).written (by omega) (by omega)

/-- The first bytes of the region at the expected offset are handed out. -/
theorem Holds.returns_popAvailableData (h : this.Holds S fitting received output)
    {regions : List Region}
    (hregions : this.reorderBuffer.regions = region :: regions)
    (hoffset : region.offset = this.reorderBuffer.expectedOffset) {n : ℕ} (hpos : 0 < n)
    (hle : 8 * (n : ℤ) ≤ region.data.getChunkLength) :
    Returns (this.reorderBuffer.popAvailableData (8 * n)) fun result =>
      Holds S fitting received (output ++ (result.1.map toBits).getD [])
        { this with reorderBuffer := result.2 } := by
  have hr : region ∈ this.reorderBuffer.regions := by rw [hregions]; exact List.mem_cons_self
  have hend : region.getEndOffset = region.offset + region.data.getChunkLength := rfl
  have hexpected := h.expected_eq
  have hwhole := h.whole
  have hpeek := h.keeps.spec_peek hr hoffset.le (show 0 < 8 * (n : ℤ) by omega) (by omega)
  rw [hoffset, sub_self] at hpeek
  unfold ReorderBuffer.popAvailableData
  rw [hregions, List.head?_cons]
  dsimp only
  rw [if_pos hoffset, if_pos (by omega)]
  simp only [pure_bind]
  refine hpeek.bind fun data hdata => ?_
  obtain ⟨chunk, rfl, hpart⟩ := hdata
  refine (h.keeps.spec_clear (by omega) (by omega) (Or.inl (by omega)) (by omega)).bind
    fun buffer hbuffer => Spec.pure ?_
  have hlen := hpart.wf.length_cells
  have hchunkLen := hpart.length_eq
  have hbits : chunk.toBits = streamBits S output.length (8 * n) := by
    refine eq_streamBits (by rw [toBits, List.length_map]; omega) fun k hk => ?_
    have hcell := hpart.cells_eq k (by omega)
    have hsome := h.keeps.isSome_of_mem hr
      (i := this.reorderBuffer.expectedOffset + k) (by omega) (by omega)
    obtain ⟨cell, hstored⟩ := Option.isSome_iff_exists.1 hsome
    rw [toBits, List.getElem?_map, hcell, hstored, Option.map_some,
      (h.stores.bit_eq _ cell hstored).2]
    congr 2
    omega
  dsimp only [Option.map_some, Option.getD_some]
  rw [hbits]
  have hlength : (streamBits S output.length (8 * n)).length = 8 * n := by simp [streamBits]
  set after : StreamRcvQueue := { this with
    reorderBuffer := ⟨buffer, this.reorderBuffer.expectedOffset + 8 * n⟩ }
  have hstored : after.stored = cleared this.stored this.reorderBuffer.expectedOffset (8 * n) :=
    stored_eq (show Keeps _ after.reorderBuffer.toChunkBuffer from hbuffer)
  refine ⟨hstored ▸ hbuffer, ?_, ?_, ?_, ?_, fun hfitting => ?_⟩
  · rw [hstored]
    exact h.stores.cleared (by omega) (by omega)
  · rw [List.length_append, hlength]
    push_cast
    rw [← hexpected]
  · rw [List.length_append, hlength]
    omega
  · rw [List.length_append, hlength, ← streamBits_append, ← h.output_eq]
  · rw [hstored, List.length_append, hlength, hexpected]
    exact (h.covers hfitting).cleared fun i h₀ h₁ =>
      h.keeps.isSome_of_mem hr (by omega) (by omega)

theorem Holds.returns_pop (h : this.Holds S fitting received output) {dataSize : ℤ}
    (hsize : 0 ≤ dataSize) :
    Returns (this.pop dataSize) fun result =>
      result.2.Holds S fitting received (output ++ (result.1.map toBits).getD []) := by
  have hnone : this.Holds S fitting received
      (output ++ ((none : Option Chunk).map toBits).getD []) := by
    rwa [Option.map_none, Option.getD_none, List.append_nil]
  unfold pop
  cases hregions : this.reorderBuffer.regions with
  | nil => exact Spec.pure hnone
  | cons region regions =>
    have hr : region ∈ this.reorderBuffer.regions := by rw [hregions]; exact List.mem_cons_self
    have hend : region.getEndOffset = region.offset + region.data.getChunkLength := rfl
    have hpos := h.keeps.length_pos hr
    have hbounds := h.bounds hr
    have hstartOffset : region.getStartOffset = region.offset := rfl
    by_cases hoffset : region.offset = this.reorderBuffer.expectedOffset
    · have havailable : this.reorderBuffer.getAvailableDataLength = region.data.getChunkLength := by
        unfold ReorderBuffer.getAvailableDataLength
        rw [hregions]
        exact if_pos hoffset
      rw [List.isEmpty_cons, if_neg Bool.false_ne_true, havailable, toBytes_eq (by omega),
        pure_bind]
      dsimp only
      obtain ⟨n, hn, hn₀, hn₁⟩ : ∃ n : ℕ, (if dataSize = 0 then region.data.getChunkLength / 8
          else min (region.data.getChunkLength / 8) dataSize) = n ∧ 0 < n ∧
          8 * (n : ℤ) ≤ region.data.getChunkLength := by
        refine ⟨Int.toNat _, (Int.toNat_of_nonneg ?_).symm, ?_, ?_⟩ <;> split_ifs <;> omega
      rw [hn]
      exact (h.returns_popAvailableData hregions hoffset hn₀ hn₁).bind fun result hresult =>
        Spec.pure hresult
    · have havailable : this.reorderBuffer.getAvailableDataLength = 0 := by
        unfold ReorderBuffer.getAvailableDataLength
        rw [hregions]
        exact if_neg hoffset
      rw [List.isEmpty_cons, if_neg Bool.false_ne_true, havailable, toBytes_eq (by omega),
        pure_bind]
      unfold ReorderBuffer.popAvailableData
      rw [hregions, List.head?_cons]
      dsimp only
      rw [if_neg hoffset, pure_bind]
      exact Spec.pure hnone

theorem holds_new (S : ℕ → Bool) (fitting : Prop) : new.Holds S fitting [] [] := by
  have hstored : new.stored = fun _ => none := stored_eq keeps_new
  refine ⟨hstored ▸ keeps_new, ?_, rfl, rfl, rfl, fun _ => ?_⟩
  · rw [hstored]
    exact ⟨by simp, by simp⟩
  · rw [hstored]
    exact ⟨fun _ _ => rfl, by simp [Covered], by simp⟩

theorem Reachable.holds (h : Reachable S fitting this received output) :
    this.Holds S fitting received output := by
  induction h with
  | new => exact holds_new S fitting
  | push _ hframe hagrees hfits hrun ih =>
    exact (ih.returns_push hframe hagrees hfits).of_run hrun
  | pop _ hsize hrun ih => exact (ih.returns_pop hsize).of_run hrun

/-- The available data ends at the first gap in what has been received. -/
theorem Holds.available_eq (h : this.Holds S fitting received output)
    (hcovers : Covers received output.length this.stored) :
    this.reorderBuffer.expectedOffset + this.reorderBuffer.getAvailableDataLength =
      8 * coveredPrefix received := by
  have hexpected := h.expected_eq
  have hwhole := h.whole
  have hexpects : this.reorderBuffer.Expects this.stored :=
    ⟨h.keeps, by omega, by rw [hexpected]; exact hcovers.low⟩
  obtain ⟨hnonneg, hsome, hnone⟩ := hexpects.available
  obtain ⟨stop, hstop⟩ : ∃ stop : ℕ, this.reorderBuffer.expectedOffset +
      this.reorderBuffer.getAvailableDataLength = stop := ⟨_, (Int.toNat_of_nonneg (by omega)).symm⟩
  rw [hstop] at hsome hnone ⊢
  have hmod : (stop : ℤ) % 8 = 0 := by
    by_contra hne
    have hlast := (h.stores.whole _).1 (hsome (stop - 1) (by omega) (by omega))
    rw [show ((stop : ℤ) - 1) / 8 = stop / 8 by omega, ← h.stores.whole, hnone] at hlast
    cases hlast
  have hcovered : coveredPrefix received = stop / 8 := by
    refine coveredPrefix_eq (fun k hk => ?_) fun hk => ?_
    · by_cases hk' : 8 * k < output.length
      · exact hcovers.before k hk'
      · exact (hcovers.isSome_iff k (by omega)).1 (hsome _ (by omega) (by omega))
    · have hlast := (hcovers.isSome_iff _ (by omega)).2 hk
      rw [show 8 * ((stop / 8 : ℕ) : ℤ) = stop by omega, hnone] at hlast
      cases hlast
  omega

/-- In every run the stream is handed out and neither operation fails. If all frames fit, all that
has been received before the first gap is handed out or available. -/
theorem Reachable.hands_out (h : Reachable S fitting this received output) :
    output = streamBits S 0 output.length ∧
      this.reorderBuffer.expectedOffset = output.length ∧
      (fitting → this.reorderBuffer.expectedOffset + this.reorderBuffer.getAvailableDataLength =
        8 * coveredPrefix received) ∧
      (∀ data offset length, Frame S data offset length →
        Agrees (written this.stored (8 * offset) data.cells) →
        Returns (this.push data offset) fun _ => True) ∧
      ∀ dataSize, 0 ≤ dataSize → Returns (this.pop dataSize) fun _ => True := by
  have hholds := h.holds
  refine ⟨hholds.output_eq, hholds.expected_eq,
    fun hfitting => hholds.available_eq (hholds.covers hfitting),
    fun data offset length hframe hagrees => ?_,
    fun dataSize hsize => (hholds.returns_pop hsize).mono id fun _ _ => trivial⟩
  have hany : this.Holds S False received output := { hholds with covers := False.elim }
  exact (hany.returns_push hframe hagrees False.elim).mono id fun _ _ => trivial

/-- A header of a new chunk. -/
def header : ChunkHeader := ⟨0, false, false, false⟩

/-- A byte of ones. -/
def byte : Chunk := bytes header [255]

/-- Two bytes of ones. -/
def twoBytes : Chunk := bytes header [255, 255]

/-- Two bytes are received before the first one, and once more behind it. The first byte is handed
out, and then the others. -/
theorem hands_out_threeBytes : ∃ this output,
    Reachable (fun _ => true) True this [(1, 2), (0, 1), (1, 2)] output ∧
    output = streamBits (fun _ => true) 0 24 ∧
    this.reorderBuffer.expectedOffset + this.reorderBuffer.getAvailableDataLength =
      8 * coveredPrefix [(1, 2), (0, 1), (1, 2)] := by
  have hbyte : Frame (fun _ => true) byte 0 1 :=
    ⟨trivial, ⟨rfl, rfl, rfl⟩, by decide, by decide, by decide⟩
  have htwo : Frame (fun _ => true) twoBytes 1 2 :=
    ⟨trivial, ⟨rfl, rfl, rfl⟩, by decide, by decide, by decide⟩
  have hplain : ∀ h data, ∀ cell ∈ (bytes h data).cells, cell.counted = false := by
    intro h data cell hcell
    obtain ⟨bit, -, rfl⟩ := List.mem_map.1 hcell
    rfl
  have hnew : Reachable (fun _ => true) True new [] [] := .new
  have hsecond := hnew.push htwo
    (agrees_of_uncounted_lookup (by simp [new, ChunkBuffer.new]) (hplain header _))
    (fun _ => Or.inr ⟨by decide, by simp [new, ChunkBuffer.new]⟩)
    (show (new.push twoBytes 1).run 1 = .ok (⟨⟨⟨[⟨8, twoBytes⟩]⟩, 0⟩, 1, 0⟩, 1) from rfl)
  have hfirst := hsecond.push hbyte
    (agrees_of_uncounted_lookup (List.forall_mem_singleton.2 (hplain header _)) (hplain header _))
    (fun _ => Or.inr ⟨by decide, by decide⟩)
    (show (push _ byte 0).run 1 =
      .ok (⟨⟨⟨[⟨0, bytes ⟨1, false, false, false⟩ [255, 255, 255]⟩]⟩, 0⟩, 2, 0⟩, 2) from rfl)
  have hagain := hfirst.push htwo
    (agrees_of_uncounted_lookup (List.forall_mem_singleton.2 (hplain ⟨1, false, false, false⟩ _))
      (hplain header _))
    (fun _ => Or.inl (Or.inl ⟨_, List.mem_singleton_self _, by decide, by decide⟩))
    (show (push _ twoBytes 1).run 2 =
      .ok (⟨⟨⟨[⟨0, bytes ⟨1, false, false, false⟩ [255, 255, 255]⟩]⟩, 0⟩, 3, 1⟩, 2) from rfl)
  have hpop := hagain.pop zero_le_one
    (show (pop _ 1).run 2 = .ok ((some (bytes ⟨2, false, false, false⟩ [255]), _), _) from rfl)
  have hrest := hpop.pop le_rfl
    (show (pop _ 0).run 5 = .ok ((some (bytes ⟨4, false, false, false⟩ [255, 255]), _), _) from rfl)
  exact ⟨_, _, hrest, hrest.hands_out.1, hrest.hands_out.2.2.1 trivial⟩

end StreamRcvQueue

end Inet.Quic
