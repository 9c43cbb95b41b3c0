import Inet.Quic.Gaps

/-! # What an ACK frame denotes

A frame is decoded in exact arithmetic: a difference that would be negative
denotes nothing. The frames of an accountant that agrees with the received
packets decode to blocks of reported packets outside the gap ranges.
-/

namespace Inet.Quic

namespace AckFrameHeader

/-- The blocks below a block that ends at `smallest`, as pairs of the smallest and the largest
packet. -/
def decodeRanges : ℕ → List AckRange → Option (List (ℕ × ℕ))
  | _, [] => some []
  | smallest, ackRange :: ackRanges =>
    let largest := smallest - ackRange.gap - 2
    if ackRange.gap + 2 ≤ smallest ∧ ackRange.ackRange ≤ largest then
      (decodeRanges (largest - ackRange.ackRange) ackRanges).map
        ((largest - ackRange.ackRange, largest) :: ·)
    else none

/-- The blocks of acknowledged packets, from the largest down. -/
def decode (ackFrame : AckFrameHeader) : Option (List (ℕ × ℕ)) :=
  if ackFrame.firstAckRange ≤ ackFrame.largestAck then
    (decodeRanges (ackFrame.largestAck - ackFrame.firstAckRange) ackFrame.ackRange).map
      ((ackFrame.largestAck - ackFrame.firstAckRange, ackFrame.largestAck) :: ·)
  else none

end AckFrameHeader

open AckFrameHeader

theorem getVariableLengthIntegerSize_mono {i j : ℕ} (h : i ≤ j) :
    getVariableLengthIntegerSize i ≤ getVariableLengthIntegerSize j := by
  unfold getVariableLengthIntegerSize
  grind

namespace ReceivedPacketsAccountant

theorem length_generateAckRanges (smallestAck maxSize : ℕ) (gapRanges : List GapRange)
    (currentSize : ℕ) :
    (generateAckRanges smallestAck maxSize gapRanges currentSize).length ≤ gapRanges.length := by
  induction gapRanges generalizing currentSize with
  | nil => exact le_rfl
  | cons gapRange gapRanges ih =>
    unfold generateAckRanges
    split
    · exact (ih currentSize).trans (Nat.le_succ _)
    · simp only
      split
      · exact Nat.zero_le _
      · exact Nat.succ_le_succ (ih _)

theorem size_generateAckRanges {maxSize currentSize : ℕ} (smallestAck : ℕ)
    (gapRanges : List GapRange)
    (h : currentSize ≤ maxSize) :
    currentSize + ((generateAckRanges smallestAck maxSize gapRanges currentSize).map
      AckRange.size).sum ≤ maxSize := by
  induction gapRanges generalizing currentSize with
  | nil => simpa [generateAckRanges] using h
  | cons gapRange gapRanges ih =>
    unfold generateAckRanges
    split
    · exact ih h
    · simp only
      split
      · simpa using h
      next hfit =>
        rw [List.map_cons, List.sum_cons, ← Nat.add_assoc]
        exact ih (by omega)

/-- Gap ranges from the last one down. -/
structure Descending (smallestAck : ℕ) (gapRanges : List GapRange) : Prop where
  pairwise : gapRanges.Pairwise fun a b => b.lastMissing + 1 < a.firstMissing
  first_le_last : ∀ gapRange ∈ gapRanges, gapRange.firstMissing ≤ gapRange.lastMissing
  last_lt : ∀ gapRange ∈ gapRanges, gapRange.lastMissing + 1 < 2 ^ 64
  above : ∀ gapRange ∈ gapRanges, smallestAck < gapRange.firstMissing ∨
    gapRange.firstMissing = 0 ∧ smallestAck = 0

theorem Descending.tail {smallestAck : ℕ} {gapRange : GapRange} {gapRanges : List GapRange}
    (h : Descending smallestAck (gapRange :: gapRanges)) : Descending smallestAck gapRanges where
  pairwise := (List.pairwise_cons.1 h.pairwise).2
  first_le_last := fun g hg => h.first_le_last g (List.mem_cons_of_mem _ hg)
  last_lt := fun g hg => h.last_lt g (List.mem_cons_of_mem _ hg)
  above := fun g hg => h.above g (List.mem_cons_of_mem _ hg)

/-- The lower end of the block below a gap range. -/
def blockStart (smallestAck : ℕ) : List GapRange → ℕ
  | previousGapRange :: _ => previousGapRange.lastMissing + 1
  | [] => smallestAck

theorem Descending.smallest_le_blockStart {smallestAck : ℕ} {gapRanges : List GapRange}
    (h : Descending smallestAck gapRanges) : smallestAck ≤ blockStart smallestAck gapRanges := by
  cases gapRanges with
  | nil => exact le_rfl
  | cons g gapRanges =>
    have := h.above g List.mem_cons_self
    have := h.first_le_last g List.mem_cons_self
    simp only [blockStart]
    omega

theorem Descending.last_lt_blockStart {smallestAck : ℕ} {gapRanges : List GapRange}
    (h : Descending smallestAck gapRanges) {g : GapRange} (hg : g ∈ gapRanges) :
    g.lastMissing < blockStart smallestAck gapRanges := by
  cases gapRanges with
  | nil => cases hg
  | cons g' gapRanges =>
    simp only [blockStart]
    rcases List.mem_cons.1 hg with rfl | hg
    · omega
    · have := (List.pairwise_cons.1 h.pairwise).1 g hg
      have := h.first_le_last g' List.mem_cons_self
      omega

theorem Descending.blockStart_lt_first {smallestAck : ℕ} {gapRange : GapRange}
    {gapRanges : List GapRange} (h : Descending smallestAck (gapRange :: gapRanges))
    (hpos : gapRange.firstMissing ≠ 0) :
      blockStart smallestAck gapRanges < gapRange.firstMissing := by
  cases gapRanges with
  | nil =>
    have := h.above gapRange List.mem_cons_self
    simp only [blockStart]
    omega
  | cons g gapRanges => exact (List.pairwise_cons.1 h.pairwise).1 g List.mem_cons_self

theorem Descending.eq_nil {smallestAck : ℕ} {gapRange : GapRange} {gapRanges : List GapRange}
    (h : Descending smallestAck (gapRange :: gapRanges)) (h0 : gapRange.firstMissing = 0) :
    gapRanges = [] := by
  cases gapRanges with
  | nil => rfl
  | cons g gapRanges =>
    have := (List.pairwise_cons.1 h.pairwise).1 g List.mem_cons_self
    omega

theorem nextAckRange_eq {smallestAck : ℕ} {gapRange : GapRange} {gapRanges : List GapRange}
    (h : Descending smallestAck (gapRange :: gapRanges)) (hpos : gapRange.firstMissing ≠ 0) :
    nextAckRange smallestAck gapRange gapRanges =
      ⟨gapRange.lastMissing - gapRange.firstMissing,
        gapRange.firstMissing - 1 - blockStart smallestAck gapRanges⟩ := by
  have hle := h.first_le_last gapRange List.mem_cons_self
  have hlt := h.last_lt gapRange List.mem_cons_self
  have hbelow := h.blockStart_lt_first hpos
  have hgap := sub64_of_le hle (by omega)
  have hfirst : sub64 gapRange.firstMissing 1 = gapRange.firstMissing - 1 :=
    sub64_of_le (by omega) (by omega)
  cases gapRanges with
  | nil =>
    simp only [blockStart] at hbelow
    rw [nextAckRange, hgap, hfirst, sub64_of_le (by omega) (by omega), blockStart]
  | cons g gapRanges =>
    have := h.tail.last_lt g List.mem_cons_self
    simp only [blockStart] at hbelow
    rw [nextAckRange, hgap, hfirst, add64_of_lt this, sub64_of_le (by omega) (by omega), blockStart]

theorem decodeRanges_cons {smallestAck : ℕ} {gapRange : GapRange} {gapRanges : List GapRange}
    (h : Descending smallestAck (gapRange :: gapRanges)) (hpos : gapRange.firstMissing ≠ 0)
    (ackRanges : List AckRange) :
    decodeRanges (gapRange.lastMissing + 1)
        (nextAckRange smallestAck gapRange gapRanges :: ackRanges) =
      (decodeRanges (blockStart smallestAck gapRanges) ackRanges).map
        ((blockStart smallestAck gapRanges, gapRange.firstMissing - 1) :: ·) := by
  have hle := h.first_le_last gapRange List.mem_cons_self
  have hbelow := h.blockStart_lt_first hpos
  rw [nextAckRange_eq h hpos, decodeRanges]
  have hlargest : gapRange.lastMissing + 1 - (gapRange.lastMissing - gapRange.firstMissing) - 2 =
      gapRange.firstMissing - 1 := by omega
  have hsmallest : gapRange.firstMissing - 1 -
      (gapRange.firstMissing - 1 - blockStart smallestAck gapRanges) =
        blockStart smallestAck gapRanges := by
    omega
  simp only [hlargest, hsmallest]
  rw [if_pos (by omega)]

theorem Descending.not_mem_block {smallestAck : ℕ} {gapRange : GapRange} {gapRanges : List GapRange}
    (h : Descending smallestAck (gapRange :: gapRanges)) {q : ℕ}
    (hq : blockStart smallestAck gapRanges ≤ q) (hlt : q < gapRange.firstMissing) :
    smallestAck ≤ q ∧ ∀ g ∈ gapRange :: gapRanges, q ∉ g := by
  constructor
  · exact h.tail.smallest_le_blockStart.trans hq
  · intro g hg
    rw [GapRange.mem_iff]
    rcases List.mem_cons.1 hg with rfl | hg
    · omega
    · have := h.tail.last_lt_blockStart hg
      omega

theorem decodeRanges_generateAckRanges {smallestAck : ℕ} {gapRange : GapRange}
    {gapRanges : List GapRange} (h : Descending smallestAck (gapRange :: gapRanges))
    (maxSize currentSize : ℕ) :
    ∃ blocks, decodeRanges (gapRange.lastMissing + 1)
        (generateAckRanges smallestAck maxSize (gapRange :: gapRanges) currentSize) = some blocks ∧
      ∀ block ∈ blocks, ∀ q, block.1 ≤ q → q ≤ block.2 →
        smallestAck ≤ q ∧ q < gapRange.firstMissing ∧ ∀ g ∈ gapRange :: gapRanges, q ∉ g := by
  induction gapRanges generalizing gapRange currentSize with
  | nil =>
    unfold generateAckRanges
    split
    · exact ⟨[], rfl, by simp⟩
    next hpos =>
      simp only
      split
      · exact ⟨[], rfl, by simp⟩
      · refine ⟨_, (decodeRanges_cons h hpos _).trans rfl, ?_⟩
        intro block hb q hq hqle
        obtain rfl := List.mem_singleton.1 hb
        have hlt : q < gapRange.firstMissing := by simp only at hqle; omega
        exact ⟨(h.not_mem_block hq hlt).1, hlt, (h.not_mem_block hq hlt).2⟩
  | cons g gapRanges ih =>
    unfold generateAckRanges
    split
    next h0 => exact absurd (h.eq_nil h0) (by simp)
    next hpos =>
      simp only
      split
      · exact ⟨[], rfl, by simp⟩
      · obtain ⟨blocks, hd, hblocks⟩ := ih h.tail (currentSize +
          (nextAckRange smallestAck gapRange (g :: gapRanges)).size)
        refine ⟨_, (decodeRanges_cons h hpos _).trans (congrArg (Option.map _) hd), ?_⟩
        intro block hb q hq hqle
        rcases List.mem_cons.1 hb with rfl | hb
        · have hlt : q < gapRange.firstMissing := by simp only at hqle; omega
          exact ⟨(h.not_mem_block hq hlt).1, hlt, (h.not_mem_block hq hlt).2⟩
        · obtain ⟨hsmall, hlt, hnot⟩ := hblocks block hb q hq hqle
          have hgg := (List.pairwise_cons.1 h.pairwise).1 g List.mem_cons_self
          have hg := h.first_le_last g (List.mem_cons_of_mem _ List.mem_cons_self)
          refine ⟨hsmall, by omega, List.forall_mem_cons.2 ⟨?_, hnot⟩⟩
          rw [GapRange.mem_iff]
          omega

variable {this : ReceivedPacketsAccountant} {received : List ℕ}

theorem Accounts.descending (h : Accounts this received) :
    Descending this.smallestAck this.gapRanges.reverse where
  pairwise := List.pairwise_reverse.2 h.separated.pairwise
  first_le_last := fun g hg => h.separated.first_le_last g (List.mem_reverse.1 hg)
  last_lt := by
    intro g hg
    have := h.below g (List.mem_reverse.1 hg)
    have := h.largest_lt
    omega
  above := fun g hg => h.above g (List.mem_reverse.1 hg)

/-- The packets that a frame reports: not below the smallest one, and in no gap range. -/
def Reports (this : ReceivedPacketsAccountant) (q : ℕ) : Prop :=
  this.smallestAck ≤ q ∧ q ≤ this.largestAck ∧ ∀ gapRange ∈ this.gapRanges, q ∉ gapRange

theorem Accounts.mem_of_reports (h : Accounts this received) (hne : received ≠ []) {q : ℕ}
    (hq : this.Reports q) : q ∈ received := by
  obtain ⟨hsmall, hlarge, hnot⟩ := hq
  rcases h.received_or_missing q hsmall (by rw [h.expected_eq hne]; omega) with hr | ⟨g, hg, hm⟩
  · exact hr
  · exact absurd hm (hnot g hg)

theorem Accounts.blockStart_le_largest (h : Accounts this received) :
    blockStart this.smallestAck this.gapRanges.reverse ≤ this.largestAck := by
  cases hrev : this.gapRanges.reverse with
  | nil => exact h.smallest_le
  | cons g gapRanges =>
    exact h.below g (List.mem_reverse.1 (by rw [hrev]; exact List.mem_cons_self))

theorem Accounts.firstAckRange_eq (h : Accounts this received) (ackDelayExponent simTime : ℕ) :
    (this.firstAckFrame ackDelayExponent simTime).firstAckRange =
      this.largestAck - blockStart this.smallestAck this.gapRanges.reverse := by
  have hle := h.blockStart_le_largest
  have hlt := h.largest_lt
  rw [firstAckFrame]
  simp only [List.getLast?_eq_head?_reverse]
  cases hrev : this.gapRanges.reverse with
  | nil => exact sub64_of_le h.smallest_le (by omega)
  | cons g gapRanges =>
    rw [hrev, blockStart] at hle
    simp only [List.head?_cons, blockStart]
    rw [sub64_of_le (show g.lastMissing ≤ this.largestAck by omega) (by omega),
      sub64_of_le (by omega) (by omega)]
    omega

theorem Accounts.decode_ackFrame (h : Accounts this received)
    (maxSize ackDelayExponent simTime : ℕ) :
    ∃ blocks, (this.ackFrame maxSize ackDelayExponent simTime).decode = some blocks ∧
      ∀ block ∈ blocks, ∀ q, block.1 ≤ q → q ≤ block.2 → this.Reports q := by
  have hd := h.descending
  have hle := h.blockStart_le_largest
  have hfirst := h.firstAckRange_eq ackDelayExponent simTime
  have hrest : ∃ blocks, decodeRanges (blockStart this.smallestAck this.gapRanges.reverse)
      (generateAckRanges this.smallestAck maxSize this.gapRanges.reverse
        (this.firstAckFrame ackDelayExponent simTime).calcChunkLength) = some blocks ∧
      ∀ block ∈ blocks, ∀ q, block.1 ≤ q → q ≤ block.2 → this.Reports q := by
    cases hrev : this.gapRanges.reverse with
    | nil => exact ⟨[], rfl, by simp⟩
    | cons g gapRanges =>
      rw [hrev] at hd
      obtain ⟨blocks, hdec, hblocks⟩ := decodeRanges_generateAckRanges hd maxSize
        (this.firstAckFrame ackDelayExponent simTime).calcChunkLength
      refine ⟨blocks, hdec, ?_⟩
      intro block hb q hq hqle
      obtain ⟨hsmall, hlt, hnot⟩ := hblocks block hb q hq hqle
      have hg := hd.first_le_last g List.mem_cons_self
      rw [hrev, blockStart] at hle
      refine ⟨hsmall, by omega, fun g' hg' => hnot g' ?_⟩
      rwa [← hrev, List.mem_reverse]
  obtain ⟨blocks, hdec, hblocks⟩ := hrest
  refine ⟨(blockStart this.smallestAck this.gapRanges.reverse, this.largestAck) :: blocks, ?_, ?_⟩
  · have hl : (this.firstAckFrame ackDelayExponent simTime).largestAck = this.largestAck := rfl
    simp only [decode, ackFrame, hfirst, hl]
    rw [if_pos (Nat.sub_le _ _), Nat.sub_sub_self hle, hdec]
    rfl
  · intro block hb q hq hqle
    rcases List.mem_cons.1 hb with rfl | hb
    · refine ⟨hd.smallest_le_blockStart.trans hq, hqle, ?_⟩
      intro g hg
      have := hd.last_lt_blockStart (List.mem_reverse.2 hg)
      rw [GapRange.mem_iff]
      simp only at hq
      omega
    · exact hblocks block hb q hq hqle

theorem generateAckFrame_eq (this : ReceivedPacketsAccountant)
    (maxSize ackDelayExponent simTime : ℕ) :
    this.generateAckFrame maxSize ackDelayExponent simTime =
      .ok (if (this.firstAckFrame ackDelayExponent simTime).calcChunkLength > maxSize then none
        else some (this.ackFrame maxSize ackDelayExponent simTime), this.resetAckInfo) := by
  unfold generateAckFrame
  split
  · rfl
  next hle =>
    have hsize := size_generateAckRanges this.smallestAck this.gapRanges.reverse (not_lt.1 hle)
    have hlen := length_generateAckRanges this.smallestAck maxSize this.gapRanges.reverse
      (this.firstAckFrame ackDelayExponent simTime).calcChunkLength
    rw [List.length_reverse] at hlen
    have hcount := getVariableLengthIntegerSize_mono hlen
    have hfit : (this.ackFrame maxSize ackDelayExponent simTime).calcChunkLength ≤ maxSize := by
      refine le_trans ?_ hsize
      simp only [ackFrame, calcChunkLength, firstAckFrame, List.map_nil, List.sum_nil] at hcount ⊢
      omega
    simp only [assert, hfit, if_true]
    rfl

theorem sameGaps_resetAckInfo (this : ReceivedPacketsAccountant) :
    SameGaps this this.resetAckInfo := ⟨rfl, rfl, rfl, rfl, rfl⟩

theorem Accounts.of_sameGaps {this' : ReceivedPacketsAccountant} (h : Accounts this received)
    (hs : SameGaps this this') : Accounts this' received := by
  obtain ⟨h₁, h₂, h₃, h₄, h₅⟩ := hs
  obtain ⟨a₁, a₂, a₃, a₄, a₅, a₆, a₇, a₈, a₉, a₁₀, a₁₁⟩ := h
  constructor <;> simp only [h₁, h₂, h₃, h₄, h₅] <;> assumption

theorem Accounts.largest_eq_zero_or_mem (h : Accounts this received) :
    this.largestAck = 0 ∨ this.largestAck ∈ received := by
  by_cases hnil : received = []
  · exact Or.inl (h.none_received hnil).1
  · exact Or.inr (h.largest_mem hnil)

/-- No difference that `generateAckFrame` takes is negative. -/
structure NoUnderflow (this : ReceivedPacketsAccountant) : Prop where
  /-- `largestAck - smallestAck` -/
  first_block : this.gapRanges = [] → this.smallestAck ≤ this.largestAck
  /-- `largestAck - gapRanges.back().lastMissing - 1` -/
  first_block_gap : ∀ gapRange ∈ this.gapRanges.getLast?,
    gapRange.lastMissing + 1 ≤ this.largestAck
  /-- `currentGapRange.lastMissing - currentGapRange.firstMissing` -/
  gap : ∀ gapRange ∈ this.gapRanges, gapRange.firstMissing ≤ gapRange.lastMissing
  /-- `(currentGapRange.firstMissing - 1) - (previousGapRange.lastMissing + 1)` -/
  ack_range : this.gapRanges.IsChain fun previous current =>
    1 ≤ current.firstMissing ∧ previous.lastMissing + 1 ≤ current.firstMissing - 1
  /-- `(currentGapRange.firstMissing - 1) - smallestAck` -/
  last_ack_range : ∀ gapRange ∈ this.gapRanges.head?, gapRange.firstMissing ≠ 0 →
    this.smallestAck ≤ gapRange.firstMissing - 1

theorem Accounts.noUnderflow (h : Accounts this received) : NoUnderflow this where
  first_block := fun _ => h.smallest_le
  first_block_gap := fun g hg => h.below g (List.mem_of_getLast? hg)
  gap := h.separated.first_le_last
  ack_range := (h.separated.pairwise.imp fun hlt => by omega).isChain
  last_ack_range := by
    intro g hg hpos
    have := h.above g (List.mem_of_head? hg)
    omega

end ReceivedPacketsAccountant

end Inet.Quic
