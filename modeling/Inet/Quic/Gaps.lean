import Mathlib.Order.Lattice
import Inet.Quic.ReceivedPackets

/-! # The gaps in the received packets

The invariant of the accountant against the packets that were received: the
gap ranges are separated, and every packet that is reported and lies in no gap
range was received. Receiving a packet keeps it, unless the packet is a late
one that needs a gap range below others.
-/

namespace Inet.Quic

namespace GapRange

def Mem (q : ℕ) (gapRange : GapRange) : Prop :=
  gapRange.firstMissing ≤ q ∧ q ≤ gapRange.lastMissing

instance : Membership ℕ GapRange := ⟨fun gapRange q => Mem q gapRange⟩

theorem mem_iff {q : ℕ} {gapRange : GapRange} :
    q ∈ gapRange ↔ gapRange.firstMissing ≤ q ∧ q ≤ gapRange.lastMissing := Iff.rfl

instance (q : ℕ) (gapRange : GapRange) : Decidable (q ∈ gapRange) :=
  decidable_of_iff _ mem_iff.symm

end GapRange

/-- The gap ranges are sorted, and there is a packet between any two. -/
structure Separated (gapRanges : List GapRange) : Prop where
  pairwise : gapRanges.Pairwise fun a b => a.lastMissing + 1 < b.firstMissing
  first_le_last : ∀ gapRange ∈ gapRanges, gapRange.firstMissing ≤ gapRange.lastMissing

namespace Separated

theorem tail {gapRange : GapRange} {gapRanges : List GapRange}
    (h : Separated (gapRange :: gapRanges)) : Separated gapRanges where
  pairwise := (List.pairwise_cons.1 h.pairwise).2
  first_le_last := fun g hg => h.first_le_last g (List.mem_cons_of_mem _ hg)

theorem cons {gapRange : GapRange} {gapRanges : List GapRange} (h : Separated gapRanges)
    (hlt : ∀ g ∈ gapRanges, gapRange.lastMissing + 1 < g.firstMissing)
    (hle : gapRange.firstMissing ≤ gapRange.lastMissing) : Separated (gapRange :: gapRanges) where
  pairwise := List.pairwise_cons.2 ⟨hlt, h.pairwise⟩
  first_le_last := List.forall_mem_cons.2 ⟨hle, h.first_le_last⟩

theorem lt_of_mem_tail {gapRange g : GapRange} {gapRanges : List GapRange}
    (h : Separated (gapRange :: gapRanges)) (hg : g ∈ gapRanges) :
    gapRange.lastMissing + 1 < g.firstMissing := (List.pairwise_cons.1 h.pairwise).1 g hg

theorem append_singleton {gapRange : GapRange} {gapRanges : List GapRange} (h : Separated gapRanges)
    (hlt : ∀ g ∈ gapRanges, g.lastMissing + 1 < gapRange.firstMissing)
    (hle : gapRange.firstMissing ≤ gapRange.lastMissing) :
    Separated (gapRanges ++ [gapRange]) where
  pairwise := by
    rw [List.pairwise_append]
    refine ⟨h.pairwise, List.pairwise_singleton _ _, ?_⟩
    intro a ha b hb
    rw [List.mem_singleton.1 hb]
    exact hlt a ha
  first_le_last := by
    intro g hg
    rcases List.mem_append.1 hg with hg | hg
    · exact h.first_le_last g hg
    · rw [List.mem_singleton.1 hg]
      exact hle

end Separated

namespace ReceivedPacketsAccountant

/-- What filling a gap does to the ranges: the packet is in no range any more, no other packet is
lost from the ranges, and every range is a part of an old one. -/
structure Filled (packetNumber : ℕ) (gapRanges gapRanges' : List GapRange) : Prop where
  separated : Separated gapRanges'
  was_missing : ∃ gapRange ∈ gapRanges, packetNumber ∈ gapRange
  still_missing : ∀ q ≠ packetNumber, (∃ gapRange ∈ gapRanges, q ∈ gapRange) →
    ∃ gapRange ∈ gapRanges', q ∈ gapRange
  part : ∀ gapRange ∈ gapRanges', ∃ old ∈ gapRanges,
    old.firstMissing ≤ gapRange.firstMissing ∧ gapRange.lastMissing ≤ old.lastMissing

theorem fillGap_eq_none {packetNumber : ℕ} {gapRanges : List GapRange}
    (h : fillGap packetNumber gapRanges = none) (hs : Separated gapRanges) :
    ∀ gapRange ∈ gapRanges, packetNumber ∉ gapRange := by
  induction gapRanges with
  | nil => simp
  | cons gapRange gapRanges ih =>
    have hle := hs.first_le_last gapRange List.mem_cons_self
    unfold fillGap at h
    split at h
    · cases h
    split at h
    · cases h
    split at h
    · cases h
    split at h
    · cases h
    rename_i h₁ h₂ h₃ h₄
    rw [Option.map_eq_none_iff] at h
    refine List.forall_mem_cons.2 ⟨?_, ih h hs.tail⟩
    rw [GapRange.mem_iff]
    omega

theorem Filled.of_parts {packetNumber : ℕ} {gapRange : GapRange} {gapRanges : List GapRange}
    (parts : List GapRange) (hs : Separated (gapRange :: gapRanges))
    (hmem : packetNumber ∈ gapRange)
    (hparts : Separated parts)
    (hin : ∀ g ∈ parts, gapRange.firstMissing ≤ g.firstMissing ∧ g.lastMissing ≤
      gapRange.lastMissing)
    (hcover : ∀ q ≠ packetNumber, q ∈ gapRange → ∃ g ∈ parts, q ∈ g) :
    Filled packetNumber (gapRange :: gapRanges) (parts ++ gapRanges) where
  separated := by
    constructor
    · rw [List.pairwise_append]
      refine ⟨hparts.pairwise, hs.tail.pairwise, ?_⟩
      intro a ha b hb
      have := hs.lt_of_mem_tail hb
      have := (hin a ha).2
      omega
    · intro g hg
      rcases List.mem_append.1 hg with hg | hg
      · exact hparts.first_le_last g hg
      · exact hs.tail.first_le_last g hg
  was_missing := ⟨gapRange, List.mem_cons_self, hmem⟩
  still_missing := by
    rintro q hq ⟨g, hg, hqg⟩
    rcases List.mem_cons.1 hg with rfl | hg
    · obtain ⟨part, hpart, hqp⟩ := hcover q hq hqg
      exact ⟨part, List.mem_append_left _ hpart, hqp⟩
    · exact ⟨g, List.mem_append_right _ hg, hqg⟩
  part := by
    intro g hg
    rcases List.mem_append.1 hg with hg | hg
    · exact ⟨gapRange, List.mem_cons_self, hin g hg⟩
    · exact ⟨g, List.mem_cons_of_mem _ hg, le_rfl, le_rfl⟩

theorem Filled.cons {packetNumber : ℕ} {gapRange : GapRange} {gapRanges gapRanges' : List GapRange}
    (hs : Separated (gapRange :: gapRanges)) (h : Filled packetNumber gapRanges gapRanges') :
    Filled packetNumber (gapRange :: gapRanges) (gapRange :: gapRanges') where
  separated := by
    apply h.separated.cons
    · intro g hg
      obtain ⟨old, hold, hle, -⟩ := h.part g hg
      have := hs.lt_of_mem_tail hold
      omega
    · exact hs.first_le_last gapRange List.mem_cons_self
  was_missing := by
    obtain ⟨g, hg, hmem⟩ := h.was_missing
    exact ⟨g, List.mem_cons_of_mem _ hg, hmem⟩
  still_missing := by
    rintro q hq ⟨g, hg, hqg⟩
    rcases List.mem_cons.1 hg with rfl | hg
    · exact ⟨g, List.mem_cons_self, hqg⟩
    · obtain ⟨g', hg', hqg'⟩ := h.still_missing q hq ⟨g, hg, hqg⟩
      exact ⟨g', List.mem_cons_of_mem _ hg', hqg'⟩
  part := by
    intro g hg
    rcases List.mem_cons.1 hg with rfl | hg
    · exact ⟨g, List.mem_cons_self, le_rfl, le_rfl⟩
    · obtain ⟨old, hold, hle⟩ := h.part g hg
      exact ⟨old, List.mem_cons_of_mem _ hold, hle⟩

theorem Separated.nil : Separated [] := ⟨List.Pairwise.nil, by simp⟩

theorem Separated.singleton {gapRange : GapRange}
    (h : gapRange.firstMissing ≤ gapRange.lastMissing) : Separated [gapRange] :=
  Separated.nil.cons (by simp) h

theorem fillGap_eq_some {packetNumber : ℕ} (hp : packetNumber + 1 < 2 ^ 64)
    {gapRanges gapRanges' : List GapRange} (h : fillGap packetNumber gapRanges = some gapRanges')
    (hs : Separated gapRanges) : Filled packetNumber gapRanges gapRanges' := by
  induction gapRanges generalizing gapRanges' with
  | nil => cases h
  | cons gapRange gapRanges ih =>
    have hle := hs.first_le_last gapRange List.mem_cons_self
    unfold fillGap at h
    rw [add64_of_lt hp] at h
    split at h
    next h₁ =>
      cases h
      apply Filled.of_parts [] hs _ Separated.nil
      · simp
      · simp only [GapRange.mem_iff]
        omega
      · rw [GapRange.mem_iff]
        omega
    split at h
    next h₁ h₂ =>
      cases h
      apply Filled.of_parts [_] hs
      · rw [GapRange.mem_iff]
        omega
      · exact Separated.singleton (by simp only; omega)
      · simp; omega
      · simp [GapRange.mem_iff]; omega
    split at h
    next h₁ h₂ h₃ =>
      cases h
      rw [sub64_of_le (by omega) (by omega)]
      apply Filled.of_parts [_] hs
      · rw [GapRange.mem_iff]
        omega
      · exact Separated.singleton (by simp only; omega)
      · simp; omega
      · simp [GapRange.mem_iff]; omega
    split at h
    next h₁ h₂ h₃ h₄ =>
      cases h
      rw [sub64_of_le (by omega) (by omega)]
      apply Filled.of_parts [_, _] hs
      · rw [GapRange.mem_iff]
        omega
      · apply (Separated.singleton _).cons
        · simp; omega
        · simp only; omega
        · simp only; omega
      · simp; omega
      · simp [GapRange.mem_iff]; omega
    next =>
      obtain ⟨rest, hrest, rfl⟩ := Option.map_eq_some_iff.1 h
      exact (ih hrest hs.tail).cons hs

/-- The accountant agrees with the packets that were received. -/
structure Accounts (this : ReceivedPacketsAccountant) (received : List ℕ) : Prop where
  packetCounter_eq : this.packetCounter = received.length
  none_received : received = [] → this.largestAck = 0 ∧ this.smallestAck = 0 ∧
    this.expectedPacketNumber = 0 ∧ this.gapRanges = []
  expected_eq : received ≠ [] → this.expectedPacketNumber = this.largestAck + 1
  largest_mem : received ≠ [] → this.largestAck ∈ received
  le_largest : ∀ q ∈ received, q ≤ this.largestAck
  largest_lt : this.largestAck + 1 < 2 ^ 64
  smallest_le : this.smallestAck ≤ this.largestAck
  separated : Separated this.gapRanges
  above : ∀ gapRange ∈ this.gapRanges, this.smallestAck < gapRange.firstMissing ∨
    gapRange.firstMissing = 0 ∧ this.smallestAck = 0
  below : ∀ gapRange ∈ this.gapRanges, gapRange.lastMissing < this.largestAck
  received_or_missing : ∀ q, this.smallestAck ≤ q → q < this.expectedPacketNumber →
    q ∈ received ∨ ∃ gapRange ∈ this.gapRanges, q ∈ gapRange

/-- A packet that `onPacketReceived` accounts for: it is below the largest `uint64_t`, and if it is
a late packet that needs a gap range of its own, there is no other gap range. -/
def Placeable (this : ReceivedPacketsAccountant) (packetNumber : ℕ) : Prop :=
  packetNumber + 1 < 2 ^ 64 ∧
    (packetNumber + 1 < this.smallestAck → (∀ gapRange ∈ this.gapRanges, packetNumber ∉ gapRange) →
      this.gapRanges = [])

/-- The fields that the gap ranges depend on. -/
structure SameGaps (this this' : ReceivedPacketsAccountant) : Prop where
  packetCounter_eq : this'.packetCounter = this.packetCounter
  largestAck_eq : this'.largestAck = this.largestAck
  smallestAck_eq : this'.smallestAck = this.smallestAck
  expectedPacketNumber_eq : this'.expectedPacketNumber = this.expectedPacketNumber
  gapRanges_eq : this'.gapRanges = this.gapRanges

theorem sameGaps_onAckElicitingReceived (this : ReceivedPacketsAccountant)
    (packetReceivedOutOfOrder isIBitSet : Bool) (lastReceivedAckEliciting : ℕ) :
    SameGaps this (this.onAckElicitingReceived packetReceivedOutOfOrder isIBitSet
      lastReceivedAckEliciting) := by
  unfold onAckElicitingReceived
  cases this.ackDelayTimer with
  | none => constructor <;> rfl
  | some isScheduled =>
    simp only
    split <;> constructor <;> rfl

theorem SameGaps.trans {a b c : ReceivedPacketsAccountant} (h : SameGaps a b) (h' : SameGaps b c) :
    SameGaps a c where
  packetCounter_eq := h'.packetCounter_eq.trans h.packetCounter_eq
  largestAck_eq := h'.largestAck_eq.trans h.largestAck_eq
  smallestAck_eq := h'.smallestAck_eq.trans h.smallestAck_eq
  expectedPacketNumber_eq := h'.expectedPacketNumber_eq.trans h.expectedPacketNumber_eq
  gapRanges_eq := h'.gapRanges_eq.trans h.gapRanges_eq

theorem sameGaps_updateLargestAck (this : ReceivedPacketsAccountant) (packetNumber simTime : ℕ) :
    SameGaps { this with largestAck := max this.largestAck packetNumber }
      (this.updateLargestAck packetNumber simTime) := by
  unfold updateLargestAck
  split
  next h =>
    constructor <;> try rfl
    simp only
    omega
  next h =>
    constructor <;> try rfl
    simp only
    omega

theorem sameGaps_noteReceived (this : ReceivedPacketsAccountant) (packetNumber : ℕ)
    (ackEliciting isIBitSet : Bool) (lastReceivedAckEliciting simTime : ℕ) :
    SameGaps { this.countPacket with largestAck := max this.largestAck packetNumber }
      (this.noteReceived packetNumber ackEliciting isIBitSet lastReceivedAckEliciting simTime) := by
  apply (sameGaps_updateLargestAck this.countPacket packetNumber simTime).trans
  unfold noteReceived
  simp only
  split
  · refine SameGaps.trans ?_ (sameGaps_onAckElicitingReceived _ _ _ _)
    constructor <;> rfl
  · constructor <;> rfl

/-- The state of the gap ranges between the two parts of `onPacketReceived`. -/
structure Noted (this noted : ReceivedPacketsAccountant) (received : List ℕ) (packetNumber : ℕ) :
    Prop where
  packetCounter_eq : noted.packetCounter = received.length + 1
  largestAck_eq : noted.largestAck = max this.largestAck packetNumber
  smallestAck_eq : noted.smallestAck = this.smallestAck
  expectedPacketNumber_eq : noted.expectedPacketNumber = this.expectedPacketNumber
  gapRanges_eq : noted.gapRanges = this.gapRanges

theorem Accounts.noted {this : ReceivedPacketsAccountant} {received : List ℕ}
    (h : Accounts this received) (packetNumber : ℕ) (ackEliciting isIBitSet : Bool)
    (lastReceivedAckEliciting simTime : ℕ) :
    Noted this (this.noteReceived packetNumber ackEliciting isIBitSet lastReceivedAckEliciting
      simTime) received packetNumber := by
  have hs := sameGaps_noteReceived this packetNumber ackEliciting isIBitSet lastReceivedAckEliciting
    simTime
  constructor
  · rw [hs.packetCounter_eq, ← h.packetCounter_eq]
    rfl
  · exact hs.largestAck_eq
  · exact hs.smallestAck_eq
  · rw [hs.expectedPacketNumber_eq]
    simp only [countPacket]
    split
    next h0 =>
      have hnil : received = [] := by
        rw [← List.length_eq_zero_iff, ← h.packetCounter_eq]
        omega
      exact (h.none_received hnil).2.2.1.symm
    next => rfl
  · exact hs.gapRanges_eq

variable {this noted : ReceivedPacketsAccountant} {received : List ℕ} {packetNumber : ℕ}

theorem Accounts.largest_le_of_expected_le (h : Accounts this received)
    (hp : this.expectedPacketNumber ≤ packetNumber) : this.largestAck ≤ packetNumber := by
  by_cases hnil : received = []
  · have := (h.none_received hnil).1
    omega
  · have := h.expected_eq hnil
    omega

theorem Accounts.last_add_one_lt (h : Accounts this received) {gapRange : GapRange}
    (hg : gapRange ∈ this.gapRanges) : gapRange.lastMissing + 1 < this.expectedPacketNumber := by
  have hne : received ≠ [] := by
    intro hnil
    rw [(h.none_received hnil).2.2.2] at hg
    cases hg
  have := h.below gapRange hg
  have := h.expected_eq hne
  omega

theorem Accounts.smallest_le_expected (h : Accounts this received) :
    this.smallestAck ≤ this.expectedPacketNumber := by
  by_cases hnil : received = []
  · obtain ⟨-, h₁, h₂, -⟩ := h.none_received hnil
    omega
  · have := h.expected_eq hnil
    have := h.smallest_le
    omega

/-- The gap range in front of a packet above the expected one. -/
def skipped (expectedPacketNumber packetNumber : ℕ) : List GapRange :=
  if expectedPacketNumber < packetNumber then [⟨expectedPacketNumber, packetNumber - 1⟩] else []

theorem mem_skipped {gapRange : GapRange} {expectedPacketNumber : ℕ}
    (h : gapRange ∈ skipped expectedPacketNumber packetNumber) :
    expectedPacketNumber < packetNumber ∧
      gapRange = ⟨expectedPacketNumber, packetNumber - 1⟩ := by
  unfold skipped at h
  split at h
  next hlt => exact ⟨hlt, List.mem_singleton.1 h⟩
  next => cases h

theorem Accounts.onAhead (h : Accounts this received) (hn : Noted this noted received packetNumber)
    (hp : packetNumber + 1 < 2 ^ 64) (he : this.expectedPacketNumber ≤ packetNumber) :
    Accounts { noted with
      expectedPacketNumber := packetNumber + 1
      gapRanges := this.gapRanges ++ skipped this.expectedPacketNumber packetNumber }
      (packetNumber :: received) := by
  have hmax := h.largest_le_of_expected_le he
  have hl : noted.largestAck = packetNumber := hn.largestAck_eq.trans (Nat.max_eq_right hmax)
  constructor
  · simp [hn.packetCounter_eq]
  · simp
  · simp [hl]
  · simp [hl]
  · intro q hq
    simp only [hl]
    rcases List.mem_cons.1 hq with rfl | hq
    · exact le_rfl
    · exact (h.le_largest q hq).trans hmax
  · simpa [hl] using hp
  · simp only [hl, hn.smallestAck_eq]
    exact h.smallest_le.trans hmax
  · unfold skipped
    split
    next hlt =>
      apply h.separated.append_singleton
      · exact fun g hg => h.last_add_one_lt hg
      · simp only
        omega
    next => simpa using h.separated
  · intro g hg
    simp only [hn.smallestAck_eq]
    rcases List.mem_append.1 hg with hg | hg
    · exact h.above g hg
    · obtain ⟨-, rfl⟩ := mem_skipped hg
      by_cases hnil : received = []
      · obtain ⟨-, h₁, h₂, -⟩ := h.none_received hnil
        exact Or.inr ⟨h₂, h₁⟩
      · have := h.expected_eq hnil
        have := h.smallest_le
        exact Or.inl (by simp only; omega)
  · intro g hg
    simp only [hl]
    rcases List.mem_append.1 hg with hg | hg
    · exact (h.below g hg).trans_le hmax
    · obtain ⟨hlt, rfl⟩ := mem_skipped hg
      simp only
      omega
  · intro q hq hlt
    simp only [hn.smallestAck_eq] at hq hlt ⊢
    rcases Nat.lt_trichotomy q packetNumber with hqp | rfl | hqp
    · rcases Nat.lt_or_ge q this.expectedPacketNumber with hqe | hqe
      · rcases h.received_or_missing q hq hqe with hr | ⟨g, hg, hqg⟩
        · exact Or.inl (List.mem_cons_of_mem _ hr)
        · exact Or.inr ⟨g, List.mem_append_left _ hg, hqg⟩
      · refine Or.inr ⟨⟨this.expectedPacketNumber, packetNumber - 1⟩,
          List.mem_append_right _ ?_, ?_⟩
        · rw [skipped, if_pos (by omega)]
          exact List.mem_singleton_self _
        · rw [GapRange.mem_iff]
          simp only
          omega
    · exact Or.inl List.mem_cons_self
    · omega

theorem Accounts.onBehind (h : Accounts this received) (hn : Noted this noted received packetNumber)
    (he : packetNumber < this.expectedPacketNumber) {smallestAck : ℕ} {gapRanges : List GapRange}
    (hle : smallestAck ≤ this.smallestAck) (hs : Separated gapRanges)
    (habove : ∀ gapRange ∈ gapRanges, smallestAck < gapRange.firstMissing ∨
      gapRange.firstMissing = 0 ∧ smallestAck = 0)
    (hbelow : ∀ gapRange ∈ gapRanges, gapRange.lastMissing < this.largestAck)
    (hcover : ∀ q, smallestAck ≤ q → q < this.expectedPacketNumber → q ≠ packetNumber →
      q ∈ received ∨ ∃ gapRange ∈ gapRanges, q ∈ gapRange) :
    Accounts { noted with smallestAck := smallestAck, gapRanges := gapRanges }
      (packetNumber :: received) := by
  have hne : received ≠ [] := by
    intro hnil
    have := (h.none_received hnil).2.2.1
    omega
  have hexp := h.expected_eq hne
  have hl : noted.largestAck = this.largestAck :=
    hn.largestAck_eq.trans (Nat.max_eq_left (by omega))
  constructor
  · simp [hn.packetCounter_eq]
  · simp
  · simp [hl, hn.expectedPacketNumber_eq, hexp]
  · simp only [hl]
    exact fun _ => List.mem_cons_of_mem _ (h.largest_mem hne)
  · intro q hq
    simp only [hl]
    rcases List.mem_cons.1 hq with rfl | hq
    · omega
    · exact h.le_largest q hq
  · simpa only [hl] using h.largest_lt
  · simp only [hl]
    exact hle.trans h.smallest_le
  · exact hs
  · exact habove
  · simpa only [hl] using hbelow
  · intro q hq hlt
    simp only [hn.expectedPacketNumber_eq] at hq hlt ⊢
    by_cases hqp : q = packetNumber
    · exact Or.inl (by simp [hqp])
    · rcases hcover q hq hlt hqp with hr | hm
      · exact Or.inl (List.mem_cons_of_mem _ hr)
      · exact Or.inr hm

theorem onLoss_eq (h : Accounts this received) (hn : Noted this noted received packetNumber)
    (hp : packetNumber + 1 < 2 ^ 64) (he : this.expectedPacketNumber < packetNumber) :
    noted.onLoss packetNumber = { noted with
      expectedPacketNumber := packetNumber + 1
      gapRanges := this.gapRanges ++ skipped this.expectedPacketNumber packetNumber } := by
  rw [onLoss, hn.gapRanges_eq, hn.expectedPacketNumber_eq, add64_of_lt hp,
    sub64_of_le (by omega) (by omega), skipped, if_pos he]
  cases hlast : this.gapRanges.getLast? with
  | none => rfl
  | some g =>
    have := h.last_add_one_lt (List.mem_of_getLast? hlast)
    -- the difference is taken modulo `2 ^ 64`, and is never one
    have hne : sub64 g.lastMissing packetNumber ≠ 1 := by
      unfold sub64
      omega
    simp only [hne, if_false]

theorem Accounts.onFilled (h : Accounts this received)
    (hn : Noted this noted received packetNumber) (he : packetNumber < this.expectedPacketNumber)
    {gapRanges : List GapRange} (hf : Filled packetNumber this.gapRanges gapRanges) :
    Accounts { noted with gapRanges := gapRanges } (packetNumber :: received) := by
  rw [← show ({ noted with smallestAck := this.smallestAck, gapRanges := gapRanges } :
    ReceivedPacketsAccountant) = { noted with gapRanges := gapRanges } by rw [← hn.smallestAck_eq]]
  apply h.onBehind hn he le_rfl hf.separated
  · intro g hg
    obtain ⟨old, hold, hfirst, -⟩ := hf.part g hg
    have := h.above old hold
    omega
  · intro g hg
    obtain ⟨old, hold, -, hlast⟩ := hf.part g hg
    exact hlast.trans_lt (h.below old hold)
  · intro q hq hlt hqp
    rcases h.received_or_missing q hq hlt with hr | hm
    · exact Or.inl hr
    · exact Or.inr (hf.still_missing q hqp hm)

theorem Accounts.onLate (h : Accounts this received) (hn : Noted this noted received packetNumber)
    (hp : Placeable this packetNumber)
    (hmiss : ∀ gapRange ∈ this.gapRanges, packetNumber ∉ gapRange)
    (hlt : packetNumber < this.smallestAck) :
    Accounts (noted.onLate packetNumber) (packetNumber :: received) := by
  have he : packetNumber < this.expectedPacketNumber := hlt.trans_le h.smallest_le_expected
  have hfirst : ∀ gapRange ∈ this.gapRanges, this.smallestAck < gapRange.firstMissing := by
    intro g hg
    have := h.above g hg
    omega
  unfold ReceivedPacketsAccountant.onLate
  rw [hn.smallestAck_eq, add64_of_lt hp.1, hn.gapRanges_eq]
  split
  next hne =>
    rw [hp.2 (by omega) hmiss, sub64_of_le (by omega) (by
      have := h.smallest_le
      have := h.largest_lt
      omega)]
    have hnil := hp.2 (by omega) hmiss
    apply h.onBehind hn he hlt.le
    · exact Separated.singleton (by simp only; omega)
    · simp
    · have := h.smallest_le
      simp
      omega
    · intro q hq hqe hqp
      rcases Nat.lt_or_ge q this.smallestAck with hqs | hqs
      · exact Or.inr ⟨_, List.mem_singleton_self _, by rw [GapRange.mem_iff]; simp only; omega⟩
      · have := h.received_or_missing q hqs hqe
        exact Or.inl (by simpa [hnil] using this)
  next heq =>
    apply h.onBehind hn he hlt.le h.separated _ h.below
    · intro q hq hqe hqp
      exact h.received_or_missing q (by omega) hqe
    · intro g hg
      exact Or.inl (hlt.trans (hfirst g hg))

theorem Accounts.exists_onPacketReceived (h : Accounts this received)
    (hnew : packetNumber ∉ received) (hp : Placeable this packetNumber)
    (ackEliciting isIBitSet : Bool) (lastReceivedAckEliciting simTime : ℕ) :
    ∃ this', this.onPacketReceived packetNumber ackEliciting isIBitSet lastReceivedAckEliciting
      simTime = .ok this' ∧ Accounts this' (packetNumber :: received) := by
  have hn := h.noted packetNumber ackEliciting isIBitSet lastReceivedAckEliciting simTime
  rw [onPacketReceived, accountGaps]
  generalize this.noteReceived packetNumber ackEliciting isIBitSet lastReceivedAckEliciting
    simTime = noted at hn ⊢
  have hexp := hn.expectedPacketNumber_eq
  split
  next he =>
    rw [hexp] at he
    refine ⟨_, rfl, ?_⟩
    have := h.onAhead hn hp.1 he.ge
    rwa [skipped, if_neg (by omega), List.append_nil, ← hn.gapRanges_eq, ← add64_of_lt hp.1] at this
  split
  next he hlt =>
    rw [hexp] at hlt
    refine ⟨_, rfl, ?_⟩
    rw [onLoss_eq h hn hp.1 hlt]
    exact h.onAhead hn hp.1 hlt.le
  next he hlt =>
    have hlt : packetNumber < this.expectedPacketNumber := by omega
    have hgaps := hn.gapRanges_eq
    cases hf : fillGap packetNumber noted.gapRanges with
    | some gapRanges =>
      rw [hgaps] at hf
      exact ⟨_, rfl, h.onFilled hn hlt (fillGap_eq_some hp.1 hf h.separated)⟩
    | none =>
      rw [hgaps] at hf
      have hmiss := fillGap_eq_none hf h.separated
      have hsmall : packetNumber < this.smallestAck := by
        by_contra hge
        rcases h.received_or_missing packetNumber (by omega) hlt with hr | ⟨g, hg, hm⟩
        · exact hnew hr
        · exact hmiss g hg hm
      simp only [hn.smallestAck_eq, hsmall, if_true]
      exact ⟨_, rfl, h.onLate hn hp hmiss hsmall⟩

/-- An acked ACK frame after which the older gap ranges can be forgotten: none of them goes on above
the largest packet of the frame. -/
def Forgettable (this : ReceivedPacketsAccountant) (ackFrame : AckFrameHeader) : Prop :=
  this.smallestAck < ackFrame.largestAck → ∀ gapRange ∈ this.gapRanges,
    gapRange.firstMissing ≤ ackFrame.largestAck → gapRange.lastMissing ≤ ackFrame.largestAck

theorem lt_of_mem_dropWhile {gapRanges : List GapRange} (h : Separated gapRanges) {smallestAck : ℕ}
    {gapRange : GapRange}
    (hg : gapRange ∈ gapRanges.dropWhile fun g => g.firstMissing ≤ smallestAck) :
    smallestAck < gapRange.firstMissing := by
  induction gapRanges with
  | nil => cases hg
  | cons g gapRanges ih =>
    by_cases hle : g.firstMissing ≤ smallestAck
    · rw [List.dropWhile_cons_of_pos (by simpa using hle)] at hg
      exact ih h.tail hg
    · rw [List.dropWhile_cons_of_neg (by simpa using hle)] at hg
      have hfirst := h.first_le_last g List.mem_cons_self
      rcases List.mem_cons.1 hg with rfl | hg
      · omega
      · have := h.lt_of_mem_tail hg
        omega

theorem mem_dropWhile_of_lt {gapRanges : List GapRange} {smallestAck : ℕ} {gapRange : GapRange}
    (hg : gapRange ∈ gapRanges) (hlt : smallestAck < gapRange.firstMissing) :
    gapRange ∈ gapRanges.dropWhile fun g => g.firstMissing ≤ smallestAck := by
  induction gapRanges with
  | nil => cases hg
  | cons g gapRanges ih =>
    by_cases hle : g.firstMissing ≤ smallestAck
    · rw [List.dropWhile_cons_of_pos (by simpa using hle)]
      rcases List.mem_cons.1 hg with rfl | hg
      · omega
      · exact ih hg
    · rwa [List.dropWhile_cons_of_neg (by simpa using hle)]

theorem Accounts.onPacketAcked (h : Accounts this received) {ackFrame : Option AckFrameHeader}
    (hf : ∀ frame ∈ ackFrame, (frame.largestAck = 0 ∨ frame.largestAck ∈ received) ∧
      Forgettable this frame) : Accounts (this.onPacketAcked ackFrame) received := by
  unfold ReceivedPacketsAccountant.onPacketAcked
  cases ackFrame with
  | none => exact h
  | some frame =>
    simp only
    split
    next hlt =>
      obtain ⟨hmem, hforget⟩ := hf frame rfl
      have hmem : frame.largestAck ∈ received := hmem.resolve_left (by omega)
      have hne : received ≠ [] := List.ne_nil_of_mem hmem
      have hsub : ∀ g ∈ this.gapRanges.dropWhile fun g => g.firstMissing ≤ frame.largestAck,
          g ∈ this.gapRanges := fun g hg => (List.dropWhile_suffix _).subset hg
      unfold removeOldGapRanges
      constructor
      · exact h.packetCounter_eq
      · exact fun hnil => absurd hnil hne
      · exact h.expected_eq
      · exact h.largest_mem
      · exact h.le_largest
      · exact h.largest_lt
      · exact h.le_largest _ hmem
      · exact ⟨h.separated.pairwise.sublist (List.dropWhile_sublist _),
          fun g hg => h.separated.first_le_last g (hsub g hg)⟩
      · exact fun g hg => Or.inl (lt_of_mem_dropWhile h.separated hg)
      · exact fun g hg => h.below g (hsub g hg)
      · intro q hq hqe
        rcases h.received_or_missing q (le_trans hlt.le hq) hqe with hr | ⟨g, hg, hqg⟩
        · exact Or.inl hr
        · rcases Nat.lt_or_ge frame.largestAck g.firstMissing with hlt' | hge
          · exact Or.inr ⟨g, mem_dropWhile_of_lt hg hlt', hqg⟩
          · -- the range is forgotten, but has no packet above the smallest one
            have hlast := hforget hlt g hg hge
            obtain rfl : q = frame.largestAck := le_antisymm (hqg.2.trans hlast) hq
            exact Or.inl hmem
    next => exact h

end ReceivedPacketsAccountant

end Inet.Quic
