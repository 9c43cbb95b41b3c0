import Inet.Quic.AckRun

/-! # Repeated packet numbers

`onPacketReceived` has no branch for a number that was received before. Such a
number is left alone only where a later branch happens to change nothing.
-/

namespace Inet.Quic

open ReceivedPacketsAccountant

/-- The packet number is an end of the gap range, or lies between the ends. -/
def GapRange.Hit (gapRange : GapRange) (packetNumber : ℕ) : Prop :=
  packetNumber = gapRange.firstMissing ∨ packetNumber = gapRange.lastMissing ∨
    packetNumber > gapRange.firstMissing ∧ packetNumber < gapRange.lastMissing

instance (gapRange : GapRange) (packetNumber : ℕ) : Decidable (gapRange.Hit packetNumber) :=
  inferInstanceAs (Decidable (_ ∨ _ ∨ _))

variable {packetNumber : ℕ} {gapRanges gapRanges' : List GapRange}

theorem fillGap_eq_none_iff :
    fillGap packetNumber gapRanges = none ↔ ∀ gapRange ∈ gapRanges,
      ¬ gapRange.Hit packetNumber := by
  induction gapRanges with
  | nil => simp [fillGap]
  | cons gapRange gapRanges ih =>
    rw [fillGap, List.forall_mem_cons, ← ih]
    unfold GapRange.Hit
    split_ifs with hboth hfirst hlast hinside
    · simp [hboth.1]
    · simp [hfirst]
    · simp [hlast]
    · simp [hinside]
    · simp [hfirst, hlast, hinside]

theorem add64_one_ne (_ : packetNumber < 2 ^ 64) : add64 packetNumber 1 ≠ packetNumber := by
  unfold add64
  omega

theorem sub64_one_ne (_ : packetNumber < 2 ^ 64) : sub64 packetNumber 1 ≠ packetNumber := by
  unfold sub64
  omega

theorem fillGap_ne (hp : packetNumber < 2 ^ 64)
    (h : fillGap packetNumber gapRanges = some gapRanges') : gapRanges' ≠ gapRanges := by
  induction gapRanges generalizing gapRanges' with
  | nil => cases h
  | cons gapRange gapRanges ih =>
    rw [fillGap] at h
    split_ifs at h with hboth hfirst hlast hinside
    · cases h
      exact fun heq => absurd (congrArg List.length heq) (by simp)
    · cases h
      intro heq
      have hend := congrArg GapRange.firstMissing (List.cons.inj heq).1
      exact add64_one_ne hp (hend.trans hfirst.symm)
    · cases h
      intro heq
      have hend := congrArg GapRange.lastMissing (List.cons.inj heq).1
      exact sub64_one_ne hp (hend.trans hlast.symm)
    · cases h
      exact fun heq => absurd (congrArg List.length heq) (by simp)
    · obtain ⟨rest, hrest, rfl⟩ := Option.map_eq_some_iff.1 h
      exact fun heq => ih hrest (List.cons.inj heq).2

namespace AckSystem

/-- What can happen to an endpoint, with repeated packet numbers. -/
def Possible (sys : AckSystem) : AckEvent → Prop
  | .packetReceived packetNumber _ _ _ _ => packetNumber < 2 ^ 64
  | .frameGenerated _ _ _ => True
  | .packetAcked ackFrame => ∀ frame ∈ ackFrame, frame ∈ sys.frames

/-- The states of all runs. -/
inductive Occurs : AckSystem → Prop where
  | init (numReceivedAckElicitingsBeforeAck : ℕ) (useIBit : Bool) (ackDelayTimer : Option Bool) :
      Occurs ⟨{ numReceivedAckElicitingsBeforeAck, useIBit, ackDelayTimer }, [], []⟩
  | step {sys sys' : AckSystem} (h : Occurs sys) (event : AckEvent) (hp : sys.Possible event)
      (hs : sys.step event = .ok sys') : Occurs sys'

/-- The call returns, and a repeated number leaves the gap ranges and the largest number. -/
def Tolerates (sys : AckSystem) (packetNumber : ℕ) (ackEliciting isIBitSet : Bool)
    (lastReceivedAckEliciting simTime : ℕ) : Prop :=
  ∃ accountant, sys.accountant.onPacketReceived packetNumber ackEliciting isIBitSet
    lastReceivedAckEliciting simTime = .ok accountant ∧
      (packetNumber ∈ sys.received → accountant.gapRanges = sys.accountant.gapRanges ∧
        accountant.largestAck = sys.accountant.largestAck)

/-- A new number that is not below the expected one, below all that are reported, or in a gap. A
repeated one that hits no gap and is just below the reported ones. When the largest possible
number has been received, the expected one is 0 again: then also the repeated numbers that are
expected, or that follow the last gap. -/
def Tolerable (sys : AckSystem) (packetNumber : ℕ) : Prop :=
  if packetNumber ∈ sys.received then
    packetNumber = sys.accountant.expectedPacketNumber ∨
    packetNumber > sys.accountant.expectedPacketNumber ∧
      (∃ gapRange ∈ sys.accountant.gapRanges.getLast?, sub64 gapRange.lastMissing packetNumber =
        1) ∨
    packetNumber < sys.accountant.expectedPacketNumber ∧
      (∀ gapRange ∈ sys.accountant.gapRanges, ¬ gapRange.Hit packetNumber) ∧
      packetNumber < sys.accountant.smallestAck ∧ add64 packetNumber 1 = sys.accountant.smallestAck
  else
    packetNumber ≥ sys.accountant.expectedPacketNumber ∨
    packetNumber < sys.accountant.smallestAck ∨
    ∃ gapRange ∈ sys.accountant.gapRanges, gapRange.Hit packetNumber

theorem tolerable_iff_of_new {sys : AckSystem} (hnew : packetNumber ∉ sys.received) :
    sys.Tolerable packetNumber ↔
      packetNumber ≥ sys.accountant.expectedPacketNumber ∨
      packetNumber < sys.accountant.smallestAck ∨
      ∃ gapRange ∈ sys.accountant.gapRanges, gapRange.Hit packetNumber := by
  rw [Tolerable, if_neg hnew]

/-- What is known of the numbers received so far. -/
structure Counts (sys : AckSystem) : Prop where
  packetCounter_eq : sys.accountant.packetCounter = sys.received.length
  expected_eq : sys.received = [] → sys.accountant.expectedPacketNumber = 0
  le_largestAck : ∀ q ∈ sys.received, q ≤ sys.accountant.largestAck

theorem Counts.noteReceived {sys : AckSystem} (h : Counts sys) (packetNumber : ℕ)
    (ackEliciting isIBitSet : Bool) (lastReceivedAckEliciting simTime : ℕ) :
    let noted := sys.accountant.noteReceived packetNumber ackEliciting isIBitSet
      lastReceivedAckEliciting simTime
    noted.packetCounter = sys.received.length + 1 ∧
      noted.largestAck = max sys.accountant.largestAck packetNumber ∧
      noted.smallestAck = sys.accountant.smallestAck ∧
      noted.expectedPacketNumber = sys.accountant.expectedPacketNumber ∧
      noted.gapRanges = sys.accountant.gapRanges := by
  have hs := sameGaps_noteReceived sys.accountant packetNumber ackEliciting isIBitSet
    lastReceivedAckEliciting simTime
  refine ⟨?_, hs.largestAck_eq, hs.smallestAck_eq, ?_, hs.gapRanges_eq⟩
  · rw [hs.packetCounter_eq, ← h.packetCounter_eq]
    rfl
  · rw [hs.expectedPacketNumber_eq]
    change (if sys.accountant.packetCounter + 1 = 1 then 0 else _) = _
    split_ifs with hfirst
    · have hnil : sys.received = [] := by
        rw [← List.length_eq_zero_iff, ← h.packetCounter_eq]
        omega
      exact (h.expected_eq hnil).symm
    · rfl

variable {this this' : ReceivedPacketsAccountant}

/-- The fields that do not depend on the gap ranges. -/
def SameCount (this this' : ReceivedPacketsAccountant) : Prop :=
  this'.largestAck = this.largestAck ∧ this'.packetCounter = this.packetCounter

theorem sameCount_onLoss (this : ReceivedPacketsAccountant) (packetNumber : ℕ) :
    SameCount this (this.onLoss packetNumber) := by
  unfold onLoss
  split
  · split <;> exact ⟨rfl, rfl⟩
  · exact ⟨rfl, rfl⟩

theorem sameCount_onLate (this : ReceivedPacketsAccountant) (packetNumber : ℕ) :
    SameCount this (this.onLate packetNumber) := by
  unfold onLate
  split <;> exact ⟨rfl, rfl⟩

theorem sameCount_accountGaps (h : this.accountGaps packetNumber = .ok this') :
    SameCount this this' := by
  unfold accountGaps at h
  split at h
  · cases h
    exact ⟨rfl, rfl⟩
  · split at h
    · cases h
      exact sameCount_onLoss this packetNumber
    · split at h
      · cases h
        exact ⟨rfl, rfl⟩
      · split at h
        · cases h
          exact sameCount_onLate this packetNumber
        · cases h

theorem Occurs.counts {sys : AckSystem} (h : Occurs sys) : Counts sys := by
  induction h with
  | init => exact ⟨rfl, fun _ => rfl, by simp⟩
  | @step sys sys' _ event hp hs ih =>
    cases event with
    | packetReceived packetNumber ackEliciting isIBitSet lastReceivedAckEliciting simTime =>
      obtain ⟨accountant, hrun, hsys⟩ := Error.exists_of_bind_eq_ok hs
      cases hsys
      obtain ⟨hcounter, hlargest, -⟩ := ih.noteReceived packetNumber ackEliciting isIBitSet
        lastReceivedAckEliciting simTime
      obtain ⟨hlargest', hcounter'⟩ := sameCount_accountGaps hrun
      refine ⟨hcounter'.trans hcounter, nofun, fun q hq => ?_⟩
      rw [hlargest', hlargest]
      rcases List.mem_cons.1 hq with rfl | hq
      · exact le_max_right _ _
      · exact (ih.le_largestAck q hq).trans (le_max_left _ _)
    | frameGenerated maxSize ackDelayExponent simTime =>
      obtain ⟨⟨ackFrame, accountant⟩, hrun, hsys⟩ := Error.exists_of_bind_eq_ok hs
      cases hsys
      have hreset : accountant = sys.accountant.resetAckInfo := by
        unfold generateAckFrame at hrun
        split_ifs at hrun
        · cases hrun
          rfl
        · obtain ⟨_, -, hrun⟩ := Error.exists_of_bind_eq_ok hrun
          cases hrun
          rfl
      rw [hreset]
      exact ⟨ih.packetCounter_eq, ih.expected_eq, ih.le_largestAck⟩
    | packetAcked ackFrame =>
      cases hs
      have hsame : (sys.accountant.onPacketAcked ackFrame).packetCounter =
            sys.accountant.packetCounter ∧
          (sys.accountant.onPacketAcked ackFrame).expectedPacketNumber =
            sys.accountant.expectedPacketNumber ∧
          (sys.accountant.onPacketAcked ackFrame).largestAck = sys.accountant.largestAck := by
        unfold ReceivedPacketsAccountant.onPacketAcked
        cases ackFrame with
        | none => exact ⟨rfl, rfl, rfl⟩
        | some ackFrame =>
          dsimp only
          split_ifs <;> exact ⟨rfl, rfl, rfl⟩
      obtain ⟨hcounter, hexpected, hlargest⟩ := hsame
      exact ⟨hcounter.trans ih.packetCounter_eq, fun hnil => hexpected.trans (ih.expected_eq hnil),
        fun q hq => (ih.le_largestAck q hq).trans hlargest.ge⟩

/-- A new number is tolerated where some branch accepts it. -/
theorem tolerates_iff_of_new {sys : AckSystem} (h : Counts sys) (hnew : packetNumber ∉ sys.received)
    (ackEliciting isIBitSet : Bool) (lastReceivedAckEliciting simTime : ℕ) :
    sys.Tolerates packetNumber ackEliciting isIBitSet lastReceivedAckEliciting simTime ↔
      sys.Tolerable packetNumber := by
  obtain ⟨-, -, hsmallest, hexpected, hgaps⟩ := h.noteReceived packetNumber ackEliciting isIBitSet
    lastReceivedAckEliciting simTime
  rw [tolerable_iff_of_new hnew]
  unfold Tolerates onPacketReceived accountGaps
  rw [hsmallest, hexpected, hgaps]
  constructor
  · rintro ⟨accountant, hrun, -⟩
    by_contra hnot
    obtain ⟨hlt, hle, hhit⟩ : packetNumber < sys.accountant.expectedPacketNumber ∧
        sys.accountant.smallestAck ≤ packetNumber ∧
          ∀ gapRange ∈ sys.accountant.gapRanges, ¬ gapRange.Hit packetNumber := by
      simpa [not_or] using hnot
    rw [if_neg hlt.ne, if_neg hlt.not_gt, fillGap_eq_none_iff.2 hhit] at hrun
    dsimp only at hrun
    rw [if_neg hle.not_gt] at hrun
    cases hrun
  · intro haccept
    have hreturns : ∃ accountant, (sys.accountant.noteReceived packetNumber ackEliciting isIBitSet
        lastReceivedAckEliciting simTime).accountGaps packetNumber = .ok accountant := by
      unfold accountGaps
      rw [hsmallest, hexpected, hgaps]
      split
      · exact ⟨_, rfl⟩
      · split
        · exact ⟨_, rfl⟩
        · split
          · exact ⟨_, rfl⟩
          · next heq hgt hfill =>
            rw [if_pos]
            · exact ⟨_, rfl⟩
            · rcases haccept with hge | hlt | ⟨gapRange, hmem, hhit⟩
              · omega
              · exact hlt
              · exact absurd hhit (fillGap_eq_none_iff.1 hfill gapRange hmem)
    obtain ⟨accountant, hrun⟩ := hreturns
    unfold accountGaps at hrun
    rw [hsmallest, hexpected, hgaps] at hrun
    exact ⟨accountant, hrun, fun hmem => absurd hmem hnew⟩

theorem gapRanges_onLoss_eq_iff (this : ReceivedPacketsAccountant) (packetNumber : ℕ) :
    (this.onLoss packetNumber).gapRanges = this.gapRanges ↔
      ∃ gapRange ∈ this.gapRanges.getLast?, sub64 gapRange.lastMissing packetNumber = 1 := by
  unfold onLoss
  split
  · next lastGapRange hlast =>
    rw [hlast]
    split
    · next hfollows => exact ⟨fun _ => ⟨lastGapRange, rfl, hfollows⟩, fun _ => rfl⟩
    · next hfollows =>
      constructor
      · exact fun heq => absurd (List.append_right_eq_self.1 heq) (List.cons_ne_nil _ _)
      · rintro ⟨gapRange, hmem, hfollows'⟩
        cases hmem
        exact absurd hfollows' hfollows
  · next hlast => simp [hlast]

theorem gapRanges_onLate_eq_iff (this : ReceivedPacketsAccountant) (packetNumber : ℕ) :
    (this.onLate packetNumber).gapRanges = this.gapRanges ↔
      add64 packetNumber 1 = this.smallestAck := by
  unfold onLate
  split_ifs with hfar
  · simp [hfar]
  · exact ⟨fun _ => not_not.1 hfar, fun _ => rfl⟩

theorem exists_pure_eq_ok_and {α : Type*} {P : α → Prop} (x : α) :
    (∃ y, (pure x : Except Error α) = .ok y ∧ P y) ↔ P x := by
  constructor
  · rintro ⟨y, hy, hP⟩
    cases hy
    exact hP
  · exact fun hP => ⟨x, rfl, hP⟩

/-- The gap ranges are left alone where the branch that takes the number has nothing to change. -/
theorem accountGaps_keeps_iff (this : ReceivedPacketsAccountant) (hp : packetNumber < 2 ^ 64) :
    (∃ accountant, this.accountGaps packetNumber = .ok accountant ∧
        accountant.gapRanges = this.gapRanges) ↔
      packetNumber = this.expectedPacketNumber ∨
      packetNumber > this.expectedPacketNumber ∧
        (∃ gapRange ∈ this.gapRanges.getLast?, sub64 gapRange.lastMissing packetNumber = 1) ∨
      packetNumber < this.expectedPacketNumber ∧
        (∀ gapRange ∈ this.gapRanges, ¬ gapRange.Hit packetNumber) ∧
        packetNumber < this.smallestAck ∧ add64 packetNumber 1 = this.smallestAck := by
  unfold accountGaps
  rcases lt_trichotomy packetNumber this.expectedPacketNumber with hlt | heq | hgt
  · rw [if_neg hlt.ne, if_neg hlt.not_gt, ← fillGap_eq_none_iff, ← gapRanges_onLate_eq_iff]
    simp only [hlt.ne, hlt.not_gt, hlt, false_or, false_and, true_and]
    cases hfill : fillGap packetNumber this.gapRanges with
    | some gapRanges =>
      rw [exists_pure_eq_ok_and]
      constructor
      · exact fun hkeep => absurd hkeep (fillGap_ne hp hfill)
      · rintro ⟨hnone, -⟩
        cases hnone
    | none =>
      dsimp only
      split_ifs with hbelow
      · rw [exists_pure_eq_ok_and]
        exact ⟨fun hkeep => ⟨rfl, hbelow, hkeep⟩, fun h => h.2.2⟩
      · constructor
        · rintro ⟨accountant, hrun, -⟩
          cases hrun
        · rintro ⟨-, hbelow', -⟩
          exact absurd hbelow' hbelow
  · rw [if_pos heq, exists_pure_eq_ok_and]
    exact ⟨fun _ => .inl heq, fun _ => rfl⟩
  · rw [if_neg hgt.ne', if_pos hgt, exists_pure_eq_ok_and, gapRanges_onLoss_eq_iff]
    simp only [hgt.ne', hgt.not_gt, hgt, false_or, false_and, true_and, or_false]

/-- A repeated number is tolerated where the branch that takes it leaves the gap ranges. -/
theorem tolerates_iff_of_repeated {sys : AckSystem} (h : Counts sys) (hp : packetNumber < 2 ^ 64)
    (hmem : packetNumber ∈ sys.received) (ackEliciting isIBitSet : Bool)
    (lastReceivedAckEliciting simTime : ℕ) :
    sys.Tolerates packetNumber ackEliciting isIBitSet lastReceivedAckEliciting simTime ↔
      sys.Tolerable packetNumber := by
  obtain ⟨-, hlargest, hsmallest, hexpected, hgaps⟩ := h.noteReceived packetNumber ackEliciting
    isIBitSet lastReceivedAckEliciting simTime
  rw [max_eq_left (h.le_largestAck _ hmem)] at hlargest
  have hkeeps := accountGaps_keeps_iff (sys.accountant.noteReceived packetNumber ackEliciting
    isIBitSet lastReceivedAckEliciting simTime) hp
  rw [hsmallest, hexpected, hgaps] at hkeeps
  rw [Tolerable, if_pos hmem, ← hkeeps]
  constructor
  · rintro ⟨accountant, hrun, hkeep⟩
    exact ⟨accountant, hrun, (hkeep hmem).1⟩
  · rintro ⟨accountant, hrun, hkeep⟩
    exact ⟨accountant, hrun, fun _ => ⟨hkeep, (sameCount_accountGaps hrun).1.trans hlargest⟩⟩

theorem Occurs.tolerates_iff {sys : AckSystem} (h : Occurs sys) (hp : packetNumber < 2 ^ 64)
    (ackEliciting isIBitSet : Bool) (lastReceivedAckEliciting simTime : ℕ) :
    sys.Tolerates packetNumber ackEliciting isIBitSet lastReceivedAckEliciting simTime ↔
      sys.Tolerable packetNumber := by
  by_cases hmem : packetNumber ∈ sys.received
  · exact tolerates_iff_of_repeated h.counts hp hmem ackEliciting isIBitSet
      lastReceivedAckEliciting simTime
  · exact tolerates_iff_of_new h.counts hmem ackEliciting isIBitSet lastReceivedAckEliciting simTime

/-- Every event of the run is as in `P` in the state that it finds; the run ends where one
throws. -/
def Along (P : AckSystem → AckEvent → Prop) : AckSystem → List AckEvent → Prop
  | _, [] => True
  | sys, event :: events => P sys event ∧ ∀ sys', sys.step event = .ok sys' → Along P sys' events

/-- Receiving the packet neither throws nor, when it is a repeated one, changes what is stored. -/
def EventTolerated (sys : AckSystem) : AckEvent → Prop
  | .packetReceived packetNumber ackEliciting isIBitSet lastReceivedAckEliciting simTime =>
    sys.Tolerates packetNumber ackEliciting isIBitSet lastReceivedAckEliciting simTime
  | .frameGenerated _ _ _ => True
  | .packetAcked _ => True

def EventTolerable (sys : AckSystem) : AckEvent → Prop
  | .packetReceived packetNumber _ _ _ _ => sys.Tolerable packetNumber
  | .frameGenerated _ _ _ => True
  | .packetAcked _ => True

theorem Occurs.eventTolerated_iff {sys : AckSystem} (h : Occurs sys) {event : AckEvent}
    (hp : sys.Possible event) : sys.EventTolerated event ↔ sys.EventTolerable event := by
  cases event with
  | packetReceived packetNumber ackEliciting isIBitSet lastReceivedAckEliciting simTime =>
    exact h.tolerates_iff hp ackEliciting isIBitSet lastReceivedAckEliciting simTime
  | frameGenerated => exact Iff.rfl
  | packetAcked => exact Iff.rfl

/-- A run of packet numbers, repeated ones among them, goes through without a throw and without a
repeated number changing anything exactly when every number is tolerable where it comes. -/
theorem Occurs.along_tolerated_iff {sys : AckSystem} (h : Occurs sys) {events : List AckEvent}
    (hp : Along Possible sys events) :
    Along EventTolerated sys events ↔ Along EventTolerable sys events := by
  induction events generalizing sys with
  | nil => exact Iff.rfl
  | cons event events ih =>
    rw [Along, Along, h.eventTolerated_iff hp.1]
    refine and_congr_right fun _ => forall_congr' fun sys' => forall_congr' fun hs => ?_
    exact ih (h.step event hp.1 hs) (hp.2 sys' hs)

/-- An endpoint that has received nothing. -/
def fresh : AckSystem where
  accountant := { numReceivedAckElicitingsBeforeAck := 2, useIBit := false, ackDelayTimer := none }
  received := []
  frames := []

/-- Packet 0 fills the gap below packet 1, both are acknowledged, and packet 0 is received again. -/
theorem along_tolerated_repeated : Along EventTolerated fresh
    [.packetReceived 1 true false 0 0, .packetReceived 0 true false 1 0, .frameGenerated 100 0 0,
      .packetAcked (some ⟨1, 0, 0, 1, []⟩), .packetReceived 0 true false 1 0] := by
  refine ((Occurs.init 2 false none).along_tolerated_iff ?_).2 ?_
  · refine ⟨by simp [Possible], fun s₁ h₁ => ⟨by simp [Possible], fun s₂ h₂ => ⟨trivial,
      fun s₃ h₃ => ⟨?_, fun s₄ h₄ => ⟨by simp [Possible], fun _ _ => trivial⟩⟩⟩⟩⟩
    cases h₁
    cases h₂
    cases h₃
    intro frame hframe
    obtain rfl := Option.some.inj hframe
    decide
  · refine ⟨(tolerable_iff_of_new (by decide)).2 (.inl (Nat.zero_le _)), fun s₁ h₁ => ?_⟩
    cases h₁
    have hgap : GapRange.Hit ⟨0, 0⟩ 0 := by decide
    refine ⟨(tolerable_iff_of_new (by decide)).2 (.inr (.inr ⟨⟨0, 0⟩, by decide, hgap⟩)),
      fun s₂ h₂ => ⟨trivial, fun s₃ h₃ => ⟨trivial, fun s₄ h₄ => ⟨?_, fun _ _ => trivial⟩⟩⟩⟩
    cases h₂
    cases h₃
    cases h₄
    -- the number right below the smallest one that is still to be acknowledged
    rw [EventTolerable, Tolerable, if_pos (by decide)]
    exact .inr (.inr ⟨by decide, by decide, by decide, by decide⟩)

/-- Packet 0 is received twice. -/
theorem not_tolerated_0_0 : Along Possible fresh
      [.packetReceived 0 true false 0 0, .packetReceived 0 true false 0 0] ∧
    ¬ Along EventTolerated fresh
      [.packetReceived 0 true false 0 0, .packetReceived 0 true false 0 0] := by
  constructor
  · refine ⟨by simp [Possible], fun sys' _ => ⟨by simp [Possible], fun _ _ => trivial⟩⟩
  · rintro ⟨-, hsecond⟩
    obtain ⟨⟨accountant, hrun, -⟩, -⟩ := hsecond _ rfl
    cases hrun

end AckSystem

end Inet.Quic
