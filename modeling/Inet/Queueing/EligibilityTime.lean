import Mathlib.Algebra.Order.Field.Basic
import Mathlib.Data.Rat.Cast.Order
import Mathlib.Tactic.FieldSimp
import Mathlib.Tactic.Linarith
import Mathlib.Tactic.Ring

/-! # The asynchronous traffic shaper

`EligibilityTimeMeter` represents its token bucket by the time at which the
bucket was empty. Serving a packet moves this time by at least the time in
which the tokens of the packet are produced, and never beyond the eligibility
time of the packet; the envelope of burst size and rate follows.
-/

namespace Inet.Queueing

/-- The parameters of the meter, in bits, bits per second and seconds. A residence time of `-1`
stands for no limit. -/
structure EligibilityTimeMeter where
  packetOverheadLength : ℤ
  committedInformationRate : ℚ
  committedBurstSize : ℕ
  maxResidenceTime : ℚ
  committedInformationRate_pos : 0 < committedInformationRate

structure EligibilityState where
  groupEligibilityTime : ℚ
  bucketEmptyTime : ℚ
  deriving DecidableEq, Repr

structure MeteredPacket where
  arrivalTime : ℚ
  dataLength : ℕ
  deriving DecidableEq, Repr

namespace EligibilityTimeMeter

variable (meter : EligibilityTimeMeter)

/-- The state that `INITSTAGE_LOCAL` sets. -/
def initialState : EligibilityState where
  groupEligibilityTime := 0
  bucketEmptyTime := -meter.committedBurstSize / meter.committedInformationRate

/-- The length of a packet with the overhead. -/
def length (packet : MeteredPacket) : ℚ := packet.dataLength + meter.packetOverheadLength

def lengthRecoveryDuration (packet : MeteredPacket) : ℚ :=
  meter.length packet / meter.committedInformationRate

def emptyToFullDuration : ℚ := meter.committedBurstSize / meter.committedInformationRate

def schedulerEligibilityTime (state : EligibilityState) (packet : MeteredPacket) : ℚ :=
  state.bucketEmptyTime + meter.lengthRecoveryDuration packet

def eligibilityTime (state : EligibilityState) (packet : MeteredPacket) : ℚ :=
  max (max packet.arrivalTime state.groupEligibilityTime)
    (meter.schedulerEligibilityTime state packet)

/-- `meterPacket`: the state after the packet, and the eligibility time that its tag gets. -/
def meterPacket (state : EligibilityState) (packet : MeteredPacket) :
    EligibilityState × Option ℚ :=
  let schedulerEligibilityTime := meter.schedulerEligibilityTime state packet
  let bucketFullTime := state.bucketEmptyTime + meter.emptyToFullDuration
  let eligibilityTime := meter.eligibilityTime state packet
  if meter.maxResidenceTime = -1 ∨
      eligibilityTime ≤ packet.arrivalTime + meter.maxResidenceTime then
    ({ groupEligibilityTime := eligibilityTime
       bucketEmptyTime := if eligibilityTime < bucketFullTime then schedulerEligibilityTime
        else schedulerEligibilityTime + eligibilityTime - bucketFullTime },
      some eligibilityTime)
  else (state, none)

/-- The packets of a run that were assigned an eligibility time. -/
def assigned : EligibilityState → List MeteredPacket → List (MeteredPacket × ℚ)
  | _, [] => []
  | state, packet :: packets =>
    match meter.meterPacket state packet with
    | (state, some eligibilityTime) => (packet, eligibilityTime) :: assigned state packets
    | (state, none) => assigned state packets

variable {meter} {state state' : EligibilityState} {packet : MeteredPacket}

theorem meterPacket_none (h : (meter.meterPacket state packet).2 = none) :
    (meter.meterPacket state packet).1 = state := by
  unfold meterPacket at h ⊢
  simp only at h ⊢
  split at h
  · cases h
  next hno => rw [if_neg hno]

/-- The bucket was empty at the eligibility time of an assigned packet or before, and at least the
tokens of the packet were taken from a bucket that was not overfull. -/
structure Served (meter : EligibilityTimeMeter) (state state' : EligibilityState)
    (packet : MeteredPacket) (time : ℚ) : Prop where
  arrivalTime_le : packet.arrivalTime ≤ time
  group_le : state.groupEligibilityTime ≤ time
  group_eq : state'.groupEligibilityTime = time
  taken : state.bucketEmptyTime + meter.lengthRecoveryDuration packet ≤ state'.bucketEmptyTime
  not_overfull : time - meter.emptyToFullDuration + meter.lengthRecoveryDuration packet ≤
    state'.bucketEmptyTime
  empty_le : meter.length packet ≤ meter.committedBurstSize → state'.bucketEmptyTime ≤ time

theorem recovery_le (h : meter.length packet ≤ meter.committedBurstSize) :
    meter.lengthRecoveryDuration packet ≤ meter.emptyToFullDuration :=
  div_le_div_of_nonneg_right h meter.committedInformationRate_pos.le

theorem served_of_meterPacket {time : ℚ} (h : meter.meterPacket state packet =
    (state', some time)) :
    Served meter state state' packet time := by
  unfold meterPacket at h
  simp only at h
  split at h
  next =>
    obtain ⟨rfl, rfl⟩ : _ ∧ _ := by simpa using h
    have hsched : meter.schedulerEligibilityTime state packet ≤
      meter.eligibilityTime state packet :=
      le_max_right _ _
    constructor
    · exact (le_max_left _ _).trans (le_max_left _ _)
    · exact (le_max_right _ _).trans (le_max_left _ _)
    · rfl
    · simp only
      split
      next hlt => exact le_rfl
      next hge =>
        unfold schedulerEligibilityTime
        linarith
    · simp only
      split
      next hlt =>
        unfold schedulerEligibilityTime
        linarith
      next hge =>
        unfold schedulerEligibilityTime
        linarith
    · intro hlen
      have hle := recovery_le hlen
      simp only
      split
      next hlt => exact hsched
      next hge =>
        unfold schedulerEligibilityTime
        linarith
  next => simp at h

theorem assigned_cons (state : EligibilityState) (packet : MeteredPacket)
    (packets : List MeteredPacket) :
    meter.assigned state (packet :: packets) = meter.assigned state packets ∨
      ∃ state' time, Served meter state state' packet time ∧
        meter.assigned state (packet :: packets) =
          (packet, time) :: meter.assigned state' packets := by
  rcases hm : meter.meterPacket state packet with ⟨state', _ | time⟩
  · have hsame : state' = state := by
      have := @meterPacket_none meter state packet (by rw [hm])
      rwa [hm] at this
    left
    rw [assigned, hm, hsame]
  · right
    refine ⟨state', time, served_of_meterPacket hm, ?_⟩
    rw [assigned, hm]

/-- The time in which the tokens of some packets are produced. -/
def recovery (meter : EligibilityTimeMeter) (window : List (MeteredPacket × ℚ)) : ℚ :=
  (window.map fun a => meter.lengthRecoveryDuration a.1).sum

@[simp] theorem recovery_nil : meter.recovery [] = 0 := rfl

@[simp] theorem recovery_cons (a : MeteredPacket × ℚ) (window : List (MeteredPacket × ℚ)) :
    meter.recovery (a :: window) = meter.lengthRecoveryDuration a.1 + meter.recovery window := rfl

theorem recovery_le_of_first {packets : List MeteredPacket} {window : List (MeteredPacket × ℚ)}
    (hlen : ∀ packet ∈ packets, meter.length packet ≤ meter.committedBurstSize)
    (hw : window <+: meter.assigned state packets) {last : MeteredPacket × ℚ}
    (hlast : window.getLast? = some last) :
    meter.recovery window ≤ last.2 - state.bucketEmptyTime := by
  induction packets generalizing state window with
  | nil =>
    rw [assigned, List.prefix_nil] at hw
    rw [hw] at hlast
    cases hlast
  | cons packet packets ih =>
    obtain ⟨hp, hlen⟩ := List.forall_mem_cons.1 hlen
    rcases @assigned_cons meter state packet packets with heq | ⟨state', time, hs, heq⟩
    · rw [heq] at hw
      exact ih hlen hw hlast
    · rw [heq] at hw
      cases window with
      | nil => cases hlast
      | cons a window =>
        obtain ⟨rfl, hw'⟩ := List.cons_prefix_cons.1 hw
        have htaken := hs.taken
        have hempty := hs.empty_le hp
        rw [recovery_cons]
        cases window with
        | nil =>
          obtain rfl : (packet, time) = last := by simpa using hlast
          simp only [recovery_nil]
          linarith
        | cons b window =>
          rw [List.getLast?_cons_cons] at hlast
          have := ih hlen hw' hlast
          linarith

theorem recovery_le_of_window {packets : List MeteredPacket} {window : List (MeteredPacket × ℚ)}
    (hlen : ∀ packet ∈ packets, meter.length packet ≤ meter.committedBurstSize)
    (hw : window <:+: meter.assigned state packets) {first last : MeteredPacket × ℚ}
    (hfirst : window.head? = some first) (hlast : window.getLast? = some last) :
    meter.recovery window ≤ meter.emptyToFullDuration + (last.2 - first.2) := by
  induction packets generalizing state with
  | nil =>
    rw [assigned, List.infix_nil] at hw
    rw [hw] at hlast
    cases hlast
  | cons packet packets ih =>
    obtain ⟨hp, hlen'⟩ := List.forall_mem_cons.1 hlen
    rcases @assigned_cons meter state packet packets with heq | ⟨state', time, hs, heq⟩
    · rw [heq] at hw
      exact ih hlen' hw
    · rw [heq] at hw
      rcases List.infix_cons_iff.1 hw with hstart | hlater
      · cases window with
        | nil => cases hlast
        | cons a window =>
          obtain ⟨rfl, hstart'⟩ := List.cons_prefix_cons.1 hstart
          obtain rfl : (packet, time) = first := by simpa using hfirst
          have hrec := recovery_le hp
          have hfull := hs.not_overfull
          rw [recovery_cons]
          cases window with
          | nil =>
            obtain rfl : (packet, time) = last := by simpa using hlast
            simp only [recovery_nil]
            linarith
          | cons b window =>
            rw [List.getLast?_cons_cons] at hlast
            have := recovery_le_of_first hlen' hstart' hlast
            simp only at this ⊢
            linarith
      · exact ih hlen' hlater

theorem assigned_times (packets : List MeteredPacket) (state : EligibilityState) :
    (∀ a ∈ meter.assigned state packets,
      a.1.arrivalTime ≤ a.2 ∧ state.groupEligibilityTime ≤ a.2) ∧
      (meter.assigned state packets).Pairwise fun a b => a.2 ≤ b.2 := by
  induction packets generalizing state with
  | nil => simp [assigned]
  | cons packet packets ih =>
    rcases @assigned_cons meter state packet packets with heq | ⟨state', time, hs, heq⟩
    · rw [heq]
      exact ih state
    · obtain ⟨hmem, hpair⟩ := ih state'
      rw [hs.group_eq] at hmem
      rw [heq]
      constructor
      · intro a ha
        rcases List.mem_cons.1 ha with rfl | ha
        · exact ⟨hs.arrivalTime_le, hs.group_le⟩
        · exact ⟨(hmem a ha).1, hs.group_le.trans (hmem a ha).2⟩
      · exact List.pairwise_cons.2 ⟨fun a ha => (hmem a ha).2, hpair⟩

theorem recovery_eq (window : List (MeteredPacket × ℚ)) :
    meter.recovery window =
      (window.map fun a => meter.length a.1).sum / meter.committedInformationRate := by
  induction window with
  | nil => simp
  | cons a window ih =>
    rw [recovery_cons, ih, lengthRecoveryDuration, List.map_cons, List.sum_cons, add_div]

/-- The shaper conforms: eligibility times are in order and not before the arrivals, every window of
assigned packets keeps to the burst size and the rate, and a packet that would stay too long is
left alone. -/
theorem conforms (meter : EligibilityTimeMeter) (packets : List MeteredPacket)
    (hlen : ∀ packet ∈ packets, meter.length packet ≤ meter.committedBurstSize) :
    ((meter.assigned meter.initialState packets).Pairwise fun a b => a.2 ≤ b.2) ∧
      (∀ a ∈ meter.assigned meter.initialState packets, a.1.arrivalTime ≤ a.2) ∧
      (∀ window first last, window <:+: meter.assigned meter.initialState packets →
        window.head? = some first → window.getLast? = some last →
        (window.map fun a => meter.length a.1).sum ≤
          meter.committedBurstSize + meter.committedInformationRate * (last.2 - first.2)) ∧
      ∀ state packet, meter.maxResidenceTime ≠ -1 →
        packet.arrivalTime + meter.maxResidenceTime < meter.eligibilityTime state packet →
        meter.meterPacket state packet = (state, none) := by
  obtain ⟨hmem, hpair⟩ := @assigned_times meter packets meter.initialState
  refine ⟨hpair, fun a ha => (hmem a ha).1, ?_, ?_⟩
  · intro window first last hw hfirst hlast
    have h := recovery_le_of_window hlen hw hfirst hlast
    have hpos := meter.committedInformationRate_pos
    rw [recovery_eq, emptyToFullDuration, div_le_iff₀ hpos] at h
    calc (window.map fun a => meter.length a.1).sum
        ≤ (meter.committedBurstSize / meter.committedInformationRate + (last.2 - first.2)) *
          meter.committedInformationRate := h
      _ = meter.committedBurstSize + meter.committedInformationRate * (last.2 - first.2) := by
        field_simp
  · intro state packet hmax hlate
    have hno : ¬ (meter.maxResidenceTime = -1 ∨
        meter.eligibilityTime state packet ≤ packet.arrivalTime + meter.maxResidenceTime) := by
      rintro (h | h)
      · exact hmax h
      · exact absurd h (not_le.2 hlate)
    simp only [meterPacket, hno, if_false]

/-- A bucket of 2000 bits filled at 1000 bits per second. -/
def meter_2000 : EligibilityTimeMeter where
  packetOverheadLength := 200
  committedInformationRate := 1000
  committedBurstSize := 2000
  maxResidenceTime := 2
  committedInformationRate_pos := by norm_num

/-- Of three packets that arrive together the second has to wait, and the third would wait too
long. -/
theorem conforms_three :
    meter_2000.assigned meter_2000.initialState [⟨0, 1800⟩, ⟨0, 1800⟩, ⟨0, 1000⟩] =
      [(⟨0, 1800⟩, 0), (⟨0, 1800⟩, 2)] ∧
    ([((⟨0, 1800⟩ : MeteredPacket), (0 : ℚ)), (⟨0, 1800⟩, 2)].map fun a =>
      meter_2000.length a.1).sum ≤
      meter_2000.committedBurstSize + meter_2000.committedInformationRate * (2 - 0) := by
  have hrun : meter_2000.assigned meter_2000.initialState [⟨0, 1800⟩, ⟨0, 1800⟩, ⟨0, 1000⟩] =
      [(⟨0, 1800⟩, 0), (⟨0, 1800⟩, 2)] := by
    decide +kernel
  have h := conforms meter_2000 [⟨0, 1800⟩, ⟨0, 1800⟩, ⟨0, 1000⟩] (by
    simp [length, meter_2000]
    norm_num)
  obtain ⟨-, -, hwindow, -⟩ := h
  rw [hrun] at hwindow
  exact ⟨hrun, hwindow _ (⟨0, 1800⟩, 0) (⟨0, 1800⟩, 2) List.infix_rfl rfl rfl⟩

end EligibilityTimeMeter

end Inet.Queueing
