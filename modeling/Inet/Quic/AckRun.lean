import Inet.Quic.AckFrame

/-! # Runs of the accountant

Packets are received in any order, frames are generated at any time, and a
packet with a frame is acked at any time after. In every run whose steps can be
accounted for, the gap ranges stay separated and the frames denote only
received packets.
-/

namespace Inet.Quic

/-- The accountant of a packet number space, with the packets it has received and the frames it has
generated. -/
structure AckSystem where
  accountant : ReceivedPacketsAccountant
  received : List ℕ
  frames : List AckFrameHeader
  deriving DecidableEq, Repr

inductive AckEvent where
  | packetReceived (packetNumber : ℕ) (ackEliciting isIBitSet : Bool)
      (lastReceivedAckEliciting simTime : ℕ)
  | frameGenerated (maxSize ackDelayExponent simTime : ℕ)
  | packetAcked (ackFrame : Option AckFrameHeader)
  deriving DecidableEq, Repr

namespace AckSystem

/-- Packet numbers are distinct, and a packet that is acked has a frame that was generated. -/
def Allowed (sys : AckSystem) : AckEvent → Prop
  | .packetReceived packetNumber _ _ _ _ => packetNumber < 2 ^ 64 ∧ packetNumber ∉ sys.received
  | .frameGenerated _ _ _ => True
  | .packetAcked ackFrame => ∀ frame ∈ ackFrame, frame ∈ sys.frames

def step (sys : AckSystem) : AckEvent → Except Error AckSystem
  | .packetReceived packetNumber ackEliciting isIBitSet lastReceivedAckEliciting simTime => do
    let accountant ← sys.accountant.onPacketReceived packetNumber ackEliciting isIBitSet
      lastReceivedAckEliciting simTime
    return { sys with accountant := accountant, received := packetNumber :: sys.received }
  | .frameGenerated maxSize ackDelayExponent simTime => do
    let (ackFrame, accountant) ← sys.accountant.generateAckFrame maxSize ackDelayExponent simTime
    return { sys with accountant := accountant, frames := ackFrame.toList ++ sys.frames }
  | .packetAcked ackFrame =>
    return { sys with accountant := sys.accountant.onPacketAcked ackFrame }

/-- The states of a run whose events are all as in `ok`. -/
inductive Reachable (ok : AckSystem → AckEvent → Prop) : AckSystem → Prop where
  | init (numReceivedAckElicitingsBeforeAck : ℕ) (useIBit : Bool) (ackDelayTimer : Option Bool) :
      Reachable ok ⟨{ numReceivedAckElicitingsBeforeAck, useIBit, ackDelayTimer }, [], []⟩
  | step {sys sys' : AckSystem} (h : Reachable ok sys) (event : AckEvent) (ha : sys.Allowed event)
      (hok : ok sys event) (hs : sys.step event = .ok sys') : Reachable ok sys'

/-- The events that the accountant accounts for: a late packet finds its place among the gap
ranges, and an acked frame does not end inside one. -/
def Regular (sys : AckSystem) : AckEvent → Prop
  | .packetReceived packetNumber _ _ _ _ => sys.accountant.Placeable packetNumber
  | .frameGenerated _ _ _ => True
  | .packetAcked ackFrame => ∀ frame ∈ ackFrame, sys.accountant.Forgettable frame

/-- The invariant of a run. -/
structure Agrees (sys : AckSystem) : Prop where
  accounts : sys.accountant.Accounts sys.received
  frames : ∀ frame ∈ sys.frames, frame.largestAck = 0 ∨ frame.largestAck ∈ sys.received

theorem agrees_init (numReceivedAckElicitingsBeforeAck : ℕ) (useIBit : Bool)
    (ackDelayTimer : Option Bool) :
    Agrees ⟨{ numReceivedAckElicitingsBeforeAck, useIBit, ackDelayTimer }, [], []⟩ := by
  constructor
  · constructor <;> simp [ReceivedPacketsAccountant.Separated.nil]
  · simp

theorem Agrees.exists_step {sys : AckSystem} (h : Agrees sys) {event : AckEvent}
    (ha : sys.Allowed event) (hr : sys.Regular event) :
    ∃ sys', sys.step event = .ok sys' ∧ Agrees sys' := by
  cases event with
  | packetReceived packetNumber ackEliciting isIBitSet lastReceivedAckEliciting simTime =>
    obtain ⟨accountant, hs, hacc⟩ := h.accounts.exists_onPacketReceived ha.2 hr ackEliciting
      isIBitSet lastReceivedAckEliciting simTime
    refine ⟨_, by rw [step, hs]; rfl, hacc, ?_⟩
    intro frame hf
    exact (h.frames frame hf).imp_right (List.mem_cons_of_mem _)
  | frameGenerated maxSize ackDelayExponent simTime =>
    refine ⟨_, by rw [step, ReceivedPacketsAccountant.generateAckFrame_eq]; rfl, ?_, ?_⟩
    · exact h.accounts.of_sameGaps (ReceivedPacketsAccountant.sameGaps_resetAckInfo _)
    · intro frame hf
      rcases List.mem_append.1 hf with hf | hf
      · split at hf
        · cases hf
        · obtain rfl := List.mem_singleton.1 hf
          exact h.accounts.largest_eq_zero_or_mem
      · exact h.frames frame hf
  | packetAcked ackFrame =>
    refine ⟨_, rfl, ?_, h.frames⟩
    exact h.accounts.onPacketAcked fun frame hf => ⟨h.frames frame (ha frame hf), hr frame hf⟩

theorem Reachable.agrees {sys : AckSystem} (h : Reachable Regular sys) : Agrees sys := by
  induction h with
  | init => exact agrees_init _ _ _
  | step _ event ha hok hs ih =>
    obtain ⟨sys', hs', hagrees⟩ := ih.exists_step ha hok
    rw [hs] at hs'
    cases hs'
    exact hagrees

/-- In every run of regular events the gap ranges are sorted and disjoint, no difference underflows,
and a frame generated after some packet was received denotes received packets only. -/
theorem Reachable.acknowledges_received {sys : AckSystem} (h : Reachable Regular sys) :
    (sys.accountant.gapRanges.Pairwise fun a b => a.lastMissing < b.firstMissing) ∧
      (∀ gapRange ∈ sys.accountant.gapRanges, gapRange.firstMissing ≤ gapRange.lastMissing) ∧
      sys.accountant.NoUnderflow ∧
      (sys.received ≠ [] → ∀ maxSize ackDelayExponent simTime frame accountant,
        sys.accountant.generateAckFrame maxSize ackDelayExponent simTime =
          .ok (some frame, accountant) →
        ∃ blocks, frame.decode = some blocks ∧
          ∀ block ∈ blocks, ∀ q, block.1 ≤ q → q ≤ block.2 → q ∈ sys.received) := by
  have hacc := h.agrees.accounts
  refine ⟨hacc.separated.pairwise.imp fun hlt => by omega, hacc.separated.first_le_last,
    hacc.noUnderflow, ?_⟩
  intro hne maxSize ackDelayExponent simTime frame accountant hgen
  rw [ReceivedPacketsAccountant.generateAckFrame_eq] at hgen
  split at hgen
  · cases hgen
  · cases hgen
    obtain ⟨blocks, hd, hblocks⟩ := hacc.decode_ackFrame maxSize ackDelayExponent simTime
    exact ⟨blocks, hd, fun block hb q hq hle => hacc.mem_of_reports hne (hblocks block hb q hq hle)⟩

/-- Packet 2 splits the gap below packet 5. -/
theorem acknowledges_received_5_2 : ∃ sys, Reachable Regular sys ∧ sys.received = [2, 5] ∧
    sys.accountant.gapRanges = [⟨0, 1⟩, ⟨3, 4⟩] ∧ sys.accountant.NoUnderflow ∧
    ∀ frame accountant,
      sys.accountant.generateAckFrame 1000 3 0 = .ok (some frame, accountant) →
      ∃ blocks, frame.decode = some blocks ∧
        ∀ block ∈ blocks, ∀ q, block.1 ≤ q → q ≤ block.2 → q ∈ sys.received := by
  have h₀ : Reachable Regular _ := Reachable.init 2 false (some false)
  have h₁ := h₀.step (.packetReceived 5 true false 0 0) (by simp [Allowed])
    ⟨by decide, by rintro ⟨⟩⟩ rfl
  have h₂ := h₁.step (.packetReceived 2 true false 5 0) (by simp [Allowed])
    ⟨by decide, by rintro ⟨⟩⟩ rfl
  obtain ⟨-, -, hno, hframe⟩ := h₂.acknowledges_received
  exact ⟨_, h₂, rfl, rfl, hno, hframe (by simp) 1000 3 0⟩

/-- The frame for packet 5 is acked, packet 6 is lost, and packet 2 is late: its gap range goes
behind the one for packet 6, and the next frame acknowledges packet 6. -/
theorem exists_acknowledges_missing : ∃ sys, Reachable (fun _ _ => True) sys ∧
    sys.received = [2, 7, 5] ∧
    ¬ (sys.accountant.gapRanges.Pairwise fun a b => a.lastMissing < b.firstMissing) ∧
    ¬ sys.accountant.NoUnderflow ∧
    ∃ frame accountant, sys.accountant.generateAckFrame 1000 3 0 = .ok (some frame, accountant) ∧
      frame.largestAck - frame.firstAckRange ≤ 6 ∧ 6 ≤ frame.largestAck ∧
      frame.decode = none := by
  have h₀ : Reachable (fun _ _ => True) _ := Reachable.init 2 false (some false)
  have h₁ := h₀.step (.packetReceived 5 true false 0 0) (by simp [Allowed]) trivial rfl
  have h₂ := h₁.step (.frameGenerated 1000 3 0) trivial trivial rfl
  have h₃ := h₂.step (.packetAcked (some ⟨5, 0, 0, 0, []⟩)) (by rintro _ ⟨⟩; decide) trivial rfl
  have h₄ := h₃.step (.packetReceived 7 true false 5 0) (by simp [Allowed]) trivial rfl
  have h₅ := h₄.step (.packetReceived 2 true false 7 0) (by simp [Allowed]) trivial rfl
  refine ⟨_, h₅, rfl, ?_, ?_, _, _, rfl, ?_, ?_, ?_⟩
  · decide
  · intro h
    exact absurd (List.isChain_cons_cons.1 h.ack_range).1.2 (by decide)
  · decide
  · decide
  · decide

end AckSystem

end Inet.Quic
