import Inet.Ieee80211.ReorderingRun
import Mathlib.Data.List.FinRange
import Mathlib.Data.List.ProdSigma

/-! # Basic Block Acks

The bitmap of a Basic Block Ack is read from the acknowledgment states of the
recipient, where everything before the numerically first state counts as old.
The frames that the originator takes as acknowledged are those of the bitmap.
-/

namespace Inet.Ieee80211

open SequenceNumberCyclic Error

namespace BlockAckRecord

/-- The sequence number of `acknowledgmentState.begin()`, the numerically first state. -/
def earliest (acknowledgmentState : List (SequenceNumberCyclic × ℤ)) :
    Option SequenceNumberCyclic :=
  (acknowledgmentState.map (·.1.value)).min?.map ofNat

def getAckState (acknowledgmentState : List (SequenceNumberCyclic × ℤ))
    (sequenceNumber : SequenceNumberCyclic) (fragmentNumber : ℤ) : Bool :=
  if (sequenceNumber, fragmentNumber) ∈ acknowledgmentState then true
  else match earliest acknowledgmentState with
    | none => true
    | some earliest => sequenceNumber < earliest

end BlockAckRecord

/-- The fields of `Ieee80211BasicBlockAck` that depend on the request. -/
structure BasicBlockAck where
  transmitterAddress : ℕ
  tidInfo : ℤ
  startingSequenceNumber : SequenceNumberCyclic
  blockAckBitmap : Fin 64 → Fin 16 → Bool

/-- `buildBlockAck` for a Basic request. -/
def buildBlockAck (address : ℕ) (tidInfo : ℤ) (startingSequenceNumber : SequenceNumberCyclic)
    (acknowledgmentState : List (SequenceNumberCyclic × ℤ)) : BasicBlockAck where
  transmitterAddress := address
  tidInfo := tidInfo
  startingSequenceNumber := startingSequenceNumber
  blockAckBitmap := fun i fragNum =>
    BlockAckRecord.getAckState acknowledgmentState (startingSequenceNumber.ahead i) fragNum

namespace QosAckHandler

inductive Status where
  | frameNotYetTransmitted
  | noAckRequired
  | blockAckNotYetRequested
  | waitingForNormalAck
  | waitingForBlockAck
  | normalAckNotArrived
  | normalAckArrived
  | blockAckArrivedUnacked
  | blockAckArrivedAcked
  | blockAckNotArrived
  deriving DecidableEq, Repr

/-- The address, the TID, and the sequence control field of a frame. -/
abbrev QoSKey := ℕ × ℤ × SequenceNumberCyclic × ℤ

abbrev AckStatuses := QoSKey → Option Status

def getQoSDataAckStatus (ackStatuses : AckStatuses) (id : QoSKey) : Status :=
  (ackStatuses id).getD .frameNotYetTransmitted

/-- The frame of a bit. -/
def idOf (blockAck : BasicBlockAck) (i : Fin 64) (fragNum : Fin 16) : QoSKey :=
  (blockAck.transmitterAddress, blockAck.tidInfo, blockAck.startingSequenceNumber.ahead i,
    (fragNum : ℕ))

/-- The body of the loops over the bitmap. -/
def processBit (blockAck : BasicBlockAck) :
    AckStatuses × List QoSKey → Fin 64 × Fin 16 → AckStatuses × List QoSKey
  | (ackStatuses, ackedFrames), (i, fragNum) =>
    let id := idOf blockAck i fragNum
    if getQoSDataAckStatus ackStatuses id = .waitingForBlockAck then
      if blockAck.blockAckBitmap i fragNum then
        (Function.update ackStatuses id (some .blockAckArrivedAcked), ackedFrames.insert id)
      else (Function.update ackStatuses id (some .blockAckArrivedUnacked), ackedFrames)
    else (ackStatuses, ackedFrames)

/-- `processReceivedBlockAck` for a Basic Block Ack: the new statuses and the acknowledged
frames. -/
def processReceivedBlockAck (ackStatuses : AckStatuses) (blockAck : BasicBlockAck) :
    AckStatuses × List QoSKey :=
  let (ackStatuses, ackedFrames) :=
    (List.finRange 64 ×ˢ List.finRange 16).foldl (processBit blockAck) (ackStatuses, [])
  (fun id =>
    if id.1 = blockAck.transmitterAddress ∧ id.2.1 = blockAck.tidInfo ∧
        ackStatuses id = some .waitingForBlockAck then
      some .blockAckArrivedUnacked
    else ackStatuses id, ackedFrames)

variable {blockAck : BasicBlockAck}

theorem mem_foldl_processBit {id : QoSKey} (bits : List (Fin 64 × Fin 16))
    (state : AckStatuses × List QoSKey) (hid : id ∈ (bits.foldl (processBit blockAck) state).2) :
    id ∈ state.2 ∨ ∃ i fragNum, blockAck.blockAckBitmap i fragNum = true ∧
      id = idOf blockAck i fragNum := by
  induction bits generalizing state with
  | nil => exact .inl hid
  | cons bit bits ih =>
    obtain ⟨i, fragNum⟩ := bit
    obtain ⟨ackStatuses, ackedFrames⟩ := state
    rw [List.foldl_cons] at hid
    rcases ih _ hid with hid | hid
    · simp only [processBit] at hid
      split at hid
      · split at hid
        next hbit =>
          rw [List.mem_insert_iff] at hid
          rcases hid with rfl | hid
          · exact .inr ⟨i, fragNum, hbit, rfl⟩
          · exact .inl hid
        next => exact .inl hid
      · exact .inl hid
    · exact .inr hid

theorem mem_foldl_of_mem {id : QoSKey} (bits : List (Fin 64 × Fin 16))
    {state : AckStatuses × List QoSKey} (hid : id ∈ state.2) :
    id ∈ (bits.foldl (processBit blockAck) state).2 := by
  induction bits generalizing state with
  | nil => exact hid
  | cons bit bits ih =>
    obtain ⟨i, fragNum⟩ := bit
    obtain ⟨ackStatuses, ackedFrames⟩ := state
    rw [List.foldl_cons]
    apply ih
    simp only [processBit]
    split
    · split
      · exact List.mem_insert_of_mem hid
      · exact hid
    · exact hid

theorem mem_processReceivedBlockAck_first {ackStatuses : AckStatuses}
    (hwaiting : getQoSDataAckStatus ackStatuses (idOf blockAck 0 0) = .waitingForBlockAck)
    (hbit : blockAck.blockAckBitmap 0 0 = true) :
    idOf blockAck 0 0 ∈ (processReceivedBlockAck ackStatuses blockAck).2 := by
  obtain ⟨bits, hbits⟩ : ∃ bits : List (Fin 64 × Fin 16),
      List.finRange 64 ×ˢ List.finRange 16 = (0, 0) :: bits := by
    rw [List.finRange_succ, List.product_cons, List.finRange_succ, List.map_cons, List.cons_append]
    exact ⟨_, rfl⟩
  rw [processReceivedBlockAck, hbits, List.foldl_cons]
  have hmem : idOf blockAck 0 0 ∈ (processBit blockAck (ackStatuses, []) (0, 0)).2 := by
    simp only [processBit, hwaiting, hbit, if_true]
    exact List.mem_insert_self
  exact mem_foldl_of_mem bits hmem

/-- A frame is acknowledged only by its bit. -/
theorem mem_processReceivedBlockAck {ackStatuses : AckStatuses} {id : QoSKey}
    (hid : id ∈ (processReceivedBlockAck ackStatuses blockAck).2) :
    ∃ i fragNum, blockAck.blockAckBitmap i fragNum = true ∧ id = idOf blockAck i fragNum := by
  rw [processReceivedBlockAck] at hid
  generalize List.finRange 64 ×ˢ List.finRange 16 = bits at hid
  rcases mem_foldl_processBit bits (ackStatuses, []) hid with hid | hid
  · cases hid
  · exact hid

end QosAckHandler

end Inet.Ieee80211
