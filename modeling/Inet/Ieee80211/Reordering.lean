import Inet.Ieee80211.CompressedRecord
import Mathlib.Data.Finset.Card

/-! # Block Ack reordering

The receive buffer of one Block Ack agreement, and what `BlockAckReordering`
does with the data frames and the Block Ack requests of the agreement. The
buffer is created with the values of the agreement, which do not change, so it
is there from the start.
-/

namespace Inet.Ieee80211

open SequenceNumberCyclic

/-- A data frame: its header and the place of its packet in memory. -/
structure Mpdu where
  header : DataHeader
  address : ℕ
  deriving DecidableEq, Repr

/-- An MSDU with its sequence number. -/
abbrev Msdu := SequenceNumberCyclic × List Mpdu

/-- The map of the buffer. Only the presence of a number matters, never the order of the map. -/
structure ReceiveBuffer where
  buffer : List Msdu
  bufferSize : ℕ
  nextExpectedSequenceNumber : SequenceNumberCyclic
  deriving DecidableEq, Repr

namespace ReceiveBuffer

variable (rb : ReceiveBuffer)

/-- `buffer.find(sequenceNumber)`. -/
def find (s : SequenceNumberCyclic) : Option (List Mpdu) := rb.buffer.lookup s

/-- `nextExpectedSequenceNumber <= s && s < nextExpectedSequenceNumber + bufferSize`. -/
def isInside (s : SequenceNumberCyclic) : Bool :=
  rb.nextExpectedSequenceNumber ≤ s ∧ s < rb.nextExpectedSequenceNumber.ahead rb.bufferSize

/-- A fragment is added to the fragments with its sequence number. -/
def push (mpdu : Mpdu) : ReceiveBuffer := { rb with
  buffer := rb.buffer.map fun m =>
    if m.1 = mpdu.header.sequenceNumber then (m.1, m.2 ++ [mpdu]) else m }

def insertFrame (mpdu : Mpdu) : Except Error (ReceiveBuffer × Bool) :=
  let sequenceNumber := mpdu.header.sequenceNumber
  if rb.isInside sequenceNumber then
    match rb.find sequenceNumber with
    | some fragments =>
      if fragments.any fun fragment => fragment.header.sequenceNumber = sequenceNumber ∧
          fragment.header.fragmentNumber = mpdu.header.fragmentNumber then
        .ok (rb, false)
      else .ok (rb.push mpdu, true)
    | none =>
      if rb.bufferSize < rb.buffer.length then
        .error (.assertion "getLength() <= bufferSize")
      else if rb.buffer.length = rb.bufferSize then .ok (rb, false)
      else .ok ({ rb with buffer := rb.buffer ++ [(sequenceNumber, [mpdu])] }, true)
  else .ok (rb, false)

def dropFramesUntil (s : SequenceNumberCyclic) : ReceiveBuffer :=
  { rb with buffer := rb.buffer.filter fun m => ¬ m.1 < s }

def removeFrame (s : SequenceNumberCyclic) : Except Error ReceiveBuffer :=
  if (rb.find s).isSome then .ok { rb with buffer := rb.buffer.filter fun m => m.1 ≠ s }
  else .error (.runtime "Unknown sequence number: %d")

end ReceiveBuffer

/-- `isComplete`: the last fragment was received, and as many fragments as there should be. -/
def isComplete (fragments : List Mpdu) : Bool :=
  let largestFragmentNumber : ℤ := fragments.foldl (fun largest fragment =>
    if fragment.header.moreFragments then largest else fragment.header.fragmentNumber) (-1)
  let fragNums := (fragments.map (·.header.fragmentNumber)).toFinset
  largestFragmentNumber ≠ -1 ∧ largestFragmentNumber + 1 = fragNums.card

/-- The record of an agreement: the acknowledgment states of the basic variant, which are all set,
or the window of the compressed variant. -/
inductive BlockAckRecord where
  | basic (acknowledgmentState : List (SequenceNumberCyclic × ℤ))
  | compressed (record : CompressedRecord)
  deriving DecidableEq

namespace BlockAckRecord

/-- `blockAckPolicyFrameReceived`. -/
def blockAckPolicyFrameReceived (acknowledgmentState : List (SequenceNumberCyclic × ℤ))
    (header : DataHeader) : Except Error (List (SequenceNumberCyclic × ℤ)) :=
  if header.fragmentNumber < 16 then
    .ok (acknowledgmentState.insert (header.sequenceNumber, header.fragmentNumber))
  else .error (.assertion "fragmentNumber < 16")

def removeAckStates (acknowledgmentState : List (SequenceNumberCyclic × ℤ))
    (s : SequenceNumberCyclic) : List (SequenceNumberCyclic × ℤ) :=
  acknowledgmentState.filter fun key => ¬ key.1 < s

/-- The removal in `passedUp`, which is for the basic variant only. -/
def passedUp (s : SequenceNumberCyclic) : BlockAckRecord → BlockAckRecord
  | basic acknowledgmentState => basic (removeAckStates acknowledgmentState s)
  | compressed record => compressed record

end BlockAckRecord

/-- The reordering state of one agreement. -/
structure Recipient where
  receiveBuffer : ReceiveBuffer
  record : BlockAckRecord
  deriving DecidableEq

/-- A Block Ack request, of one of the classes of `Ieee80211BlockAckReq`. -/
inductive BlockAckReq where
  | basic (fragmentNumber tidInfo : ℤ) (multiTid compressedBitmap : Bool)
      (startingSequenceNumber : Option SequenceNumberCyclic)
  | compressed (fragmentNumber tidInfo : ℤ) (multiTid compressedBitmap : Bool)
      (startingSequenceNumber : Option SequenceNumberCyclic) (chunkLength : ℤ)
  | multiTid
  deriving DecidableEq, Repr

namespace Recipient

variable (recipient : Recipient)

/-- The unit that `addMsduIfComplete` adds. -/
def msduIfComplete (rb : ReceiveBuffer) (s : SequenceNumberCyclic) : Option Msdu :=
  match rb.find s with
  | some fragments => if isComplete fragments then some (s, fragments) else none
  | none => none

/-- The loop of `collectCompletePrecedingMpdus` from an offset on. -/
def collectCompletePrecedingMpdus (rb : ReceiveBuffer) (start : SequenceNumberCyclic) :
    ℕ → ℕ → List Msdu
  | 0, _ => []
  | count + 1, i =>
    if rb.nextExpectedSequenceNumber.ahead i < start then
      (msduIfComplete rb (rb.nextExpectedSequenceNumber.ahead i)).toList ++
        collectCompletePrecedingMpdus rb start count (i + 1)
    else []

/-- The loop of `collectConsecutiveCompleteFollowingMpdus` from an offset on. -/
def collectConsecutiveCompleteFollowingMpdus (rb : ReceiveBuffer) (start : SequenceNumberCyclic) :
    ℕ → ℕ → List Msdu
  | 0, _ => []
  | count + 1, i =>
    match msduIfComplete rb (start.ahead i) with
    | some msdu => msdu :: collectConsecutiveCompleteFollowingMpdus rb start count (i + 1)
    | none => []

def passedUp (s : SequenceNumberCyclic) : Except Error Recipient := do
  let rb := { recipient.receiveBuffer with nextExpectedSequenceNumber := s.ahead 1 }
  let rb ← (rb.dropFramesUntil s).removeFrame s
  pure { receiveBuffer := rb, record := recipient.record.passedUp s }

def releaseReceiveBuffer (releasedFrames : List Msdu) : Except Error Recipient :=
  releasedFrames.foldlM (fun recipient msdu => recipient.passedUp msdu.1) recipient

def advanceReceiveBuffer (start : SequenceNumberCyclic) :
    Except Error (Recipient × List Msdu) := do
  let releasedFrames := collectCompletePrecedingMpdus recipient.receiveBuffer start
    recipient.receiveBuffer.bufferSize 0
  let recipient ← recipient.releaseReceiveBuffer releasedFrames
  let rb := { recipient.receiveBuffer.dropFramesUntil start with
    nextExpectedSequenceNumber := start }
  pure ({ recipient with receiveBuffer := rb }, releasedFrames)

/-- The release of the consecutive complete units from a number on. -/
def releaseConsecutive (start : SequenceNumberCyclic) :
    Except Error (Recipient × List Msdu) := do
  let consecutiveFrames := collectConsecutiveCompleteFollowingMpdus recipient.receiveBuffer start
    recipient.receiveBuffer.bufferSize 0
  let recipient ← recipient.releaseReceiveBuffer consecutiveFrames
  pure (recipient, consecutiveFrames)

/-- The record of a frame with Block Ack policy. -/
def recordFrame (header : DataHeader) : Except Error Recipient :=
  match recipient.record with
  | .basic acknowledgmentState =>
    if header.ackPolicy = .blockAck then do
      let acknowledgmentState ←
        BlockAckRecord.blockAckPolicyFrameReceived acknowledgmentState header
      pure { recipient with record := .basic acknowledgmentState }
    else pure recipient
  | .compressed _ => pure recipient

/-- The release of the units before a frame that came alone, if the one before the window of the
record was received. -/
def releasePreceding (header : DataHeader) (mayRelease : Bool) :
    Except Error (Recipient × List Msdu) :=
  match recipient.record with
  | .basic _ => .ok (recipient, [])
  | .compressed record =>
    if mayRelease then do
      let preceding ← record.windowStart.sub 1
      if record.hasCompleteReceipt preceding then
        recipient.advanceReceiveBuffer header.sequenceNumber
      else pure (recipient, [])
    else pure (recipient, [])

def processReceivedQoSFrame (mpdu : Mpdu) (interframe : Bool) :
    Except Error (Recipient × List Msdu) := do
  let rb := recipient.receiveBuffer
  let s := mpdu.header.sequenceNumber
  let windowStart := rb.nextExpectedSequenceNumber
  let insideWindow := rb.isInside s
  if ¬ windowStart ≤ s then
    pure (recipient, [])
  else
    let (recipient, releasedFrames) ←
      if ¬ s < windowStart.ahead rb.bufferSize then do
        let start ← s.sub rb.bufferSize
        let start ← start.add 1
        recipient.advanceReceiveBuffer start
      else pure (recipient, [])
    match ← recipient.receiveBuffer.insertFrame mpdu with
    | (rb, true) =>
      let recipient ← { recipient with receiveBuffer := rb }.recordFrame mpdu.header
      let (recipient, preceding) ← recipient.releasePreceding mpdu.header
        (insideWindow && windowStart < s && interframe)
      let (recipient, consecutiveFrames) ←
        recipient.releaseConsecutive recipient.receiveBuffer.nextExpectedSequenceNumber
      pure (recipient, releasedFrames ++ preceding ++ consecutiveFrames)
    | (rb, false) => pure ({ recipient with receiveBuffer := rb }, releasedFrames)

/-- The part of `processReceivedBlockAckReq` after the checks. -/
def moveToStart (start : SequenceNumberCyclic) : Except Error (Recipient × List Msdu) := do
  if ¬ recipient.receiveBuffer.nextExpectedSequenceNumber < start then
    pure (recipient, [])
  else
    let (recipient, releasedFrames) ← recipient.advanceReceiveBuffer start
    let (recipient, consecutiveFrames) ← recipient.releaseConsecutive start
    pure (recipient, releasedFrames ++ consecutiveFrames)

/-- `advanceCompressedWindow` on the record of the agreement. -/
def advanceRecord (start : SequenceNumberCyclic) : Except Error Recipient :=
  match recipient.record with
  | .basic _ => .error (.assertion "value != -1 && other.value != -1")
  | .compressed record => .ok
    { recipient with record := .compressed (record.advanceCompressedWindow start) }

def processReceivedBlockAckReq : BlockAckReq → Except Error (Recipient × List Msdu)
  | .basic fragmentNumber tidInfo multiTid compressedBitmap startingSequenceNumber =>
    match startingSequenceNumber with
    | none => pure (recipient, [])
    | some start =>
      if fragmentNumber ≠ 0 ∨ multiTid ∨ compressedBitmap ∨ tidInfo < 0 ∨ 15 < tidInfo then
        pure (recipient, [])
      else recipient.moveToStart start
  | .compressed fragmentNumber tidInfo multiTid compressedBitmap startingSequenceNumber
      chunkLength =>
    match startingSequenceNumber with
    | none => pure (recipient, [])
    | some start =>
      if fragmentNumber ≠ 0 ∨ multiTid ∨ ¬ compressedBitmap ∨ tidInfo < 0 ∨ 15 < tidInfo ∨
          chunkLength ≠ 20 then
        pure (recipient, [])
      else do
        let recipient ← recipient.advanceRecord start
        recipient.moveToStart start
  | .multiTid =>
    throw (Error.runtime "Multi-Tid BlockAckReq is currently an unimplemented feature")

end Recipient

end Inet.Ieee80211
