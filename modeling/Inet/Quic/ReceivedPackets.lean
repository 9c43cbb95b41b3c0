import Mathlib.Data.List.Basic
import Inet.Common.Error

/-! # The received packets of a QUIC endpoint

`ReceivedPacketsAccountant` keeps the packet numbers that are missing below
the largest received one, and writes ACK frames from them. Packet numbers are
`uint64_t`: additions and subtractions wrap around.
-/

namespace Inet.Quic

/-- `a + b` of two `uint64_t`. -/
def add64 (a b : ℕ) : ℕ := (a + b) % 2 ^ 64

/-- `a - b` of two `uint64_t`. -/
def sub64 (a b : ℕ) : ℕ := (a + 2 ^ 64 - b) % 2 ^ 64

theorem add64_of_lt {a b : ℕ} (h : a + b < 2 ^ 64) : add64 a b = a + b := Nat.mod_eq_of_lt h

theorem sub64_of_le {a b : ℕ} (h : b ≤ a) (ha : a < 2 ^ 64) : sub64 a b = a - b := by
  unfold sub64
  omega

def getVariableLengthIntegerSize (i : ℕ) : ℕ :=
  if i < 64 then 1 else if i < 2 ^ 14 then 2 else if i < 2 ^ 30 then 4 else 8

structure AckRange where
  gap : ℕ
  ackRange : ℕ
  deriving DecidableEq, Repr

structure AckFrameHeader where
  largestAck : ℕ
  ackDelay : ℕ
  ackRangeCount : ℕ
  firstAckRange : ℕ
  ackRange : List AckRange
  deriving DecidableEq, Repr

def AckRange.size (ackRange : AckRange) : ℕ :=
  getVariableLengthIntegerSize ackRange.gap + getVariableLengthIntegerSize ackRange.ackRange

/-- The length that `calcChunkLength` sets, in bytes. -/
def AckFrameHeader.calcChunkLength (ackFrame : AckFrameHeader) : ℕ :=
  1 + getVariableLengthIntegerSize ackFrame.largestAck +
    getVariableLengthIntegerSize ackFrame.ackDelay +
    getVariableLengthIntegerSize ackFrame.ackRangeCount +
    getVariableLengthIntegerSize ackFrame.firstAckRange +
    (ackFrame.ackRange.map AckRange.size).sum

structure GapRange where
  firstMissing : ℕ
  lastMissing : ℕ
  deriving DecidableEq, Repr

structure ReceivedPacketsAccountant where
  numReceivedAckElicitingsBeforeAck : ℕ
  useIBit : Bool
  /-- Whether the timer is scheduled; there is none for the Initial and the Handshake space. -/
  ackDelayTimer : Option Bool
  newAckInfo : Bool := false
  newAckInfoAboutAckElicitings : Bool := false
  sendAckImmediately : Bool := false
  numAckElicitingsReceivedSinceAck : ℕ := 0
  packetCounter : ℕ := 0
  largestAck : ℕ := 0
  smallestAck : ℕ := 0
  expectedPacketNumber : ℕ := 0
  gapRanges : List GapRange := []
  timeLargestAckReceived : ℕ := 0
  deriving DecidableEq, Repr

namespace ReceivedPacketsAccountant

def hasGapsSince (this : ReceivedPacketsAccountant) (packetNumber : ℕ) : Bool :=
  this.gapRanges.any fun gapRange => gapRange.firstMissing ≥ packetNumber

/-- What an ack-eliciting packet changes about when the next ACK is sent. -/
def onAckElicitingReceived (this : ReceivedPacketsAccountant)
    (packetReceivedOutOfOrder isIBitSet : Bool) (lastReceivedAckEliciting : ℕ) :
    ReceivedPacketsAccountant :=
  let this := { this with
    newAckInfoAboutAckElicitings := true
    numAckElicitingsReceivedSinceAck := this.numAckElicitingsReceivedSinceAck + 1 }
  match this.ackDelayTimer with
  | none => { this with sendAckImmediately := true }
  | some _ =>
    if this.numAckElicitingsReceivedSinceAck ≥ this.numReceivedAckElicitingsBeforeAck ∨
        packetReceivedOutOfOrder ∨ this.hasGapsSince lastReceivedAckEliciting ∨
        (this.useIBit ∧ isIBitSet) then
      { this with ackDelayTimer := some false, sendAckImmediately := true }
    else
      { this with ackDelayTimer := some true }

def countPacket (this : ReceivedPacketsAccountant) : ReceivedPacketsAccountant :=
  { this with
    packetCounter := this.packetCounter + 1
    expectedPacketNumber :=
      if this.packetCounter + 1 = 1 then 0 else this.expectedPacketNumber }

def updateLargestAck (this : ReceivedPacketsAccountant) (packetNumber simTime : ℕ) :
    ReceivedPacketsAccountant :=
  if packetNumber > this.largestAck ∨ this.largestAck = 0 then
    { this with largestAck := packetNumber, timeLargestAckReceived := simTime }
  else this

/-- The part of `onPacketReceived` before the gap ranges. `lastReceivedAckEliciting` is the static
variable of the function. -/
def noteReceived (this : ReceivedPacketsAccountant) (packetNumber : ℕ)
    (ackEliciting isIBitSet : Bool)
    (lastReceivedAckEliciting simTime : ℕ) : ReceivedPacketsAccountant :=
  let this := this.countPacket.updateLargestAck packetNumber simTime
  let this := { this with newAckInfo := true }
  if ackEliciting then
    this.onAckElicitingReceived (packetNumber ≠ this.expectedPacketNumber) isIBitSet
      lastReceivedAckEliciting
  else this

/-- The branch of a packet above the expected one. The last gap range is copied before it is
extended, so that nothing but the expected number changes. -/
def onLoss (this : ReceivedPacketsAccountant) (packetNumber : ℕ) : ReceivedPacketsAccountant :=
  let created := { this with
    gapRanges := this.gapRanges ++ [⟨this.expectedPacketNumber, sub64 packetNumber 1⟩]
    expectedPacketNumber := add64 packetNumber 1 }
  match this.gapRanges.getLast? with
  | some lastGapRange =>
    if sub64 lastGapRange.lastMissing packetNumber = 1 then
      { this with expectedPacketNumber := add64 packetNumber 1 }
    else created
  | none => created

/-- The loop over the gap ranges: the ranges without the packet, if one of them has it. -/
def fillGap (packetNumber : ℕ) : List GapRange → Option (List GapRange)
  | [] => none
  | gapRange :: gapRanges =>
    if packetNumber = gapRange.firstMissing ∧ packetNumber = gapRange.lastMissing then
      some gapRanges
    else if packetNumber = gapRange.firstMissing then
      some ({ gapRange with firstMissing := add64 packetNumber 1 } :: gapRanges)
    else if packetNumber = gapRange.lastMissing then
      some ({ gapRange with lastMissing := sub64 packetNumber 1 } :: gapRanges)
    else if packetNumber > gapRange.firstMissing ∧ packetNumber < gapRange.lastMissing then
      some ({ gapRange with lastMissing := sub64 packetNumber 1 } ::
        ⟨add64 packetNumber 1, gapRange.lastMissing⟩ :: gapRanges)
    else
      (fillGap packetNumber gapRanges).map (gapRange :: ·)

/-- The branch of a packet below all that are still reported. -/
def onLate (this : ReceivedPacketsAccountant) (packetNumber : ℕ) : ReceivedPacketsAccountant :=
  if add64 packetNumber 1 ≠ this.smallestAck then
    { this with
      gapRanges := this.gapRanges ++ [⟨add64 packetNumber 1, sub64 this.smallestAck 1⟩]
      smallestAck := packetNumber }
  else
    { this with smallestAck := packetNumber }

/-- The part of `onPacketReceived` that accounts for the gap ranges. -/
def accountGaps (this : ReceivedPacketsAccountant) (packetNumber : ℕ) :
    Except Error ReceivedPacketsAccountant :=
  if packetNumber = this.expectedPacketNumber then
    return { this with expectedPacketNumber := add64 packetNumber 1 }
  else if packetNumber > this.expectedPacketNumber then
    return this.onLoss packetNumber
  else
    match fillGap packetNumber this.gapRanges with
    | some gapRanges => return { this with gapRanges := gapRanges }
    | none =>
      if packetNumber < this.smallestAck then return this.onLate packetNumber
      else throw (.runtime "packetNumber %lu received, but is completely unexpected.")

def onPacketReceived (this : ReceivedPacketsAccountant) (packetNumber : ℕ)
    (ackEliciting isIBitSet : Bool) (lastReceivedAckEliciting simTime : ℕ) :
    Except Error ReceivedPacketsAccountant :=
  (this.noteReceived packetNumber ackEliciting isIBitSet lastReceivedAckEliciting
    simTime).accountGaps packetNumber

/-- The gap range and the packets below it, down to the previous gap range or, if there is none, to
the smallest reported packet. -/
def nextAckRange (smallestAck : ℕ) (currentGapRange : GapRange) (previous : List GapRange) :
    AckRange where
  gap := sub64 currentGapRange.lastMissing currentGapRange.firstMissing
  ackRange := match previous with
    | previousGapRange :: _ =>
      sub64 (sub64 currentGapRange.firstMissing 1) (add64 previousGapRange.lastMissing 1)
    | [] => sub64 (sub64 currentGapRange.firstMissing 1) smallestAck

/-- The loop of `generateAckFrame` over the gap ranges, from the last one down. -/
def generateAckRanges (smallestAck maxSize : ℕ) : List GapRange → ℕ → List AckRange
  | [], _ => []
  | currentGapRange :: previous, currentSize =>
    if currentGapRange.firstMissing = 0 then
      generateAckRanges smallestAck maxSize previous currentSize
    else
      let ackRange := nextAckRange smallestAck currentGapRange previous
      if currentSize + ackRange.size > maxSize then []
      else ackRange :: generateAckRanges smallestAck maxSize previous (currentSize + ackRange.size)

/-- The frame without its ack ranges. -/
def firstAckFrame (this : ReceivedPacketsAccountant) (ackDelayExponent simTime : ℕ) :
    AckFrameHeader where
  largestAck := this.largestAck
  ackDelay := (simTime - this.timeLargestAckReceived) >>> ackDelayExponent
  ackRangeCount := this.gapRanges.length
  firstAckRange := match this.gapRanges.getLast? with
    | none => sub64 this.largestAck this.smallestAck
    | some gapRange => sub64 (sub64 this.largestAck gapRange.lastMissing) 1
  ackRange := []

/-- The frame with the ack ranges that fit. -/
def ackFrame (this : ReceivedPacketsAccountant) (maxSize ackDelayExponent simTime : ℕ) :
    AckFrameHeader :=
  let ackFrame := this.firstAckFrame ackDelayExponent simTime
  let ackRanges := generateAckRanges this.smallestAck maxSize this.gapRanges.reverse
    ackFrame.calcChunkLength
  { ackFrame with ackRangeCount := ackRanges.length, ackRange := ackRanges }

def resetAckInfo (this : ReceivedPacketsAccountant) : ReceivedPacketsAccountant :=
  { this with
    ackDelayTimer := this.ackDelayTimer.map fun _ => false
    newAckInfo := false
    newAckInfoAboutAckElicitings := false
    sendAckImmediately := false
    numAckElicitingsReceivedSinceAck := 0 }

/-- `generateAckFrame`, `none` for the null pointer. -/
def generateAckFrame (this : ReceivedPacketsAccountant) (maxSize ackDelayExponent simTime : ℕ) :
    Except Error (Option AckFrameHeader × ReceivedPacketsAccountant) :=
  if (this.firstAckFrame ackDelayExponent simTime).calcChunkLength > maxSize then
    return (none, this.resetAckInfo)
  else do
    let ackFrame := this.ackFrame maxSize ackDelayExponent simTime
    assert (ackFrame.calcChunkLength ≤ maxSize) "ackFrame->getChunkLength() <= maxSize"
    return (some ackFrame, this.resetAckInfo)

def removeOldGapRanges (this : ReceivedPacketsAccountant) : ReceivedPacketsAccountant :=
  { this with gapRanges := this.gapRanges.dropWhile fun gapRange =>
      gapRange.firstMissing ≤ this.smallestAck }

/-- `onPacketAcked`, given the ACK frame that the acked packet had, if any. -/
def onPacketAcked (this : ReceivedPacketsAccountant) (ackFrame : Option AckFrameHeader) :
    ReceivedPacketsAccountant :=
  match ackFrame with
  | none => this
  | some ackFrame =>
    if ackFrame.largestAck > this.smallestAck then
      { this with smallestAck := ackFrame.largestAck }.removeOldGapRanges
    else this

end ReceivedPacketsAccountant

end Inet.Quic
