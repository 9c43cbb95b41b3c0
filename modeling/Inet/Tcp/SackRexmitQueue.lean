import Inet.Common.Error
import Inet.Tcp.Seq

/-! # The SACK retransmission queue

The queue keeps the sent and not yet acknowledged bytes as regions with flags,
and splits a region where a flag is set for a part of it. What the connection
says is given to the operations that ask for it.
-/

namespace Inet.Tcp

structure Region where
  beginSeqNum : Seq
  endSeqNum : Seq
  lost : Bool
  sacked : Bool
  everSacked : Bool
  rexmitted : Bool
  firstSentTime : ℤ
  lastSentTime : ℤ
  transmitCount : BitVec 16
  deriving DecidableEq, Repr

/-- The members `begin` and `end` are named after their getters. -/
structure TcpSackRexmitQueue where
  rexmitQueue : List Region
  xmitSegmentStarts : List Seq
  bufferStartSeq : Seq
  bufferEndSeq : Seq
  countersValid : Bool
  lostBytes : BitVec 32
  sackedBytes : BitVec 32
  retransBytes : BitVec 32
  deriving DecidableEq, Repr

namespace TcpSackRexmitQueue

def new : TcpSackRexmitQueue := ⟨[], [], 0, 0, false, 0, 0, 0⟩

def invalidateCounters (this : TcpSackRexmitQueue) : TcpSackRexmitQueue :=
  { this with countersValid := false }

def init (this : TcpSackRexmitQueue) (seqNum : Seq) : TcpSackRexmitQueue :=
  { this.invalidateCounters with bufferStartSeq := seqNum, bufferEndSeq := seqNum }

/-- The loop of `checkQueue`: the end of the last region, and whether the regions are connected. -/
def checkRegions (b : Seq) (f : Bool) : List Region → Seq × Bool
  | [] => (b, f)
  | elem :: regions =>
    checkRegions elem.endSeqNum
      (f && b == elem.beginSeqNum && seqLess elem.beginSeqNum elem.endSeqNum) regions

def checkQueue (this : TcpSackRexmitQueue) : Bool :=
  let (b, f) := checkRegions this.bufferStartSeq true this.rexmitQueue
  f && b == this.bufferEndSeq

/-- The queue, unless `ASSERT(checkQueue())` fails. -/
def checked (this : TcpSackRexmitQueue) : Except Error TcpSackRexmitQueue := do
  assert this.checkQueue "checkQueue()"
  return this

def discardFrom (this : TcpSackRexmitQueue) (seqNum : Seq) : Except Error TcpSackRexmitQueue := do
  let this := this.invalidateCounters
  assert (seqLE this.bufferStartSeq seqNum && seqLE seqNum this.bufferEndSeq)
    "seqLE(begin, seqNum) && seqLE(seqNum, end)"
  checked { this with
    rexmitQueue := this.rexmitQueue.filterMap fun i =>
      if seqGE i.beginSeqNum seqNum then none
      else if seqGreater i.endSeqNum seqNum then some { i with endSeqNum := seqNum }
      else some i
    xmitSegmentStarts := this.xmitSegmentStarts.filter fun s => !seqGE s seqNum
    bufferEndSeq := seqNum }

/-- The loop of `addInferredSack`. -/
def sackFirst : List Region → List Region
  | [] => []
  | i :: regions =>
    if i.sacked || i.lost then i :: sackFirst regions else { i with sacked := true } :: regions

def addInferredSack (this : TcpSackRexmitQueue) : TcpSackRexmitQueue :=
  let this := this.invalidateCounters
  match this.rexmitQueue with
  | [] => this
  | head :: regions => { this with rexmitQueue := head :: sackFirst regions }

/-- The mark of a first region that cannot be SACKed moves to the next segment. -/
def moveInferredSack (this : TcpSackRexmitQueue) : TcpSackRexmitQueue :=
  match this.rexmitQueue with
  | [] => this
  | head :: regions =>
    if head.sacked then
      addInferredSack { this with rexmitQueue := { head with sacked := false } :: regions }
    else this

/-- The regions behind the discarded ones. -/
def discardRegions (seqNum : Seq) (regions : List Region) : Except Error (List Region) :=
  match regions.dropWhile fun i => seqLE i.endSeqNum seqNum with
  | [] => return []
  | i :: regions => do
    assert (seqLE i.beginSeqNum seqNum && seqLess seqNum i.endSeqNum)
      "seqLE(i->beginSeqNum, seqNum) && seqLess(seqNum, i->endSeqNum)"
    return { i with beginSeqNum := seqNum } :: regions

/-- `discardUpTo`; `sackEnabled` is none for a queue without a connection. -/
def discardUpTo (this : TcpSackRexmitQueue) (seqNum : Seq) (sackEnabled : Option Bool) :
    Except Error TcpSackRexmitQueue := do
  let this := this.invalidateCounters
  assert (seqLE this.bufferStartSeq seqNum && seqLE seqNum this.bufferEndSeq)
    "seqLE(begin, seqNum) && seqLE(seqNum, end)"
  let rexmitQueue ← discardRegions seqNum this.rexmitQueue
  let xmitSegmentStarts := if this.rexmitQueue.isEmpty then this.xmitSegmentStarts
    else this.xmitSegmentStarts.filter fun s => !seqLess s seqNum
  let this := { this with rexmitQueue := rexmitQueue, xmitSegmentStarts := xmitSegmentStarts }
  let this := if sackEnabled = some false then this.moveInferredSack else this
  checked { this with bufferStartSeq := seqNum }

/-- A region is split where it does not begin at a sequence number; the first part goes before
it. -/
def splitFront (fromSeqNum : Seq) (i : Region) : List Region × Region :=
  if i.beginSeqNum ≠ fromSeqNum then
    ([{ i with endSeqNum := fromSeqNum }], { i with beginSeqNum := fromSeqNum })
  else ([], i)

/-- The regions before a sequence number and those behind it, the first of which begins there. -/
def splitRegions (fromSeqNum : Seq) (regions : List Region) :
    Except Error (List Region × List Region) :=
  match regions.span fun i => seqLE i.endSeqNum fromSeqNum with
  | (_, []) => throw (.assertion "i != rexmitQueue.end()")
  | (skipped, i :: regions) => do
    assert (seqLE i.beginSeqNum fromSeqNum && seqLess fromSeqNum i.endSeqNum)
      "seqLE(i->beginSeqNum, fromSeqNum) && seqLess(fromSeqNum, i->endSeqNum)"
    let (front, i) := splitFront fromSeqNum i
    return (skipped ++ front, i :: regions)

/-- A region that is sent for the first time. -/
def sentRegion (fromSeqNum toSeqNum : Seq) (now : ℤ) : Region :=
  ⟨fromSeqNum, toSeqNum, false, false, false, false, now, now, 1⟩

def retransmit (now : ℤ) (i : Region) : Region :=
  { i with rexmitted := true, lastSentTime := now, transmitCount := i.transmitCount + 1 }

/-- What is left of the sent data behind the regions that it covers. -/
def enqueueRest (fromSeqNum toSeqNum : Seq) (now : ℤ) :
    List Region → Except Error (List Region)
  | [] => return [sentRegion fromSeqNum toSeqNum now]
  | i :: regions => do
    assert (seqLess i.beginSeqNum toSeqNum)
      "i == rexmitQueue.end() || seqLess(i->beginSeqNum, toSeqNum)"
    return { retransmit now i with beginSeqNum := fromSeqNum, endSeqNum := toSeqNum } ::
      { i with beginSeqNum := toSeqNum } :: regions

/-- The regions after some of their data has been sent again, and more data behind them. On every
path some region is found and `fromSeqNum` ends as `toSeqNum`, as the source asserts. -/
def enqueueRegions (fromSeqNum toSeqNum : Seq) (now : ℤ) (regions : List Region) :
    Except Error (List Region) := do
  let (skipped, regions) ← splitRegions fromSeqNum regions
  let (covered, regions) := regions.span fun i => seqLE i.endSeqNum toSeqNum
  let fromSeqNum := (covered.getLast?.map Region.endSeqNum).getD fromSeqNum
  let regions ← if fromSeqNum ≠ toSeqNum then enqueueRest fromSeqNum toSeqNum now regions
    else pure regions
  return skipped ++ covered.map (retransmit now) ++ regions

/-- `begin` and `end` are read off the regions. -/
def setBounds (this : TcpSackRexmitQueue) : Except Error TcpSackRexmitQueue :=
  match this.rexmitQueue.head?, this.rexmitQueue.getLast? with
  | some front, some back =>
    return { this with bufferStartSeq := front.beginSeqNum, bufferEndSeq := back.endSeqNum }
  | _, _ => throw (.undefinedBehavior "front() of an empty list")

def enqueueSentData (this : TcpSackRexmitQueue) (fromSeqNum toSeqNum : Seq) (now : ℤ) :
    Except Error TcpSackRexmitQueue := do
  let this := this.invalidateCounters
  assert (seqLE this.bufferStartSeq fromSeqNum && seqLE fromSeqNum this.bufferEndSeq)
    "seqLE(begin, fromSeqNum) && seqLE(fromSeqNum, end)"
  assert (seqLess fromSeqNum toSeqNum) "seqLess(fromSeqNum, toSeqNum)"
  let this ←
    if this.rexmitQueue.isEmpty || this.bufferEndSeq == fromSeqNum then
      pure { this with
        xmitSegmentStarts := this.xmitSegmentStarts.insert fromSeqNum
        rexmitQueue := this.rexmitQueue ++ [sentRegion fromSeqNum toSeqNum now] }
    else do
      let rexmitQueue ← enqueueRegions fromSeqNum toSeqNum now this.rexmitQueue
      pure { this with rexmitQueue := rexmitQueue }
  (← this.setBounds).checked

/-- The regions with a range of them changed. The last one may be covered in part; then
`changePart` changes the part of it. -/
def changeRegions (change changePart : Region → Region) (fromSeqNum toSeqNum : Seq)
    (regions : List Region) : Except Error (List Region) := do
  let (skipped, regions) ← splitRegions fromSeqNum regions
  let (covered, regions) := regions.span fun i => seqLE i.endSeqNum toSeqNum
  let changed := covered.map fun i => if seqGE i.beginSeqNum fromSeqNum then change i else i
  match regions with
  | i :: rest =>
    if seqLess i.beginSeqNum toSeqNum && seqLess toSeqNum i.endSeqNum then
      return skipped ++ changed ++
        changePart { i with endSeqNum := toSeqNum } :: { i with beginSeqNum := toSeqNum } :: rest
    else return skipped ++ changed ++ regions
  | [] => return skipped ++ changed

def sack (i : Region) : Region := { i with lost := false, sacked := true, everSacked := true }

/-- The loop of `setSackedBit` that finds the lowest newly marked sequence number. -/
def newlySacked (fromSeqNum toSeqNum : Seq) (regions : List Region) : Seq :=
  (regions.takeWhile fun i => seqLE i.endSeqNum toSeqNum).foldl (fun newlySackedLow i =>
    if seqGE i.beginSeqNum fromSeqNum && !i.sacked && !i.everSacked && i.transmitCount ≤ 1 &&
      newlySackedLow == 0 then i.beginSeqNum else newlySackedLow) 0

/-- `fromSeqNum`, but not before `begin`. -/
def clampFrom (this : TcpSackRexmitQueue) (fromSeqNum : Seq) : Seq :=
  if seqLess fromSeqNum this.bufferStartSeq then this.bufferStartSeq else fromSeqNum

def setSackedBit (this : TcpSackRexmitQueue) (fromSeqNum toSeqNum : Seq) :
    Except Error (TcpSackRexmitQueue × Seq) := do
  let this := this.invalidateCounters
  let fromSeqNum := this.clampFrom fromSeqNum
  assert (seqLess fromSeqNum this.bufferEndSeq) "seqLess(fromSeqNum, end)"
  assert (seqLess this.bufferStartSeq toSeqNum && seqLE toSeqNum this.bufferEndSeq)
    "seqLess(begin, toSeqNum) && seqLE(toSeqNum, end)"
  assert (seqLess fromSeqNum toSeqNum) "seqLess(fromSeqNum, toSeqNum)"
  if this.rexmitQueue.isEmpty then return (← this.checked, 0)
  else
    let (_, regions) ← splitRegions fromSeqNum this.rexmitQueue
    let rexmitQueue ← changeRegions sack sack fromSeqNum toSeqNum this.rexmitQueue
    return (← checked { this with rexmitQueue := rexmitQueue },
      newlySacked fromSeqNum toSeqNum regions)

def markHeadLost (this : TcpSackRexmitQueue) : Except Error TcpSackRexmitQueue :=
  match this.rexmitQueue with
  | [] => throw (.assertion "!rexmitQueue.empty()")
  | head :: regions =>
    return { this.invalidateCounters with rexmitQueue := { head with lost := true } :: regions }

def resetLostBit (this : TcpSackRexmitQueue) : TcpSackRexmitQueue :=
  { this.invalidateCounters with
    rexmitQueue := this.rexmitQueue.map fun elem => { elem with lost := false } }

def markLost (this : TcpSackRexmitQueue) (fromSeqNum toSeqNum : Seq) :
    Except Error TcpSackRexmitQueue := do
  let this := this.invalidateCounters
  let fromSeqNum := this.clampFrom fromSeqNum
  if seqLE toSeqNum fromSeqNum then return this
  else
    assert (seqLess fromSeqNum this.bufferEndSeq) "seqLess(fromSeqNum, end)"
    assert (seqLE toSeqNum this.bufferEndSeq) "seqLE(toSeqNum, end)"
    if this.rexmitQueue.isEmpty then this.checked
    else
      let rexmitQueue ← changeRegions (fun i => if !i.sacked then { i with lost := true } else i)
        (fun region => { region with lost := !region.sacked }) fromSeqNum toSeqNum this.rexmitQueue
      checked { this with rexmitQueue := rexmitQueue }

def resetSackedBit (this : TcpSackRexmitQueue) : TcpSackRexmitQueue :=
  { this.invalidateCounters with
    rexmitQueue := this.rexmitQueue.map fun elem => { elem with sacked := false } }

def resetRexmittedBit (this : TcpSackRexmitQueue) : TcpSackRexmitQueue :=
  { this.invalidateCounters with
    rexmitQueue := this.rexmitQueue.map fun elem => { elem with rexmitted := false } }

/-- The loop of `updateLost`, from the last region on. -/
def updateLostRegions (reordering : ℤ) : List Region → List Region × ℤ
  | [] => ([], 0)
  | i :: regions =>
    let (regions, numSacked) := updateLostRegions reordering regions
    let numSacked := if i.sacked then numSacked + 1 else numSacked
    (if numSacked ≥ reordering ∧ ¬ i.sacked then { i with lost := true } :: regions
      else i :: regions, numSacked)

def updateLost (this : TcpSackRexmitQueue) (reordering : ℤ) : TcpSackRexmitQueue :=
  { this.invalidateCounters with
    rexmitQueue := (updateLostRegions reordering this.rexmitQueue).1 }

/-- The loop of `clearRexmitted`. -/
def clearRexmittedRegions (fromSeqNum toSeqNum : Seq) : List Region → List Region
  | [] => []
  | region :: regions =>
    if seqGE region.beginSeqNum toSeqNum then region :: regions
    else if seqGE region.beginSeqNum fromSeqNum && region.rexmitted && !region.sacked then
      { region with rexmitted := false } :: clearRexmittedRegions fromSeqNum toSeqNum regions
    else region :: clearRexmittedRegions fromSeqNum toSeqNum regions

def clearRexmitted (this : TcpSackRexmitQueue) (fromSeqNum toSeqNum : Seq) : TcpSackRexmitQueue :=
  { this.invalidateCounters with
    rexmitQueue := clearRexmittedRegions fromSeqNum toSeqNum this.rexmitQueue }

/-- A total that `updateCounters` computes. -/
def sumLengths (flag : Region → Bool) (regions : List Region) : BitVec 32 :=
  regions.foldl (fun total region =>
    if flag region then total + (region.endSeqNum - region.beginSeqNum) else total) 0

/-- `updateCounters`, in a build with or without `NDEBUG`. -/
def updateCounters (ndebug : Bool) (this : TcpSackRexmitQueue) :
    Except Error TcpSackRexmitQueue := do
  if ndebug && this.countersValid then return this
  else
    let lost := sumLengths Region.lost this.rexmitQueue
    let sacked := sumLengths Region.sacked this.rexmitQueue
    let retrans := sumLengths Region.rexmitted this.rexmitQueue
    assert (!this.countersValid || (lost == this.lostBytes && sacked == this.sackedBytes &&
        retrans == this.retransBytes))
      "!countersValid || (lost == lostBytes && sacked == sackedBytes && retrans == retransBytes)"
    return { this with
      countersValid := true, lostBytes := lost, sackedBytes := sacked, retransBytes := retrans }

def getLost (ndebug : Bool) (this : TcpSackRexmitQueue) :
    Except Error (TcpSackRexmitQueue × BitVec 32) := do
  let this ← this.updateCounters ndebug
  return (this, this.lostBytes)

def getSacked (ndebug : Bool) (this : TcpSackRexmitQueue) :
    Except Error (TcpSackRexmitQueue × BitVec 32) := do
  let this ← this.updateCounters ndebug
  return (this, this.sackedBytes)

def getRetrans (ndebug : Bool) (this : TcpSackRexmitQueue) :
    Except Error (TcpSackRexmitQueue × BitVec 32) := do
  let this ← this.updateCounters ndebug
  return (this, this.retransBytes)

end TcpSackRexmitQueue

end Inet.Tcp
