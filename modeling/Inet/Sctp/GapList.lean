import Inet.Common.Error
import Mathlib.Logic.Function.Basic

/-! # The gap list of an SCTP association

The blocks of TSNs that are received behind the cumulative ack are kept in
arrays of a fixed size. A loop that makes room for a block drops the last one
when the arrays are full.
-/

namespace Inet.Sctp

abbrev Tsn := BitVec 32

/-- `SCTP_TSN_GT` -/
def tsnGt (tsn1 tsn2 : Tsn) : Bool :=
  (decide (tsn1 < tsn2) && decide ((tsn2 - tsn1).toNat > 2 ^ 31)) ||
    (decide (tsn1 > tsn2) && decide ((tsn1 - tsn2).toNat < 2 ^ 31))

/-- `SCTP_TSN_GE` -/
def tsnGe (tsn1 tsn2 : Tsn) : Bool := tsnGt tsn1 tsn2 || tsn1 == tsn2

def tsnLe (tsn1 tsn2 : Tsn) : Bool := tsnGe tsn2 tsn1

def tsnBetween (tsn1 midtsn tsn2 : Tsn) : Bool := tsnGe midtsn tsn1 && tsnGe tsn2 midtsn

def MAX_GAP_COUNT : ℕ := 500

/-- What the two arrays hold at an index. -/
structure Block where
  start : Tsn
  stop : Tsn
  deriving DecidableEq, Repr

/-- `gaps i` is `GapStartList[i]` and `GapStopList[i]`. -/
structure SctpSimpleGapList where
  numGaps : ℕ
  gaps : ℕ → Block

namespace SctpSimpleGapList

def new : SctpSimpleGapList := ⟨0, fun _ => ⟨0xffff00ff#32, 0xffff0000#32⟩⟩

/-! ## The arrays -/

def outside : Error := .undefinedBehavior "index outside of GapStartList and GapStopList"

def get (this : SctpSimpleGapList) (i : ℕ) : Except Error Block :=
  if i < MAX_GAP_COUNT then pure (this.gaps i) else throw outside

def set (this : SctpSimpleGapList) (i : ℕ) (block : Block) : Except Error SctpSimpleGapList :=
  if i < MAX_GAP_COUNT then pure { this with gaps := Function.update this.gaps i block }
  else throw outside

def setStart (this : SctpSimpleGapList) (i : ℕ) (start : Tsn) : Except Error SctpSimpleGapList := do
  let block ← this.get i
  this.set i { block with start }

def setStop (this : SctpSimpleGapList) (i : ℕ) (stop : Tsn) : Except Error SctpSimpleGapList := do
  let block ← this.get i
  this.set i { block with stop }

/-- `i - 1` of type `uint32_t` -/
def before (i : ℕ) : ℕ := (i + (2 ^ 32 - 1)) % 2 ^ 32

/-- The loops that move entries to the front, over as many entries from `i` on. -/
def moveDown (this : SctpSimpleGapList) (distance : ℕ) : ℕ → ℕ → Except Error SctpSimpleGapList
  | 0, _ => pure this
  | count + 1, i => do
    let block ← this.get (i + distance)
    let this ← this.set i block
    this.moveDown distance count (i + 1)

/-- The loops that move the entries from `i` to the back, down from the entry `j`. -/
def moveUp (this : SctpSimpleGapList) (i : ℕ) : ℕ → Except Error SctpSimpleGapList
  | 0 => pure this
  | j + 1 =>
    if j + 1 > i then do
      let block ← this.get j
      let this ← this.set (j + 1) block
      this.moveUp i j
    else pure this

/-! ## The operations -/

/-- The asserts of the loop of `check` from `i` on. -/
def checkFrom (this : SctpSimpleGapList) (cTsnAck : Tsn) : ℕ → ℕ → Except Error Unit
  | 0, _ => pure ()
  | rest + 1, i => do
    let gap ← this.get i
    if i = 0 then
      assert (tsnGt gap.start (cTsnAck + 1) = true) "tsnGt(GapStartList[i], cTsnAck + 1)"
    else do
      let last ← this.get (i - 1)
      assert (tsnGt gap.start (last.stop + 1) = true)
        "tsnGt(GapStartList[i], GapStopList[i - 1] + 1)"
    assert (tsnLe gap.start gap.stop = true) "tsnLe(GapStartList[i], GapStopList[i])"
    this.checkFrom cTsnAck rest (i + 1)

def check (this : SctpSimpleGapList) (cTsnAck : Tsn) : Except Error Unit :=
  this.checkFrom cTsnAck this.numGaps 0

def resetGaps (_ : SctpSimpleGapList) : SctpSimpleGapList := new

/-- The blocks of the list. -/
def blocks (this : SctpSimpleGapList) : List Block := (List.range this.numGaps).map this.gaps

def tsnInGapList (this : SctpSimpleGapList) (tsn : Tsn) : Bool :=
  this.blocks.any fun block => tsnBetween block.start tsn block.stop

/-- How many blocks the cumulative ack has reached, from `counter` on. -/
def countReached (this : SctpSimpleGapList) (cTsnAck : Tsn) : ℕ → ℕ → Except Error ℕ
  | 0, counter => pure counter
  | rest + 1, counter => do
    let gap ← this.get counter
    if tsnGe cTsnAck gap.start then this.countReached cTsnAck rest (counter + 1) else pure counter

def forwardCumAckTsn (this : SctpSimpleGapList) (cTsnAck : Tsn) :
    Except Error SctpSimpleGapList := do
  let advance ← this.countReached cTsnAck this.numGaps 0
  if advance > 0 then do
    let this ← this.moveDown advance (this.numGaps - advance) 0
    pure { this with numGaps := this.numGaps - advance }
  else pure this

/-- The turns of the loop of `tryToAdvanceCumAckTsn`: the list, the cumulative ack and whether
there is progress. The count of the blocks stays. -/
def advanceTurns (this : SctpSimpleGapList) (cTsnAck : Tsn) (progress : Bool) :
    ℕ → Except Error (SctpSimpleGapList × Tsn × Bool)
  | 0 => pure (this, cTsnAck, progress)
  | turns + 1 => do
    let first ← this.get 0
    if cTsnAck + 1 = first.start then do
      let this ← this.moveDown 1 (this.numGaps - 1) 0
      this.advanceTurns first.stop true turns
    else this.advanceTurns cTsnAck progress turns

def tryToAdvanceCumAckTsn (this : SctpSimpleGapList) (cTsnAck : Tsn) :
    Except Error (SctpSimpleGapList × Tsn × Bool) :=
  this.advanceTurns cTsnAck false this.numGaps

/-- The last block before `count` that has the TSN. -/
def findLast (this : SctpSimpleGapList) (tsn : Tsn) : ℕ → Except Error (Option ℕ)
  | 0 => pure none
  | i + 1 => do
    let gap ← this.get i
    if tsnBetween gap.start tsn gap.stop then pure (some i) else this.findLast tsn i

/-- What `removeFromGapList` does to the block that has the TSN. -/
def removeFromBlock (this : SctpSimpleGapList) (removedTsn : Tsn) (i : ℕ) :
    Except Error SctpSimpleGapList := do
  let gap ← this.get i
  let gapsize := (gap.stop - gap.start + 1).toInt
  if gapsize > 1 then
    if gap.stop = removedTsn then this.setStop i (gap.stop - 1)
    else if gap.start = removedTsn then this.setStart i (gap.start + 1)
    else do
      let this := { this with numGaps := min (this.numGaps + 1) MAX_GAP_COUNT }
      let this ← this.moveUp i (this.numGaps - 1)
      let this ← this.setStop i (removedTsn - 1)
      if i + 1 < this.numGaps then this.setStart (i + 1) (removedTsn + 1) else pure this
  else do
    let this ← this.moveDown 1 (this.numGaps - i) i
    let this ← this.set (this.numGaps - 1) ⟨0, 0⟩
    pure { this with numGaps := this.numGaps - 1 }

def removeFromGapList (this : SctpSimpleGapList) (removedTsn : Tsn) :
    Except Error SctpSimpleGapList := do
  match ← this.findLast removedTsn this.numGaps with
  | some i => this.removeFromBlock removedTsn i
  | none => pure this

/-- The loop of `updateGapList` from `i` on: the block that the TSN is right before, with the end
of what is before it, or no block and the end of the last one. -/
def findGap (this : SctpSimpleGapList) (receivedTsn : Tsn) :
    ℕ → ℕ → Tsn → Except Error (Option ℕ × Tsn)
  | 0, _, lo => pure (none, lo)
  | rest + 1, i, lo => do
    let gap ← this.get i
    if gap.start > 0 then
      if tsnBetween lo receivedTsn (gap.start - 1) then pure (some i, lo)
      else this.findGap receivedTsn rest (i + 1) (gap.stop + 1)
    else this.findGap receivedTsn rest (i + 1) lo

/-- A block is taken out after its TSNs have been added to what is before it. -/
def removeBlock (this : SctpSimpleGapList) (i : ℕ) : Except Error SctpSimpleGapList := do
  let this ← if i = this.numGaps - 1 then this.set i ⟨0, 0⟩
    else this.moveDown 1 (this.numGaps - 1 - i) i
  pure { this with numGaps := this.numGaps - 1 }

/-- What `updateGapList` does when the TSN is between `lo` and the block `i`. -/
def updateBefore (this : SctpSimpleGapList) (receivedTsn cTsnAck : Tsn) (i : ℕ) (lo : Tsn) :
    Except Error (SctpSimpleGapList × Tsn) := do
  let gap ← this.get i
  let hi := gap.start - 1
  let gapsize := hi - lo + 1
  if gapsize > 1 then
    if receivedTsn = hi then do
      let this ← this.setStart i receivedTsn
      pure (this, cTsnAck)
    else if receivedTsn = lo then
      if receivedTsn = cTsnAck + 1 then pure (this, cTsnAck + 1)
      else do
        let this ← this.setStop (before i) receivedTsn
        pure (this, cTsnAck)
    else do
      let this := { this with numGaps := min (this.numGaps + 1) MAX_GAP_COUNT }
      let this ← this.moveUp i (this.numGaps - 1)
      let this ← this.set i ⟨receivedTsn, receivedTsn⟩
      pure (this, cTsnAck)
  else if lo = cTsnAck + 1 then do
    let this ← this.removeBlock i
    pure (this, gap.stop)
  else do
    let this ← this.setStop (before i) gap.stop
    let this ← this.removeBlock i
    pure (this, cTsnAck)

/-- The end of `updateGapList`, when the TSN is in no gap before a block; `lo` is behind the last
block. -/
def updateBehind (this : SctpSimpleGapList) (receivedTsn cTsnAck : Tsn) (newChunkReceived : Bool)
    (lo : Tsn) : Except Error (SctpSimpleGapList × Tsn × Bool) :=
  if receivedTsn = lo then
    if receivedTsn = cTsnAck + 1 then pure (this, receivedTsn, true)
    else do
      let last ← this.get (before this.numGaps)
      let this ← this.setStop (before this.numGaps) (last.stop + 1)
      pure (this, cTsnAck, true)
  else do
    let isNew ← if this.numGaps = 0 then pure true
      else do
        let last ← this.get (this.numGaps - 1)
        pure (tsnGt receivedTsn (last.stop + 1))
    if isNew && decide (this.numGaps < MAX_GAP_COUNT) then do
      let this ← this.set this.numGaps ⟨receivedTsn, receivedTsn⟩
      pure ({ this with numGaps := this.numGaps + 1 }, cTsnAck, true)
    else pure (this, cTsnAck, newChunkReceived)

/-- The list, the cumulative ack, whether a new chunk was received, and the result. -/
def updateGapList (this : SctpSimpleGapList) (receivedTsn cTsnAck : Tsn) (newChunkReceived : Bool) :
    Except Error (SctpSimpleGapList × Tsn × Bool × Bool) := do
  if tsnLe receivedTsn cTsnAck then pure (this, cTsnAck, newChunkReceived, false)
  else
    match ← this.findGap receivedTsn this.numGaps 0 (cTsnAck + 1) with
    | (some i, lo) => do
      let (this, cTsnAck) ← this.updateBefore receivedTsn cTsnAck i lo
      pure (this, cTsnAck, true, true)
    | (none, lo) => do
      let (this, cTsnAck, newChunkReceived) ←
        this.updateBehind receivedTsn cTsnAck newChunkReceived lo
      pure (this, cTsnAck, newChunkReceived, true)

end SctpSimpleGapList

end Inet.Sctp
