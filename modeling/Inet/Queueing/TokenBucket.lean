import Inet.Common.Error
import Mathlib.Data.Rat.Cast.Order
import Mathlib.Tactic.Linarith
import Mathlib.Tactic.Ring

/-! # Chained token buckets

`TokenBucket`, the mixin that holds several of them, and the meter that
removes the tokens of a packet from the first bucket that has enough. The
excess storage of a bucket is the next one in the chain, so a function called
on a bucket takes the chain from that bucket on. Numbers of tokens, rates and
times are exact.
-/

namespace Inet.Queueing

structure TokenBucket where
  numTokens : ℚ
  maxNumTokens : ℚ
  tokenProductionRate : ℚ
  excessTokenProductionRate : ℚ
  lastUpdate : ℚ
  deriving DecidableEq, Repr

namespace TokenBucket

/-- What `addTokenProductionRate` and `removeTokenProductionRate` share; the sign says which. -/
def changeTokenProductionRate (sign tokenRate : ℚ) :
    List TokenBucket → Except Error (List TokenBucket)
  | [] => .ok []
  | bucket :: storage => do
    assert (0 ≤ tokenRate) "tokenRate >= 0"
    if 0 < tokenRate then
      let (excessRate, storage) ← do
        if bucket.numTokens = bucket.maxNumTokens ∧ storage ≠ [] then
          assert (bucket.tokenProductionRate = bucket.excessTokenProductionRate)
            "tokenProductionRate == excessTokenProductionRate"
          let storage ← changeTokenProductionRate sign tokenRate storage
          pure (bucket.excessTokenProductionRate + sign * tokenRate, storage)
        else
          pure (bucket.excessTokenProductionRate, storage)
      assert (0 ≤ bucket.tokenProductionRate + sign * tokenRate) "tokenProductionRate >= 0"
      pure ({ bucket with
        tokenProductionRate := bucket.tokenProductionRate + sign * tokenRate
        excessTokenProductionRate := excessRate } :: storage)
    else
      pure (bucket :: storage)

def addTokenProductionRate (tokenRate : ℚ) :
    List TokenBucket → Except Error (List TokenBucket) :=
  changeTokenProductionRate 1 tokenRate

def removeTokenProductionRate (tokenRate : ℚ) :
    List TokenBucket → Except Error (List TokenBucket) :=
  changeTokenProductionRate (-1) tokenRate

def addTokens (addedNumTokens : ℚ) : List TokenBucket → Except Error (List TokenBucket)
  | [] => .ok []
  | bucket :: storage => do
    assert (0 ≤ addedNumTokens) "addedNumTokens >= 0"
    if 0 < addedNumTokens then
      let numTokens := bucket.numTokens + addedNumTokens
      if 0 < bucket.maxNumTokens ∧ bucket.maxNumTokens ≤ numTokens then
        if storage ≠ [] then
          let storage ← addTokens (numTokens - bucket.maxNumTokens) storage
          let storage ← addTokenProductionRate
            (bucket.tokenProductionRate - bucket.excessTokenProductionRate) storage
          pure ({ bucket with
            numTokens := bucket.maxNumTokens
            excessTokenProductionRate := bucket.tokenProductionRate } :: storage)
        else
          pure [{ bucket with numTokens := bucket.maxNumTokens }]
      else
        pure ({ bucket with numTokens := numTokens } :: storage)
    else
      pure (bucket :: storage)

def removeTokens (removedNumTokens : ℚ) : List TokenBucket → Except Error (List TokenBucket)
  | [] => .ok []
  | bucket :: storage => do
    assert (0 ≤ removedNumTokens) "removedNumTokens >= 0"
    if 0 < removedNumTokens then
      let (excessRate, storage) ← do
        if bucket.numTokens = bucket.maxNumTokens ∧ storage ≠ [] then
          assert (bucket.tokenProductionRate = bucket.excessTokenProductionRate)
            "tokenProductionRate == excessTokenProductionRate"
          let storage ← removeTokenProductionRate bucket.excessTokenProductionRate storage
          pure (0, storage)
        else
          pure (bucket.excessTokenProductionRate, storage)
      if bucket.numTokens < removedNumTokens then
        throw (Error.runtime "Insufficient number of tokens")
      pure ({ bucket with
        numTokens := bucket.numTokens - removedNumTokens
        excessTokenProductionRate := excessRate } :: storage)
    else
      pure (bucket :: storage)

/-- `updateNumTokens` on the first bucket. The chain behind it keeps its older update times. -/
def updateNumTokens (now : ℚ) : List TokenBucket → Except Error (List TokenBucket)
  | [] => .ok []
  | bucket :: storage => do
    let elapsedTime := now - bucket.lastUpdate
    match ← addTokens (bucket.tokenProductionRate * elapsedTime) (bucket :: storage) with
    | [] => pure []
    | bucket :: storage => pure ({ bucket with lastUpdate := now } :: storage)

end TokenBucket

/-- An element of the `buckets` parameter. -/
structure BucketConfiguration where
  initialNumTokens : ℚ
  maxNumTokens : ℚ
  tokenProductionRate : ℚ
  label : String
  initialNumTokens_nonneg : 0 ≤ initialNumTokens
  maxNumTokens_pos : 0 < maxNumTokens
  tokenProductionRate_nonneg : 0 ≤ tokenProductionRate

structure MultiTokenBucketMeter where
  buckets : List BucketConfiguration
  tokenConsumptionPerPacket : ℚ
  tokenConsumptionPerBit : ℚ
  defaultLabel : Option String
  tokenConsumptionPerPacket_nonneg : 0 ≤ tokenConsumptionPerPacket
  tokenConsumptionPerBit_nonneg : 0 ≤ tokenConsumptionPerBit

/-- A call of the meter: a packet of some length is metered, or the number of tokens is read. -/
inductive MeterCall where
  | meterPacket (now : ℚ) (dataLength : ℕ)
  | getNumTokens (now : ℚ)
  deriving DecidableEq, Repr

def MeterCall.now : MeterCall → ℚ
  | meterPacket now _ => now
  | getNumTokens now => now

/-- What can be seen of a call: the label that the packet gets, the tokens that are removed, and the
number of tokens in each bucket after it. -/
structure MeterReport where
  label : Option String
  removed : ℚ
  numTokens : List ℚ
  deriving DecidableEq, Repr

namespace MultiTokenBucketMeter

open TokenBucket

/-- The buckets as `INITSTAGE_LOCAL` constructs them, from the last to the first. -/
def constructBuckets : List BucketConfiguration → Except Error (List TokenBucket)
  | [] => .ok []
  | configuration :: configurations => do
    let storage ← constructBuckets configurations
    addTokens configuration.initialNumTokens
      ({ numTokens := 0
         maxNumTokens := configuration.maxNumTokens
         tokenProductionRate := configuration.tokenProductionRate
         excessTokenProductionRate := 0
         lastUpdate := 0 } :: storage)

/-- `getNumTokens` called on each of the first buckets in turn. -/
def getNumTokensOfEach (now : ℚ) :
    ℕ → List TokenBucket → Except Error (List TokenBucket × List ℚ)
  | 0, buckets => pure (buckets, [])
  | count + 1, buckets => do
    match ← updateNumTokens now buckets with
    | [] => pure ([], [])
    | bucket :: storage =>
      let (storage, numTokens) ← getNumTokensOfEach now count storage
      pure (bucket :: storage, bucket.numTokens :: numTokens)

/-- `MultiTokenBucketMixin::getNumTokens`. -/
def getNumTokens (now : ℚ) (buckets : List TokenBucket) :
    Except Error (List TokenBucket × ℚ) := do
  let (buckets, numTokens) ← getNumTokensOfEach now buckets.length buckets
  pure (buckets, numTokens.sum)

/-- `emitTokensChangedSignals`, with the values that are emitted. -/
def emitTokensChangedSignals (now : ℚ) (buckets : List TokenBucket) :
    Except Error (List TokenBucket × ℚ × List ℚ) := do
  let (buckets, total) ← getNumTokens now buckets
  let (buckets, numTokens) ← getNumTokensOfEach now buckets.length buckets
  pure (buckets, total, numTokens)

/-- The loop of `meterPacket`: the index of the bucket whose tokens are removed. -/
def removePacketTokens (now numTokens : ℚ) :
    ℕ → List TokenBucket → Except Error (List TokenBucket × Option ℕ)
  | 0, buckets => pure (buckets, none)
  | count + 1, buckets => do
    match ← updateNumTokens now buckets with
    | [] => pure ([], none)
    | bucket :: storage =>
      if numTokens ≤ bucket.numTokens then
        let buckets ← removeTokens numTokens (bucket :: storage)
        pure (buckets, some 0)
      else
        let (storage, index) ← removePacketTokens now numTokens count storage
        pure (bucket :: storage, index.map (· + 1))

variable (meter : MultiTokenBucketMeter)

def getNumPacketTokens (dataLength : ℕ) : ℚ :=
  dataLength * meter.tokenConsumptionPerBit + meter.tokenConsumptionPerPacket

/-- `meterPacket`: the buckets after it, the label and the tokens removed. -/
def meterPacket (now : ℚ) (dataLength : ℕ) (buckets : List TokenBucket) :
    Except Error (List TokenBucket × Option String × ℚ) := do
  let (buckets, _) ← emitTokensChangedSignals now buckets
  let numTokens := meter.getNumPacketTokens dataLength
  match ← removePacketTokens now numTokens buckets.length buckets with
  | (buckets, some index) =>
    let (buckets, _) ← emitTokensChangedSignals now buckets
    pure (buckets, (meter.buckets.map (·.label))[index]?, numTokens)
  | (buckets, none) => pure (buckets, meter.defaultLabel, 0)

def call (buckets : List TokenBucket) :
    MeterCall → Except Error (List TokenBucket × MeterReport)
  | .meterPacket now dataLength => do
    let (buckets, label, removed) ← meter.meterPacket now dataLength buckets
    pure (buckets, ⟨label, removed, buckets.map (·.numTokens)⟩)
  | .getNumTokens now => do
    let (buckets, _) ← getNumTokens now buckets
    pure (buckets, ⟨none, 0, buckets.map (·.numTokens)⟩)

/-- A run: the buckets at its end, and each call with its report. -/
def run : List TokenBucket → List MeterCall →
    Except Error (List TokenBucket × List (MeterCall × MeterReport))
  | buckets, [] => pure (buckets, [])
  | buckets, c :: calls => do
    let (buckets, report) ← meter.call buckets c
    let (buckets, reports) ← run buckets calls
    pure (buckets, (c, report) :: reports)

end MultiTokenBucketMeter

end Inet.Queueing
