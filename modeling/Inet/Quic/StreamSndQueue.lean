import Inet.Buffer.Assemble
import Inet.Lib.OrderedMap
import Inet.Quic.ReceivedPackets

/-! # The send queue of a stream

The data of the application lies in a chunk buffer. A region of it that has
been sent and is neither acknowledged nor lost is outstanding. The next region
to send is the first part of the buffer behind the start offset and between
two outstanding regions.
-/

namespace Inet.Quic

open Chunk Outcome

namespace StreamSndQueue

structure Region where
  offset : ℤ
  length : ℤ
  deriving DecidableEq, Repr

/-- What stands for no data to send. -/
def Region.none : Region := ⟨-1, 0⟩

end StreamSndQueue

structure StreamSndQueue where
  sendBuffer : ChunkBuffer
  addOffset : ℤ
  outstandingRegions : List StreamSndQueue.Region

namespace StreamSndQueue

def new : StreamSndQueue := ⟨ChunkBuffer.new, 0, []⟩

def addData (this : StreamSndQueue) (data : Chunk) : ChunkM StreamSndQueue := do
  let sendBuffer ← this.sendBuffer.replace this.addOffset data
  return { this with
    sendBuffer := sendBuffer
    addOffset := this.addOffset + data.getChunkLength }

def addOutstandingRegion (this : StreamSndQueue) (region : Region) : StreamSndQueue :=
  { this with
    outstandingRegions := this.outstandingRegions.takeWhile (·.offset < region.offset) ++
      region :: this.outstandingRegions.dropWhile (·.offset < region.offset) }

def removeOutstandingRegion (this : StreamSndQueue) (offset length : ℤ) : StreamSndQueue × Bool :=
  ({ this with outstandingRegions := this.outstandingRegions.erase ⟨offset, length⟩ },
    decide (⟨offset, length⟩ ∈ this.outstandingRegions))

def dataLost (this : StreamSndQueue) (offset length : ℤ) : StreamSndQueue :=
  (this.removeOutstandingRegion offset length).1

def dataAcked (this : StreamSndQueue) (offset length : ℤ) : ChunkM StreamSndQueue := do
  let (next, removed) := this.removeOutstandingRegion offset length
  if removed then
    return { next with sendBuffer := ← next.sendBuffer.clear offset length }
  else
    return next

/-- What the last part of `findData` makes of a region that begins in a region of the buffer. -/
def findLength (region : Region) (adjustBounds : Bool) (bufferRegion : ChunkBuffer.Region) :
    Bool × Region :=
  let remainingLength := bufferRegion.getEndOffset - region.offset
  if region.length = 0 ∨ remainingLength < region.length then
    if !adjustBounds then (false, region) else (true, { region with length := remainingLength })
  else
    (true, region)

/-- The length of the part of a region from an offset on, where length 0 has no end. -/
def Region.lengthFrom (this : Region) (offset : ℤ) : ℤ :=
  if this.length ≠ 0 then this.length - (offset - this.offset) else this.length

/-- The loop of `findData` over the regions of the buffer from `bufferIndex` on. The result has
these regions at the end of the loop. -/
def findDataLoop (region : Region) (adjustBounds : Bool) :
    List ChunkBuffer.Region → Bool × Region × List ChunkBuffer.Region
  | [] => (false, region, [])
  | bufferRegion :: bufferRegions =>
    if region.offset < bufferRegion.getEndOffset then
      if region.offset < bufferRegion.getStartOffset then
        if !adjustBounds then
          (false, region, bufferRegion :: bufferRegions)
        else if region.length ≠ 0 ∧ region.offset + region.length ≤ bufferRegion.getStartOffset then
          (false, region, bufferRegion :: bufferRegions)
        else
          let (found, region) := findLength ⟨bufferRegion.getStartOffset,
            region.lengthFrom bufferRegion.getStartOffset⟩ adjustBounds bufferRegion
          (found, region, bufferRegion :: bufferRegions)
      else
        let (found, region) := findLength region adjustBounds bufferRegion
        (found, region, bufferRegion :: bufferRegions)
    else
      findDataLoop region adjustBounds bufferRegions

def findData (region : Region) (adjustBounds : Bool) (bufferRegions : List ChunkBuffer.Region) :
    Except Error (Bool × Region × List ChunkBuffer.Region) := do
  assert (0 ≤ region.offset ∧ 0 ≤ region.length)
    "region.offset >= b(0) && region.length >= b(0) && bufferIndex >= 0"
  return findDataLoop region adjustBounds bufferRegions

/-- The offset of the region to send, moved behind an outstanding region. -/
def Region.forward (sendRegion outstandingRegion : Region) : Region :=
  if sendRegion.offset < outstandingRegion.offset + outstandingRegion.length then
    { sendRegion with offset := outstandingRegion.offset + outstandingRegion.length }
  else
    sendRegion

/-- The loop of `getNextSendRegion` over the outstanding regions, and the search behind it. -/
def nextSendRegionLoop (sendRegion : Region) (bufferRegions : List ChunkBuffer.Region) :
    List Region → Except Error Region
  | [] => do
    let (found, sendRegion, _) ← findData { sendRegion with length := 0 } true bufferRegions
    return if found then sendRegion else Region.none
  | outstandingRegion :: outstandingRegions => do
    if sendRegion.offset < outstandingRegion.offset then
      let (found, sendRegion, bufferRegions) ← findData
        { sendRegion with length := outstandingRegion.offset - sendRegion.offset } true
          bufferRegions
      if found then
        return sendRegion
      else if bufferRegions.isEmpty then
        return Region.none
      else
        nextSendRegionLoop (sendRegion.forward outstandingRegion) bufferRegions outstandingRegions
    else
      nextSendRegionLoop (sendRegion.forward outstandingRegion) bufferRegions outstandingRegions

def getNextSendRegion (this : StreamSndQueue) (startOffset : ℤ) : Except Error Region :=
  if this.sendBuffer.regions.isEmpty then
    return Region.none
  else
    nextSendRegionLoop ⟨startOffset, 0⟩ this.sendBuffer.regions this.outstandingRegions

/-- The loop of `getTotalDataLengthToSend`, with a bound on its turns. -/
def totalLengthLoop (this : StreamSndQueue) : ℕ → ℤ → ℤ → Except Error ℤ
  | 0, _, _ => throw (.undefinedBehavior "endless loop")
  | turns + 1, offset, totalLength => do
    let sendRegion ← this.getNextSendRegion offset
    if sendRegion.offset ≠ -1 then
      let length ← toBytes sendRegion.length
      this.totalLengthLoop turns (sendRegion.offset + sendRegion.length) (totalLength + length)
    else
      return totalLength

/-- The end of the last region of the buffer. -/
def getEndOffset (this : StreamSndQueue) : ℤ :=
  (this.sendBuffer.regions.map ChunkBuffer.Region.getEndOffset).foldr max 0

def getTotalDataLengthToSend (this : StreamSndQueue) : Except Error ℤ :=
  this.totalLengthLoop (this.getEndOffset.toNat + 1) 0 0

/-! The next region to send. -/

/-- The regions of the buffer are not empty, and every bound is a whole number of bytes. -/
structure WellFormed (this : StreamSndQueue) : Prop where
  length_pos : ∀ region ∈ this.sendBuffer.regions, 0 < region.data.getChunkLength
  whole : ∀ region ∈ this.sendBuffer.regions,
    region.getStartOffset % 8 = 0 ∧ region.getEndOffset % 8 = 0
  outstanding_whole : ∀ region ∈ this.outstandingRegions,
    region.offset % 8 = 0 ∧ region.length % 8 = 0

/-- The region has whole bytes, and is not empty. -/
structure Region.Whole (this : Region) : Prop where
  length_pos : 0 < this.length
  whole_offset : this.offset % 8 = 0
  whole_length : this.length % 8 = 0

/-- The region lies in a region of the buffer. -/
def Region.Within (this : Region) (bufferRegions : List ChunkBuffer.Region) : Prop :=
  ∃ bufferRegion ∈ bufferRegions, bufferRegion.getStartOffset ≤ this.offset ∧
    this.offset + this.length ≤ bufferRegion.getEndOffset

/-- What a search for the given region may return. -/
structure Finds (region : Region) (bufferRegions : List ChunkBuffer.Region)
    (result : Bool × Region × List ChunkBuffer.Region) : Prop where
  suffix : result.2.2 <:+ bufferRegions
  kept : result.1 = false → result.2.1 = region
  found : result.1 = true →
    region.offset ≤ result.2.1.offset ∧ result.2.1.Whole ∧ result.2.1.Within bufferRegions

variable {this : StreamSndQueue} {region : Region} {bufferRegions : List ChunkBuffer.Region}

theorem exists_findLength {bufferRegion : ChunkBuffer.Region}
    (hend : region.offset < bufferRegion.getEndOffset) (hwhole : bufferRegion.getEndOffset % 8 = 0)
    (hoffset : region.offset % 8 = 0) (hlength : region.length % 8 = 0)
    (hnonneg : 0 ≤ region.length) :
    ∃ length, findLength region true bufferRegion = (true, ⟨region.offset, length⟩) ∧
      0 < length ∧ length % 8 = 0 ∧ region.offset + length ≤ bufferRegion.getEndOffset := by
  unfold findLength
  dsimp only
  split_ifs with hshort hfalse
  · exact absurd hfalse (by simp)
  · refine ⟨_, rfl, ?_, ?_, ?_⟩
    all_goals omega
  · rcases not_or.1 hshort with ⟨hne, hle⟩
    refine ⟨region.length, rfl, ?_, hlength, ?_⟩
    all_goals omega

theorem finds_findDataLoop (hpos : ∀ r ∈ bufferRegions, 0 < r.data.getChunkLength)
    (hwhole : ∀ r ∈ bufferRegions, r.getStartOffset % 8 = 0 ∧ r.getEndOffset % 8 = 0)
    (hoffset : region.offset % 8 = 0) (hlength : region.length % 8 = 0)
    (hnonneg : 0 ≤ region.length) :
    Finds region bufferRegions (findDataLoop region true bufferRegions) := by
  induction bufferRegions with
  | nil => exact ⟨List.suffix_rfl, fun _ => rfl, fun h => by cases h⟩
  | cons bufferRegion bufferRegions ih =>
    obtain ⟨hfirst, hpos⟩ := List.forall_mem_cons.1 hpos
    obtain ⟨⟨hwstart, hwend⟩, hwhole⟩ := List.forall_mem_cons.1 hwhole
    have hend : bufferRegion.getEndOffset =
        bufferRegion.getStartOffset + bufferRegion.data.getChunkLength := rfl
    unfold findDataLoop
    split_ifs with hbefore hgap hfalse hapart
    · exact absurd hfalse (by simp)
    · exact ⟨List.suffix_rfl, fun _ => rfl, fun h => by cases h⟩
    · -- the wanted region begins in front of the region of the buffer and reaches into it
      obtain ⟨length, hfind, hlen, hmod, hle⟩ := @exists_findLength
        ⟨bufferRegion.getStartOffset, region.lengthFrom bufferRegion.getStartOffset⟩ bufferRegion
        (by dsimp only; omega) hwend hwstart
        (by dsimp only [Region.lengthFrom]; split_ifs <;> omega)
        (by dsimp only [Region.lengthFrom]; split_ifs <;> omega)
      rw [hfind]
      exact ⟨List.suffix_rfl, fun h => (by cases h), fun _ => ⟨hgap.le, ⟨hlen, hwstart, hmod⟩,
        bufferRegion, List.mem_cons_self, le_rfl, hle⟩⟩
    · obtain ⟨length, hfind, hlen, hmod, hle⟩ :=
        exists_findLength hbefore hwend hoffset hlength hnonneg
      rw [hfind]
      exact ⟨List.suffix_rfl, fun h => (by cases h), fun _ => ⟨le_rfl, ⟨hlen, hoffset, hmod⟩,
        bufferRegion, List.mem_cons_self, not_lt.1 hgap, hle⟩⟩
    · obtain ⟨hsuffix, hkept, hfound⟩ := ih hpos hwhole
      refine ⟨hsuffix.trans (List.suffix_cons _ _), hkept, fun h => ?_⟩
      obtain ⟨hle, hsends, r, hr, hin⟩ := hfound h
      exact ⟨hle, hsends, r, List.mem_cons_of_mem _ hr, hin⟩

/-- A region to send at the start offset or behind it, or none. -/
def Next (startOffset : ℤ) (bufferRegions : List ChunkBuffer.Region) (sendRegion : Region) : Prop :=
  sendRegion = Region.none ∨
    startOffset ≤ sendRegion.offset ∧ sendRegion.Whole ∧ sendRegion.Within bufferRegions

theorem Next.of_suffix {startOffset : ℤ} {rest : List ChunkBuffer.Region} {sendRegion : Region}
    (h : Next startOffset rest sendRegion) (hsuffix : rest <:+ bufferRegions) :
    Next startOffset bufferRegions sendRegion := by
  rcases h with rfl | ⟨hle, hwhole, r, hr, hin⟩
  · exact Or.inl rfl
  · exact Or.inr ⟨hle, hwhole, r, hsuffix.mem hr, hin⟩

theorem Next.of_le {startOffset offset : ℤ} {sendRegion : Region}
    (h : Next offset bufferRegions sendRegion) (hle : startOffset ≤ offset) :
    Next startOffset bufferRegions sendRegion :=
  h.imp id fun h => ⟨hle.trans h.1, h.2⟩

theorem Region.le_forward (sendRegion outstandingRegion : Region) :
    sendRegion.offset ≤ (sendRegion.forward outstandingRegion).offset := by
  unfold forward
  split_ifs with hlt
  · exact hlt.le
  · exact le_rfl

theorem Region.forward_whole {sendRegion outstandingRegion : Region}
    (hoffset : sendRegion.offset % 8 = 0)
    (hwhole : outstandingRegion.offset % 8 = 0 ∧ outstandingRegion.length % 8 = 0) :
    (sendRegion.forward outstandingRegion).offset % 8 = 0 := by
  unfold forward
  split_ifs
  · dsimp only
    omega
  · exact hoffset

theorem returns_nextSendRegionLoop {sendRegion : Region} {outstandingRegions : List Region}
    (hpos : ∀ r ∈ bufferRegions, 0 < r.data.getChunkLength)
    (hwhole : ∀ r ∈ bufferRegions, r.getStartOffset % 8 = 0 ∧ r.getEndOffset % 8 = 0)
    (houtstanding : ∀ r ∈ outstandingRegions, r.offset % 8 = 0 ∧ r.length % 8 = 0)
    (hnonneg : 0 ≤ sendRegion.offset) (hoffset : sendRegion.offset % 8 = 0) :
    ReturnsWith (nextSendRegionLoop sendRegion bufferRegions outstandingRegions)
      (Next sendRegion.offset bufferRegions) := by
  induction outstandingRegions generalizing sendRegion bufferRegions with
  | nil =>
    unfold nextSendRegionLoop findData assert
    rw [if_pos ⟨hnonneg, le_rfl⟩]
    have hfinds := @finds_findDataLoop ⟨sendRegion.offset, 0⟩ _ hpos hwhole hoffset rfl le_rfl
    refine ⟨_, rfl, ?_⟩
    split_ifs with hfound
    · exact Or.inr (hfinds.found hfound)
    · exact Or.inl rfl
  | cons outstandingRegion outstandingRegions ih =>
    obtain ⟨hfirst, houtstanding⟩ := List.forall_mem_cons.1 houtstanding
    unfold nextSendRegionLoop
    split_ifs with hgap
    · unfold findData assert
      rw [if_pos ⟨hnonneg, by dsimp only; omega⟩]
      have hfinds := @finds_findDataLoop
        ⟨sendRegion.offset, outstandingRegion.offset - sendRegion.offset⟩ _ hpos hwhole
        hoffset (by dsimp only; omega) (by dsimp only; omega)
      generalize findDataLoop _ _ _ = result at hfinds ⊢
      obtain ⟨found, region, rest⟩ := result
      change ReturnsWith (if found = true then _ else _) _
      split_ifs with hfound hempty
      · exact ⟨region, rfl, Or.inr (hfinds.found hfound)⟩
      · exact ⟨_, rfl, Or.inl rfl⟩
      · -- the search has left the region as it was and skipped regions that end in front of it
        have hkept := hfinds.kept (by simpa using hfound)
        dsimp only at hkept
        subst hkept
        have hle := Region.le_forward
          ⟨sendRegion.offset, outstandingRegion.offset - sendRegion.offset⟩ outstandingRegion
        have hnext := ih (fun r hr => hpos r (hfinds.suffix.mem hr))
          (fun r hr => hwhole r (hfinds.suffix.mem hr)) houtstanding (hnonneg.trans hle)
          (Region.forward_whole hoffset hfirst)
        exact hnext.mono fun r hr => (hr.of_suffix hfinds.suffix).of_le hle
    · have hle := sendRegion.le_forward outstandingRegion
      exact (ih hpos hwhole houtstanding (hnonneg.trans hle)
        (Region.forward_whole hoffset hfirst)).mono fun r hr => hr.of_le hle

/-- The regions have nothing in common. -/
def Region.Apart (this other : Region) : Prop :=
  this.offset + this.length ≤ other.offset ∨ other.offset + other.length ≤ this.offset

theorem bounds_of_findData {result : Bool × Region × List ChunkBuffer.Region}
    (h : findData region true bufferRegions = .ok result) : region.offset ≤ result.2.1.offset ∧
      (0 < region.length →
        result.2.1.offset + result.2.1.length ≤ region.offset + region.length) := by
  obtain ⟨_, -, hloop⟩ := Error.exists_of_bind_eq_ok h
  obtain rfl := Except.ok.inj hloop
  clear h hloop
  induction bufferRegions with
  | nil => exact ⟨le_rfl, fun _ => le_rfl⟩
  | cons bufferRegion bufferRegions ih =>
    unfold findDataLoop findLength Region.lengthFrom
    dsimp only
    split_ifs
    all_goals grind

theorem apart_of_nextSendRegionLoop {sendRegion result : Region} {outstandingRegions : List Region}
    (hsorted : outstandingRegions.Pairwise fun a b => a.offset ≤ b.offset)
    (h : nextSendRegionLoop sendRegion bufferRegions outstandingRegions = .ok result) :
    result = Region.none ∨
      sendRegion.offset ≤ result.offset ∧ ∀ r ∈ outstandingRegions, result.Apart r := by
  induction outstandingRegions generalizing sendRegion bufferRegions with
  | nil =>
    obtain ⟨⟨found, region, rest⟩, hfind, h⟩ := Error.exists_of_bind_eq_ok h
    have hbounds := bounds_of_findData hfind
    change Except.ok (if found = true then region else Region.none) = _ at h
    grind
  | cons o outstandingRegions ih =>
    obtain ⟨hfirst, hsorted⟩ := List.pairwise_cons.1 hsorted
    have hforward {s : Region} {bufferRegions : List ChunkBuffer.Region}
        (h : nextSendRegionLoop (s.forward o) bufferRegions outstandingRegions = .ok result) :
        result = Region.none ∨
          s.offset ≤ result.offset ∧ ∀ r ∈ o :: outstandingRegions, result.Apart r := by
      have hnext := ih hsorted h
      unfold Region.forward at hnext
      grind [Region.Apart]
    unfold nextSendRegionLoop at h
    split_ifs at h with hgap
    · obtain ⟨⟨found, region, rest⟩, hfind, h⟩ := Error.exists_of_bind_eq_ok h
      have hbounds := bounds_of_findData hfind
      dsimp only at hbounds h
      split_ifs at h
      · cases h
        grind [Region.Apart]
      · cases h
        exact .inl rfl
      · exact (hforward h).imp_right fun hr => ⟨hbounds.1.trans hr.1, hr.2⟩
    · exact hforward h

theorem WellFormed.returns_getNextSendRegion (h : this.WellFormed) {startOffset : ℤ}
    (hnonneg : 0 ≤ startOffset) (hoffset : startOffset % 8 = 0) :
    ReturnsWith (this.getNextSendRegion startOffset)
      (Next startOffset this.sendBuffer.regions) := by
  unfold getNextSendRegion
  split_ifs
  · exact ⟨_, rfl, Or.inl rfl⟩
  · exact returns_nextSendRegionLoop h.length_pos h.whole h.outstanding_whole hnonneg hoffset

theorem getEndOffset_le {bufferRegion : ChunkBuffer.Region}
    (h : bufferRegion ∈ this.sendBuffer.regions) :
    bufferRegion.getEndOffset ≤ this.getEndOffset := by
  unfold getEndOffset
  generalize this.sendBuffer.regions = regions at h ⊢
  induction regions with
  | nil => cases h
  | cons first regions ih =>
    rcases List.mem_cons.1 h with rfl | h
    · exact le_max_left _ _
    · exact (ih h).trans (le_max_right _ _)

theorem WellFormed.returns_totalLengthLoop (h : this.WellFormed) {turns : ℕ} {offset : ℤ}
    (hturns : (this.getEndOffset - offset).toNat < turns) (hnonneg : 0 ≤ offset)
    (hoffset : offset % 8 = 0) (totalLength : ℤ) :
    ReturnsWith (this.totalLengthLoop turns offset totalLength) fun _ => True := by
  induction turns generalizing offset totalLength with
  | zero => exact absurd hturns (Nat.not_lt_zero _)
  | succ turns ih =>
    unfold totalLengthLoop
    refine (h.returns_getNextSendRegion hnonneg hoffset).bind fun sendRegion hnext => ?_
    split_ifs with hsome
    · obtain ⟨hle, hwhole, r, hr, -, hend⟩ :=
        hnext.resolve_left (fun hnone => hsome (by rw [hnone]; rfl))
      have hpos := hwhole.length_pos
      have hlast := getEndOffset_le hr
      rw [toBytes_eq hwhole.whole_length]
      have := hwhole.whole_offset
      have := hwhole.whole_length
      exact ih (by omega) (by omega) (by omega) _
    · exact ⟨totalLength, rfl, trivial⟩

theorem WellFormed.returns_getTotalDataLengthToSend (h : this.WellFormed) :
    ReturnsWith this.getTotalDataLengthToSend fun _ => True :=
  h.returns_totalLengthLoop (by omega) le_rfl rfl 0

theorem mem_addOutstandingRegion {r : Region}
    (h : r ∈ (this.addOutstandingRegion region).outstandingRegions) :
    r = region ∨ r ∈ this.outstandingRegions := by
  rcases List.mem_append.1 h with h | h
  · exact Or.inr ((List.takeWhile_prefix _).mem h)
  · rcases List.mem_cons.1 h with rfl | h
    · exact Or.inl rfl
    · exact Or.inr ((List.dropWhile_suffix _).mem h)

theorem WellFormed.addOutstandingRegion (h : this.WellFormed)
    (hregion : region.offset % 8 = 0 ∧ region.length % 8 = 0) :
    (this.addOutstandingRegion region).WellFormed where
  length_pos := h.length_pos
  whole := h.whole
  outstanding_whole := by
    intro r hr
    rcases mem_addOutstandingRegion hr with rfl | hr
    · exact hregion
    · exact h.outstanding_whole r hr

/-! Every queue that is fed whole bytes is well formed. -/

inductive Operation where
  | addData (data : Chunk)
  | addOutstandingRegion (region : Region)
  | dataLost (offset length : ℤ)
  | dataAcked (offset length : ℤ)

def apply (this : StreamSndQueue) : Operation → ChunkM StreamSndQueue
  | .addData data => this.addData data
  | .addOutstandingRegion region => return this.addOutstandingRegion region
  | .dataLost offset length => return this.dataLost offset length
  | .dataAcked offset length => this.dataAcked offset length

def run (operations : List Operation) : ChunkM StreamSndQueue := operations.foldlM apply new

/-- The data has whole bytes and no bit counts, and the region is one that can be sent. -/
def Operation.Valid : Operation → Prop
  | .addData data => data.WF ∧ data.Clean ∧ 0 < data.getChunkLength ∧ data.getChunkLength % 8 = 0 ∧
      ∀ cell ∈ data.cells, cell.counted = false
  | .addOutstandingRegion region => 0 ≤ region.offset ∧ region.Whole
  | .dataLost _ _ => True
  | .dataAcked _ _ => True

/-- What is stored are whole bytes in front of the offset for more data. -/
structure StoresBytes (stored : ℤ → Option Cell) (this : StreamSndQueue) : Prop where
  keeps : ChunkBuffer.Keeps stored this.sendBuffer
  aligned : ∀ i, (stored i).isSome = (stored (i / 8 * 8)).isSome
  uncounted : ∀ i cell, stored i = some cell → cell.counted = false
  addOffset_nonneg : 0 ≤ this.addOffset
  addOffset_whole : this.addOffset % 8 = 0
  outstanding : ∀ region ∈ this.outstandingRegions, 0 ≤ region.offset ∧ region.Whole
  sorted : this.outstandingRegions.Pairwise fun a b => a.offset ≤ b.offset

variable {stored : ℤ → Option Cell} {operations : List Operation} {operation : Operation}

theorem storesBytes_new : StoresBytes (fun _ => none) new where
  keeps := ChunkBuffer.keeps_new
  aligned := fun _ => rfl
  uncounted := fun _ _ h => by cases h
  addOffset_nonneg := le_rfl
  addOffset_whole := rfl
  outstanding := fun _ h => by cases h
  sorted := .nil

theorem StoresBytes.wellFormed (h : StoresBytes stored this) : this.WellFormed where
  length_pos := by
    intro region hregion
    have hpos := h.keeps.length_pos hregion
    have hend : region.getEndOffset = region.offset + region.data.getChunkLength := rfl
    omega
  whole := by
    intro region hregion
    have hpos := h.keeps.length_pos hregion
    have hstart := h.keeps.isSome_of_mem hregion le_rfl hpos
    have hbefore := h.keeps.start_eq_none hregion
    have hlast := h.keeps.isSome_of_mem hregion (i := region.getEndOffset - 1) (by omega) (by omega)
    have hbehind := h.keeps.end_eq_none hregion
    constructor
    · by_contra hne
      change ¬ region.offset % 8 = 0 at hne
      rw [h.aligned, show region.offset / 8 * 8 = (region.offset - 1) / 8 * 8 by omega, ← h.aligned,
        hbefore] at hstart
      cases hstart
    · by_contra hne
      rw [h.aligned, show (region.getEndOffset - 1) / 8 * 8 = region.getEndOffset / 8 * 8 by omega,
        ← h.aligned, hbehind] at hlast
      cases hlast
  outstanding_whole := fun region hregion =>
    ⟨(h.outstanding region hregion).2.whole_offset, (h.outstanding region hregion).2.whole_length⟩

theorem StoresBytes.spec_addData {data : Chunk} (h : StoresBytes stored this)
    (hvalid : (Operation.addData data).Valid) :
    Returns (this.addData data)
      (StoresBytes (ChunkBuffer.written stored this.addOffset data.cells)) := by
  obtain ⟨hwf, hclean, hpos, hwhole, hcells⟩ := hvalid
  have hlen := hwf.length_cells
  have hoffset := h.addOffset_whole
  have hnonneg := h.addOffset_nonneg
  have huncounted : ∀ i cell, ChunkBuffer.written stored this.addOffset data.cells i = some cell →
      cell.counted = false := fun i cell hcell =>
    (ChunkBuffer.mem_of_written hcell).elim (hcells cell) (h.uncounted i cell)
  refine (h.keeps.spec_replace h.addOffset_nonneg hwf hpos hclean
    (ChunkBuffer.agrees_of_uncounted huncounted)).bind fun sendBuffer hkeeps => Spec.pure ?_
  refine ⟨hkeeps, fun i => ?_, huncounted, by dsimp only; omega, by dsimp only; omega,
    h.outstanding, h.sorted⟩
  unfold ChunkBuffer.written
  by_cases hin : this.addOffset ≤ i ∧ i < this.addOffset + data.cells.length
  · rw [if_pos hin, if_pos (by omega), List.getElem?_eq_getElem (by omega),
      List.getElem?_eq_getElem (by omega)]
    rfl
  · rw [if_neg hin, if_neg (by omega)]
    exact h.aligned i

theorem StoresBytes.removeOutstandingRegion (h : StoresBytes stored this) (offset length : ℤ) :
    StoresBytes stored (this.removeOutstandingRegion offset length).1 where
  keeps := h.keeps
  aligned := h.aligned
  uncounted := h.uncounted
  addOffset_nonneg := h.addOffset_nonneg
  addOffset_whole := h.addOffset_whole
  outstanding := fun region hregion => h.outstanding region (List.mem_of_mem_erase hregion)
  sorted := h.sorted.sublist List.erase_sublist

theorem StoresBytes.spec_dataAcked (h : StoresBytes stored this) (offset length : ℤ) :
    Returns (this.dataAcked offset length) fun next => ∃ stored, StoresBytes stored next := by
  have hnext := h.removeOutstandingRegion offset length
  unfold dataAcked
  by_cases hmem : ⟨offset, length⟩ ∈ this.outstandingRegions
  · obtain ⟨hnonneg, hpos, hoffset, hlength⟩ := h.outstanding _ hmem
    dsimp only at hnonneg hpos hoffset hlength
    change Returns (if decide _ = true then _ else _) _
    rw [if_pos (decide_eq_true hmem)]
    refine (hnext.keeps.spec_clear hnonneg hpos.le (Or.inl hlength)
      fun hzero => absurd hzero hpos.ne').bind fun sendBuffer hkeeps =>
        Spec.pure ⟨_, hkeeps, ?_, ?_,
        hnext.addOffset_nonneg, hnext.addOffset_whole, hnext.outstanding, hnext.sorted⟩
    · intro i
      unfold ChunkBuffer.cleared
      by_cases hin : offset ≤ i ∧ i < offset + length
      · rw [if_pos hin, if_pos (by omega)]
      · rw [if_neg hin, if_neg (by omega)]
        exact h.aligned i
    · intro i cell hcell
      unfold ChunkBuffer.cleared at hcell
      split_ifs at hcell
      exact h.uncounted i cell hcell
  · change Returns (if decide _ = true then _ else _) _
    rw [if_neg (by simpa using hmem)]
    exact Spec.pure ⟨stored, hnext⟩

theorem StoresBytes.addOutstandingRegion (h : StoresBytes stored this)
    (hvalid : (Operation.addOutstandingRegion region).Valid) :
    StoresBytes stored (this.addOutstandingRegion region) where
  keeps := h.keeps
  aligned := h.aligned
  uncounted := h.uncounted
  addOffset_nonneg := h.addOffset_nonneg
  addOffset_whole := h.addOffset_whole
  outstanding := by
    intro r hr
    rcases mem_addOutstandingRegion hr with rfl | hr
    · exact hvalid
    · exact h.outstanding r hr
  sorted := OrderedMap.pairwise_insert Region.offset (fun _ hr => (of_decide_eq_true hr).le)
    (fun _ hr => not_lt.1 (of_decide_eq_false hr)) h.sorted

theorem StoresBytes.spec_apply (h : StoresBytes stored this) (hvalid : operation.Valid) :
    Returns (this.apply operation) fun next => ∃ stored, StoresBytes stored next := by
  cases operation with
  | addData data => exact (h.spec_addData hvalid).mono id fun next hnext => ⟨_, hnext⟩
  | addOutstandingRegion region => exact Spec.pure ⟨stored, h.addOutstandingRegion hvalid⟩
  | dataLost offset length => exact Spec.pure ⟨stored, h.removeOutstandingRegion offset length⟩
  | dataAcked offset length => exact h.spec_dataAcked offset length

theorem storesBytes_run (hvalid : ∀ operation ∈ operations, operation.Valid) :
    Returns (run operations) fun this => ∃ stored, StoresBytes stored this := by
  induction operations using List.reverseRecOn with
  | nil => exact Spec.pure ⟨_, storesBytes_new⟩
  | append_singleton operations operation ih =>
    unfold run
    rw [List.foldlM_append]
    refine (ih fun o ho => hvalid o (List.mem_append_left _ ho)).bind ?_
    rintro this ⟨stored, h⟩
    rw [List.foldlM_cons]
    exact (h.spec_apply (hvalid operation (by simp))).bind fun next hnext => Spec.pure hnext

/-- The unsent data is counted, and a region to send is found that lies in the data and is apart
from what is outstanding. -/
structure Sendable (this : StreamSndQueue) : Prop where
  total : ReturnsWith this.getTotalDataLengthToSend fun _ => True
  next : ∀ startOffset, 0 ≤ startOffset → startOffset % 8 = 0 →
    ReturnsWith (this.getNextSendRegion startOffset) fun sendRegion =>
      Next startOffset this.sendBuffer.regions sendRegion ∧
        ∀ r ∈ this.outstandingRegions, sendRegion.Apart r

theorem sendable_run (hvalid : ∀ operation ∈ operations, operation.Valid) :
    Returns (run operations) Sendable := by
  refine (storesBytes_run hvalid).mono id ?_
  rintro this ⟨stored, h⟩
  refine ⟨h.wellFormed.returns_getTotalDataLengthToSend, fun startOffset hnonneg hoffset => ?_⟩
  obtain ⟨sendRegion, hok, hnext⟩ := h.wellFormed.returns_getNextSendRegion hnonneg hoffset
  refine ⟨sendRegion, hok, hnext, fun r hr => ?_⟩
  have hnone : Region.none.Apart r := .inl ((by decide : (-1 : ℤ) ≤ 0).trans (h.outstanding r hr).1)
  unfold getNextSendRegion at hok
  split_ifs at hok
  · cases hok
    exact hnone
  · rcases apart_of_nextSendRegionLoop h.sorted hok with rfl | hapart
    · exact hnone
    · exact hapart.2 r hr

/-- The first byte is acked, and the second one is sent before the third one, which is
outstanding. -/
theorem sendable_fourBytes : Returns (run [.addData (.bytes ⟨0, false, false, false⟩ [1, 2, 3, 4]),
    .addOutstandingRegion ⟨0, 8⟩, .addOutstandingRegion ⟨16, 8⟩, .dataAcked 0 8]) fun this =>
      Sendable this ∧ this.getNextSendRegion 0 = .ok ⟨8, 8⟩ := by
  have hsendable := @sendable_run [
    .addData (.bytes ⟨0, false, false, false⟩ [1, 2, 3, 4]), .addOutstandingRegion ⟨0, 8⟩,
    .addOutstandingRegion ⟨16, 8⟩, .dataAcked 0 8] (by
      simp only [List.forall_mem_cons, List.not_mem_nil, false_imp_iff, forall_true_iff, and_true]
      exact ⟨⟨trivial, ⟨rfl, rfl, rfl⟩, by decide, by decide, by decide⟩,
        ⟨le_rfl, by decide, rfl, rfl⟩, ⟨by decide, by decide, rfl, rfl⟩, trivial⟩)
  have hnext : Returns (run [.addData (.bytes ⟨0, false, false, false⟩ [1, 2, 3, 4]),
      .addOutstandingRegion ⟨0, 8⟩, .addOutstandingRegion ⟨16, 8⟩, .dataAcked 0 8]) fun this =>
        this.getNextSendRegion 0 = .ok ⟨8, 8⟩ := fun _ => rfl
  exact (hsendable.and hnext).mono And.left fun _ h => h

end StreamSndQueue

end Inet.Quic
