import Inet.Ieee80211.SequenceNumber
import Mathlib.Data.Finset.Basic
import Mathlib.Data.List.Infix

/-! # The compressed Block Ack record

The receipts of complete frames in a window of at most 64 sequence numbers.
Each sequence number of the window is reported as received exactly if a frame
with it was received and the number has been in the window ever since.
-/

namespace Inet.Ieee80211

inductive AckPolicy where
  | normalAck
  | noAck
  | noExplicitAck
  | blockAck
  deriving DecidableEq, Repr

/-- The fields of `Ieee80211DataHeader` that the Block Ack functions read. -/
structure DataHeader where
  sequenceNumber : SequenceNumberCyclic
  fragmentNumber : ℤ
  moreFragments : Bool
  ackPolicy : AckPolicy
  deriving DecidableEq, Repr

/-- A `BlockAckRecord` with an initialized compressed window. -/
structure CompressedRecord where
  windowStart : SequenceNumberCyclic
  windowSize : ℕ
  completeReceipts : Finset ℕ
  windowSize_pos : 0 < windowSize
  windowSize_le : windowSize ≤ 64
  deriving DecidableEq

namespace CompressedRecord

/-- `initializeCompressedWindow`. -/
def initializeCompressedWindow (start : SequenceNumberCyclic) (size : ℤ) :
    Except Error CompressedRecord :=
  if h : 0 < size ∧ size ≤ 64 then
    .ok ⟨start, size.toNat, ∅, by omega, by omega⟩
  else .error (.assertion "start.isSpecified() && size > 0 && size <= 64")

variable (record : CompressedRecord)

def advanceCompressedWindow (start : SequenceNumberCyclic) : CompressedRecord :=
  if ¬ record.windowStart < start then record
  else { record with
    windowStart := start
    completeReceipts := record.completeReceipts.filter fun receipt =>
      ¬ (record.windowSize ≤ (receipt + 4096 - start.value) % 4096 ∧
        (receipt + 4096 - start.value) % 4096 ≠ 4095) }

/-- The condition `windowStart <= sequence && sequence < windowStart + windowSize`. -/
def isInWindow (sequence : SequenceNumberCyclic) : Except Error Bool := do
  let windowEnd ← record.windowStart.add record.windowSize
  pure (record.windowStart ≤ sequence ∧ sequence < windowEnd)

def compressedFrameReceived (header : DataHeader) : Except Error CompressedRecord := do
  assert (header.fragmentNumber = 0 ∧ header.moreFragments = false)
    "header->getFragmentNumber() == 0 && !header->getMoreFragments()"
  let sequence := header.sequenceNumber
  let windowEnd ← record.windowStart.add record.windowSize
  let record ←
    if record.windowStart ≤ sequence ∧ ¬ sequence < windowEnd then do
      let start ← sequence.sub record.windowSize
      let start ← start.add 1
      pure (record.advanceCompressedWindow start)
    else pure record
  if ← record.isInWindow sequence then
    pure { record with completeReceipts := insert sequence.value record.completeReceipts }
  else pure record

def hasCompleteReceipt (sequenceNumber : SequenceNumberCyclic) : Bool :=
  sequenceNumber.value ∈ record.completeReceipts

def getCompressedAckState (sequenceNumber : SequenceNumberCyclic) : Except Error Bool := do
  let inWindow ← record.isInWindow sequenceNumber
  pure (inWindow && record.hasCompleteReceipt sequenceNumber)

/-- A call that changes the record. -/
inductive Call where
  | compressedFrameReceived (header : DataHeader)
  | advanceCompressedWindow (start : SequenceNumberCyclic)
  deriving DecidableEq, Repr

def call : Call → Except Error CompressedRecord
  | .compressedFrameReceived header => record.compressedFrameReceived header
  | .advanceCompressedWindow start => .ok (record.advanceCompressedWindow start)

def run (record : CompressedRecord) (calls : List Call) : Except Error CompressedRecord :=
  calls.foldlM call record

/-- The sequence number is in the window. -/
def InWindow (s : SequenceNumberCyclic) : Prop := record.windowStart.distance s < record.windowSize

instance (s : SequenceNumberCyclic) : Decidable (record.InWindow s) :=
  inferInstanceAs (Decidable (_ < _))

/-- The sequence number is ahead of the window, so that a frame with it moves the window. -/
def IsBeyond (s : SequenceNumberCyclic) : Prop :=
  record.windowSize ≤ record.windowStart.distance s ∧ record.windowStart.distance s < 2048

instance (s : SequenceNumberCyclic) : Decidable (record.IsBeyond s) :=
  inferInstanceAs (Decidable (_ ∧ _))

variable {record : CompressedRecord} {s start : SequenceNumberCyclic} {header : DataHeader}

open SequenceNumberCyclic Error

theorem lt_windowEnd (h : record.windowStart ≤ s) :
    s < record.windowStart.ahead record.windowSize ↔ record.InWindow s := by
  have hle := record.windowSize_le
  have hpos := record.windowSize_pos
  rw [le_iff] at h
  rw [lt_def, InWindow, @distance_eq record.windowStart s, distance_ahead (by omega)]
  split <;> omega

@[simp] theorem isInWindow_eq : record.isInWindow s = .ok (decide (record.InWindow s)) := by
  have hle := record.windowSize_le
  rw [isInWindow, add_eq]
  simp only [ok_bind, pure_eq_ok]
  congr 2
  apply propext
  constructor
  · rintro ⟨h, h'⟩
    exact (lt_windowEnd h).1 h'
  · intro h
    have hs : record.windowStart ≤ s := by
      rw [le_iff]
      unfold InWindow at h
      omega
    exact ⟨hs, (lt_windowEnd hs).2 h⟩

theorem advance_of_lt (h : record.windowStart < start) :
    (record.advanceCompressedWindow start).windowStart = start ∧
      (record.advanceCompressedWindow start).windowSize = record.windowSize ∧
      ∀ s : SequenceNumberCyclic,
        s.value ∈ (record.advanceCompressedWindow start).completeReceipts ↔
          s.value ∈ record.completeReceipts ∧
            (start.distance s < record.windowSize ∨ start.distance s = 4095) := by
  rw [advanceCompressedWindow, if_neg (not_not.2 h)]
  refine ⟨rfl, rfl, fun s => ?_⟩
  simp only [Finset.mem_filter, distance]
  have : ∀ a b : Prop, ¬ (a ∧ ¬ b) ↔ (¬ a ∨ b) := by tauto
  simp only [ne_eq, this, not_le]

theorem advance_of_not_lt (h : ¬ record.windowStart < start) :
    record.advanceCompressedWindow start = record := by
  rw [advanceCompressedWindow, if_pos h]

/-- What one call does to a record. -/
structure Step (record record' : CompressedRecord) (received : Option SequenceNumberCyclic) :
    Prop where
  size_eq : record'.windowSize = record.windowSize
  forward : record.windowStart.distance record'.windowStart < 2048
  mem_iff : ∀ s : SequenceNumberCyclic, s.value ∈ record'.completeReceipts ↔
    (received = some s ∧ record'.InWindow s) ∨
      (s.value ∈ record.completeReceipts ∧ (record'.windowStart = record.windowStart ∨
        record'.InWindow s ∨ record'.windowStart.distance s = 4095))

theorem step_advance (record : CompressedRecord) (start : SequenceNumberCyclic) :
    Step record (record.advanceCompressedWindow start) none := by
  by_cases h : record.windowStart < start
  · obtain ⟨hstart, hsize, hmem⟩ := advance_of_lt h
    refine ⟨hsize, ?_, fun s => ?_⟩
    · rw [hstart]
      exact h.2
    · rw [hmem, hstart, InWindow, hstart, hsize]
      have hne : start ≠ record.windowStart := by
        rintro rfl
        simp [lt_def] at h
      simp [hne]
  · rw [advance_of_not_lt h]
    refine ⟨rfl, by simp, fun s => ?_⟩
    simp

theorem Step.store {record moved : CompressedRecord} (h : Step record moved none)
    (hin : moved.InWindow s) :
    Step record { moved with completeReceipts := insert s.value moved.completeReceipts }
      (some s) := by
  refine ⟨h.size_eq, h.forward, fun s' => ?_⟩
  have hmem := h.mem_iff s'
  have hvalue : s'.value = s.value ↔ s = s' :=
    ⟨fun hv => ext_value hv.symm, fun hs => by rw [hs]⟩
  simp only [Finset.mem_insert, hmem, hvalue, Option.some.injEq, reduceCtorEq, false_and, false_or]
  constructor
  · rintro (rfl | h)
    · exact .inl ⟨rfl, hin⟩
    · exact .inr h
  · rintro (⟨rfl, -⟩ | h)
    · exact .inl rfl
    · exact .inr h

theorem isBeyond_iff : record.IsBeyond s ↔ record.windowStart ≤ s ∧ ¬ record.InWindow s := by
  rw [IsBeyond, le_iff, InWindow, not_lt, and_comm]

theorem sub_add_one (hne : s.value + 1 ≠ record.windowSize) :
    (s.sub record.windowSize >>= fun start => start.add 1) =
      .ok (s.ahead (4097 - record.windowSize)) := by
  have hle := record.windowSize_le
  rw [sub_eq s (by omega), if_neg hne, ok_bind, show (1 : ℤ) =
    (1 : ℕ) from rfl, add_eq, ahead_ahead]
  congr 2
  omega

theorem step_frame (hcomplete : header.fragmentNumber = 0 ∧ header.moreFragments = false)
    (hsafe : record.IsBeyond header.sequenceNumber →
      header.sequenceNumber.value + 1 ≠ record.windowSize) :
    ∃ record', record.compressedFrameReceived header = .ok record' ∧
      Step record record' (some header.sequenceNumber) := by
  obtain ⟨s, fragmentNumber, moreFragments, ackPolicy⟩ := header
  simp only at hcomplete hsafe ⊢
  have hassert : (assert (fragmentNumber = 0 ∧ moreFragments = false)
      "header->getFragmentNumber() == 0 && !header->getMoreFragments()" : Except Error Unit) =
      .ok () := if_pos hcomplete
  have hle := record.windowSize_le
  have hpos := record.windowSize_pos
  rw [compressedFrameReceived]
  simp only [hassert, ok_bind, add_eq]
  by_cases hbeyond : record.IsBeyond s
  · obtain ⟨hws, hnot⟩ := isBeyond_iff.1 hbeyond
    have hbounds := hbeyond
    unfold IsBeyond at hbounds
    have hdistance : record.windowStart.distance (s.ahead (4097 - record.windowSize)) =
        record.windowStart.distance s + 1 - record.windowSize := by
      have hs := s.value_lt
      have hstart := record.windowStart.value_lt
      simp only [distance, ahead, ofNat] at hbounds ⊢
      omega
    have hlt : record.windowStart < s.ahead (4097 - record.windowSize) := by
      rw [lt_def, hdistance]
      omega
    obtain ⟨hstart, hsize, -⟩ := advance_of_lt hlt
    have hin : (record.advanceCompressedWindow
        (s.ahead (4097 - record.windowSize))).InWindow s := by
      rw [InWindow, hstart, hsize]
      have hs := s.value_lt
      simp only [distance, ahead, ofNat]
      omega
    have hmoved := sub_add_one (hsafe hbeyond)
    rw [if_pos ⟨hws, fun h => hnot ((lt_windowEnd hws).1 h)⟩]
    simp only [← bind_assoc, hmoved]
    simp only [ok_bind, pure_eq_ok, isInWindow_eq, hin, decide_true, if_true]
    exact ⟨_, rfl, (step_advance _ _).store hin⟩
  · have hsame : Step record record none := ⟨rfl, by simp, by simp⟩
    have hno : ¬ (record.windowStart ≤ s ∧ ¬ s < record.windowStart.ahead record.windowSize) := by
      rintro ⟨hws, h⟩
      exact hbeyond (isBeyond_iff.2 ⟨hws, fun hin => h ((lt_windowEnd hws).2 hin)⟩)
    rw [if_neg hno]
    simp only [pure_eq_ok, ok_bind, isInWindow_eq]
    by_cases hin : record.InWindow s
    · simp only [hin, decide_true, if_true]
      exact ⟨_, rfl, hsame.store hin⟩
    · simp only [hin, decide_false, Bool.false_eq_true, if_false]
      refine ⟨_, rfl, rfl, by simp, fun s' => ?_⟩
      simp only [Option.some.injEq, true_or, and_true]
      constructor
      · exact .inr
      · rintro (⟨rfl, h⟩ | h)
        · exact absurd h hin
        · exact h

theorem frame_fails (hcomplete : header.fragmentNumber = 0 ∧ header.moreFragments = false)
    (hbeyond : record.IsBeyond header.sequenceNumber)
    (hvalue : header.sequenceNumber.value + 1 = record.windowSize) :
    record.compressedFrameReceived header = .error (.assertion "value != -1") := by
  have hassert : (assert (header.fragmentNumber = 0 ∧ header.moreFragments = false)
      "header->getFragmentNumber() == 0 && !header->getMoreFragments()" : Except Error Unit) =
      .ok () := if_pos hcomplete
  have hle := record.windowSize_le
  obtain ⟨hws, hnot⟩ := isBeyond_iff.1 hbeyond
  rw [compressedFrameReceived]
  simp only [hassert, ok_bind, add_eq]
  rw [if_pos ⟨hws, fun h => hnot ((lt_windowEnd hws).1 h)⟩, sub_eq _ (by omega), if_pos hvalue]
  rfl

/-- The number that a call receives a frame with. -/
def Call.received : Call → Option SequenceNumberCyclic
  | compressedFrameReceived header => some header.sequenceNumber
  | advanceCompressedWindow _ => none

/-- A received frame is a whole MSDU. -/
def Call.IsComplete : Call → Prop
  | compressedFrameReceived header => header.fragmentNumber = 0 ∧ header.moreFragments = false
  | advanceCompressedWindow _ => True

/-- A frame that moves the window does not have the last number of a window that starts at zero. -/
def CallSafe (record : CompressedRecord) : Call → Prop
  | .compressedFrameReceived header => record.IsBeyond header.sequenceNumber →
      header.sequenceNumber.value + 1 ≠ record.windowSize
  | .advanceCompressedWindow _ => True

def SafeRun (record : CompressedRecord) : List Call → Prop
  | [] => True
  | c :: calls => record.CallSafe c ∧ ∀ record', record.call c = .ok record' → SafeRun record' calls

variable {record' final : CompressedRecord} {c : Call} {calls : List Call}

theorem step_call (hc : c.IsComplete) (hsafe : record.CallSafe c) :
    ∃ record', record.call c = .ok record' ∧ Step record record' c.received := by
  cases c with
  | compressedFrameReceived header => exact step_frame hc hsafe
  | advanceCompressedWindow start => exact ⟨_, rfl, step_advance record start⟩

theorem callSafe_of_ok (hc : c.IsComplete) (h : record.call c = .ok record') :
    record.CallSafe c := by
  cases c with
  | compressedFrameReceived header =>
    intro hbeyond hvalue
    rw [call, frame_fails hc hbeyond hvalue] at h
    cases h
  | advanceCompressedWindow start => trivial

theorem step_of_ok (hc : c.IsComplete) (h : record.call c = .ok record') :
    Step record record' c.received := by
  obtain ⟨record'', h', hstep⟩ := step_call hc (callSafe_of_ok hc h)
  obtain rfl := Except.ok.inj (h.symm.trans h')
  exact hstep

theorem run_cons : run record (c :: calls) = record.call c >>= fun r => run r calls := rfl

theorem run_ok_iff (hc : ∀ c ∈ calls, c.IsComplete) :
    (∃ final, run record calls = .ok final) ↔ record.SafeRun calls := by
  induction calls generalizing record with
  | nil => exact ⟨fun _ => trivial, fun _ => ⟨record, rfl⟩⟩
  | cons c calls ih =>
    obtain ⟨hc, hcs⟩ := List.forall_mem_cons.1 hc
    rw [run_cons]
    constructor
    · rintro ⟨final, h⟩
      obtain ⟨record', hcall, hrun⟩ := exists_of_bind_eq_ok h
      refine ⟨callSafe_of_ok hc hcall, fun record'' hcall' => ?_⟩
      obtain rfl := Except.ok.inj (hcall.symm.trans hcall')
      exact (ih hcs).1 ⟨final, hrun⟩
    · rintro ⟨hsafe, hrest⟩
      obtain ⟨record', hcall, -⟩ := step_call hc hsafe
      obtain ⟨final, hrun⟩ := (ih hcs).2 (hrest record' hcall)
      exact ⟨final, by rw [hcall, ok_bind, hrun]⟩

/-- The receipts are in the window or right before it. -/
def Bounded (record : CompressedRecord) : Prop :=
  ∀ s : SequenceNumberCyclic, s.value ∈ record.completeReceipts →
    record.InWindow s ∨ record.windowStart.distance s = 4095

theorem Step.distance_eq {received : Option SequenceNumberCyclic} (h : Step record record' received)
    (hin : record'.InWindow s) :
    record.windowStart.distance s =
      record.windowStart.distance record'.windowStart + record'.windowStart.distance s := by
  have hforward := h.forward
  have hle := record'.windowSize_le
  unfold InWindow at hin
  have := @SequenceNumberCyclic.distance_eq record.windowStart record'.windowStart s
  split at this <;> omega

theorem Step.inWindow_of_mem {received : Option SequenceNumberCyclic}
    (h : Step record record' received) (hbounded : record.Bounded) (hin : record'.InWindow s)
    (hs : s.value ∈ record.completeReceipts) : record.InWindow s := by
  have hle := record.windowSize_le
  have hforward := h.forward
  rcases hbounded s hs with h' | h'
  · exact h'
  · have hdistance := h.distance_eq hin
    have hle' := record'.windowSize_le
    unfold InWindow at hin
    omega

theorem Step.bounded {received : Option SequenceNumberCyclic} (h : Step record record' received)
    (hbounded : record.Bounded) : record'.Bounded := by
  intro s hs
  rcases (h.mem_iff s).1 hs with ⟨-, hin⟩ | ⟨hmem, hsame | hin | hlast⟩
  · exact .inl hin
  · have := hbounded s hmem
    rwa [InWindow, hsame, h.size_eq]
  · exact .inl hin
  · exact .inr hlast

/-- The number is in the window during a run. -/
def Stays (record : CompressedRecord) (calls : List Call) (s : SequenceNumberCyclic) : Prop :=
  ∀ mid, mid <+: calls → ∀ record', run record mid = .ok record' → record'.InWindow s

/-- A frame with the number was received, and the number has been in the window ever since. -/
def ReceivedSince (record : CompressedRecord) (calls : List Call) (s : SequenceNumberCyclic) :
    Prop :=
  ∃ before header after record', calls = before ++ .compressedFrameReceived header :: after ∧
    header.sequenceNumber = s ∧
    run record (before ++ [.compressedFrameReceived header]) = .ok record' ∧ Stays record' after s

theorem stays_nil : Stays record [] s ↔ record.InWindow s := by
  constructor
  · intro h
    exact h [] List.prefix_rfl record rfl
  · intro h mid hmid record' hrun
    obtain rfl := List.prefix_nil.1 hmid
    obtain rfl := Except.ok.inj hrun
    exact h

theorem stays_cons (hcall : record.call c = .ok record') :
    Stays record (c :: calls) s ↔ record.InWindow s ∧ Stays record' calls s := by
  constructor
  · intro h
    refine ⟨h [] List.nil_prefix record rfl, fun mid hmid record'' hrun => ?_⟩
    refine h (c :: mid) (List.cons_prefix_cons.2 ⟨rfl, hmid⟩) record'' ?_
    rw [run_cons, hcall, ok_bind, hrun]
  · rintro ⟨hin, h⟩ mid hmid record'' hrun
    cases mid with
    | nil =>
      obtain rfl := Except.ok.inj hrun
      exact hin
    | cons c' mid =>
      obtain ⟨rfl, hmid'⟩ := List.cons_prefix_cons.1 hmid
      rw [run_cons, hcall, ok_bind] at hrun
      exact h mid hmid' record'' hrun

theorem receivedSince_cons (hcall : record.call c = .ok record') :
    ReceivedSince record (c :: calls) s ↔
      (c.received = some s ∧ Stays record' calls s) ∨ ReceivedSince record' calls s := by
  constructor
  · rintro ⟨before, header, after, record'', heq, hs, hrun, hstays⟩
    cases before with
    | nil =>
      obtain ⟨rfl, rfl⟩ : c = _ ∧ calls = after := by simpa using heq
      rw [List.nil_append, run_cons, hcall] at hrun
      obtain rfl := Except.ok.inj hrun
      exact .inl ⟨congrArg some hs, hstays⟩
    | cons c' before =>
      obtain ⟨rfl, rfl⟩ : c = c' ∧ calls = _ := by simpa using heq
      rw [List.cons_append, run_cons, hcall, ok_bind] at hrun
      exact .inr ⟨before, header, after, record'', rfl, hs, hrun, hstays⟩
  · rintro (⟨hs, hstays⟩ | ⟨before, header, after, record'', rfl, hs, hrun, hstays⟩)
    · cases c with
      | advanceCompressedWindow => cases hs
      | compressedFrameReceived header =>
        refine ⟨[], header, calls, record', rfl, Option.some.inj hs, ?_, hstays⟩
        rw [List.nil_append, run_cons, hcall]
        rfl
    · refine ⟨c :: before, header, after, record'', rfl, hs, ?_, hstays⟩
      rw [List.cons_append, run_cons, hcall, ok_bind, hrun]

theorem mem_run_iff (hc : ∀ c ∈ calls, c.IsComplete) (hbounded : record.Bounded)
    (hrun : run record calls = .ok final) (hin : final.InWindow s) :
    s.value ∈ final.completeReceipts ↔
      ReceivedSince record calls s ∨
        (s.value ∈ record.completeReceipts ∧ Stays record calls s) := by
  induction calls generalizing record with
  | nil =>
    obtain rfl := Except.ok.inj hrun
    have hno : ¬ ReceivedSince record [] s := by
      rintro ⟨before, header, after, _, heq, -⟩
      simp at heq
    simp [stays_nil, hin, hno]
  | cons c calls ih =>
    obtain ⟨hc, hcs⟩ := List.forall_mem_cons.1 hc
    rw [run_cons] at hrun
    obtain ⟨record', hcall, hrun⟩ := exists_of_bind_eq_ok hrun
    have hstep := step_of_ok hc hcall
    have hstart : Stays record' calls s → record'.InWindow s :=
      fun h => h [] List.nil_prefix record' rfl
    rw [ih hcs (hstep.bounded hbounded) hrun, receivedSince_cons hcall, stays_cons hcall,
      hstep.mem_iff s]
    constructor
    · rintro (h | ⟨⟨hr, -⟩ | ⟨hmem, -⟩, hstays⟩)
      · exact .inl (.inr h)
      · exact .inl (.inl ⟨hr, hstays⟩)
      · exact .inr ⟨hmem, hstep.inWindow_of_mem hbounded (hstart hstays) hmem, hstays⟩
    · rintro ((⟨hr, hstays⟩ | h) | ⟨hmem, -, hstays⟩)
      · exact .inr ⟨.inl ⟨hr, hstart hstays⟩, hstays⟩
      · exact .inl h
      · exact .inr ⟨.inr ⟨hmem, .inr (.inl (hstart hstays))⟩, hstays⟩

theorem bounded_run (hc : ∀ c ∈ calls, c.IsComplete) (hbounded : record.Bounded)
    (hrun : run record calls = .ok final) :
    final.Bounded ∧ final.windowSize = record.windowSize := by
  induction calls generalizing record with
  | nil =>
    obtain rfl := Except.ok.inj hrun
    exact ⟨hbounded, rfl⟩
  | cons c calls ih =>
    obtain ⟨hc, hcs⟩ := List.forall_mem_cons.1 hc
    rw [run_cons] at hrun
    obtain ⟨record', hcall, hrun⟩ := exists_of_bind_eq_ok hrun
    have hstep := step_of_ok hc hcall
    obtain ⟨hfinal, hsize⟩ := ih hcs (hstep.bounded hbounded) hrun
    exact ⟨hfinal, hsize.trans hstep.size_eq⟩

/-- How far the start of the window moves in a run. -/
def travel (record : CompressedRecord) : List Call → ℕ
  | [] => 0
  | c :: calls =>
    match record.call c with
    | .ok record' => record.windowStart.distance record'.windowStart + travel record' calls
    | .error _ => 0

theorem travel_add_distance (hc : ∀ c ∈ calls, c.IsComplete) (hrun : run record calls = .ok final)
    (hstays : Stays record calls s) :
    record.windowStart.distance s = travel record calls + final.windowStart.distance s := by
  induction calls generalizing record with
  | nil =>
    obtain rfl := Except.ok.inj hrun
    simp [travel]
  | cons c calls ih =>
    obtain ⟨hc, hcs⟩ := List.forall_mem_cons.1 hc
    rw [run_cons] at hrun
    obtain ⟨record', hcall, hrun⟩ := exists_of_bind_eq_ok hrun
    obtain ⟨hin, hrest⟩ := (stays_cons hcall).1 hstays
    have hdistance := (step_of_ok hc hcall).distance_eq (hrest [] List.nil_prefix record' rfl)
    simp only [travel, hcall]
    rw [hdistance, ih hcs hrun hrest]
    omega

/-- The record is exact. A run returns exactly if its calls are safe; then the receipts are in the
window or right before it, the window only moves forward, and a number of the window is reported
exactly if a frame with it was received and it has been in the window ever since, in which time the
window moved by less than its size. -/
theorem record_exact (start : SequenceNumberCyclic) (size : ℤ) (record₀ : CompressedRecord)
    (h₀ : initializeCompressedWindow start size = .ok record₀) (calls : List Call)
    (hc : ∀ c ∈ calls, c.IsComplete) :
    ((∃ record, run record₀ calls = .ok record) ↔ record₀.SafeRun calls) ∧
    ∀ record, run record₀ calls = .ok record →
      (∀ c record', c.IsComplete → record.call c = .ok record' →
        record'.windowStart = record.windowStart ∨ record.windowStart < record'.windowStart) ∧
      (∀ s : SequenceNumberCyclic, s.value ∈ record.completeReceipts →
        record.windowStart.distance s < record.windowSize ∨ record.windowStart.distance s = 4095) ∧
      ∀ s : SequenceNumberCyclic, record.windowStart.distance s < record.windowSize →
        (record.getCompressedAckState s = .ok true ↔ ReceivedSince record₀ calls s) ∧
        ∀ before header after record', calls = before ++ .compressedFrameReceived header :: after →
          run record₀ (before ++ [.compressedFrameReceived header]) = .ok record' →
          Stays record' after s → travel record' after < record.windowSize := by
  have hempty : record₀.completeReceipts = ∅ := by
    unfold initializeCompressedWindow at h₀
    split at h₀
    · obtain rfl := Except.ok.inj h₀
      rfl
    · cases h₀
  have hbounded : record₀.Bounded := by
    intro s hs
    simp [hempty] at hs
  refine ⟨run_ok_iff hc, fun record hrun => ⟨?_, ?_, ?_⟩⟩
  · intro c record' hcc hcall
    have hforward := (step_of_ok hcc hcall).forward
    rcases Nat.eq_zero_or_pos (record.windowStart.distance record'.windowStart) with h | h
    · exact .inl (distance_eq_zero.1 h).symm
    · exact .inr ⟨h, hforward⟩
  · exact (bounded_run hc hbounded hrun).1
  · intro s hs
    constructor
    · have hmem := mem_run_iff hc hbounded hrun hs
      simp only [hempty, Finset.notMem_empty, false_and, or_false] at hmem
      have hin : record.InWindow s := hs
      rw [← hmem, getCompressedAckState, isInWindow_eq]
      simp [hin, hasCompleteReceipt]
    · rintro before header after record' rfl hrun' hstays
      have hafter : run record' after = .ok record := by
        rw [run, List.append_cons, List.foldlM_append] at hrun
        rw [run] at hrun'
        rwa [hrun', ok_bind] at hrun
      have hafter' : ∀ c ∈ after, c.IsComplete := fun c hmem => hc c (by simp [hmem])
      have hbefore : ∀ c ∈ before ++ [.compressedFrameReceived header], c.IsComplete :=
        fun c hmem => hc c (by simp at hmem ⊢; tauto)
      have hsize := (bounded_run hbefore hbounded hrun').2
      have hsize' := (bounded_run hc hbounded hrun).2
      have htravel := travel_add_distance hafter' hafter hstays
      have hin : record'.windowStart.distance s < record'.windowSize :=
        hstays [] List.nil_prefix record' rfl
      omega

/-- A header of a whole MSDU. -/
def header_of (n : ℕ) : DataHeader := ⟨ofNat n, 0, false, .blockAck⟩

/-- A window of four numbers crosses the end of the number range, and forgets a number that it has
left. -/
theorem record_exact_wrap :
    ∃ record₀ record, initializeCompressedWindow (ofNat 4094) 4 = .ok record₀ ∧
      run record₀ [.compressedFrameReceived (header_of 4095),
        .compressedFrameReceived (header_of 6)] = .ok record ∧
      record.windowStart = ofNat 3 ∧
      (record.getCompressedAckState (ofNat 6) = .ok true ↔
        ReceivedSince record₀ [.compressedFrameReceived (header_of 4095),
          .compressedFrameReceived (header_of 6)] (ofNat 6)) := by
  have h := record_exact (ofNat 4094) 4 ⟨ofNat 4094, 4, ∅, by decide, by decide⟩ (by decide)
    [.compressedFrameReceived (header_of 4095), .compressedFrameReceived (header_of 6)]
    (by simp [Call.IsComplete, header_of])
  have hrun : run ⟨ofNat 4094, 4, ∅, by decide, by decide⟩
      [.compressedFrameReceived (header_of 4095), .compressedFrameReceived (header_of 6)] =
      .ok ⟨ofNat 3, 4, {6}, by decide, by decide⟩ := by
    decide +kernel
  refine ⟨⟨ofNat 4094, 4, ∅, by decide, by decide⟩, ⟨ofNat 3, 4, {6}, by decide, by decide⟩,
    by decide, hrun, rfl, ?_⟩
  exact ((h.2 ⟨ofNat 3, 4, {6}, by decide, by decide⟩ hrun).2.2 (ofNat 6) (by decide)).1

/-- A frame beyond the window fails an assertion when the window would move to zero. -/
theorem record_not_exact :
    ¬ ∀ (start : SequenceNumberCyclic) (size : ℤ) (record₀ : CompressedRecord) (calls : List Call),
      initializeCompressedWindow start size = .ok record₀ → (∀ c ∈ calls, c.IsComplete) →
      ∃ record, run record₀ calls = .ok record := by
  intro h
  obtain ⟨record, hrun⟩ := h (ofNat 4090) 4 ⟨ofNat 4090, 4, ∅, by decide, by decide⟩
    [.compressedFrameReceived (header_of 3)] (by decide) (by simp [Call.IsComplete, header_of])
  have hfails : run ⟨ofNat 4090, 4, ∅, by decide, by decide⟩
      [.compressedFrameReceived (header_of 3)] = .error (.assertion "value != -1") := by
    decide +kernel
  rw [hfails] at hrun
  cases hrun

end CompressedRecord

end Inet.Ieee80211
