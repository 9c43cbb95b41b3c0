import Inet.Ieee80211.Insertion

/-! # Runs of the reordering

The units that the calls of a run return are complete and in order, and no
complete unit is lost, as long as no call goes back to the place before zero.
-/

namespace Inet.Ieee80211

open SequenceNumberCyclic Error

/-- What a call does to the buffer, if the given units come in with it. -/
structure Progress (rb rb' : ReceiveBuffer) (comes : Msdu → Prop) (frames : List Msdu) : Prop where
  valid : rb'.Valid
  fits : rb'.Fits
  forward : rb.nextExpectedSequenceNumber.distance rb'.nextExpectedSequenceNumber ≤ 2048
  complete : ∀ m ∈ frames, Complete m.2
  passed : ∀ m ∈ frames, rb.nextExpectedSequenceNumber.distance m.1 <
    rb.nextExpectedSequenceNumber.distance rb'.nextExpectedSequenceNumber
  sorted : frames.Pairwise fun a b => rb.nextExpectedSequenceNumber.distance a.1 <
    rb.nextExpectedSequenceNumber.distance b.1
  kept : ∀ m : Msdu, m ∈ rb.buffer ∨ comes m → Complete m.2 → m ∈ frames ∨ m ∈ rb'.buffer
  origin : ∀ m : Msdu, m ∈ frames ∨ m ∈ rb'.buffer → m ∈ rb.buffer ∨ comes m

/-- The states of a basic record after a call: only old ones and new ones, and none before a
released unit. -/
def Recorded (record record' : BlockAckRecord) (isNew : SequenceNumberCyclic × ℤ → Prop)
    (frames : List Msdu) : Prop :=
  ∀ states, record = .basic states → ∃ states', record' = .basic states' ∧
    ∀ key ∈ states', (key ∈ states ∨ isNew key) ∧ ∀ m ∈ frames, ¬ key.1 < m.1

namespace Recorded

variable {record record' record'' : BlockAckRecord} {f g : List Msdu}
  {isNew isNew' : SequenceNumberCyclic × ℤ → Prop}

theorem refl (record : BlockAckRecord) (isNew : SequenceNumberCyclic × ℤ → Prop) :
    Recorded record record isNew [] := by
  rintro states rfl
  exact ⟨states, rfl, fun key hkey => ⟨.inl hkey, by simp⟩⟩

theorem mono (h : Recorded record record' isNew f) (hnew : ∀ key, isNew key → isNew' key) :
    Recorded record record' isNew' f := by
  intro states hstates
  obtain ⟨states', heq, hkeys⟩ := h states hstates
  refine ⟨states', heq, ?_⟩
  intro key hkey
  exact ⟨(hkeys key hkey).1.imp_right (hnew key), (hkeys key hkey).2⟩

theorem trans (h : Recorded record record' isNew f) (h' : Recorded record' record'' isNew' g)
    (hnew : ∀ key, isNew' key → isNew key ∧ ∀ m ∈ f, ¬ key.1 < m.1) :
    Recorded record record'' isNew (f ++ g) := by
  intro states hstates
  obtain ⟨states', heq, hkeys⟩ := h states hstates
  obtain ⟨states'', heq', hkeys'⟩ := h' states' heq
  refine ⟨states'', heq', ?_⟩
  intro key hkey
  obtain ⟨horigin, hg⟩ := hkeys' key hkey
  rw [List.forall_mem_append]
  rcases horigin with hkey | hkey
  · exact ⟨(hkeys key hkey).1, (hkeys key hkey).2, hg⟩
  · exact ⟨.inr (hnew key hkey).1, (hnew key hkey).2, hg⟩

/-- Passing up units removes the states before them. -/
theorem recordAfter (record : BlockAckRecord) (frames : List Msdu) :
    Recorded record (Recipient.recordAfter record frames) (fun _ => False) frames := by
  induction frames generalizing record with
  | nil => exact refl record _
  | cons m frames ih =>
    have hfirst : Recorded record (record.passedUp m.1) (fun _ => False) [m] := by
      rintro states rfl
      refine ⟨BlockAckRecord.removeAckStates states m.1, rfl, ?_⟩
      intro key hkey
      rw [BlockAckRecord.removeAckStates, List.mem_filter, decide_eq_true_eq] at hkey
      rw [List.forall_mem_singleton]
      exact ⟨.inl hkey.1, hkey.2⟩
    exact hfirst.trans (ih (record.passedUp m.1)) fun _ h => h.elim

end Recorded

theorem Progress.of_not_comes {rb rb' : ReceiveBuffer} {frames : List Msdu} {comes : Msdu → Prop}
    (h : Progress rb rb' (fun _ => False) frames) (hcomes : ∀ m, ¬ comes m) :
    Progress rb rb' comes frames := by
  obtain rfl : comes = fun _ => False := funext fun m => eq_false (hcomes m)
  exact h

namespace Moved

variable {rb rb' rb'' rb₁ rb₂ : ReceiveBuffer} {p q : ℕ} {f g : List Msdu}

theorem distance_next (h : Moved rb rb' p f) :
    rb.nextExpectedSequenceNumber.distance rb'.nextExpectedSequenceNumber = p := by
  have := h.places_le
  rw [h.next_eq, distance_ahead (by omega)]

theorem fits (h : Moved rb rb' p f) (hfits : rb.Fits) : rb'.Fits := by
  intro m hm
  rw [h.buffer_eq, List.mem_filter] at hm
  exact hfits m hm.1

theorem mem_or_mem (h : Moved rb rb' p f) {m : Msdu} (hm : m ∈ rb.buffer)
    (hcomplete : isComplete m.2 = true) : m ∈ f ∨ m ∈ rb'.buffer := by
  by_cases hp : rb.nextExpectedSequenceNumber.distance m.1 < p
  · exact .inl (h.all m hm hcomplete hp)
  · right
    rw [h.buffer_eq, List.mem_filter, decide_eq_true_eq]
    exact ⟨hm, not_lt.1 hp⟩

theorem mem_of_mem (h : Moved rb rb' p f) {m : Msdu} (hm : m ∈ f ∨ m ∈ rb'.buffer) :
    m ∈ rb.buffer := by
  rcases hm with hm | hm
  · exact (h.mem_frames m hm).1
  · rw [h.buffer_eq, List.mem_filter] at hm
    exact hm.1

theorem progress (h : Moved rb rb' p f) (hv : rb.Valid) (hfits : rb.Fits) :
    Progress rb rb' (fun _ => False) f := by
  constructor
  · exact h.valid hv
  · exact h.fits hfits
  · rw [h.distance_next]
    exact h.places_le
  · intro m hm
    obtain ⟨hmem, hcomplete, -⟩ := h.mem_frames m hm
    exact (isComplete_iff (hfits m hmem).2).1 hcomplete
  · intro m hm
    rw [h.distance_next]
    exact (h.mem_frames m hm).2.2
  · exact h.sorted
  · rintro m (hm | hm) hcomplete
    · exact h.mem_or_mem hm ((isComplete_iff (hfits m hm).2).2 hcomplete)
    · exact hm.elim
  · exact fun m hm => .inl (h.mem_of_mem hm)

theorem progress_insert (h : Moved rb rb₁ p f) {mpdu : Mpdu}
    (hins : ReceiveBuffer.Inserted rb₁ rb₂ mpdu) (h' : Moved rb₂ rb' q g) (hpq : p + q ≤ 2048)
    (hv : rb.Valid) (hfits : rb.Fits) (hnumbered : Numbered (rb₁.fragmentsWith mpdu))
    (hdup : ¬ rb₁.IsDuplicate mpdu) :
    Progress rb rb' (fun m => m = (mpdu.header.sequenceNumber, rb₁.fragmentsWith mpdu))
      (f ++ g) := by
  have hfits₁ := h.fits hfits
  have hv₁ := h.valid hv
  have hfits₂ := hins.fits hv₁ hfits₁ hnumbered
  have hnext : rb₂.nextExpectedSequenceNumber = rb.nextExpectedSequenceNumber.ahead p := by
    rw [hins.next_eq, h.next_eq]
  have hdistance : rb.nextExpectedSequenceNumber.distance rb'.nextExpectedSequenceNumber =
      p + q := by
    rw [h'.next_eq, hnext, ahead_ahead, distance_ahead (by omega)]
  -- Places after the first move are counted from before it.
  have hplace : ∀ {m : Msdu}, m ∈ rb₂.buffer → rb.nextExpectedSequenceNumber.distance m.1 =
      p + rb₂.nextExpectedSequenceNumber.distance m.1 := by
    intro m hm
    have hlt := hins.valid.distance_lt hm
    have hp := h.places_le
    rw [hnext] at hlt ⊢
    conv_lhs => rw [← @ahead_distance (rb.nextExpectedSequenceNumber.ahead p) m.1, ahead_ahead]
    rw [distance_ahead (by omega)]
  constructor
  · exact h'.valid hins.valid
  · exact h'.fits hfits₂
  · rw [hdistance]
    exact hpq
  · intro m hm
    rcases List.mem_append.1 hm with hm | hm
    · exact (h.progress hv hfits).complete m hm
    · exact (h'.progress hins.valid hfits₂).complete m hm
  · intro m hm
    rw [hdistance]
    rcases List.mem_append.1 hm with hm | hm
    · have := (h.mem_frames m hm).2.2
      omega
    · obtain ⟨hmem, -, hlt⟩ := h'.mem_frames m hm
      rw [hplace hmem]
      omega
  · rw [List.pairwise_append]
    refine ⟨h.sorted, ?_, ?_⟩
    · apply h'.sorted.imp_of_mem
      intro a b ha hb hlt
      rw [hplace (h'.mem_frames a ha).1, hplace (h'.mem_frames b hb).1]
      omega
    · intro a ha b hb
      have := (h.mem_frames a ha).2.2
      rw [hplace (h'.mem_frames b hb).1]
      omega
  · intro m hm hcomplete
    rw [List.mem_append]
    have hafter : m ∈ rb₂.buffer → m ∈ g ∨ m ∈ rb'.buffer := by
      intro hm
      exact h'.mem_or_mem hm ((isComplete_iff (hfits₂ m hm).2).2 hcomplete)
    rcases hm with hm | rfl
    · have hcheck := (isComplete_iff (hfits m hm).2).2 hcomplete
      rcases h.mem_or_mem hm hcheck with hm | hm
      · exact .inl (.inl hm)
      · rcases hafter (hins.mem_of_complete hv₁ hfits₁ hnumbered hdup hm hcheck) with hm | hm
        · exact .inl (.inr hm)
        · exact .inr hm
    · rcases hafter ((hins.mem_iff _).2 (.inr rfl)) with hm | hm
      · exact .inl (.inr hm)
      · exact .inr hm
  · intro m hm
    have hbefore : m ∈ rb₂.buffer → m ∈ rb.buffer ∨
        m = (mpdu.header.sequenceNumber, rb₁.fragmentsWith mpdu) := by
      intro hm
      rcases (hins.mem_iff m).1 hm with ⟨hm, -⟩ | hm
      · exact .inl (h.mem_of_mem (.inr hm))
      · exact .inr hm
    rw [List.mem_append] at hm
    rcases hm with (hm | hm) | hm
    · exact .inl (h.mem_of_mem (.inl hm))
    · exact hbefore (h'.mem_of_mem (.inl hm))
    · exact hbefore (h'.mem_of_mem (.inr hm))

theorem consecutive (h : Moved rb rb₁ p f) (hv : rb.Valid) (record : BlockAckRecord) :
    ∃ rb' places g, Recipient.releaseConsecutive ⟨rb₁, record⟩ rb₁.nextExpectedSequenceNumber =
        .ok (⟨rb', Recipient.recordAfter record g⟩, g) ∧
      Moved rb rb' places (f ++ g) ∧ (places ≤ p ∨ places ≤ rb.bufferSize) := by
  obtain ⟨rb', places, g, heq, -, hlast, hmoved⟩ :=
    Recipient.releaseConsecutive_moved (h.valid hv) record
  have hbound : p + places ≤ p ∨ p + places ≤ rb.bufferSize := by
    rcases Nat.eq_zero_or_pos places with hzero | hpos
    · left
      omega
    · right
      obtain ⟨m, hm, heq⟩ := hlast hpos
      rw [h.buffer_eq, List.mem_filter, decide_eq_true_eq] at hm
      have := hv.inside m hm.1
      rw [h.next_eq, distance_of_le h.places_le hm.2] at heq
      omega
  have hsize := hv.size_le
  have hp := h.places_le
  exact ⟨rb', p + places, g, heq, h.trans hmoved hv (by omega), hbound⟩

end Moved

namespace Recipient

/-- A call for an agreement, or the record of a frame, which comes before its reordering. -/
inductive Event where
  | qosFrame (mpdu : Mpdu) (interframe : Bool)
  | blockAckReq (blockAckReq : BlockAckReq)
  | compressedFrameReceived (header : DataHeader)
  deriving DecidableEq

def process (recipient : Recipient) : Event → Except Error (Recipient × List Msdu)
  | .qosFrame mpdu interframe => recipient.processReceivedQoSFrame mpdu interframe
  | .blockAckReq blockAckReq => recipient.processReceivedBlockAckReq blockAckReq
  | .compressedFrameReceived header =>
    match recipient.record with
    | .basic _ => .ok (recipient, [])
    | .compressed record => do
      let record ← record.compressedFrameReceived header
      pure ({ recipient with record := .compressed record }, [])

/-- A frame that moves the window does not have the last number of a window that starts at zero; a
frame that came alone and is ahead of the window start does not find the window of the record at
zero. -/
structure SafeFrame (recipient : Recipient) (mpdu : Mpdu) (interframe : Bool) : Prop where
  numbered : Numbered (recipient.receiveBuffer.fragmentsWith mpdu)
  fragmentNumber_lt : mpdu.header.fragmentNumber < 16
  beyond : recipient.receiveBuffer.nextExpectedSequenceNumber ≤ mpdu.header.sequenceNumber →
    recipient.receiveBuffer.isInside mpdu.header.sequenceNumber = false →
    mpdu.header.sequenceNumber.value + 1 ≠ recipient.receiveBuffer.bufferSize
  ahead : ∀ record, recipient.record = .compressed record →
    recipient.receiveBuffer.isInside mpdu.header.sequenceNumber = true →
    recipient.receiveBuffer.nextExpectedSequenceNumber ≠ mpdu.header.sequenceNumber →
    interframe = true → ¬ recipient.receiveBuffer.IsDuplicate mpdu → record.windowStart.value ≠ 0

/-- The requests that the callers pass on: those of the variant of the agreement. -/
def SafeReq (recipient : Recipient) : BlockAckReq → Prop
  | .basic .. => True
  | .compressed .. => ∃ record, recipient.record = .compressed record
  | .multiTid => False

def Safe (recipient : Recipient) : Event → Prop
  | .qosFrame mpdu interframe => recipient.SafeFrame mpdu interframe
  | .blockAckReq blockAckReq => recipient.SafeReq blockAckReq
  | .compressedFrameReceived header => ∀ record, recipient.record = .compressed record →
    CompressedRecord.Call.IsComplete (.compressedFrameReceived header) ∧
      record.CallSafe (.compressedFrameReceived header)

/-- A frame that is not old or a duplicate brings a unit with it. -/
def Event.Brings (rb : ReceiveBuffer) : Event → Msdu → Prop
  | qosFrame mpdu _, m => rb.nextExpectedSequenceNumber ≤ mpdu.header.sequenceNumber ∧
    ¬ rb.IsDuplicate mpdu ∧ m = (mpdu.header.sequenceNumber, rb.fragmentsWith mpdu)
  | _, _ => False

/-- The acknowledgment state of a frame that is not old. -/
def Event.Records (rb : ReceiveBuffer) : Event → SequenceNumberCyclic × ℤ → Prop
  | qosFrame mpdu _, key => rb.nextExpectedSequenceNumber ≤ mpdu.header.sequenceNumber ∧
    key = (mpdu.header.sequenceNumber, mpdu.header.fragmentNumber)
  | _, _ => False

variable {rb rb₁ rb₂ : ReceiveBuffer} {p : ℕ} {f : List Msdu}

theorem advance_beyond (hv : rb.Valid) {s : SequenceNumberCyclic}
    (hle : rb.bufferSize ≤ rb.nextExpectedSequenceNumber.distance s)
    (hlt : rb.nextExpectedSequenceNumber.distance s < 2048)
    (hne : s.value + 1 ≠ rb.bufferSize) (record : BlockAckRecord) :
    ∃ start rb₁ f record', s.sub rb.bufferSize = .ok start ∧
      Recipient.advanceReceiveBuffer ⟨rb, record⟩ (start.ahead 1) = .ok (⟨rb₁, record'⟩, f) ∧
      Moved rb rb₁ (rb.nextExpectedSequenceNumber.distance s + 1 - rb.bufferSize) f ∧
      rb₁.nextExpectedSequenceNumber.distance s + 1 = rb.bufferSize ∧
      Recorded record record' (fun _ => False) f := by
  have hsize := hv.size_le
  have hpos := hv.size_pos
  have hstart : (s.ahead (4096 - rb.bufferSize)).ahead 1 = rb.nextExpectedSequenceNumber.ahead
      (rb.nextExpectedSequenceNumber.distance s + 1 - rb.bufferSize) := by
    rw [ahead_ahead]
    conv_lhs => rw [← @ahead_distance rb.nextExpectedSequenceNumber s, ahead_ahead]
    apply ext_value
    simp only [SequenceNumberCyclic.ahead, ofNat]
    omega
  have hdistance : rb.nextExpectedSequenceNumber.distance
      ((s.ahead (4096 - rb.bufferSize)).ahead 1) =
      rb.nextExpectedSequenceNumber.distance s + 1 - rb.bufferSize := by
    rw [hstart, distance_ahead (by omega)]
  obtain ⟨rb₁, f, heq, hmoved⟩ := @advanceReceiveBuffer_moved rb
    ((s.ahead (4096 - rb.bufferSize)).ahead 1) hv (by omega) record
  refine ⟨_, rb₁, f, _, ?_, heq, ?_, ?_, Recorded.recordAfter record f⟩
  · rw [sub_eq s (by omega), if_neg hne]
  · rwa [hdistance] at hmoved
  · rw [hmoved.next_eq, hdistance, distance_of_le (by omega) (by omega)]
    omega

theorem recordFrame_ok (rb : ReceiveBuffer) (record : BlockAckRecord) {header : DataHeader}
    (hnumber : header.fragmentNumber < 16) :
    ∃ record', Recipient.recordFrame ⟨rb, record⟩ header = .ok ⟨rb, record'⟩ ∧
      (∀ r, record' = .compressed r → record = .compressed r) ∧
      Recorded record record' (· = (header.sequenceNumber, header.fragmentNumber)) [] := by
  unfold recordFrame
  cases record with
  | basic states =>
    simp only [BlockAckRecord.blockAckPolicyFrameReceived, if_pos hnumber, ok_bind]
    split
    · refine ⟨_, rfl, fun r h => (by cases h), ?_⟩
      rintro _ ⟨⟩
      refine ⟨_, rfl, ?_⟩
      intro key hkey
      rw [List.mem_insert_iff] at hkey
      exact ⟨hkey.symm, by simp⟩
    · exact ⟨_, rfl, fun r h => (by cases h), Recorded.refl _ _⟩
  | compressed record => exact ⟨_, rfl, fun r h => h, Recorded.refl _ _⟩

theorem releasePreceding_moved (hv : rb.Valid) (record : BlockAckRecord) {header : DataHeader}
    {mayRelease : Bool}
    (hs : rb.nextExpectedSequenceNumber.distance header.sequenceNumber < rb.bufferSize)
    (hzero : ∀ r, record = .compressed r → mayRelease = true → r.windowStart.value ≠ 0) :
    ∃ rb' record' p g, Recipient.releasePreceding ⟨rb, record⟩ header mayRelease =
      .ok (⟨rb', record'⟩, g) ∧ p ≤ rb.bufferSize ∧ Moved rb rb' p g ∧
      Recorded record record' (fun _ => False) g := by
  unfold releasePreceding
  cases record with
  | basic states => exact ⟨rb, _, 0, [], rfl, by omega, Moved.refl rb, Recorded.refl _ _⟩
  | compressed r =>
    cases hmay : mayRelease with
    | false => exact ⟨rb, _, 0, [], rfl, by omega, Moved.refl rb, Recorded.refl _ _⟩
    | true =>
      have hvalue := hzero r rfl hmay
      have hsub : r.windowStart.sub 1 = .ok (r.windowStart.ahead 4095) := by
        have := @sub_eq r.windowStart 1 (by omega)
        rwa [if_neg (by omega)] at this
      have hsize := hv.size_le
      simp only [if_true, hsub, ok_bind]
      split
      · obtain ⟨rb', g, heq, hmoved⟩ := @advanceReceiveBuffer_moved rb header.sequenceNumber hv
          (by omega) (.compressed r)
        exact ⟨rb', _, _, g, heq, hs.le, hmoved, Recorded.recordAfter _ g⟩
      · exact ⟨rb, _, 0, [], rfl, by omega, Moved.refl rb, Recorded.refl _ _⟩

section QosFrame

variable {record : BlockAckRecord} {mpdu : Mpdu} {interframe : Bool}

theorem process_new (hv : rb.Valid)
    (hs : rb.nextExpectedSequenceNumber.distance mpdu.header.sequenceNumber < rb.bufferSize)
    (hdup : ¬ rb.IsDuplicate mpdu) (hnumber : mpdu.header.fragmentNumber < 16) {mayRelease : Bool}
    (hzero : ∀ r, record = .compressed r → mayRelease = true → r.windowStart.value ≠ 0) :
    ∃ rb₂ record₂ rb₃ record₃ g₁ rb' record' g₂ q,
      rb.insertFrame mpdu = .ok (rb₂, true) ∧
      Recipient.recordFrame ⟨rb₂, record⟩ mpdu.header = .ok ⟨rb₂, record₂⟩ ∧
      Recipient.releasePreceding ⟨rb₂, record₂⟩ mpdu.header mayRelease =
        .ok (⟨rb₃, record₃⟩, g₁) ∧
      Recipient.releaseConsecutive ⟨rb₃, record₃⟩ rb₃.nextExpectedSequenceNumber =
        .ok (⟨rb', record'⟩, g₂) ∧
      ReceiveBuffer.Inserted rb rb₂ mpdu ∧ Moved rb₂ rb' q (g₁ ++ g₂) ∧ q ≤ rb.bufferSize ∧
      Recorded record record'
        (· = (mpdu.header.sequenceNumber, mpdu.header.fragmentNumber)) (g₁ ++ g₂) := by
  obtain ⟨rb₂, hinsert, hins⟩ := ReceiveBuffer.insertFrame_inserted hv hs hdup
  obtain ⟨record₂, hrecord, hsame, hnew⟩ := recordFrame_ok rb₂ record hnumber
  obtain ⟨rb₃, record₃, p, g₁, hpreceding, hp, hmoved, hkept⟩ :=
    @releasePreceding_moved rb₂ hins.valid
    record₂ mpdu.header mayRelease (by
      rw [hins.next_eq, hins.size_eq]
      exact hs) fun r hr => hzero r (hsame r hr)
  obtain ⟨rb', q, g₂, hconsecutive, hmoved', hq⟩ := hmoved.consecutive hins.valid record₃
  have hsize := hins.size_eq
  refine ⟨rb₂, record₂, rb₃, record₃, g₁, rb', _, g₂, q, hinsert, hrecord, hpreceding, hconsecutive,
    hins, hmoved', by omega, ?_⟩
  have := (hnew.trans hkept fun _ h => h.elim).trans (Recorded.recordAfter record₃ g₂)
    fun _ h => h.elim
  rwa [List.nil_append] at this

theorem process_old (recipient : Recipient)
    (hold : ¬ recipient.receiveBuffer.nextExpectedSequenceNumber ≤ mpdu.header.sequenceNumber) :
    recipient.processReceivedQoSFrame mpdu interframe = .ok (recipient, []) := by
  rw [processReceivedQoSFrame]
  simp only [hold, not_false_eq_true, if_true, pure_eq_ok]

theorem le_of_inside (hv : rb.Valid) {s : SequenceNumberCyclic}
    (hs : rb.nextExpectedSequenceNumber.distance s < rb.bufferSize) :
    rb.nextExpectedSequenceNumber ≤ s ∧
      s < rb.nextExpectedSequenceNumber.ahead rb.bufferSize := by
  have := hv.isInside_iff.2 hs
  rwa [ReceiveBuffer.isInside, decide_eq_true_eq] at this

theorem process_duplicate (hv : rb.Valid)
    (hs : rb.nextExpectedSequenceNumber.distance mpdu.header.sequenceNumber < rb.bufferSize)
    (hdup : rb.IsDuplicate mpdu) :
    Recipient.processReceivedQoSFrame ⟨rb, record⟩ mpdu interframe = .ok (⟨rb, record⟩, []) := by
  obtain ⟨hle, hlt⟩ := le_of_inside hv hs
  rw [processReceivedQoSFrame]
  simp only [hle, hlt, not_true_eq_false, if_false, pure_eq_ok, ok_bind,
    ReceiveBuffer.insertFrame_duplicate hv hs hdup]

theorem process_inside (hv : rb.Valid) (hfits : rb.Fits)
    (hs : rb.nextExpectedSequenceNumber.distance mpdu.header.sequenceNumber < rb.bufferSize)
    (hdup : ¬ rb.IsDuplicate mpdu)
    (hsafe : SafeFrame ⟨rb, record⟩ mpdu interframe) :
    ∃ rb' record' frames,
      Recipient.processReceivedQoSFrame ⟨rb, record⟩ mpdu interframe =
        .ok (⟨rb', record'⟩, frames) ∧
      Progress rb rb' (fun m => m = (mpdu.header.sequenceNumber, rb.fragmentsWith mpdu)) frames ∧
      Recorded record record' (Event.Records rb (.qosFrame mpdu interframe)) frames := by
  obtain ⟨hle, hlt⟩ := le_of_inside hv hs
  have hinside := hv.isInside_iff.2 hs
  obtain ⟨rb₂, record₂, rb₃, record₃, g₁, rb', record', g₂, q, hinsert, hrecord, hpreceding,
    hconsecutive, hins, hmoved, hq, hnew⟩ := @process_new rb record mpdu hv hs hdup
      hsafe.fragmentNumber_lt (rb.isInside mpdu.header.sequenceNumber &&
        rb.nextExpectedSequenceNumber < mpdu.header.sequenceNumber && interframe) (by
      intro r hr hmay
      rw [Bool.and_eq_true, Bool.and_eq_true, decide_eq_true_eq] at hmay
      obtain ⟨⟨-, hahead⟩, hinterframe⟩ := hmay
      refine hsafe.ahead r hr hinside ?_ hinterframe hdup
      intro heq
      rw [← heq, lt_def, distance_self] at hahead
      exact absurd hahead.1 (lt_irrefl 0))
  have hsize := hv.size_le
  refine ⟨rb', record', g₁ ++ g₂, ?_, ?_, hnew.mono fun key hkey => ⟨hle, hkey⟩⟩
  · rw [processReceivedQoSFrame]
    simp only [hle, hlt, not_true_eq_false, if_false, pure_eq_ok, ok_bind, hinsert, hrecord,
      hpreceding, hconsecutive, List.nil_append]
  · have := (Moved.refl rb).progress_insert hins hmoved (by omega) hv hfits hsafe.numbered hdup
    rwa [List.nil_append] at this

theorem process_beyond (hv : rb.Valid) (hfits : rb.Fits)
    (hs : rb.bufferSize ≤ rb.nextExpectedSequenceNumber.distance mpdu.header.sequenceNumber)
    (hhalf : rb.nextExpectedSequenceNumber.distance mpdu.header.sequenceNumber < 2048)
    (hsafe : SafeFrame ⟨rb, record⟩ mpdu interframe) :
    ∃ rb' record' frames,
      Recipient.processReceivedQoSFrame ⟨rb, record⟩ mpdu interframe =
        .ok (⟨rb', record'⟩, frames) ∧
      Progress rb rb' (fun m => m = (mpdu.header.sequenceNumber, rb.fragmentsWith mpdu)) frames ∧
      Recorded record record' (Event.Records rb (.qosFrame mpdu interframe)) frames := by
  have hle : rb.nextExpectedSequenceNumber ≤ mpdu.header.sequenceNumber := le_iff.2 hhalf
  have hinside : rb.isInside mpdu.header.sequenceNumber = false := by
    rw [Bool.eq_false_iff, ne_eq, hv.isInside_iff]
    omega
  have hlt : ¬ mpdu.header.sequenceNumber < rb.nextExpectedSequenceNumber.ahead rb.bufferSize := by
    intro hlt
    have : rb.isInside mpdu.header.sequenceNumber = true := by
      rw [ReceiveBuffer.isInside, decide_eq_true_eq]
      exact ⟨hle, hlt⟩
    rw [hinside] at this
    cases this
  obtain ⟨start, rb₁, f, record₁, hstart, hadvance, hmoved, hlast, hkept⟩ :=
    advance_beyond hv hs hhalf (hsafe.beyond hle hinside) record
  have hv₁ := hmoved.valid hv
  have hsize₁ := hmoved.size_eq
  -- There is nothing yet with the number of the frame.
  have hfind := hv.find_outside hs
  have hfind₁ : rb₁.find mpdu.header.sequenceNumber = none := by
    rw [hv₁.find_eq_none_iff]
    intro m hm
    rw [hmoved.buffer_eq, List.mem_filter] at hm
    exact hv.find_eq_none_iff.1 hfind m hm.1
  have hdup₁ : ¬ rb₁.IsDuplicate mpdu := by
    rintro ⟨g, hg, -⟩
    rw [hfind₁] at hg
    cases hg
  have hwith : rb₁.fragmentsWith mpdu = rb.fragmentsWith mpdu := by
    rw [ReceiveBuffer.fragmentsWith, ReceiveBuffer.fragmentsWith, hfind, hfind₁]
  have hpos := hv.size_pos
  obtain ⟨rb₂, record₂, rb₃, record₃, g₁, rb', record', g₂, q, hinsert, hrecord, hpreceding,
    hconsecutive, hins, hmoved', hq, hnew⟩ := @process_new rb₁ record₁ mpdu hv₁ (by omega) hdup₁
      hsafe.fragmentNumber_lt
        (false && rb.nextExpectedSequenceNumber < mpdu.header.sequenceNumber &&
        interframe) (by
      intro r hr hmay
      rw [Bool.false_and, Bool.false_and] at hmay
      cases hmay)
  have hadd : start.add 1 = .ok (start.ahead 1) := by
    rw [← Nat.cast_one, add_eq]
  have hsize := hv.size_le
  refine ⟨rb', record', f ++ (g₁ ++ g₂), ?_, ?_, ?_⟩
  · rw [processReceivedQoSFrame]
    simp only [hle, hlt, hinside, not_true_eq_false, not_false_eq_true, if_true, if_false]
    rw [hstart, ok_bind, hadd, ok_bind, hadvance, ok_bind]
    simp only [pure_eq_ok, ok_bind, hinsert, hrecord, hpreceding, hconsecutive,
      List.append_assoc]
  · rw [← hwith]
    have hnumbered := hsafe.numbered
    simp only [← hwith] at hnumbered
    exact hmoved.progress_insert hins hmoved' (by omega) hv hfits hnumbered hdup₁
  · refine (hkept.mono fun _ h => h.elim).trans hnew ?_
    rintro key rfl
    refine ⟨⟨hle, rfl⟩, ?_⟩
    -- The released units were in the window, the frame was not.
    intro m hm hlt
    have hplace := hv.inside m (hmoved.mem_frames m hm).1
    rw [lt_def, @distance_eq rb.nextExpectedSequenceNumber mpdu.header.sequenceNumber] at hlt
    split at hlt <;> omega

theorem qosFrame_progress (hv : rb.Valid) (hfits : rb.Fits)
    (hsafe : SafeFrame ⟨rb, record⟩ mpdu interframe) :
    ∃ rb' record' frames,
      Recipient.processReceivedQoSFrame ⟨rb, record⟩ mpdu interframe =
        .ok (⟨rb', record'⟩, frames) ∧
      Progress rb rb' (Event.Brings rb (.qosFrame mpdu interframe)) frames ∧
      Recorded record record' (Event.Records rb (.qosFrame mpdu interframe)) frames := by
  have hsize := hv.size_le
  have hstay := (Moved.refl rb).progress hv hfits
  by_cases hhalf : rb.nextExpectedSequenceNumber.distance mpdu.header.sequenceNumber < 2048
  · by_cases hdup : rb.IsDuplicate mpdu
    · have hs : rb.nextExpectedSequenceNumber.distance mpdu.header.sequenceNumber <
          rb.bufferSize := by
        by_contra hs
        obtain ⟨g, hg, -⟩ := hdup
        rw [hv.find_outside (not_lt.1 hs)] at hg
        cases hg
      refine ⟨rb, record, [], process_duplicate hv hs hdup, hstay.of_not_comes ?_,
        Recorded.refl _ _⟩
      rintro m ⟨-, hnew, -⟩
      exact hnew hdup
    · have hbrings : Event.Brings rb (.qosFrame mpdu interframe) =
          fun m => m = (mpdu.header.sequenceNumber, rb.fragmentsWith mpdu) := by
        funext m
        simp only [Event.Brings, le_iff, hhalf, hdup, not_false_eq_true, true_and]
      rw [hbrings]
      by_cases hs : rb.nextExpectedSequenceNumber.distance mpdu.header.sequenceNumber <
          rb.bufferSize
      · exact process_inside hv hfits hs hdup hsafe
      · exact process_beyond hv hfits (not_lt.1 hs) hhalf hsafe
  · have hold : ¬ rb.nextExpectedSequenceNumber ≤ mpdu.header.sequenceNumber := by
      rwa [le_iff]
    refine ⟨rb, record, [], process_old ⟨rb, record⟩ hold, hstay.of_not_comes ?_,
      Recorded.refl _ _⟩
    rintro m ⟨hle, -⟩
    exact hold hle

end QosFrame

section Request

theorem moveToStart_progress (hv : rb.Valid) (hfits : rb.Fits) (start : SequenceNumberCyclic)
    (record : BlockAckRecord) :
    ∃ rb' record' frames, Recipient.moveToStart ⟨rb, record⟩ start = .ok (⟨rb', record'⟩, frames) ∧
      Progress rb rb' (fun _ => False) frames ∧
        Recorded record record' (fun _ => False) frames := by
  rw [moveToStart]
  by_cases hlt : rb.nextExpectedSequenceNumber < start
  · obtain ⟨rb₁, f, hadvance, hmoved⟩ := advanceReceiveBuffer_moved hv hlt.2 record
    have hnext : rb₁.nextExpectedSequenceNumber = start := by
      rw [hmoved.next_eq, ahead_distance]
    obtain ⟨rb', q, g, hconsecutive, hmoved', -⟩ := hmoved.consecutive hv (recordAfter record f)
    rw [hnext] at hconsecutive
    refine ⟨rb', recordAfter (recordAfter record f) g, f ++ g, ?_, hmoved'.progress hv hfits,
      (Recorded.recordAfter record f).trans (Recorded.recordAfter _ g) fun _ h => h.elim⟩
    simp only [hlt, not_true_eq_false, if_false]
    rw [hadvance, ok_bind]
    simp only [hconsecutive, ok_bind, pure_eq_ok]
  · refine ⟨rb, record, [], ?_, (Moved.refl rb).progress hv hfits, Recorded.refl _ _⟩
    simp only [hlt, not_false_eq_true, if_true, pure_eq_ok]

theorem blockAckReq_progress (hv : rb.Valid) (hfits : rb.Fits) {record : BlockAckRecord}
    {blockAckReq : BlockAckReq} (hsafe : SafeReq ⟨rb, record⟩ blockAckReq) :
    ∃ rb' record' frames,
      Recipient.processReceivedBlockAckReq ⟨rb, record⟩ blockAckReq =
        .ok (⟨rb', record'⟩, frames) ∧
      Progress rb rb' (fun _ => False) frames ∧
        Recorded record record' (fun _ => False) frames := by
  have hstay : ∃ rb' record' frames,
      (.ok (⟨rb, record⟩, []) : Except Error (Recipient × List Msdu)) =
        .ok (⟨rb', record'⟩, frames) ∧ Progress rb rb' (fun _ => False) frames ∧
        Recorded record record' (fun _ => False) frames :=
    ⟨rb, record, [], rfl, (Moved.refl rb).progress hv hfits, Recorded.refl _ _⟩
  cases blockAckReq with
  | basic fragmentNumber tidInfo multiTid compressedBitmap startingSequenceNumber =>
    cases startingSequenceNumber with
    | none => exact hstay
    | some start =>
      simp only [processReceivedBlockAckReq]
      split
      · exact hstay
      · exact moveToStart_progress hv hfits start record
  | compressed fragmentNumber tidInfo multiTid compressedBitmap startingSequenceNumber
      chunkLength =>
    obtain ⟨r, hr⟩ := hsafe
    simp only at hr
    subst hr
    cases startingSequenceNumber with
    | none => exact hstay
    | some start =>
      simp only [processReceivedBlockAckReq]
      split
      · exact hstay
      · obtain ⟨rb', record', frames, heq, hprogress, -⟩ := moveToStart_progress hv hfits start
          (.compressed (r.advanceCompressedWindow start))
        exact ⟨rb', record', frames, heq, hprogress, fun states h => by cases h⟩
  | multiTid => exact hsafe.elim

end Request

theorem process_progress {recipient : Recipient} (hv : recipient.receiveBuffer.Valid)
    (hfits : recipient.receiveBuffer.Fits) {event : Event} (hsafe : recipient.Safe event) :
    ∃ recipient' frames, recipient.process event = .ok (recipient', frames) ∧
      Progress recipient.receiveBuffer recipient'.receiveBuffer
        (event.Brings recipient.receiveBuffer) frames ∧
      Recorded recipient.record recipient'.record (event.Records recipient.receiveBuffer)
        frames := by
  obtain ⟨rb, record⟩ := recipient
  cases event with
  | qosFrame mpdu interframe =>
    obtain ⟨rb', record', frames, heq, hprogress⟩ := qosFrame_progress hv hfits hsafe
    exact ⟨⟨rb', record'⟩, frames, heq, hprogress⟩
  | blockAckReq blockAckReq =>
    obtain ⟨rb', record', frames, heq, hprogress⟩ := blockAckReq_progress hv hfits hsafe
    exact ⟨⟨rb', record'⟩, frames, heq, hprogress⟩
  | compressedFrameReceived header =>
    have hstay : Progress rb rb (Event.Brings rb (.compressedFrameReceived header)) [] :=
      (Moved.refl rb).progress hv hfits
    cases record with
    | basic states => exact ⟨_, [], rfl, hstay, Recorded.refl _ _⟩
    | compressed r =>
      obtain ⟨hcomplete, hcall⟩ := hsafe r rfl
      obtain ⟨r', heq, -⟩ := CompressedRecord.step_call hcomplete hcall
      refine ⟨⟨rb, .compressed r'⟩, [], ?_, hstay, fun states h => by cases h⟩
      rw [CompressedRecord.call] at heq
      simp only [process, heq, ok_bind, pure_eq_ok]

/-- A call of a run with what it returns. -/
structure Call where
  before : Recipient
  event : Event
  after : Recipient
  frames : List Msdu

/-- The calls of a run, up to its end or to the first call that throws. -/
def run (recipient : Recipient) : List Event → Except Error (List Call)
  | [] => .ok []
  | event :: events => do
    let (recipient', frames) ← recipient.process event
    let calls ← run recipient' events
    pure (⟨recipient, event, recipient', frames⟩ :: calls)

def SafeRun (recipient : Recipient) : List Event → Prop
  | [] => True
  | event :: events => recipient.Safe event ∧
    ∀ recipient' frames, recipient.process event = .ok (recipient', frames) →
      SafeRun recipient' events

namespace Call

/-- What the next expected number has passed in a call. -/
def places (call : Call) : ℕ :=
  call.before.receiveBuffer.nextExpectedSequenceNumber.distance
    call.after.receiveBuffer.nextExpectedSequenceNumber

/-- The places of the released units, counted from where the next expected number was at first, over
all the rounds of the number range. -/
def positions : ℕ → List Call → List ℕ
  | _, [] => []
  | passed, call :: calls =>
    (call.frames.map fun m =>
      passed + call.before.receiveBuffer.nextExpectedSequenceNumber.distance m.1) ++
        positions (passed + call.places) calls

/-- The window holds the buffer, the released units are complete, the next expected number does not
go back, and complete units are released or kept. -/
structure Sound (call : Call) : Prop where
  inside : ∀ m ∈ call.after.receiveBuffer.buffer, call.after.receiveBuffer.isInside m.1 = true
  complete : ∀ m ∈ call.frames, Complete m.2
  forward : ¬ call.after.receiveBuffer.nextExpectedSequenceNumber <
    call.before.receiveBuffer.nextExpectedSequenceNumber
  kept : ∀ m : Msdu, m ∈ call.before.receiveBuffer.buffer ∨
      call.event.Brings call.before.receiveBuffer m → Complete m.2 →
    m ∈ call.frames ∨ m ∈ call.after.receiveBuffer.buffer

variable {call : Call}

theorem sound_of_progress (h : Progress call.before.receiveBuffer call.after.receiveBuffer
    (call.event.Brings call.before.receiveBuffer) call.frames) : call.Sound := by
  constructor
  · intro m hm
    exact h.valid.isInside_iff.2 (h.valid.inside m hm)
  · exact h.complete
  · have hforward := h.forward
    rw [lt_def, @distance_eq call.before.receiveBuffer.nextExpectedSequenceNumber _
      call.before.receiveBuffer.nextExpectedSequenceNumber, distance_self]
    split <;> omega
  · exact h.kept

theorem le_of_mem_positions {passed p : ℕ} {calls : List Call} (h : p ∈ positions passed calls) :
    passed ≤ p := by
  induction calls generalizing passed with
  | nil => cases h
  | cons call calls ih =>
    rw [positions, List.mem_append, List.mem_map] at h
    rcases h with ⟨m, -, rfl⟩ | h
    · omega
    · have := ih h
      omega

end Call

variable {recipient : Recipient} {events : List Event}

theorem run_sound (hv : recipient.receiveBuffer.Valid) (hfits : recipient.receiveBuffer.Fits)
    (hsafe : recipient.SafeRun events) (passed : ℕ) :
    ∃ calls, recipient.run events = .ok calls ∧ (∀ call ∈ calls, call.Sound) ∧
      (Call.positions passed calls).Pairwise (· < ·) ∧
      ∀ base : SequenceNumberCyclic, recipient.receiveBuffer.nextExpectedSequenceNumber =
        base.ahead passed →
        (calls.flatMap (·.frames)).map (·.1) = (Call.positions passed calls).map base.ahead := by
  induction events generalizing recipient passed with
  | nil => exact ⟨[], rfl, by simp, by simp [Call.positions], fun _ _ => rfl⟩
  | cons event events ih =>
    obtain ⟨hsafe, hrest⟩ := hsafe
    obtain ⟨recipient', frames, heq, hprogress, -⟩ := process_progress hv hfits hsafe
    obtain ⟨calls, hrun, hsound, hsorted, hnumbers⟩ := ih hprogress.valid hprogress.fits
      (hrest recipient' frames heq) (passed + Call.places ⟨recipient, event, recipient', frames⟩)
    refine ⟨⟨recipient, event, recipient', frames⟩ :: calls, ?_, ?_, ?_, ?_⟩
    · rw [run, heq, ok_bind]
      simp only [hrun, ok_bind, pure_eq_ok]
    · rw [List.forall_mem_cons]
      exact ⟨Call.sound_of_progress hprogress, hsound⟩
    · rw [Call.positions, List.pairwise_append]
      refine ⟨?_, hsorted, ?_⟩
      · rw [List.pairwise_map]
        exact hprogress.sorted.imp fun h => Nat.add_lt_add_left h passed
      · intro p hp q hq
        obtain ⟨m, hm, rfl⟩ := List.mem_map.1 hp
        have hpassed := hprogress.passed m hm
        have hle := Call.le_of_mem_positions hq
        simp only [Call.places] at hle ⊢
        omega
    · intro base hbase
      rw [List.flatMap_cons, List.map_append, Call.positions, List.map_append, List.map_map,
        hnumbers base]
      · congr 1
        apply List.map_congr_left
        intro m hm
        rw [Function.comp_apply, ← ahead_ahead, ← hbase, ahead_distance]
      · rw [← ahead_ahead, ← hbase, Call.places, ahead_distance]

/-- The state of a new agreement. -/
def create (startingSequenceNumber : SequenceNumberCyclic) (bufferSize : ℕ)
    (record : BlockAckRecord) : Recipient where
  receiveBuffer := ⟨[], bufferSize, startingSequenceNumber⟩
  record := record

/-- In a safe run no call throws; the buffer stays in its window; the released units are complete,
and in the order of their places, so that none is released twice; the next expected number does not
go back; and no complete unit is discarded. -/
theorem reordering_in_order (startingSequenceNumber : SequenceNumberCyclic) {bufferSize : ℕ}
    (hpos : 1 ≤ bufferSize) (hle : bufferSize ≤ 64) (record : BlockAckRecord) {events : List Event}
    (hsafe : (create startingSequenceNumber bufferSize record).SafeRun events) :
    ∃ calls, (create startingSequenceNumber bufferSize record).run events = .ok calls ∧
      (∀ call ∈ calls, call.Sound) ∧
      (Call.positions 0 calls).Pairwise (· < ·) ∧
      (calls.flatMap (·.frames)).map (·.1) =
        (Call.positions 0 calls).map startingSequenceNumber.ahead := by
  have hv : (create startingSequenceNumber bufferSize record).receiveBuffer.Valid :=
    ⟨hpos, hle, List.nodup_nil, fun m hm => by cases hm⟩
  obtain ⟨calls, hrun, hsound, hsorted, hnumbers⟩ := run_sound hv (fun m hm => by cases hm) hsafe 0
  exact ⟨calls, hrun, hsound, hsorted, hnumbers startingSequenceNumber ahead_zero.symm⟩

theorem SafeRun.cons {event : Event} {recipient' : Recipient} {frames : List Msdu}
    (hsafe : recipient.Safe event) (hprocess : recipient.process event = .ok (recipient', frames))
    (hrest : recipient'.SafeRun events) : recipient.SafeRun (event :: events) := by
  refine ⟨hsafe, ?_⟩
  intro recipient'' frames' heq
  rw [hprocess, Except.ok.injEq, Prod.mk.injEq] at heq
  rw [← heq.1]
  exact hrest

/-- A frame of the run below. -/
def mpduOf (n : ℕ) : Mpdu := ⟨⟨ofNat n, 0, false, .blockAck⟩, n⟩

/-- Two frames across the wrap, the second one first. -/
theorem reordering_wrap :
    (create (ofNat 4095) 2 (.basic [])).SafeRun
      [.qosFrame (mpduOf 0) true, .qosFrame (mpduOf 4095) true] ∧
    ∃ calls, (create (ofNat 4095) 2 (.basic [])).run
        [.qosFrame (mpduOf 0) true, .qosFrame (mpduOf 4095) true] = .ok calls ∧
      (∀ call ∈ calls, call.Sound) ∧
      (Call.positions 0 calls).Pairwise (· < ·) ∧
      (calls.flatMap (·.frames)).map (·.1) =
        (Call.positions 0 calls).map (ofNat 4095).ahead := by
  have hsafe : (create (ofNat 4095) 2 (.basic [])).SafeRun
      [.qosFrame (mpduOf 0) true, .qosFrame (mpduOf 4095) true] := by
    have hprocess : (create (ofNat 4095) 2 (.basic [])).process (.qosFrame (mpduOf 0) true) =
        .ok (⟨⟨[(ofNat 0, [mpduOf 0])], 2, ofNat 4095⟩, .basic [(ofNat 0, 0)]⟩, []) := by
      decide +kernel
    apply SafeRun.cons _ hprocess
    · exact ⟨⟨by decide, by decide, by decide, fun r hr => by cases hr⟩, fun _ _ _ => trivial⟩
    · exact ⟨by decide, by decide, by decide, fun r hr => by cases hr⟩
  exact ⟨hsafe, reordering_in_order (ofNat 4095) (by decide) (by decide) (.basic []) hsafe⟩

/-- A frame that moves the window to zero, and a frame that comes alone, ahead of an expected
zero. -/
theorem reordering_throws :
    (create (ofNat 4090) 4 (.basic [])).run [.qosFrame (mpduOf 3) true] =
      .error (.assertion "value != -1") ∧
    (create (ofNat 0) 4 (.compressed ⟨ofNat 0, 4, ∅, by decide, by decide⟩)).run
      [.compressedFrameReceived (mpduOf 1).header, .qosFrame (mpduOf 1) true] =
      .error (.assertion "value != -1") := by
  constructor <;> rfl

end Recipient

end Inet.Ieee80211
