import Inet.Ieee80211.ReorderingSteps

/-! # Released units

Advancing the window and releasing the consecutive units at its start are both
moves of the receive buffer. The units are collected by their distance from the
next expected number.
-/

namespace Inet.Ieee80211.Recipient

open SequenceNumberCyclic Error

variable {rb : ReceiveBuffer} {start : SequenceNumberCyclic} {count i : ℕ}

theorem msduIfComplete_eq_some_iff (hv : rb.Valid) {s : SequenceNumberCyclic} {m : Msdu} :
    msduIfComplete rb s = some m ↔ m ∈ rb.buffer ∧ isComplete m.2 = true ∧ m.1 = s := by
  unfold msduIfComplete
  constructor
  · intro h
    split at h
    next f hfind =>
      split at h
      next hcomplete =>
        rw [Option.some.injEq] at h
        subst h
        exact ⟨hv.find_eq_some_iff.1 hfind, hcomplete, rfl⟩
      next => cases h
    next => cases h
  · rintro ⟨hm, hcomplete, rfl⟩
    rw [hv.find_eq_some_iff.2 hm]
    simp [hcomplete]

section Preceding

theorem mem_collectPreceding (hv : rb.Valid)
    (hstart : rb.nextExpectedSequenceNumber.distance start < 2048) (hcount : i + count ≤ 64)
    {m : Msdu} : m ∈ collectCompletePrecedingMpdus rb start count i ↔
      m ∈ rb.buffer ∧ isComplete m.2 = true ∧
        i ≤ rb.nextExpectedSequenceNumber.distance m.1 ∧
        rb.nextExpectedSequenceNumber.distance m.1 < i + count ∧
        rb.nextExpectedSequenceNumber.distance m.1 <
          rb.nextExpectedSequenceNumber.distance start := by
  induction count generalizing i with
  | zero =>
    simp only [collectCompletePrecedingMpdus, List.not_mem_nil, false_iff]
    rintro ⟨-, -, hle, hlt, -⟩
    omega
  | succ count ih =>
    have hi : rb.nextExpectedSequenceNumber.distance (rb.nextExpectedSequenceNumber.ahead i) = i :=
      distance_ahead (by omega)
    have hlt : rb.nextExpectedSequenceNumber.ahead i < start ↔
        i < rb.nextExpectedSequenceNumber.distance start := by
      rw [lt_iff_distance_lt (n := rb.nextExpectedSequenceNumber) (by omega) hstart, hi]
    rw [collectCompletePrecedingMpdus]
    by_cases hbefore : i < rb.nextExpectedSequenceNumber.distance start
    · rw [if_pos (hlt.2 hbefore), List.mem_append, ih (by omega), Option.mem_toList,
        msduIfComplete_eq_some_iff hv]
      constructor
      · rintro (⟨hm, hcomplete, heq⟩ | ⟨hm, hcomplete, hle, hlt, hbefore⟩)
        · rw [heq, hi]
          exact ⟨hm, hcomplete, le_refl i, by omega, hbefore⟩
        · exact ⟨hm, hcomplete, by omega, by omega, hbefore⟩
      · rintro ⟨hm, hcomplete, hle, hlt, hbefore⟩
        by_cases heq : rb.nextExpectedSequenceNumber.distance m.1 = i
        · refine .inl ⟨hm, hcomplete, ?_⟩
          rw [← heq, ahead_distance]
        · exact .inr ⟨hm, hcomplete, by omega, by omega, hbefore⟩
    · rw [if_neg (mt hlt.1 hbefore)]
      simp only [List.not_mem_nil, false_iff]
      rintro ⟨-, -, hle, -, hlt⟩
      omega

theorem sorted_collectPreceding (hv : rb.Valid)
    (hstart : rb.nextExpectedSequenceNumber.distance start < 2048) (hcount : i + count ≤ 64) :
    (collectCompletePrecedingMpdus rb start count i).Pairwise fun a b =>
      rb.nextExpectedSequenceNumber.distance a.1 < rb.nextExpectedSequenceNumber.distance b.1 := by
  induction count generalizing i with
  | zero => exact List.Pairwise.nil
  | succ count ih =>
    rw [collectCompletePrecedingMpdus]
    split
    · rw [List.pairwise_append]
      refine ⟨?_, ih (by omega), ?_⟩
      · cases msduIfComplete rb (rb.nextExpectedSequenceNumber.ahead i) <;> simp
      · intro a ha b hb
        rw [Option.mem_toList, msduIfComplete_eq_some_iff hv] at ha
        obtain ⟨-, -, hle, -⟩ := (mem_collectPreceding hv hstart (by omega)).1 hb
        rw [ha.2.2, distance_ahead (by omega)]
        omega
    · exact List.Pairwise.nil

end Preceding

section Following

theorem collectConsecutive_spec (hv : rb.Valid) (hcount : i + count ≤ 64) :
    (∀ m ∈ collectConsecutiveCompleteFollowingMpdus rb rb.nextExpectedSequenceNumber count i,
      m ∈ rb.buffer ∧ isComplete m.2 = true) ∧
    (collectConsecutiveCompleteFollowingMpdus rb rb.nextExpectedSequenceNumber count i).map
      (fun m => rb.nextExpectedSequenceNumber.distance m.1) = List.range' i
        (collectConsecutiveCompleteFollowingMpdus rb rb.nextExpectedSequenceNumber count i).length
      := by
  induction count generalizing i with
  | zero => simp [collectConsecutiveCompleteFollowingMpdus]
  | succ count ih =>
    rw [collectConsecutiveCompleteFollowingMpdus]
    split
    next m hm =>
      rw [msduIfComplete_eq_some_iff hv] at hm
      obtain ⟨hmem, hcomplete, heq⟩ := hm
      obtain ⟨hrest, hmap⟩ := @ih (i + 1) (by omega)
      constructor
      · rw [List.forall_mem_cons]
        exact ⟨⟨hmem, hcomplete⟩, hrest⟩
      · rw [List.map_cons, hmap, List.length_cons, List.range'_succ, heq,
          distance_ahead (by omega)]
    next => simp

end Following

section Release

variable {frames : List Msdu} {record : BlockAckRecord}

/-- The place after the last of some units. -/
def reach (base : SequenceNumberCyclic) (frames : List Msdu) : ℕ :=
  (frames.getLast?.map fun msdu => base.distance msdu.1 + 1).getD 0

theorem forall_distance_lt_iff {base : SequenceNumberCyclic}
    (hsorted : frames.Pairwise fun a b => base.distance a.1 < base.distance b.1) (d : ℕ) :
    (∀ m ∈ frames, base.distance m.1 < d) ↔ reach base frames ≤ d := by
  rcases List.eq_nil_or_concat frames with rfl | ⟨init, last, rfl⟩
  · simp [reach]
  · rw [List.concat_eq_append] at hsorted ⊢
    rw [List.pairwise_append] at hsorted
    simp only [reach, List.getLast?_append, List.getLast?_singleton, Option.some_or,
      Option.map_some, Option.getD_some, Nat.succ_le_iff]
    constructor
    · exact fun h => h last (by simp)
    · intro hlast m hm
      rcases List.mem_append.1 hm with hm | hm
      · exact (hsorted.2.2 m hm last (by simp)).trans hlast
      · rw [List.mem_singleton.1 hm]
        exact hlast

theorem nextAfter_eq {base : SequenceNumberCyclic} (frames : List Msdu) :
    nextAfter base frames = base.ahead (reach base frames) := by
  unfold nextAfter reach
  cases frames.getLast? with
  | none => simp
  | some last =>
    simp only [Option.map_some, Option.getD_some]
    rw [← ahead_ahead, ahead_distance]

theorem releaseReceiveBuffer_reach (hv : rb.Valid) (hmem : ∀ m ∈ frames, m ∈ rb.buffer)
    (hsorted : frames.Pairwise fun a b => rb.nextExpectedSequenceNumber.distance a.1 <
      rb.nextExpectedSequenceNumber.distance b.1) (record : BlockAckRecord) :
    Recipient.releaseReceiveBuffer ⟨rb, record⟩ frames =
      .ok ⟨cut rb rb.nextExpectedSequenceNumber (reach rb.nextExpectedSequenceNumber frames)
        (rb.nextExpectedSequenceNumber.ahead (reach rb.nextExpectedSequenceNumber frames)),
        recordAfter record frames⟩ := by
  rw [releaseReceiveBuffer_eq (fun m hm => hv.distance_lt hm) hmem hsorted record
    (fun m _ => forall_distance_lt_iff hsorted _), nextAfter_eq]

theorem advanceReceiveBuffer_moved (hv : rb.Valid)
    (hstart : rb.nextExpectedSequenceNumber.distance start < 2048) (record : BlockAckRecord) :
    ∃ rb' frames, Recipient.advanceReceiveBuffer ⟨rb, record⟩ start =
        .ok (⟨rb', recordAfter record frames⟩, frames) ∧
      Moved rb rb' (rb.nextExpectedSequenceNumber.distance start) frames := by
  have hsize : 0 + rb.bufferSize ≤ 64 := by
    have := hv.size_le
    omega
  have hmem : ∀ {m : Msdu}, m ∈ collectCompletePrecedingMpdus rb start rb.bufferSize 0 ↔
      m ∈ rb.buffer ∧ isComplete m.2 = true ∧ rb.nextExpectedSequenceNumber.distance m.1 <
        rb.nextExpectedSequenceNumber.distance start := by
    intro m
    rw [mem_collectPreceding hv hstart hsize]
    constructor
    · rintro ⟨hm, hcomplete, -, -, hlt⟩
      exact ⟨hm, hcomplete, hlt⟩
    · rintro ⟨hm, hcomplete, hlt⟩
      have := hv.inside m hm
      exact ⟨hm, hcomplete, by omega, by omega, hlt⟩
  have hsorted := sorted_collectPreceding hv hstart hsize
  have hreach := (forall_distance_lt_iff hsorted _).1 fun m hm => (hmem.1 hm).2.2
  refine ⟨{ (cut rb rb.nextExpectedSequenceNumber (reach rb.nextExpectedSequenceNumber
    (collectCompletePrecedingMpdus rb start rb.bufferSize 0)) start).dropFramesUntil start with
      nextExpectedSequenceNumber := start },
    collectCompletePrecedingMpdus rb start rb.bufferSize 0, ?_, ?_⟩
  · rw [advanceReceiveBuffer,
      releaseReceiveBuffer_reach hv (fun m hm => (hmem.1 hm).1) hsorted record]
    rfl
  · constructor
    · exact ahead_distance.symm
    · rfl
    · simp only [cut, ReceiveBuffer.dropFramesUntil, List.filter_filter]
      apply List.filter_congr
      intro m hm
      rw [← Bool.decide_and, decide_eq_decide, lt_iff_distance_lt (hv.distance_lt hm) hstart]
      omega
    · exact hstart.le
    · exact fun m hm => hmem.1 hm
    · exact hsorted
    · exact fun m hm hcomplete hlt => hmem.2 ⟨hm, hcomplete, hlt⟩

theorem releaseConsecutive_moved (hv : rb.Valid) (record : BlockAckRecord) :
    ∃ rb' places frames,
      Recipient.releaseConsecutive ⟨rb, record⟩ rb.nextExpectedSequenceNumber =
        .ok (⟨rb', recordAfter record frames⟩, frames) ∧
      places ≤ rb.bufferSize ∧ (0 < places → ∃ m ∈ rb.buffer,
        rb.nextExpectedSequenceNumber.distance m.1 + 1 = places) ∧ Moved rb rb' places frames := by
  obtain ⟨hmem, hmap⟩ := @collectConsecutive_spec rb rb.bufferSize 0 hv (by
    have := hv.size_le
    omega)
  generalize hframes : collectConsecutiveCompleteFollowingMpdus rb rb.nextExpectedSequenceNumber
    rb.bufferSize 0 = frames at hmem hmap
  have hsorted : frames.Pairwise fun a b => rb.nextExpectedSequenceNumber.distance a.1 <
      rb.nextExpectedSequenceNumber.distance b.1 := by
    rw [← List.pairwise_map (R := (· < ·)), hmap]
    exact List.pairwise_lt_range'
  have hplace : ∀ {d : ℕ}, (∃ m ∈ frames, rb.nextExpectedSequenceNumber.distance m.1 = d) ↔
      d < frames.length := by
    intro d
    rw [← List.mem_map, hmap, List.mem_range'_1]
    omega
  have hlt : ∀ m ∈ frames, rb.nextExpectedSequenceNumber.distance m.1 < frames.length :=
    fun m hm => hplace.1 ⟨m, hm, rfl⟩
  have hreach : reach rb.nextExpectedSequenceNumber frames = frames.length := by
    apply le_antisymm ((forall_distance_lt_iff hsorted _).1 hlt)
    by_contra hlen
    obtain ⟨m, hm, heq⟩ := hplace.2 (not_le.1 hlen)
    have := (forall_distance_lt_iff hsorted _).2 le_rfl m hm
    omega
  have hlast : 0 < frames.length → ∃ m ∈ rb.buffer,
      rb.nextExpectedSequenceNumber.distance m.1 + 1 = frames.length := by
    intro hpos
    obtain ⟨m, hm, heq⟩ := hplace.2 (Nat.sub_lt hpos one_pos)
    exact ⟨m, (hmem m hm).1, by omega⟩
  have hlen : frames.length ≤ rb.bufferSize := by
    rcases Nat.eq_zero_or_pos frames.length with h | h
    · omega
    · obtain ⟨m, hm, heq⟩ := hlast h
      have := hv.inside m hm
      omega
  refine ⟨cut rb rb.nextExpectedSequenceNumber frames.length
    (rb.nextExpectedSequenceNumber.ahead frames.length), frames.length, frames, ?_, hlen, hlast, ?_⟩
  · rw [releaseConsecutive]
    simp only [hframes]
    rw [releaseReceiveBuffer_reach hv (fun m hm => (hmem m hm).1) hsorted record, hreach]
    rfl
  · constructor
    · rfl
    · rfl
    · rfl
    · have := hv.size_le
      omega
    · exact fun m hm => ⟨(hmem m hm).1, (hmem m hm).2, hlt m hm⟩
    · exact hsorted
    · intro m hm _ hplaces
      obtain ⟨m', hm', heq⟩ := hplace.2 hplaces
      rw [hv.eq_of_mem hm (hmem m' hm').1 (eq_of_distance_eq heq.symm)]
      exact hm'

end Release

end Inet.Ieee80211.Recipient
