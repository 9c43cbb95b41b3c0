import Inet.Ieee80211.Reordering
import Mathlib.Data.List.Nodup

/-! # Moving the receive buffer

All the functions that release units move the next expected number forward by
some places. What is passed is released in order if it is complete, and dropped
otherwise; what is ahead is kept.
-/

namespace Inet.Ieee80211

open SequenceNumberCyclic Error

/-- The numbers of the buffer are different and in its window. -/
structure ReceiveBuffer.Valid (rb : ReceiveBuffer) : Prop where
  size_pos : 0 < rb.bufferSize
  size_le : rb.bufferSize ≤ 64
  nodup : (rb.buffer.map (·.1)).Nodup
  inside : ∀ m ∈ rb.buffer, rb.nextExpectedSequenceNumber.distance m.1 < rb.bufferSize

/-- The next expected number moves by some places, over the given units. -/
structure Moved (rb rb' : ReceiveBuffer) (places : ℕ) (frames : List Msdu) : Prop where
  next_eq : rb'.nextExpectedSequenceNumber = rb.nextExpectedSequenceNumber.ahead places
  size_eq : rb'.bufferSize = rb.bufferSize
  buffer_eq : rb'.buffer = rb.buffer.filter fun m =>
    places ≤ rb.nextExpectedSequenceNumber.distance m.1
  places_le : places ≤ 2048
  mem_frames : ∀ m ∈ frames, m ∈ rb.buffer ∧ isComplete m.2 = true ∧
    rb.nextExpectedSequenceNumber.distance m.1 < places
  sorted : frames.Pairwise fun a b => rb.nextExpectedSequenceNumber.distance a.1 <
    rb.nextExpectedSequenceNumber.distance b.1
  all : ∀ m ∈ rb.buffer, isComplete m.2 = true →
    rb.nextExpectedSequenceNumber.distance m.1 < places → m ∈ frames

section Distance

variable {n s t : SequenceNumberCyclic}

theorem lt_iff_distance_lt (hs : n.distance s < 64) (ht : n.distance t < 2048) :
    s < t ↔ n.distance s < n.distance t := by
  rw [lt_def, @distance_eq n s t]
  split <;> omega

theorem distance_of_le {places : ℕ} (hp : places ≤ 2048) (h : places ≤ n.distance s) :
    (n.ahead places).distance s = n.distance s - places := by
  rw [distance_of_ahead (by omega), if_pos h]

theorem eq_of_distance_eq (h : n.distance s = n.distance t) : s = t := by
  rw [← @ahead_distance n s, h, ahead_distance]

end Distance

theorem lookup_eq_some_iff {α β : Type} [DecidableEq α] {l : List (α × β)}
    (hnodup : (l.map (·.1)).Nodup) {a : α} {b : β} : l.lookup a = some b ↔ (a, b) ∈ l := by
  induction l with
  | nil => simp
  | cons p l ih =>
    obtain ⟨k, v⟩ := p
    rw [List.map_cons, List.nodup_cons] at hnodup
    obtain ⟨hnotin, hnodup⟩ := hnodup
    by_cases hk : a = k
    · subst hk
      rw [List.lookup_cons_self]
      constructor
      · rintro ⟨⟩
        exact List.mem_cons_self
      · intro hmem
        rcases List.mem_cons.1 hmem with heq | hmem
        · rw [(Prod.mk.inj heq).2]
        · exact absurd (List.mem_map_of_mem hmem) hnotin
    · have hne : (a == k) = false := beq_false_of_ne hk
      simp only [List.lookup_cons, hne, List.mem_cons, Prod.mk.injEq, hk, false_and, false_or]
      exact ih hnodup

namespace ReceiveBuffer

variable {rb : ReceiveBuffer}

theorem Valid.find_eq_some_iff (h : rb.Valid) {s : SequenceNumberCyclic} {f : List Mpdu} :
    rb.find s = some f ↔ (s, f) ∈ rb.buffer :=
  lookup_eq_some_iff h.nodup

theorem Valid.eq_of_mem (h : rb.Valid) {a b : Msdu} (ha : a ∈ rb.buffer) (hb : b ∈ rb.buffer)
    (heq : a.1 = b.1) : a = b :=
  List.inj_on_of_nodup_map h.nodup ha hb heq

theorem Valid.distance_lt (h : rb.Valid) {m : Msdu} (hm : m ∈ rb.buffer) :
    rb.nextExpectedSequenceNumber.distance m.1 < 64 :=
  (h.inside m hm).trans_le h.size_le

theorem Valid.length_le (h : rb.Valid) : rb.buffer.length ≤ rb.bufferSize := by
  have hnodup : (rb.buffer.map fun m => rb.nextExpectedSequenceNumber.distance m.1).Nodup := by
    have hinj := h.nodup.map fun s t => @eq_of_distance_eq rb.nextExpectedSequenceNumber s t
    rwa [List.map_map] at hinj
  have hsub : (rb.buffer.map fun m => rb.nextExpectedSequenceNumber.distance m.1) ⊆
      List.range rb.bufferSize := by
    intro x hx
    obtain ⟨m, hm, rfl⟩ := List.mem_map.1 hx
    exact List.mem_range.2 (h.inside m hm)
  have hle := (List.subperm_of_subset hnodup hsub).length_le
  simpa using hle

end ReceiveBuffer

namespace Moved

variable {rb rb' rb'' : ReceiveBuffer} {p q : ℕ} {f g : List Msdu}

theorem refl (rb : ReceiveBuffer) : Moved rb rb 0 [] := by
  constructor <;> simp

theorem valid (h : Moved rb rb' p f) (hv : rb.Valid) : rb'.Valid := by
  have hle := h.places_le
  constructor
  · rw [h.size_eq]
    exact hv.size_pos
  · rw [h.size_eq]
    exact hv.size_le
  · rw [h.buffer_eq]
    exact hv.nodup.sublist ((List.filter_sublist).map _)
  · intro m hm
    rw [h.buffer_eq, List.mem_filter, decide_eq_true_eq] at hm
    have := hv.inside m hm.1
    rw [h.next_eq, h.size_eq, distance_of_le h.places_le hm.2]
    omega

theorem trans (h : Moved rb rb' p f) (h' : Moved rb' rb'' q g) (hv : rb.Valid)
    (hpq : p + q ≤ 2048) : Moved rb rb'' (p + q) (f ++ g) := by
  have hdistance : ∀ {m : Msdu}, m ∈ rb'.buffer →
      m ∈ rb.buffer ∧ rb.nextExpectedSequenceNumber.distance m.1 =
        p + rb'.nextExpectedSequenceNumber.distance m.1 := by
    intro m hm
    rw [h.buffer_eq, List.mem_filter, decide_eq_true_eq] at hm
    rw [h.next_eq, distance_of_le h.places_le hm.2]
    exact ⟨hm.1, by omega⟩
  constructor
  · rw [h'.next_eq, h.next_eq, ahead_ahead]
  · rw [h'.size_eq, h.size_eq]
  · rw [h'.buffer_eq, h.buffer_eq, List.filter_filter]
    apply List.filter_congr
    intro m hm
    have hlt := hv.distance_lt hm
    rw [← Bool.decide_and, decide_eq_decide, h.next_eq]
    constructor
    · rintro ⟨hq, hp⟩
      rw [distance_of_le h.places_le hp] at hq
      omega
    · intro hle
      have hp : p ≤ rb.nextExpectedSequenceNumber.distance m.1 := by omega
      rw [distance_of_le h.places_le hp]
      omega
  · exact hpq
  · intro m hm
    rcases List.mem_append.1 hm with hm | hm
    · obtain ⟨hmem, hcomplete, hlt⟩ := h.mem_frames m hm
      exact ⟨hmem, hcomplete, by omega⟩
    · obtain ⟨hmem, hcomplete, hlt⟩ := h'.mem_frames m hm
      obtain ⟨hmem, heq⟩ := hdistance hmem
      exact ⟨hmem, hcomplete, by omega⟩
  · refine List.pairwise_append.2 ⟨h.sorted, ?_, ?_⟩
    · refine h'.sorted.imp_of_mem fun {a b} ha hb hlt => ?_
      rw [(hdistance (h'.mem_frames a ha).1).2, (hdistance (h'.mem_frames b hb).1).2]
      omega
    · intro a ha b hb
      have hlt := (h.mem_frames a ha).2.2
      rw [(hdistance (h'.mem_frames b hb).1).2]
      omega
  · intro m hm hcomplete hlt
    rw [List.mem_append]
    by_cases hp : rb.nextExpectedSequenceNumber.distance m.1 < p
    · exact .inl (h.all m hm hcomplete hp)
    · have hm' : m ∈ rb'.buffer := by
        rw [h.buffer_eq, List.mem_filter, decide_eq_true_eq]
        exact ⟨hm, not_lt.1 hp⟩
      have heq := (hdistance hm').2
      exact .inr (h'.all m hm' hcomplete (by omega))

end Moved

namespace Recipient

variable {recipient : Recipient} {rb : ReceiveBuffer} {start : SequenceNumberCyclic}

/-- The buffer without the units before a place, with the next number at another one. -/
def cut (rb : ReceiveBuffer) (base : SequenceNumberCyclic) (places : ℕ)
    (next : SequenceNumberCyclic) : ReceiveBuffer := { rb with
  buffer := rb.buffer.filter fun m => places ≤ base.distance m.1
  nextExpectedSequenceNumber := next }

theorem passedUp_eq {base : SequenceNumberCyclic} (hnear : ∀ m ∈ rb.buffer, base.distance m.1 < 64)
    {msdu : Msdu} (hm : msdu ∈ rb.buffer) (record : BlockAckRecord) :
    Recipient.passedUp ⟨rb, record⟩ msdu.1 =
      .ok ⟨cut rb base (base.distance msdu.1 + 1) (msdu.1.ahead 1), record.passedUp msdu.1⟩ := by
  have hself : ¬ msdu.1 < msdu.1 := by simp [lt_def]
  have hfind : ((ReceiveBuffer.dropFramesUntil
      { rb with nextExpectedSequenceNumber := msdu.1.ahead 1 } msdu.1).find msdu.1).isSome := by
    rw [ReceiveBuffer.find, List.lookup_isSome_iff]
    exact ⟨msdu, by simp [ReceiveBuffer.dropFramesUntil, hm, hself], by simp⟩
  have hbuffer : (rb.buffer.filter fun m => ¬ m.1 < msdu.1).filter (fun m => m.1 ≠ msdu.1) =
      rb.buffer.filter fun m => base.distance msdu.1 + 1 ≤ base.distance m.1 := by
    rw [List.filter_filter]
    apply List.filter_congr
    intro m hmem
    rw [← Bool.decide_and, decide_eq_decide,
      lt_iff_distance_lt (hnear m hmem) ((hnear msdu hm).trans (by decide))]
    constructor
    · rintro ⟨hne, hge⟩
      have : base.distance m.1 ≠ base.distance msdu.1 := fun h => hne (eq_of_distance_eq h)
      omega
    · intro hlt
      refine ⟨?_, by omega⟩
      intro heq
      rw [heq] at hlt
      omega
  rw [Recipient.passedUp]
  simp only
  rw [ReceiveBuffer.removeFrame, if_pos hfind, ok_bind, pure_eq_ok]
  simp only [ReceiveBuffer.dropFramesUntil, cut, hbuffer]

/-- The record after some units are passed up. -/
def recordAfter (record : BlockAckRecord) (frames : List Msdu) : BlockAckRecord :=
  frames.foldl (fun record msdu => record.passedUp msdu.1) record

/-- The next expected number after some units are passed up. -/
def nextAfter (next : SequenceNumberCyclic) (frames : List Msdu) : SequenceNumberCyclic :=
  (frames.getLast?.map fun msdu => msdu.1.ahead 1).getD next

theorem releaseReceiveBuffer_eq {base : SequenceNumberCyclic} {frames : List Msdu}
    (hnear : ∀ m ∈ rb.buffer, base.distance m.1 < 64) (hmem : ∀ m ∈ frames, m ∈ rb.buffer)
    (hsorted : frames.Pairwise fun a b => base.distance a.1 < base.distance b.1)
    (record : BlockAckRecord) {places : ℕ}
    (hplaces : ∀ m ∈ rb.buffer, (∀ m' ∈ frames, base.distance m'.1 < base.distance m.1) ↔
      places ≤ base.distance m.1) :
    Recipient.releaseReceiveBuffer ⟨rb, record⟩ frames =
      .ok ⟨cut rb base places (nextAfter rb.nextExpectedSequenceNumber frames),
        recordAfter record frames⟩ := by
  induction frames generalizing rb record with
  | nil =>
    have hall : rb.buffer.filter (fun m => places ≤ base.distance m.1) = rb.buffer := by
      rw [List.filter_eq_self]
      intro m hm
      rw [decide_eq_true_eq, ← hplaces m hm]
      simp
    simp only [Recipient.releaseReceiveBuffer, List.foldlM_nil, pure_eq_ok, cut, hall, nextAfter,
      List.getLast?_nil, Option.map_none, Option.getD_none, recordAfter, List.foldl_nil]
  | cons msdu frames ih =>
    obtain ⟨hm, hmem⟩ := List.forall_mem_cons.1 hmem
    obtain ⟨hfirst, hsorted⟩ := List.pairwise_cons.1 hsorted
    have hcut : ∀ {m : Msdu}, m ∈ (cut rb base (base.distance msdu.1 + 1) (msdu.1.ahead 1)).buffer ↔
        m ∈ rb.buffer ∧ base.distance msdu.1 < base.distance m.1 := by
      intro m
      simp only [cut, List.mem_filter, decide_eq_true_eq, Nat.succ_le_iff]
    have hrest := @ih (cut rb base (base.distance msdu.1 + 1) (msdu.1.ahead 1))
      (fun m h => hnear m (hcut.1 h).1) (fun m h => hcut.2 ⟨hmem m h, hfirst m h⟩) hsorted
      (record.passedUp msdu.1) (by
        intro m h
        obtain ⟨h, hlt⟩ := hcut.1 h
        rw [← hplaces m h, List.forall_mem_cons]
        simp [hlt])
    rw [Recipient.releaseReceiveBuffer, List.foldlM_cons, passedUp_eq hnear hm, ok_bind]
    rw [Recipient.releaseReceiveBuffer] at hrest
    rw [hrest]
    congr 2
    · -- What is behind the last unit is behind the first.
      simp only [cut, List.filter_filter]
      congr 1
      · apply List.filter_congr
        intro m h
        rw [← Bool.decide_and, decide_eq_decide, ← hplaces m h, List.forall_mem_cons]
        constructor
        · exact And.left
        · exact fun hall => ⟨hall, hall.1⟩
      · unfold nextAfter
        cases frames with
        | nil => rfl
        | cons m frames =>
          rw [List.getLast?_cons_cons]
          cases hlast : (m :: frames).getLast? with
          | none => simp at hlast
          | some last => rfl

end Recipient

end Inet.Ieee80211
