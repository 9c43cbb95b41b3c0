import Inet.Ieee80211.Release
import Mathlib.Data.Int.Interval

/-! # Received fragments

A frame in the window is added to the fragments with its sequence number, unless
it is a duplicate. If these are numbered as the fragments of one unit then the
check for completeness is exact, and nothing is added to a complete unit.
-/

namespace Inet.Ieee80211

open SequenceNumberCyclic Error

/-- No fragment comes after a last one. -/
def Numbered (fragments : List Mpdu) : Prop :=
  ∀ f ∈ fragments, 0 ≤ f.header.fragmentNumber ∧ (f.header.moreFragments = false →
    ∀ g ∈ fragments, g.header.fragmentNumber ≤ f.header.fragmentNumber)

instance (fragments : List Mpdu) : Decidable (Numbered fragments) :=
  inferInstanceAs (Decidable (∀ _ ∈ _, _))

/-- All fragments of a unit up to the last one. -/
def Complete (fragments : List Mpdu) : Prop :=
  ∃ last ∈ fragments, last.header.moreFragments = false ∧ 0 ≤ last.header.fragmentNumber ∧
    ∀ i, 0 ≤ i → i ≤ last.header.fragmentNumber → ∃ f ∈ fragments, f.header.fragmentNumber = i

section Completeness

variable {fragments : List Mpdu}

theorem largestFragmentNumber_cases (fragments : List Mpdu) (start : ℤ) :
    (fragments.foldl (fun largest fragment => if fragment.header.moreFragments then largest
        else fragment.header.fragmentNumber) start = start ∧
      ∀ f ∈ fragments, f.header.moreFragments = true) ∨
    ∃ last ∈ fragments, last.header.moreFragments = false ∧
      fragments.foldl (fun largest fragment => if fragment.header.moreFragments then largest
        else fragment.header.fragmentNumber) start = last.header.fragmentNumber := by
  induction fragments generalizing start with
  | nil => exact .inl ⟨rfl, by simp⟩
  | cons f fragments ih =>
    rw [List.foldl_cons]
    rcases ih (if f.header.moreFragments then start else f.header.fragmentNumber) with
      ⟨heq, hmore⟩ | ⟨last, hmem, hlast, heq⟩
    · cases hf : f.header.moreFragments with
      | true =>
        rw [hf, if_pos rfl] at heq
        refine .inl ⟨heq, ?_⟩
        rw [List.forall_mem_cons]
        exact ⟨hf, hmore⟩
      | false =>
        rw [hf, if_neg (by decide)] at heq
        exact .inr ⟨f, List.mem_cons_self, hf, heq⟩
    · exact .inr ⟨last, List.mem_cons_of_mem _ hmem, hlast, heq⟩

theorem forall_exists_iff_card {last : ℤ} (hlast : 0 ≤ last)
    (hle : ∀ f ∈ fragments, 0 ≤ f.header.fragmentNumber ∧ f.header.fragmentNumber ≤ last) :
    last + 1 = ((fragments.map (·.header.fragmentNumber)).toFinset.card : ℤ) ↔
      ∀ i, 0 ≤ i → i ≤ last → ∃ f ∈ fragments, f.header.fragmentNumber = i := by
  have hmem : ∀ i, i ∈ (fragments.map (·.header.fragmentNumber)).toFinset ↔
      ∃ f ∈ fragments, f.header.fragmentNumber = i := by
    intro i
    rw [List.mem_toFinset, List.mem_map]
  have hsub : (fragments.map (·.header.fragmentNumber)).toFinset ⊆ Finset.Icc 0 last := by
    intro i hi
    obtain ⟨f, hf, rfl⟩ := (hmem i).1 hi
    exact Finset.mem_Icc.2 (hle f hf)
  have hcard : ((Finset.Icc 0 last).card : ℤ) = last + 1 := by
    rw [Int.card_Icc]
    omega
  constructor
  · intro h i hi hilast
    rw [← hmem, Finset.eq_of_subset_of_card_le hsub (by omega)]
    exact Finset.mem_Icc.2 ⟨hi, hilast⟩
  · intro h
    have heq : (fragments.map (·.header.fragmentNumber)).toFinset = Finset.Icc 0 last := by
      apply Finset.Subset.antisymm hsub
      intro i hi
      rw [Finset.mem_Icc] at hi
      exact (hmem i).2 (h i hi.1 hi.2)
    rw [heq, hcard]

theorem isComplete_iff (h : Numbered fragments) :
    isComplete fragments = true ↔ Complete fragments := by
  unfold isComplete Complete
  simp only [decide_eq_true_eq]
  constructor
  · rintro ⟨hne, hcard⟩
    rcases largestFragmentNumber_cases fragments (-1) with ⟨heq, -⟩ | ⟨last, hmem, hlast, heq⟩
    · exact absurd heq hne
    · rw [heq] at hcard
      refine ⟨last, hmem, hlast, (h last hmem).1, ?_⟩
      exact (forall_exists_iff_card (h last hmem).1
        fun f hf => ⟨(h f hf).1, (h last hmem).2 hlast f hf⟩).1 hcard
  · rintro ⟨last, hmem, hlast, hpos, hall⟩
    rcases largestFragmentNumber_cases fragments (-1) with ⟨-, hmore⟩ | ⟨last', hmem', hlast', heq⟩
    · rw [hmore last hmem] at hlast
      cases hlast
    · -- All last fragments have one number.
      have hsame : last'.header.fragmentNumber = last.header.fragmentNumber :=
        le_antisymm ((h last hmem).2 hlast last' hmem') ((h last' hmem').2 hlast' last hmem)
      rw [heq, hsame]
      refine ⟨by omega, ?_⟩
      exact (forall_exists_iff_card (h last hmem).1
        fun f hf => ⟨(h f hf).1, (h last hmem).2 hlast f hf⟩).2 hall

theorem Complete.exists_of_numbered (h : Complete fragments) {mpdu : Mpdu}
    (hnumbered : Numbered (fragments ++ [mpdu])) :
    ∃ f ∈ fragments, f.header.fragmentNumber = mpdu.header.fragmentNumber := by
  obtain ⟨last, hmem, hlast, hpos, hall⟩ := h
  apply hall
  · exact (hnumbered mpdu (by simp)).1
  · exact (hnumbered last (by simp [hmem])).2 hlast mpdu (by simp)

end Completeness

/-- The fragments belong to one unit with the given number. -/
def Msdu.Fits (m : Msdu) : Prop :=
  (∀ f ∈ m.2, f.header.sequenceNumber = m.1) ∧ Numbered m.2

namespace ReceiveBuffer

/-- The fragments with the sequence number of a frame, and the frame. -/
def fragmentsWith (rb : ReceiveBuffer) (mpdu : Mpdu) : List Mpdu :=
  (rb.find mpdu.header.sequenceNumber).getD [] ++ [mpdu]

/-- A fragment with the numbers of the frame is in the buffer. -/
def IsDuplicate (rb : ReceiveBuffer) (mpdu : Mpdu) : Prop :=
  ∃ f ∈ (rb.find mpdu.header.sequenceNumber).getD [],
    f.header.sequenceNumber = mpdu.header.sequenceNumber ∧
      f.header.fragmentNumber = mpdu.header.fragmentNumber

instance (rb : ReceiveBuffer) (mpdu : Mpdu) : Decidable (rb.IsDuplicate mpdu) :=
  inferInstanceAs (Decidable (∃ _ ∈ _, _))

variable {rb : ReceiveBuffer} {mpdu : Mpdu}

theorem Valid.isInside_iff (hv : rb.Valid) {s : SequenceNumberCyclic} :
    rb.isInside s = true ↔ rb.nextExpectedSequenceNumber.distance s < rb.bufferSize := by
  have hle := hv.size_le
  have hpos := hv.size_pos
  rw [isInside, decide_eq_true_eq, le_iff, lt_def, @distance_eq rb.nextExpectedSequenceNumber s,
    distance_ahead (by omega)]
  split <;> omega

theorem Valid.find_eq_none_iff (hv : rb.Valid) {s : SequenceNumberCyclic} :
    rb.find s = none ↔ ∀ m ∈ rb.buffer, m.1 ≠ s := by
  constructor
  · intro h m hm heq
    rw [← heq, hv.find_eq_some_iff.2 hm] at h
    cases h
  · intro h
    rw [Option.eq_none_iff_forall_not_mem]
    intro f hf
    exact h _ (hv.find_eq_some_iff.1 hf) rfl

theorem Valid.find_outside (hv : rb.Valid) {s : SequenceNumberCyclic}
    (hs : rb.bufferSize ≤ rb.nextExpectedSequenceNumber.distance s) : rb.find s = none := by
  rw [hv.find_eq_none_iff]
  rintro m hm rfl
  have := hv.inside m hm
  omega

theorem insertFrame_duplicate (hv : rb.Valid)
    (hs : rb.nextExpectedSequenceNumber.distance mpdu.header.sequenceNumber < rb.bufferSize)
    (hdup : rb.IsDuplicate mpdu) : rb.insertFrame mpdu = .ok (rb, false) := by
  obtain ⟨f, hf, hnumbers⟩ := hdup
  rw [insertFrame, if_pos (hv.isInside_iff.2 hs)]
  cases hfind : rb.find mpdu.header.sequenceNumber with
  | none => simp [hfind] at hf
  | some fragments =>
    rw [hfind, Option.getD_some] at hf
    simp only
    rw [if_pos]
    rw [List.any_eq_true]
    exact ⟨f, hf, by simpa using hnumbers⟩

theorem insertFrame_push (hv : rb.Valid)
    (hs : rb.nextExpectedSequenceNumber.distance mpdu.header.sequenceNumber < rb.bufferSize)
    (hdup : ¬ rb.IsDuplicate mpdu) {fragments : List Mpdu}
    (hfind : rb.find mpdu.header.sequenceNumber = some fragments) :
    rb.insertFrame mpdu = .ok (rb.push mpdu, true) := by
  rw [insertFrame, if_pos (hv.isInside_iff.2 hs), hfind]
  simp only
  rw [if_neg]
  intro hany
  obtain ⟨f, hf, hnumbers⟩ := List.any_eq_true.1 hany
  apply hdup
  refine ⟨f, ?_, by simpa using hnumbers⟩
  rw [hfind]
  exact hf

theorem insertFrame_new (hv : rb.Valid)
    (hs : rb.nextExpectedSequenceNumber.distance mpdu.header.sequenceNumber < rb.bufferSize)
    (hfind : rb.find mpdu.header.sequenceNumber = none) :
    Valid { rb with buffer := rb.buffer ++ [(mpdu.header.sequenceNumber, [mpdu])] } ∧
    rb.insertFrame mpdu =
      .ok ({ rb with buffer := rb.buffer ++ [(mpdu.header.sequenceNumber, [mpdu])] }, true) := by
  have hvalid :
    Valid { rb with buffer := rb.buffer ++ [(mpdu.header.sequenceNumber, [mpdu])] } := by
    constructor
    · exact hv.size_pos
    · exact hv.size_le
    · simp only [List.map_append, List.map_cons, List.map_nil]
      rw [List.nodup_append]
      refine ⟨hv.nodup, List.nodup_singleton _, ?_⟩
      intro a ha b hb heq
      obtain ⟨m, hm, rfl⟩ := List.mem_map.1 ha
      exact hv.find_eq_none_iff.1 hfind m hm (heq.trans (List.mem_singleton.1 hb))
    · intro m hm
      rcases List.mem_append.1 hm with hm | hm
      · exact hv.inside m hm
      · rw [List.mem_singleton.1 hm]
        exact hs
  have hroom := hvalid.length_le
  rw [List.length_append, List.length_singleton] at hroom
  simp only at hroom
  refine ⟨hvalid, ?_⟩
  rw [insertFrame, if_pos (hv.isInside_iff.2 hs), hfind]
  simp only
  rw [if_neg (by omega), if_neg (by omega)]

/-- The buffer after a new fragment. -/
structure Inserted (rb rb' : ReceiveBuffer) (mpdu : Mpdu) : Prop where
  valid : rb'.Valid
  next_eq : rb'.nextExpectedSequenceNumber = rb.nextExpectedSequenceNumber
  size_eq : rb'.bufferSize = rb.bufferSize
  mem_iff : ∀ m : Msdu, m ∈ rb'.buffer ↔ m ∈ rb.buffer ∧ m.1 ≠ mpdu.header.sequenceNumber ∨
    m = (mpdu.header.sequenceNumber, rb.fragmentsWith mpdu)

theorem inserted_push (hv : rb.Valid) {fragments : List Mpdu}
    (hfind : rb.find mpdu.header.sequenceNumber = some fragments) :
    Inserted rb (rb.push mpdu) mpdu := by
  have hkey : ∀ m : Msdu, (if m.1 = mpdu.header.sequenceNumber then (m.1, m.2 ++ [mpdu]) else m).1 =
      m.1 := by
    intro m
    split <;> rfl
  have hmem := hv.find_eq_some_iff.1 hfind
  constructor
  · constructor
    · exact hv.size_pos
    · exact hv.size_le
    · simp only [push, List.map_map, Function.comp_def, hkey]
      exact hv.nodup
    · intro m hm
      obtain ⟨m', hm', rfl⟩ := List.mem_map.1 hm
      rw [hkey]
      exact hv.inside m' hm'
  · rfl
  · rfl
  · intro m
    rw [fragmentsWith, hfind, Option.getD_some, push, List.mem_map]
    constructor
    · rintro ⟨m', hm', rfl⟩
      by_cases heq : m'.1 = mpdu.header.sequenceNumber
      · right
        rw [if_pos heq, hv.eq_of_mem hm' hmem heq]
      · rw [if_neg heq]
        exact .inl ⟨hm', heq⟩
    · rintro (⟨hm, hne⟩ | rfl)
      · exact ⟨m, hm, if_neg hne⟩
      · exact ⟨_, hmem, if_pos rfl⟩

theorem insertFrame_inserted (hv : rb.Valid)
    (hs : rb.nextExpectedSequenceNumber.distance mpdu.header.sequenceNumber < rb.bufferSize)
    (hdup : ¬ rb.IsDuplicate mpdu) :
    ∃ rb', rb.insertFrame mpdu = .ok (rb', true) ∧ Inserted rb rb' mpdu := by
  cases hfind : rb.find mpdu.header.sequenceNumber with
  | some fragments =>
    exact ⟨_, insertFrame_push hv hs hdup hfind, inserted_push hv hfind⟩
  | none =>
    obtain ⟨hvalid, hinsert⟩ := insertFrame_new hv hs hfind
    refine ⟨_, hinsert, hvalid, rfl, rfl, ?_⟩
    intro m
    rw [fragmentsWith, hfind, Option.getD_none, List.nil_append, List.mem_append,
      List.mem_singleton]
    constructor
    · rintro (hm | hm)
      · exact .inl ⟨hm, hv.find_eq_none_iff.1 hfind m hm⟩
      · exact .inr hm
    · rintro (⟨hm, -⟩ | hm)
      · exact .inl hm
      · exact .inr hm

/-- Every unit of the buffer has its own fragments. -/
def Fits (rb : ReceiveBuffer) : Prop := ∀ m ∈ rb.buffer, Msdu.Fits m

theorem fits_fragmentsWith (hv : rb.Valid) (hfits : rb.Fits)
    (hnumbered : Numbered (rb.fragmentsWith mpdu)) :
    Msdu.Fits (mpdu.header.sequenceNumber, rb.fragmentsWith mpdu) := by
  refine ⟨?_, hnumbered⟩
  intro f hf
  rcases List.mem_append.1 hf with hf | hf
  · cases hfind : rb.find mpdu.header.sequenceNumber with
    | none => simp [hfind] at hf
    | some fragments =>
      rw [hfind] at hf
      exact (hfits _ (hv.find_eq_some_iff.1 hfind)).1 f hf
  · rw [List.mem_singleton.1 hf]

theorem Inserted.fits {rb' : ReceiveBuffer} (h : Inserted rb rb' mpdu) (hv : rb.Valid)
    (hfits : rb.Fits) (hnumbered : Numbered (rb.fragmentsWith mpdu)) : rb'.Fits := by
  intro m hm
  rcases (h.mem_iff m).1 hm with ⟨hm, -⟩ | rfl
  · exact hfits m hm
  · exact fits_fragmentsWith hv hfits hnumbered

theorem Inserted.mem_of_complete {rb' : ReceiveBuffer} (h : Inserted rb rb' mpdu) (hv : rb.Valid)
    (hfits : rb.Fits) (hnumbered : Numbered (rb.fragmentsWith mpdu)) (hdup : ¬ rb.IsDuplicate mpdu)
    {m : Msdu} (hm : m ∈ rb.buffer) (hcomplete : isComplete m.2 = true) : m ∈ rb'.buffer := by
  refine (h.mem_iff m).2 (.inl ⟨hm, ?_⟩)
  intro heq
  have hfind : rb.find mpdu.header.sequenceNumber = some m.2 := by
    rw [← heq]
    exact hv.find_eq_some_iff.2 hm
  rw [fragmentsWith, hfind, Option.getD_some] at hnumbered
  obtain ⟨f, hf, hnumber⟩ := ((isComplete_iff (hfits m hm).2).1 hcomplete).exists_of_numbered
    hnumbered
  apply hdup
  refine ⟨f, ?_, ((hfits m hm).1 f hf).trans heq, hnumber⟩
  rw [hfind]
  exact hf

end ReceiveBuffer

end Inet.Ieee80211
