import Inet.Sctp.GapRemovals

/-! # The TSNs of a list below the block limit

Below the limit nothing is dropped: a list has the TSNs that it had, those that
were added and not those that were removed, as far as they are behind its
cumulative ack.
-/

namespace Inet.Sctp

open Intervals

theorem tsnLe_of_offset {base tsn : Tsn} (h : offset base tsn = 0) : tsnLe tsn base = true := by
  rw [← offset_self base, offset_inj] at h
  rw [tsnLe, tsnGe, Bool.or_eq_true, beq_iff_eq]
  exact .inr h.symm

theorem tsnGt_of_tsnLe {base tsn : Tsn} (h : tsnLe tsn base = true) : tsnGt tsn base = false := by
  revert h
  unfold tsnLe tsnGe tsnGt
  simp only [Bool.or_eq_true, Bool.and_eq_true, decide_eq_true_eq, beq_iff_eq,
    Bool.or_eq_false_iff, Bool.and_eq_false_imp, decide_eq_false_iff_not]
  bv_omega

theorem not_tsnLe_next (base : Tsn) : ¬ tsnLe (base + 1) base = true := by
  have hself := offset_self base
  have hone := SctpSimpleGapList.offset_one base
  rw [tsnLe_iff base (by omega) (by omega)]
  omega

namespace SctpSimpleGapList

variable {this this' other : SctpSimpleGapList} {base cTsnAck cTsnAck' tsn t : Tsn}

/-- Behind its cumulative ack, the list has the TSNs of a set, which are in the window behind an
earlier cumulative ack. -/
structure Holds (this : SctpSimpleGapList) (base cTsnAck : Tsn) (S : Tsn → Prop) : Prop where
  valid : this.Valid cTsnAck
  window : offset base cTsnAck < 2 ^ 31
  within : ∀ t, S t → offset base t < 2 ^ 31
  mem : ∀ t, this.tsnInGapList t = true ↔ S t ∧ offset base cTsnAck < offset base t

theorem covers_zero : Covers (this.spans cTsnAck cTsnAck) 0 := by
  refine ⟨(0, 0), ?_, le_rfl, le_rfl⟩
  rw [spans, offset_self]
  exact List.mem_cons_self

theorem Valid.offset_lt (h : this.Valid cTsnAck) (ht : this.tsnInGapList t = true) :
    offset cTsnAck t < 2 ^ 31 := h.window _ (h.tsnInGapList_iff.1 ht).2

theorem Valid.holds (h : this.Valid cTsnAck) :
    this.Holds cTsnAck cTsnAck fun t => this.tsnInGapList t = true where
  valid := h
  window := by
    rw [offset_self]
    decide
  within _ := h.offset_lt
  mem t := by
    rw [offset_self]
    constructor
    · intro ht
      exact ⟨ht, (h.tsnInGapList_iff.1 ht).1⟩
    · exact And.left

theorem Holds.mem_filter {S : Tsn → Prop} (h : this.Holds base cTsnAck S) {tsns : List Tsn}
    (hmem : ∀ t, t ∈ tsns ↔ S t) (t : Tsn) :
    t ∈ tsns.filter (tsnGt · cTsnAck) ↔ this.tsnInGapList t = true := by
  have hwindow := h.window
  rw [h.mem, List.mem_filter, hmem]
  constructor
  · rintro ⟨ht, habove⟩
    have hlt := h.within t ht
    exact ⟨ht, (tsnGt_iff base (by omega) (by omega)).1 habove⟩
  · rintro ⟨ht, habove⟩
    have hlt := h.within t ht
    exact ⟨ht, (tsnGt_iff base (by omega) (by omega)).2 habove⟩

theorem Valid.covers_iff (h : this.Valid cTsnAck) : Covers (this.spans cTsnAck cTsnAck)
    (offset cTsnAck t) ↔ t = cTsnAck ∨ this.tsnInGapList t = true := by
  rw [h.tsnInGapList_iff]
  constructor
  · intro hcovers
    rcases Nat.eq_zero_or_pos (offset cTsnAck t) with hzero | hpos
    · rw [← offset_self cTsnAck, offset_inj] at hzero
      exact .inl hzero
    · exact .inr ⟨hpos, hcovers⟩
  · rintro (rfl | ⟨-, hcovers⟩)
    · rw [offset_self]
      exact covers_zero
    · exact hcovers

theorem exists_offset {p : ℕ} (cTsnAck : Tsn) (hp : p < 2 ^ 32) : ∃ t, offset cTsnAck t = p := by
  refine ⟨cTsnAck + BitVec.ofNat 32 p, ?_⟩
  unfold offset
  bv_omega

theorem Valid.covers_mono (h : this.Valid cTsnAck) (hother : other.Valid cTsnAck)
    (hsub : ∀ t, this.tsnInGapList t = true → other.tsnInGapList t = true) {p : ℕ}
    (hp : Covers (this.spans cTsnAck cTsnAck) p) : Covers (other.spans cTsnAck cTsnAck) p := by
  obtain ⟨t, rfl⟩ := exists_offset cTsnAck ((h.window p hp).trans (by decide))
  rw [h.covers_iff] at hp
  rw [hother.covers_iff]
  exact hp.imp_right (hsub t)

theorem Valid.tsnInGapList_iff_base (h : this.Valid cTsnAck)
    (hseparated : Separated (this.spans base cTsnAck))
    (hwindow : ∀ p, Covers (this.spans base cTsnAck) p → p < 2 ^ 31) :
    this.tsnInGapList t = true ↔
      offset base cTsnAck < offset base t ∧ Covers (this.spans base cTsnAck) (offset base t) := by
  rw [h.tsnInGapList_iff, covers_rebase hseparated]
  constructor
  · rintro ⟨hpos, hcovers⟩
    have hlt := hwindow _ hcovers
    rw [@offset_add base cTsnAck t (by omega)]
    exact ⟨by omega, hcovers⟩
  · rintro ⟨hlt, hcovers⟩
    rw [offset_rebase hlt.le, Nat.sub_add_cancel hlt.le]
    exact ⟨Nat.sub_pos_of_lt hlt, hcovers⟩

/-! ## Adding and removing -/

theorem Takes.adds_of_room (h : this.Takes cTsnAck tsn this' cTsnAck')
    (hroom : this.numGaps < MAX_GAP_COUNT) : Adds (this.spans cTsnAck cTsnAck)
      (offset cTsnAck tsn) (this'.spans cTsnAck cTsnAck') := by
  obtain ⟨full, hadds, hspans, hlength⟩ := h.adds
  rwa [hspans, List.take_of_length_le (by omega)]

theorem Takes.reaches (h : this.Takes cTsnAck tsn this' cTsnAck')
    (hroom : this.numGaps < MAX_GAP_COUNT) :
    Reaches (fun p => Covers (this.spans cTsnAck cTsnAck) p ∨ p = offset cTsnAck tsn)
      (offset cTsnAck cTsnAck') := by
  have hadds := h.adds_of_room hroom
  refine hadds.separated.reaches.congr fun p => ?_
  exact hadds.covers p

theorem Takes.holds (htakes : this.Takes cTsnAck tsn this' cTsnAck') (h : this.Valid cTsnAck)
    (hroom : this.numGaps < MAX_GAP_COUNT) (hwindow : offset cTsnAck tsn < 2 ^ 31) :
    this'.Holds cTsnAck cTsnAck' fun t => this.tsnInGapList t = true ∨ t = tsn := by
  have hadds := htakes.adds_of_room hroom
  have hcovers : ∀ p, Covers (this'.spans cTsnAck cTsnAck') p → p < 2 ^ 31 := by
    intro p hp
    rcases (hadds.covers p).1 hp with hp | rfl
    · exact h.window p hp
    · exact hwindow
  refine ⟨htakes.valid h hwindow, ?_, ?_, fun t => ?_⟩
  · exact hcovers _ ⟨_, List.mem_cons_self, Nat.zero_le _, le_rfl⟩
  · rintro t (ht | rfl)
    · exact h.offset_lt ht
    · exact hwindow
  · rw [(htakes.valid h hwindow).tsnInGapList_iff_base hadds.separated hcovers, hadds.covers,
      h.covers_iff, offset_inj]
    constructor
    · rintro ⟨hlt, (rfl | ht) | ht⟩
      · rw [offset_self] at hlt
        exact absurd hlt (Nat.not_lt_zero _)
      · exact ⟨.inl ht, hlt⟩
      · exact ⟨.inr ht, hlt⟩
    · rintro ⟨ht | ht, hlt⟩
      · exact ⟨hlt, .inl (.inr ht)⟩
      · exact ⟨hlt, .inr ht⟩

theorem Takes.reaches_le {other' : SctpSimpleGapList} {cTsnAck'' : Tsn}
    (htakes : this.Takes cTsnAck tsn this' cTsnAck')
    (hother : other.Takes cTsnAck tsn other' cTsnAck'') (h : this.Valid cTsnAck)
    (ho : other.Valid cTsnAck) (hroom : this.numGaps < MAX_GAP_COUNT)
    (hroom' : other.numGaps < MAX_GAP_COUNT)
    (hsub : ∀ t, this.tsnInGapList t = true → other.tsnInGapList t = true) :
    offset cTsnAck cTsnAck' ≤ offset cTsnAck cTsnAck'' :=
  (htakes.reaches hroom).le (hother.reaches hroom') fun _ => Or.imp_left (h.covers_mono ho hsub)

theorem Takes.next_missing (htakes : this.Takes cTsnAck tsn this' cTsnAck')
    (h : this.Valid cTsnAck) (hroom : this.numGaps < MAX_GAP_COUNT)
    (hwindow : offset cTsnAck tsn < 2 ^ 31) :
    ¬ (this.tsnInGapList (cTsnAck' + 1) = true ∨ cTsnAck' + 1 = tsn) := by
  have hlt := (htakes.holds h hroom hwindow).window
  have hmissing : ¬ (Covers _ _ ∨ _ = _) := (htakes.reaches hroom).2
  rw [← offset_add_one (by omega), h.covers_iff, offset_inj] at hmissing
  exact mt (Or.imp_left .inr) hmissing

theorem Valid.removed (h : this.Valid cTsnAck) (hroom : this.numGaps < MAX_GAP_COUNT) (tsn : Tsn) :
    ∃ this', this.removeFromGapList tsn = .ok this' ∧
      this'.Holds cTsnAck cTsnAck fun t => this.tsnInGapList t = true ∧ t ≠ tsn := by
  obtain ⟨this', hremove, hdrops | ⟨rfl, hout⟩⟩ :=
    @Valid.exists_removeFromGapList this cTsnAck tsn h fun hfull => absurd hfull hroom.ne
  · have hvalid := hdrops.valid h
    refine ⟨this', hremove, hvalid, h.holds.window, fun t ht => h.offset_lt ht.1, fun t => ?_⟩
    obtain ⟨full, hremoves, hspans, hlength⟩ := hdrops.removes
    rw [List.take_of_length_le (by omega)] at hspans
    rw [hvalid.tsnInGapList_iff, hspans, hremoves.covers, h.covers_iff, offset_self, Ne, offset_inj]
    constructor
    · rintro ⟨hpos, rfl | ht, hne⟩
      · rw [offset_self] at hpos
        exact absurd hpos (Nat.not_lt_zero _)
      · exact ⟨⟨ht, hne⟩, hpos⟩
    · rintro ⟨⟨ht, hne⟩, hpos⟩
      exact ⟨hpos, .inr ht, hne⟩
  · refine ⟨this', hremove, h, h.holds.window, fun t ht => h.offset_lt ht.1, fun t => ?_⟩
    rw [offset_self]
    constructor
    · intro ht
      refine ⟨⟨ht, ?_⟩, (h.tsnInGapList_iff.1 ht).1⟩
      rintro rfl
      exact Bool.false_ne_true (hout.symm.trans ht)
    · exact fun ht => ht.1.1

/-! ## Forwarding -/

theorem Valid.forward_holds (h : this.Valid cTsnAck) (hwindow : offset cTsnAck tsn < 2 ^ 31)
    (hnext : this.tsnInGapList (tsn + 1) ≠ true) : ∃ this', this.forwardCumAckTsn tsn = .ok this' ∧
      this'.Holds cTsnAck tsn fun t => this.tsnInGapList t = true := by
  have hadd : offset cTsnAck (tsn + 1) = offset cTsnAck tsn + 1 := offset_add_one (by omega)
  have hout : ∀ i < this.numGaps, ¬ (offset cTsnAck (this.gaps i).start ≤ offset cTsnAck tsn + 1 ∧
      offset cTsnAck tsn + 1 ≤ offset cTsnAck (this.gaps i).stop) := by
    intro i hi hin
    rw [← hadd, ← h.tsnBetween_block hi] at hin
    exact hnext (List.any_eq_true.2 ⟨_, mem_blocks.2 ⟨i, hi, rfl⟩, hin⟩)
  obtain ⟨this', hforward, hvalid, hsub⟩ := h.forward hwindow fun block hblock heq => by
    obtain ⟨i, hi, rfl⟩ := mem_blocks.1 hblock
    obtain ⟨-, hle, -⟩ := h.block hi
    rw [eq_iff_offset cTsnAck, hadd] at heq
    exact hout i hi ⟨heq.le, heq ▸ hle⟩
  refine ⟨this', hforward, hvalid, hwindow, fun _ => h.offset_lt, fun t => ?_⟩
  obtain ⟨this'', n, hforward', hle, hnumGaps, hblocks, -, hreached⟩ :=
    h.exists_forwardCumAckTsn hwindow
  obtain rfl := Except.ok.inj (hforward.symm.trans hforward')
  constructor
  · intro ht
    have hlt := hvalid.offset_lt ht
    have hpos := (hvalid.tsnInGapList_iff.1 ht).1
    rw [@offset_add cTsnAck tsn t (by omega)]
    exact ⟨hsub t ht, by omega⟩
  · rintro ⟨ht, hlt⟩
    obtain ⟨block, hblock, hin⟩ := List.any_eq_true.1 ht
    refine List.any_eq_true.2 ⟨block, ?_, hin⟩
    rw [blocks_append hle, List.mem_append, mem_entries] at hblock
    rcases hblock with ⟨i, hi, rfl⟩ | hblock
    · rw [h.tsnBetween_block (by omega)] at hin
      have hstart := hreached i (by omega)
      have hmissing := hout i (by omega)
      omega
    · rwa [hblocks]

/-- A list is forwarded further. -/
theorem Holds.forward {S : Tsn → Prop} (h : this.Holds base cTsnAck S)
    (hle : offset base cTsnAck ≤ offset base tsn) (hwindow : offset base tsn < 2 ^ 31)
    (hnext : ¬ S (tsn + 1)) : ∃ this', this.forwardCumAckTsn tsn = .ok this' ∧
      this'.Holds base tsn S := by
  have hrebase := offset_rebase hle
  obtain ⟨this', hforward, hholds⟩ := @Valid.forward_holds this cTsnAck tsn h.valid (by omega)
    fun hin => hnext ((h.mem _).1 hin).1
  refine ⟨this', hforward, hholds.valid, hwindow, h.within, fun t => ?_⟩
  rw [hholds.mem, h.mem]
  constructor
  · rintro ⟨⟨ht, hlt⟩, hlt'⟩
    rw [offset_rebase hlt.le] at hlt'
    exact ⟨ht, by omega⟩
  · rintro ⟨ht, hlt⟩
    refine ⟨⟨ht, by omega⟩, ?_⟩
    rw [@offset_rebase base cTsnAck t (by omega)]
    omega

end SctpSimpleGapList

end Inet.Sctp
