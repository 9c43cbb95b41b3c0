import Inet.Sctp.GapUpdates

/-! # Lists of gaps behind a cumulative ack

A valid list passes its check. It stays valid when a TSN is added, and when one
is removed unless that takes a block out of full arrays, and when the cumulative
ack goes on.
-/

namespace Inet.Sctp

open Intervals

namespace SctpSimpleGapList

variable {this this' : SctpSimpleGapList} {base cTsnAck cTsnAck' tsn : Tsn} {i : ℕ}

/-! ## Another cumulative ack -/

/-- The intervals as they are seen from their own cumulative ack. -/
theorem spans_rebase (h : Separated (this.spans base cTsnAck)) : this.spans cTsnAck cTsnAck =
    (0, 0) :: (this.blocks.map (Block.span base)).map
      (Separated.shift (offset base cTsnAck)) := by
  rw [spans, offset_self, List.map_map]
  refine congrArg _ (List.map_congr_left fun block hblock => ?_)
  obtain ⟨-, hbehind, hblocks⟩ := separated_cons.1 h
  have hlt := hbehind _ (List.mem_map_of_mem hblock)
  have hle := hblocks.le _ (List.mem_map_of_mem hblock)
  dsimp only [Block.span] at hlt hle
  exact Prod.ext (offset_rebase (by omega)) (offset_rebase (by omega))

theorem covers_rebase (h : Separated (this.spans base cTsnAck)) {p : ℕ} :
    Covers (this.spans cTsnAck cTsnAck) p ↔
      Covers (this.spans base cTsnAck) (p + offset base cTsnAck) := by
  rw [spans_rebase h]
  exact h.covers_map_shift

theorem Valid.of_base (hle : this.numGaps ≤ MAX_GAP_COUNT)
    (h : Separated (this.spans base cTsnAck))
    (hwindow : ∀ p, Covers (this.spans base cTsnAck) p → p < 2 ^ 31) : this.Valid cTsnAck where
  numGaps_le := hle
  separated := by
    rw [spans_rebase h]
    exact h.map_shift
  window p hp := by
    have hlt := hwindow _ ((covers_rebase h).1 hp)
    omega

/-! ## The TSNs of a list -/

theorem Valid.tsnInGapList_iff (h : this.Valid cTsnAck) : this.tsnInGapList tsn = true ↔
    0 < offset cTsnAck tsn ∧ Covers (this.spans cTsnAck cTsnAck) (offset cTsnAck tsn) := by
  obtain ⟨-, hbehind, hblocks⟩ := separated_cons.1 h.separated
  have hbetween : ∀ block ∈ this.blocks, tsnBetween block.start tsn block.stop = true ↔
      offset cTsnAck block.start ≤ offset cTsnAck tsn ∧
        offset cTsnAck tsn ≤ offset cTsnAck block.stop := by
    intro block hblock
    have hle := hblocks.le _ (List.mem_map_of_mem hblock)
    have hlt := h.window (offset cTsnAck block.stop)
      ⟨block.span cTsnAck, List.mem_cons_of_mem _ (List.mem_map_of_mem hblock), hle, le_rfl⟩
    exact tsnBetween_iff cTsnAck hle (by omega)
  rw [tsnInGapList, List.any_eq_true, spans, covers_cons, offset_self]
  constructor
  · rintro ⟨block, hblock, hin⟩
    rw [hbetween block hblock] at hin
    have hlt := hbehind _ (List.mem_map_of_mem hblock)
    dsimp only [Block.span] at hlt
    exact ⟨by omega, .inr ⟨_, List.mem_map_of_mem hblock, hin⟩⟩
  · rintro ⟨hpos, hp | ⟨x, hx, hp⟩⟩
    · exact absurd hp.2 (by dsimp only; omega)
    · obtain ⟨block, hblock, rfl⟩ := List.mem_map.1 hx
      exact ⟨block, hblock, (hbetween block hblock).2 hp⟩

/-! ## After a TSN has been added -/

theorem Takes.separated (h : this.Takes cTsnAck tsn this' cTsnAck') :
    Separated (this'.spans cTsnAck cTsnAck') := by
  obtain ⟨full, hadds, hspans, -⟩ := h.adds
  rw [hspans]
  exact hadds.separated.take _

theorem Takes.covers (h : this.Takes cTsnAck tsn this' cTsnAck') {p : ℕ}
    (hp : Covers (this'.spans cTsnAck cTsnAck') p) :
    Covers (this.spans cTsnAck cTsnAck) p ∨ p = offset cTsnAck tsn := by
  obtain ⟨full, hadds, hspans, -⟩ := h.adds
  rw [hspans] at hp
  exact (hadds.covers p).1 hp.of_take

theorem Takes.valid (htakes : this.Takes cTsnAck tsn this' cTsnAck') (h : this.Valid cTsnAck)
    (hwindow : offset cTsnAck tsn < 2 ^ 31) : this'.Valid cTsnAck' := by
  refine .of_base htakes.numGaps_le htakes.separated fun p hp => ?_
  rcases htakes.covers hp with hp | rfl
  · exact h.window p hp
  · exact hwindow

theorem offset_add {a b tsn : Tsn} (h : offset b tsn + offset a b < 2 ^ 32) :
    offset a tsn = offset b tsn + offset a b := by
  unfold offset at *
  bv_omega

/-- No TSN is added but the received one. -/
theorem Takes.tsnInGapList (htakes : this.Takes cTsnAck tsn this' cTsnAck')
    (h : this.Valid cTsnAck) (hwindow : offset cTsnAck tsn < 2 ^ 31) {t : Tsn}
    (ht : this'.tsnInGapList t = true) : this.tsnInGapList t = true ∨ t = tsn := by
  obtain ⟨hpos, hcovers⟩ := (htakes.valid h hwindow).tsnInGapList_iff.1 ht
  rw [covers_rebase htakes.separated] at hcovers
  have hcases := htakes.covers hcovers
  have hlt : offset cTsnAck' t + offset cTsnAck cTsnAck' < 2 ^ 31 := by
    rcases hcases with hp | hp
    · exact h.window _ hp
    · rwa [hp]
  have hoffset : offset cTsnAck t = offset cTsnAck' t + offset cTsnAck cTsnAck' :=
    offset_add (by omega)
  rw [← hoffset] at hcases
  rcases hcases with hp | hp
  · exact .inl (h.tsnInGapList_iff.2 ⟨by omega, hp⟩)
  · exact .inr (offset_inj.1 hp)

/-! ## The check -/

theorem Valid.checkFrom_eq (h : this.Valid cTsnAck) {rest i : ℕ}
    (hrest : i + rest = this.numGaps) : this.checkFrom cTsnAck rest i = .ok () := by
  induction rest generalizing i with
  | zero => rfl
  | succ rest ih =>
    have hi : i < this.numGaps := by omega
    obtain ⟨hbefore, hle, hlt⟩ := h.block hi
    have hone := offset_one cTsnAck
    have hordered : tsnLe (this.gaps i).start (this.gaps i).stop = true :=
      (tsnLe_iff cTsnAck (by omega) (by omega)).2 hle
    have hnext := ih (i := i + 1) (by omega)
    rw [checkFrom, get_eq (h.lt_max hi), Error.ok_bind]
    cases i with
    | zero =>
      change 0 + 2 ≤ _ at hbefore
      have hbehind : tsnGt (this.gaps 0).start (cTsnAck + 1) = true :=
        (tsnGt_iff cTsnAck (by omega) (by omega)).2 (by omega)
      rw [if_pos rfl]
      exact Error.bind_of_eq_ok (Error.assert_of_pos hbehind)
        (Error.bind_of_eq_ok (Error.assert_of_pos hordered) hnext)
    | succ j =>
      change offset cTsnAck (this.gaps j).stop + 2 ≤ _ at hbefore
      have hadd : offset cTsnAck ((this.gaps j).stop + 1) = _ := offset_add_one (by omega)
      have hbehind : tsnGt (this.gaps (j + 1)).start ((this.gaps j).stop + 1) = true :=
        (tsnGt_iff cTsnAck (by omega) (by omega)).2 (by omega)
      rw [if_neg (Nat.succ_ne_zero j), Nat.add_sub_cancel,
        get_eq (h.lt_max (Nat.lt_of_succ_lt hi))]
      exact Error.bind_of_eq_ok rfl (Error.bind_of_eq_ok (Error.assert_of_pos hbehind)
        (Error.bind_of_eq_ok (Error.assert_of_pos hordered) hnext))

theorem Valid.check_eq (h : this.Valid cTsnAck) : this.check cTsnAck = .ok () :=
  h.checkFrom_eq (Nat.zero_add _)

/-! ## Removing a TSN -/

theorem Valid.tsnBetween_block (h : this.Valid cTsnAck) (hi : i < this.numGaps) :
    tsnBetween (this.gaps i).start tsn (this.gaps i).stop = true ↔
      offset cTsnAck (this.gaps i).start ≤ offset cTsnAck tsn ∧
        offset cTsnAck tsn ≤ offset cTsnAck (this.gaps i).stop := by
  obtain ⟨-, hle, hlt⟩ := h.block hi
  exact tsnBetween_iff cTsnAck hle (by omega)

theorem findLast_cases {n : ℕ} (hn : n ≤ MAX_GAP_COUNT) :
    (∃ i < n, this.findLast tsn n = .ok (some i) ∧
      tsnBetween (this.gaps i).start tsn (this.gaps i).stop = true) ∨
    this.findLast tsn n = .ok none ∧
      ∀ i < n, ¬ tsnBetween (this.gaps i).start tsn (this.gaps i).stop = true := by
  induction n with
  | zero => exact .inr ⟨rfl, fun i hi => absurd hi i.not_lt_zero⟩
  | succ n ih =>
    rw [findLast, get_eq hn, Error.ok_bind]
    by_cases hin : tsnBetween (this.gaps n).start tsn (this.gaps n).stop = true
    · rw [if_pos hin]
      exact .inl ⟨n, n.lt_succ_self, rfl, hin⟩
    · rw [if_neg hin]
      rcases ih (by omega) with ⟨i, hi, hfind, hin'⟩ | ⟨hfind, hnone⟩
      · exact .inl ⟨i, Nat.lt_succ_of_lt hi, hfind, hin'⟩
      · refine .inr ⟨hfind, fun i hi => ?_⟩
        rcases Nat.lt_succ_iff_lt_or_eq.1 hi with hlt | rfl
        · exact hnone i hlt
        · exact hin

/-- The TSN is taken out of the intervals, and what the arrays have no room for is dropped. -/
structure Drops (this : SctpSimpleGapList) (cTsnAck removedTsn : Tsn) (this' : SctpSimpleGapList) :
    Prop where
  numGaps_le : this'.numGaps ≤ MAX_GAP_COUNT
  removes : ∃ full, Removes (this.spans cTsnAck cTsnAck) (offset cTsnAck removedTsn) full ∧
    this'.spans cTsnAck cTsnAck = full.take (MAX_GAP_COUNT + 1) ∧
    full.length ≤ this.numGaps + 2

theorem Drops.of_removes (hmax : this.numGaps ≤ MAX_GAP_COUNT)
    (hle : this'.numGaps ≤ this.numGaps)
    (h : Removes (this.spans cTsnAck cTsnAck) (offset cTsnAck tsn) (this'.spans cTsnAck cTsnAck)) :
    this.Drops cTsnAck tsn this' := by
  refine ⟨hle.trans hmax, _, h, (List.take_of_length_le ?_).symm, ?_⟩
  · rw [length_spans]
    omega
  · rw [length_spans]
    omega

theorem gapsize_gt_iff (base : Tsn) {a b : Tsn} (hle : offset base a ≤ offset base b)
    (hlt : offset base b < offset base a + (2 ^ 31 - 1)) :
    (b - a + 1).toInt > 1 ↔ offset base a < offset base b := by
  unfold offset at *
  rw [BitVec.toInt_eq_toNat_cond]
  bv_omega

theorem Valid.drops_inner (h : this.Valid cTsnAck) (hi : i < this.numGaps)
    (hlt : offset cTsnAck (this.gaps i).start < offset cTsnAck tsn)
    (hgt : offset cTsnAck tsn < offset cTsnAck (this.gaps i).stop) {gaps : ℕ → Block}
    (hgaps : ∀ k < min (this.numGaps + 1) MAX_GAP_COUNT, gaps k =
      if k < i then this.gaps k else if k = i then { this.gaps i with stop := tsn - 1 }
        else if k = i + 1 then { this.gaps i with start := tsn + 1 } else this.gaps (k - 1)) :
    this.Drops cTsnAck tsn ⟨min (this.numGaps + 1) MAX_GAP_COUNT, gaps⟩ := by
  obtain ⟨-, -, hstop⟩ := h.block hi
  have hprevious : offset cTsnAck (tsn - 1) = offset cTsnAck tsn - 1 := offset_sub_one (by omega)
  have hnext : offset cTsnAck (tsn + 1) = offset cTsnAck tsn + 1 := offset_add_one (by omega)
  have hseparated := h.separated
  rw [spans_at hi] at hseparated
  refine ⟨min_le_right _ _, _, spans_at hi ▸ hseparated.removes_inner hlt hgt, ?_, ?_⟩
  rotate_left
  · simp only [List.length_append, List.length_cons, List.length_map, entries, List.length_range']
    omega
  -- The entries as they were in arrays without a limit.
  have hfull : entries (fun k => if k < i then this.gaps k else
      if k = i then { this.gaps i with stop := tsn - 1 }
        else if k = i + 1 then { this.gaps i with start := tsn + 1 } else this.gaps (k - 1))
        0 (this.numGaps + 1) =
      entries this.gaps 0 i ++ { this.gaps i with stop := tsn - 1 } ::
        { this.gaps i with start := tsn + 1 } ::
          entries this.gaps (i + 1) (this.numGaps - (i + 1)) := by
    rw [entries_split (show i < this.numGaps + 1 by omega),
      show this.numGaps + 1 - (i + 1) = this.numGaps - (i + 1) + 1 by omega, entries_succ,
      if_neg (lt_irrefl i), if_pos rfl, if_neg (by omega), if_neg (by omega), if_pos rfl]
    congr 1
    · exact entries_congr fun k _ hk => if_pos (by omega)
    · refine congrArg _ (congrArg _ (entries_shift (f := this.gaps) (d := 1) fun k hk _ => ?_).symm)
      rw [if_neg (by omega), if_neg (by omega), if_neg (by omega), Nat.add_sub_cancel]
  have htake : spans ⟨min (this.numGaps + 1) MAX_GAP_COUNT, gaps⟩ cTsnAck cTsnAck =
      (((0, offset cTsnAck cTsnAck) :: (entries this.gaps 0 i).map (Block.span cTsnAck)) ++
        (((this.gaps i).span cTsnAck).1, offset cTsnAck tsn - 1) ::
          (offset cTsnAck tsn + 1, ((this.gaps i).span cTsnAck).2) ::
          (entries this.gaps (i + 1) (this.numGaps - (i + 1))).map (Block.span cTsnAck)).take
        (min (this.numGaps + 1) MAX_GAP_COUNT + 1) := by
    rw [spans, blocks_inserted (min_le_left _ _) hgaps, hfull, List.cons_append,
      List.take_succ_cons, List.map_take, List.map_append, ← hprevious, ← hnext]
    rfl
  rw [htake, List.take_eq_take_iff]
  simp only [List.length_append, List.length_cons, List.length_map, entries, List.length_range']
  omega

theorem Valid.exists_removeFromBlock (h : this.Valid cTsnAck) (hi : i < this.numGaps)
    (hin : offset cTsnAck (this.gaps i).start ≤ offset cTsnAck tsn ∧
      offset cTsnAck tsn ≤ offset cTsnAck (this.gaps i).stop)
    (hroom : this.numGaps = MAX_GAP_COUNT → this.gaps i ≠ ⟨tsn, tsn⟩) :
    ∃ this', this.removeFromBlock tsn i = .ok this' ∧ this.Drops cTsnAck tsn this' := by
  obtain ⟨hbefore, hle, hstop⟩ := h.block hi
  have hmax := h.lt_max hi
  have hseparated := h.separated
  rw [spans_at hi] at hseparated
  have hend : (this.gaps i).stop = tsn ↔ offset cTsnAck (this.gaps i).stop = _ :=
    eq_iff_offset cTsnAck
  have hbegin : (this.gaps i).start = tsn ↔ offset cTsnAck (this.gaps i).start = _ :=
    eq_iff_offset cTsnAck
  rw [removeFromBlock, get_eq hmax, Error.ok_bind]
  dsimp only
  by_cases hsize : ((this.gaps i).stop - (this.gaps i).start + 1).toInt > 1
  · rw [if_pos hsize]
    rw [gapsize_gt_iff cTsnAck hle (by omega)] at hsize
    by_cases hlast : (this.gaps i).stop = tsn
    · rw [if_pos hlast, setStop_eq hmax]
      refine ⟨_, rfl, .of_removes h.numGaps_le le_rfl ?_⟩
      rw [spans_at hi, spans_mk (blocks_update hi), ← hend.1 hlast]
      have hprevious : offset cTsnAck ((this.gaps i).stop - 1) = _ := offset_sub_one (by omega)
      have hremoves := hseparated.removes_last hsize
      rwa [Block.span, ← hprevious] at hremoves
    rw [if_neg hlast]
    rw [hend] at hlast
    by_cases hfirst : (this.gaps i).start = tsn
    · rw [if_pos hfirst, setStart_eq hmax]
      refine ⟨_, rfl, .of_removes h.numGaps_le le_rfl ?_⟩
      rw [spans_at hi, spans_mk (blocks_update hi), ← hbegin.1 hfirst]
      have hnext : offset cTsnAck ((this.gaps i).start + 1) = _ := offset_add_one (by omega)
      have hremoves := hseparated.removes_first hsize
      rwa [Block.span, ← hnext] at hremoves
    rw [if_neg hfirst]
    rw [hbegin] at hfirst
    have hup := @moveUp_eq ⟨min (this.numGaps + 1) MAX_GAP_COUNT, this.gaps⟩ i
      (min (this.numGaps + 1) MAX_GAP_COUNT - 1) (by omega)
    rw [hup, Error.ok_bind, setStop_eq hmax, Error.ok_bind]
    dsimp only
    by_cases hfits : i + 1 < min (this.numGaps + 1) MAX_GAP_COUNT
    · rw [if_pos hfits, setStart_eq (by omega)]
      refine ⟨_, rfl, h.drops_inner hi (by omega) (by omega) fun k hk => ?_⟩
      dsimp only
      rcases Nat.lt_trichotomy k i with hlt | rfl | hgt
      · rw [Function.update_of_ne (by omega), Function.update_of_ne (by omega),
          if_neg (by omega), if_pos hlt]
      · rw [Function.update_of_ne (by omega), Function.update_self, if_neg (by omega),
          if_neg (lt_irrefl k), if_pos rfl]
      · by_cases hnext : k = i + 1
        · subst hnext
          rw [Function.update_self, Function.update_of_ne (by omega), if_pos (by omega),
            Nat.add_sub_cancel, if_neg (by omega), if_neg (by omega), if_pos rfl]
        · rw [Function.update_of_ne hnext, Function.update_of_ne (by omega), if_pos (by omega),
            if_neg (by omega), if_neg (by omega), if_neg hnext]
    · rw [if_neg hfits]
      refine ⟨_, rfl, h.drops_inner hi (by omega) (by omega) fun k hk => ?_⟩
      dsimp only
      rcases Nat.lt_or_ge k i with hlt | hge
      · rw [Function.update_of_ne (by omega), if_neg (by omega), if_pos hlt]
      · obtain rfl : k = i := by omega
        rw [Function.update_self, if_neg (by omega), if_neg (lt_irrefl k), if_pos rfl]
  · rw [if_neg hsize]
    rw [gapsize_gt_iff cTsnAck hle (by omega)] at hsize
    have hsingle : this.gaps i = ⟨tsn, tsn⟩ :=
      congrArg₂ Block.mk (hbegin.2 (by omega)) (hend.2 (by omega))
    have hnumGaps := h.numGaps_le
    have hlt : this.numGaps < MAX_GAP_COUNT := lt_of_le_of_ne hnumGaps fun hfull =>
      hroom hfull hsingle
    rw [moveDown_eq (by omega), Error.ok_bind]
    dsimp only
    rw [set_eq (by omega)]
    refine ⟨_, rfl, .of_removes h.numGaps_le (Nat.sub_le _ _) ?_⟩
    have hremoves := hseparated.removes_single (d := offset cTsnAck tsn)
      (by dsimp only [Block.span]; omega) (by dsimp only [Block.span]; omega)
    have hblocks := @blocks_removed this i this.numGaps hi (Function.update (fun k =>
        if i ≤ k ∧ k < i + (this.numGaps - i) then this.gaps (k + 1) else this.gaps k)
      (this.numGaps - 1) ⟨0, 0⟩)
      (fun k hk => by rw [Function.update_of_ne (by omega), if_neg (by omega)])
      (fun k hk hlt => by rw [Function.update_of_ne (by omega), if_pos (by omega)])
    dsimp only
    rw [spans_at hi, spans, hblocks, List.map_append]
    exact hremoves

theorem Valid.exists_removeFromGapList (h : this.Valid cTsnAck)
    (hroom : this.numGaps = MAX_GAP_COUNT → ⟨tsn, tsn⟩ ∉ this.blocks) :
    ∃ this', this.removeFromGapList tsn = .ok this' ∧ (this.Drops cTsnAck tsn this' ∨
      this' = this ∧ this.tsnInGapList tsn = false) := by
  rw [removeFromGapList]
  rcases @findLast_cases this tsn _ h.numGaps_le with
    ⟨i, hi, hfind, hin⟩ | ⟨hfind, hnone⟩
  · obtain ⟨this', hremove, hdrops⟩ := h.exists_removeFromBlock hi ((h.tsnBetween_block hi).1 hin)
      fun hfull hblock => hroom hfull (mem_blocks.2 ⟨i, hi, hblock⟩)
    exact ⟨this', Error.bind_of_eq_ok hfind hremove, .inl hdrops⟩
  · refine ⟨this, Error.bind_of_eq_ok hfind rfl, .inr ⟨rfl, ?_⟩⟩
    rw [tsnInGapList, List.any_eq_false]
    intro block hblock
    obtain ⟨i, hi, rfl⟩ := mem_blocks.1 hblock
    exact hnone i hi

theorem Drops.separated (h : this.Drops cTsnAck tsn this') :
    Separated (this'.spans cTsnAck cTsnAck) := by
  obtain ⟨full, hremoves, hspans, -⟩ := h.removes
  rw [hspans]
  exact hremoves.separated.take _

theorem Drops.covers (h : this.Drops cTsnAck tsn this') {p : ℕ}
    (hp : Covers (this'.spans cTsnAck cTsnAck) p) :
    Covers (this.spans cTsnAck cTsnAck) p ∧ p ≠ offset cTsnAck tsn := by
  obtain ⟨full, hremoves, hspans, -⟩ := h.removes
  rw [hspans] at hp
  exact (hremoves.covers p).1 hp.of_take

theorem Drops.valid (hdrops : this.Drops cTsnAck tsn this') (h : this.Valid cTsnAck) :
    this'.Valid cTsnAck :=
  ⟨hdrops.numGaps_le, hdrops.separated, fun p hp => h.window p (hdrops.covers hp).1⟩

theorem Drops.tsnInGapList (hdrops : this.Drops cTsnAck tsn this') (h : this.Valid cTsnAck)
    {t : Tsn} (ht : this'.tsnInGapList t = true) : this.tsnInGapList t = true ∧ t ≠ tsn := by
  obtain ⟨hpos, hcovers⟩ := (hdrops.valid h).tsnInGapList_iff.1 ht
  obtain ⟨hcovers, hne⟩ := hdrops.covers hcovers
  exact ⟨h.tsnInGapList_iff.2 ⟨hpos, hcovers⟩, fun heq => hne (heq ▸ rfl)⟩

/-! ## Forwarding the cumulative ack -/

theorem Valid.countReached_eq (h : this.Valid cTsnAck) (hwindow : offset cTsnAck tsn < 2 ^ 31)
    {rest i : ℕ} (hrest : i + rest = this.numGaps) :
    ∃ n, this.countReached tsn rest i = .ok n ∧ i ≤ n ∧ n ≤ this.numGaps ∧
      (n < this.numGaps → offset cTsnAck tsn < offset cTsnAck (this.gaps n).start) ∧
      ∀ k, i ≤ k → k < n → offset cTsnAck (this.gaps k).start ≤ offset cTsnAck tsn := by
  induction rest generalizing i with
  | zero =>
    exact ⟨i, rfl, le_rfl, hrest.le, fun hlt => absurd hlt (by omega),
      fun k hle hlt => absurd hle (Nat.not_le.2 hlt)⟩
  | succ rest ih =>
    have hi : i < this.numGaps := by omega
    obtain ⟨-, hle, hlt⟩ := h.block hi
    rw [countReached, get_eq (h.lt_max hi), Error.ok_bind]
    by_cases hreached : tsnGe tsn (this.gaps i).start = true
    · rw [if_pos hreached]
      rw [tsnGe_iff cTsnAck (by omega) (by omega)] at hreached
      obtain ⟨n, hcount, hle', hmax, hbehind, hbefore⟩ := ih (i := i + 1) (by omega)
      refine ⟨n, hcount, by omega, hmax, hbehind, fun k hk hlt => ?_⟩
      rcases Nat.eq_or_lt_of_le hk with rfl | hlt'
      · exact hreached
      · exact hbefore k hlt' hlt
    · rw [if_neg hreached]
      rw [tsnGe_iff cTsnAck (by omega) (by omega)] at hreached
      exact ⟨i, rfl, le_rfl, hi.le, fun _ => Nat.lt_of_not_ge hreached,
        fun k hle hlt => absurd hle (Nat.not_le.2 hlt)⟩

theorem Valid.exists_forwardCumAckTsn (h : this.Valid cTsnAck)
    (hwindow : offset cTsnAck tsn < 2 ^ 31) : ∃ this' n, this.forwardCumAckTsn tsn = .ok this' ∧
      n ≤ this.numGaps ∧ this'.numGaps = this.numGaps - n ∧
      this'.blocks = entries this.gaps n (this.numGaps - n) ∧
      (n < this.numGaps → offset cTsnAck tsn < offset cTsnAck (this.gaps n).start) ∧
      ∀ k < n, offset cTsnAck (this.gaps k).start ≤ offset cTsnAck tsn := by
  obtain ⟨n, hcount, -, hle, hbehind, hbefore⟩ :=
    h.countReached_eq hwindow (Nat.zero_add this.numGaps)
  have hmax := h.numGaps_le
  rw [forwardCumAckTsn, hcount, Error.ok_bind]
  by_cases hpos : n > 0
  · rw [if_pos hpos, moveDown_eq (by omega)]
    refine ⟨_, n, rfl, hle, rfl, ?_, hbehind, fun k => hbefore k k.zero_le⟩
    rw [blocks_eq, ← Nat.zero_add n, entries_shift fun k _ hk => if_pos ⟨k.zero_le, hk⟩]
    dsimp only
    rw [Nat.zero_add]
  · obtain rfl : n = 0 := by omega
    rw [if_neg hpos]
    exact ⟨this, 0, rfl, hle, rfl, blocks_eq, hbehind, fun k hk => absurd hk k.not_lt_zero⟩

theorem blocks_append {n : ℕ} (h : n ≤ this.numGaps) :
    this.blocks = entries this.gaps 0 n ++ entries this.gaps n (this.numGaps - n) := by
  rw [blocks_eq]
  conv_lhs => rw [show this.numGaps = n + (this.numGaps - n) by omega, entries_add, Nat.zero_add]

theorem Valid.forward (h : this.Valid cTsnAck) (hwindow : offset cTsnAck tsn < 2 ^ 31)
    (hnext : ∀ block ∈ this.blocks, block.start ≠ tsn + 1) : ∃ this',
      this.forwardCumAckTsn tsn = .ok this' ∧ this'.Valid tsn ∧
      ∀ t, this'.tsnInGapList t = true → this.tsnInGapList t = true := by
  obtain ⟨this', n, hforward, hle, hnumGaps, hblocks, hbehind, -⟩ :=
    h.exists_forwardCumAckTsn hwindow
  have hsub : ∀ block ∈ this'.blocks, block ∈ this.blocks := by
    intro block hblock
    rw [blocks_append hle, ← hblocks]
    exact List.mem_append_right _ hblock
  have hseparated := h.separated
  rw [spans, blocks_append hle, List.map_append, ← hblocks, ← List.cons_append] at hseparated
  obtain ⟨-, hbehind', -⟩ := separated_append.1 hseparated
  refine ⟨this', hforward, @Valid.of_base this' cTsnAck tsn ?_ ?_ fun p hp => ?_, fun t ht => ?_⟩
  · have hmax := h.numGaps_le
    omega
  · refine separated_cons.2 ⟨Nat.zero_le _, fun y hy => ?_, hbehind'⟩
    rw [hblocks] at hy
    by_cases hn : n < this.numGaps
    · have hstart := h.start_le hn hy
      have hlt := hbehind hn
      have hne := hnext _ (mem_blocks.2 ⟨n, hn, rfl⟩)
      rw [Ne, eq_iff_offset cTsnAck, offset_add_one (by omega)] at hne
      dsimp only
      omega
    · rw [show this.numGaps - n = 0 by omega] at hy
      cases hy
  · rcases covers_cons.1 hp with hp | ⟨x, hx, hp⟩
    · exact lt_of_le_of_lt hp.2 hwindow
    · obtain ⟨block, hblock, rfl⟩ := List.mem_map.1 hx
      exact h.window p ⟨_, List.mem_cons_of_mem _ (List.mem_map_of_mem (hsub block hblock)), hp⟩
  · rw [tsnInGapList, List.any_eq_true] at ht ⊢
    obtain ⟨block, hblock, hin⟩ := ht
    exact ⟨block, hsub block hblock, hin⟩

theorem Valid.advanceTurns_eq (h : this.Valid cTsnAck) {turns : ℕ} (hturns : turns ≤ this.numGaps) :
    this.advanceTurns cTsnAck false turns = .ok (this, cTsnAck, false) := by
  induction turns with
  | zero => rfl
  | succ turns ih =>
    have hpos : 0 < this.numGaps := by omega
    have hbefore := (h.block hpos).1
    change 0 + 2 ≤ _ at hbefore
    have hne : cTsnAck + 1 ≠ (this.gaps 0).start := by
      rw [Ne, eq_iff_offset cTsnAck, offset_one]
      omega
    rw [advanceTurns, get_eq (h.lt_max hpos), Error.ok_bind, if_neg hne]
    exact ih (by omega)

theorem Valid.tryToAdvanceCumAckTsn_eq (h : this.Valid cTsnAck) :
    this.tryToAdvanceCumAckTsn cTsnAck = .ok (this, cTsnAck, false) := h.advanceTurns_eq le_rfl

theorem valid_new (cTsnAck : Tsn) : new.Valid cTsnAck where
  numGaps_le := Nat.zero_le _
  separated := separated_cons.2 ⟨Nat.zero_le _, List.forall_mem_nil _, separated_nil⟩
  window p hp := by
    rw [spans, offset_self] at hp
    rcases covers_cons.1 hp with hp | hp
    · dsimp only at hp
      omega
    · exact absurd hp not_covers_nil

end SctpSimpleGapList

end Inet.Sctp
