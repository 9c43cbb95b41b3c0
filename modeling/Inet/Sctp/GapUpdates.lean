import Inet.Sctp.GapBlocks

/-! # What a call does to the blocks

A received TSN is added to the intervals, and a removed one is taken out of
them. When the arrays are full, what they have no room for is dropped.
-/

namespace Inet.Sctp

open Intervals

/-- The offsets of a block. -/
def Block.span (base : Tsn) (block : Block) : ℕ × ℕ :=
  (offset base block.start, offset base block.stop)

namespace SctpSimpleGapList

/-- The TSNs up to the cumulative ack, and the blocks behind it. -/
def spans (this : SctpSimpleGapList) (base cTsnAck : Tsn) : List (ℕ × ℕ) :=
  (0, offset base cTsnAck) :: this.blocks.map (Block.span base)

/-- The blocks are apart from each other and from the cumulative ack, and less than half of the
space behind it. -/
structure Valid (this : SctpSimpleGapList) (cTsnAck : Tsn) : Prop where
  numGaps_le : this.numGaps ≤ MAX_GAP_COUNT
  separated : Separated (this.spans cTsnAck cTsnAck)
  window : ∀ p, Covers (this.spans cTsnAck cTsnAck) p → p < 2 ^ 31

/-- No block starts at the TSN 0. -/
def NoZeroStart (this : SctpSimpleGapList) : Prop := ∀ block ∈ this.blocks, block.start ≠ 0

variable {this : SctpSimpleGapList} {base cTsnAck receivedTsn : Tsn} {i : ℕ}

theorem mem_blocks {block : Block} :
    block ∈ this.blocks ↔ ∃ k < this.numGaps, this.gaps k = block := by
  rw [blocks_eq, mem_entries]
  simp only [Nat.zero_le, true_and, Nat.zero_add]

/-! ## Blocks of a valid list -/

/-- The offset of the last TSN before the block. -/
def stopBefore (this : SctpSimpleGapList) (base : Tsn) : ℕ → ℕ
  | 0 => 0
  | i + 1 => offset base (this.gaps i).stop

theorem spans_split (h : i < this.numGaps) : ∃ A a, this.spans cTsnAck cTsnAck =
      A ++ a :: (this.gaps i).span cTsnAck ::
        (entries this.gaps (i + 1) (this.numGaps - (i + 1))).map (Block.span cTsnAck) ∧
    A ++ [a] = (0, 0) :: (entries this.gaps 0 i).map (Block.span cTsnAck) ∧
    a.2 = this.stopBefore cTsnAck i := by
  rw [spans, blocks_split h, offset_self, List.map_append, List.map_cons]
  cases i with
  | zero => exact ⟨[], (0, 0), rfl, rfl, rfl⟩
  | succ i =>
    refine ⟨(0, 0) :: (entries this.gaps 0 i).map (Block.span cTsnAck),
      (this.gaps i).span cTsnAck, ?_, ?_, rfl⟩
    · rw [entries_add, Nat.zero_add, List.map_append, List.append_assoc]
      rfl
    · rw [entries_add, Nat.zero_add, List.map_append]
      rfl

theorem Valid.block (h : this.Valid cTsnAck) (hi : i < this.numGaps) :
    this.stopBefore cTsnAck i + 2 ≤ offset cTsnAck (this.gaps i).start ∧
      offset cTsnAck (this.gaps i).start ≤ offset cTsnAck (this.gaps i).stop ∧
      offset cTsnAck (this.gaps i).stop < 2 ^ 31 := by
  obtain ⟨A, a, hspans, -, hstop⟩ := @spans_split this cTsnAck i hi
  have hseparated := h.separated
  have hwindow := h.window (offset cTsnAck (this.gaps i).stop)
  rw [hspans] at hseparated hwindow
  obtain ⟨-, hb, -, -, hbehind⟩ := separated_between.1 hseparated
  have hle := hb.le _ List.mem_cons_self
  refine ⟨hstop ▸ hbehind _ List.mem_cons_self, hle, hwindow ?_⟩
  exact covers_between.2 (.inr (.inr (covers_cons.2 (.inl ⟨hle, le_rfl⟩))))

theorem covers_of_block (hi : i < this.numGaps) {p : ℕ}
    (hstart : offset cTsnAck (this.gaps i).start ≤ p)
    (hstop : p ≤ offset cTsnAck (this.gaps i).stop) :
    Covers (this.spans cTsnAck cTsnAck) p := by
  refine ⟨(this.gaps i).span cTsnAck, List.mem_cons_of_mem _ ?_, hstart, hstop⟩
  exact List.mem_map_of_mem (mem_blocks.2 ⟨i, hi, rfl⟩)

theorem Valid.lt_max (h : this.Valid cTsnAck) (hi : i < this.numGaps) : i < MAX_GAP_COUNT :=
  lt_of_lt_of_le hi h.numGaps_le

theorem Valid.findGap_cases (h : this.Valid cTsnAck) (hzero : this.NoZeroStart)
    {rest i : ℕ} {lo : Tsn}
    (hrest : i + rest = this.numGaps) (hlo : offset cTsnAck lo = this.stopBefore cTsnAck i + 1)
    (hbehind : Covers (this.spans cTsnAck cTsnAck) (offset cTsnAck receivedTsn) ∨
      this.stopBefore cTsnAck i < offset cTsnAck receivedTsn) :
    (∃ k lo', this.findGap receivedTsn rest i lo = .ok (some k, lo') ∧ k < this.numGaps ∧
      offset cTsnAck lo' = this.stopBefore cTsnAck k + 1 ∧
      this.stopBefore cTsnAck k < offset cTsnAck receivedTsn ∧
      offset cTsnAck receivedTsn < offset cTsnAck (this.gaps k).start) ∨
    ∃ lo', this.findGap receivedTsn rest i lo = .ok (none, lo') ∧
      offset cTsnAck lo' = this.stopBefore cTsnAck this.numGaps + 1 ∧
      (Covers (this.spans cTsnAck cTsnAck) (offset cTsnAck receivedTsn) ∨
        this.stopBefore cTsnAck this.numGaps < offset cTsnAck receivedTsn) := by
  induction rest generalizing i lo with
  | zero =>
    obtain rfl : i = this.numGaps := hrest
    exact .inr ⟨lo, rfl, hlo, hbehind⟩
  | succ rest ih =>
    have hi : i < this.numGaps := by omega
    obtain ⟨hbefore, hle, hlt⟩ := h.block hi
    have hpos : (this.gaps i).start > 0 := by
      have hne := hzero _ (mem_blocks.2 ⟨i, hi, rfl⟩)
      bv_omega
    have hhi : offset cTsnAck ((this.gaps i).start - 1) = offset cTsnAck (this.gaps i).start - 1 :=
      offset_sub_one (by omega)
    have hbetween : tsnBetween lo receivedTsn ((this.gaps i).start - 1) = true ↔ _ :=
      tsnBetween_iff cTsnAck (by omega) (by omega)
    rw [findGap, get_eq (h.lt_max hi), Error.ok_bind, if_pos hpos]
    by_cases hfound : tsnBetween lo receivedTsn ((this.gaps i).start - 1) = true
    · rw [if_pos hfound]
      rw [hbetween] at hfound
      exact .inl ⟨i, lo, rfl, hi, hlo, by omega, by omega⟩
    · rw [if_neg hfound]
      rw [hbetween] at hfound
      refine ih (by omega) (offset_add_one (by omega)) ?_
      rcases hbehind with hcovers | hlt'
      · exact .inl hcovers
      · rcases Nat.lt_or_ge (offset cTsnAck (this.gaps i).stop) (offset cTsnAck receivedTsn) with
          hstop | hstop
        · exact .inr hstop
        · exact .inl (covers_of_block hi (by omega) hstop)

/-! ## What a change of the arrays does to the intervals -/

theorem spans_mk {n : ℕ} {gaps : ℕ → Block} {blocks₁ blocks₂ : List Block} {block : Block}
    (h : blocks ⟨n, gaps⟩ = blocks₁ ++ block :: blocks₂) : spans ⟨n, gaps⟩ base cTsnAck =
      ((0, offset base cTsnAck) :: blocks₁.map (Block.span base)) ++
        block.span base :: blocks₂.map (Block.span base) := by
  rw [spans, h, List.map_append, List.map_cons]
  rfl

theorem spans_at (h : i < this.numGaps) : this.spans base cTsnAck =
    ((0, offset base cTsnAck) :: (entries this.gaps 0 i).map (Block.span base)) ++
      (this.gaps i).span base ::
        (entries this.gaps (i + 1) (this.numGaps - (i + 1))).map (Block.span base) :=
  spans_mk (blocks_split h)

theorem Valid.le_stopBefore (h : this.Valid cTsnAck) (hi : i ≤ this.numGaps) {y : ℕ × ℕ}
    (hy : y ∈ (0, 0) :: (entries this.gaps 0 i).map (Block.span cTsnAck)) :
    y.2 ≤ this.stopBefore cTsnAck i := by
  cases i with
  | zero =>
    obtain rfl := List.mem_singleton.1 hy
    exact le_rfl
  | succ i =>
    have hseparated := h.separated
    rw [spans_at (show i < this.numGaps by omega), offset_self] at hseparated
    obtain ⟨-, -, hle, hbefore, -⟩ := separated_between.1 hseparated
    rw [entries_add, Nat.zero_add, List.map_append, ← List.cons_append] at hy
    rcases List.mem_append.1 hy with hy | hy
    · have hlt := hbefore y hy
      change y.2 ≤ ((this.gaps i).span cTsnAck).2
      omega
    · obtain rfl := List.mem_singleton.1 hy
      exact le_rfl

theorem Valid.start_le (h : this.Valid cTsnAck) (hi : i < this.numGaps) {y : ℕ × ℕ}
    (hy : y ∈ (entries this.gaps i (this.numGaps - i)).map (Block.span cTsnAck)) :
    offset cTsnAck (this.gaps i).start ≤ y.1 := by
  have hseparated := h.separated
  rw [spans_at hi] at hseparated
  obtain ⟨-, -, hle, -, hbehind⟩ := separated_between.1 hseparated
  rw [show this.numGaps - i = this.numGaps - (i + 1) + 1 by omega, entries_succ,
    List.map_cons] at hy
  rcases List.mem_cons.1 hy with rfl | hy
  · exact le_rfl
  · have hlt := hbehind y hy
    change ((this.gaps i).span cTsnAck).1 ≤ y.1
    omega

theorem Valid.not_covers (h : this.Valid cTsnAck) (hi : i ≤ this.numGaps) {p : ℕ}
    (hlt : this.stopBefore cTsnAck i < p)
    (hgt : i < this.numGaps → p < offset cTsnAck (this.gaps i).start) :
    ¬ Covers (this.spans cTsnAck cTsnAck) p := by
  rintro ⟨y, hy, hstart, hstop⟩
  rw [spans, offset_self, blocks_eq, show this.numGaps = i + (this.numGaps - i) by omega,
    entries_add, Nat.zero_add, List.map_append, ← List.cons_append, List.mem_append] at hy
  rcases hy with hy | hy
  · have hle := h.le_stopBefore hi hy
    omega
  · have hin : i < this.numGaps := by
      by_contra hge
      rw [show this.numGaps - i = 0 by omega] at hy
      cases hy
    have hle := h.start_le hin hy
    have hbefore := hgt hin
    omega

/-- The TSN is added to the intervals, and what the arrays have no room for is dropped. -/
structure Takes (this : SctpSimpleGapList) (cTsnAck receivedTsn : Tsn) (this' : SctpSimpleGapList)
    (cTsnAck' : Tsn) : Prop where
  numGaps_le : this'.numGaps ≤ MAX_GAP_COUNT
  adds : ∃ full, Adds (this.spans cTsnAck cTsnAck) (offset cTsnAck receivedTsn) full ∧
    this'.spans cTsnAck cTsnAck' = full.take (MAX_GAP_COUNT + 1) ∧
    full.length ≤ this.numGaps + 2

theorem length_spans : (this.spans base cTsnAck).length = this.numGaps + 1 := by
  rw [spans, List.length_cons, List.length_map, blocks, List.length_map, List.length_range]

theorem Takes.of_adds {this' : SctpSimpleGapList} {cTsnAck' : Tsn}
    (hmax : this.numGaps ≤ MAX_GAP_COUNT) (hle : this'.numGaps ≤ this.numGaps)
    (h : Adds (this.spans cTsnAck cTsnAck) (offset cTsnAck receivedTsn)
      (this'.spans cTsnAck cTsnAck')) : this.Takes cTsnAck receivedTsn this' cTsnAck' := by
  refine ⟨hle.trans hmax, _, h, (List.take_of_length_le ?_).symm, ?_⟩
  · rw [length_spans]
    omega
  · rw [length_spans]
    omega

theorem removeBlock_eq (hi : i < this.numGaps) (hle : this.numGaps ≤ MAX_GAP_COUNT) :
    ∃ gaps, this.removeBlock i = .ok ⟨this.numGaps - 1, gaps⟩ ∧
      blocks ⟨this.numGaps - 1, gaps⟩ = entries this.gaps 0 i ++
        entries this.gaps (i + 1) (this.numGaps - (i + 1)) := by
  rw [removeBlock]
  by_cases hlast : i = this.numGaps - 1
  · rw [if_pos hlast, set_eq (by omega)]
    exact ⟨_, rfl, blocks_removed hi (fun k hk => Function.update_of_ne (by omega) _ _)
      fun k hk hlt => absurd hlt (by omega)⟩
  · rw [if_neg hlast, moveDown_eq (by omega)]
    refine ⟨_, rfl, blocks_removed hi (fun k hk => if_neg (by omega)) fun k hk hlt =>
      if_pos (by omega)⟩

theorem before_succ (h : i < MAX_GAP_COUNT) : before (i + 1) = i := by
  rw [before]
  have : MAX_GAP_COUNT = 500 := rfl
  omega

theorem Valid.takes_inserted (h : this.Valid cTsnAck) (hi : i ≤ this.numGaps)
    (hlt : this.stopBefore cTsnAck i + 2 ≤ offset cTsnAck receivedTsn)
    (hgt : i < this.numGaps → offset cTsnAck receivedTsn + 2 ≤ offset cTsnAck (this.gaps i).start)
    {gaps : ℕ → Block} (hgaps : ∀ k < min (this.numGaps + 1) MAX_GAP_COUNT, gaps k =
      if k < i then this.gaps k else if k = i then ⟨receivedTsn, receivedTsn⟩
        else this.gaps (k - 1)) :
    this.Takes cTsnAck receivedTsn ⟨min (this.numGaps + 1) MAX_GAP_COUNT, gaps⟩ cTsnAck := by
  have hspans : this.spans cTsnAck cTsnAck =
      ((0, 0) :: (entries this.gaps 0 i).map (Block.span cTsnAck)) ++
        (entries this.gaps i (this.numGaps - i)).map (Block.span cTsnAck) := by
    rw [spans, offset_self, blocks_eq, List.cons_append, ← List.map_append]
    conv_lhs => rw [show this.numGaps = i + (this.numGaps - i) by omega, entries_add, Nat.zero_add]
  have hbefore : ∀ y ∈ (0, 0) :: (entries this.gaps 0 i).map (Block.span cTsnAck),
      y.2 + 2 ≤ offset cTsnAck receivedTsn := by
    intro y hy
    have hle := h.le_stopBefore hi hy
    omega
  have hbehind : ∀ y ∈ (entries this.gaps i (this.numGaps - i)).map (Block.span cTsnAck),
      offset cTsnAck receivedTsn + 2 ≤ y.1 := by
    intro y hy
    by_cases hlast : i < this.numGaps
    · have hle := h.start_le hlast hy
      have hlt := hgt hlast
      omega
    · rw [show this.numGaps - i = 0 by omega] at hy
      cases hy
  have hseparated := h.separated
  rw [hspans] at hseparated
  refine ⟨min_le_right _ _, _, hspans ▸ hseparated.insert hbefore hbehind, ?_, ?_⟩
  rotate_left
  · simp only [List.length_append, List.length_cons, List.length_map, entries, List.length_range']
    omega
  -- The entries as they were in arrays without a limit.
  have hfull : entries (fun k => if k < i then this.gaps k else
      if k = i then ⟨receivedTsn, receivedTsn⟩ else this.gaps (k - 1)) 0 (this.numGaps + 1) =
      entries this.gaps 0 i ++ ⟨receivedTsn, receivedTsn⟩ ::
        entries this.gaps i (this.numGaps - i) := by
    rw [entries_split (show i < this.numGaps + 1 by omega)]
    rw [if_neg (lt_irrefl i), if_pos rfl,
      show this.numGaps + 1 - (i + 1) = this.numGaps - i by omega]
    congr 1
    · exact entries_congr fun k _ hk => if_pos (by omega)
    · refine congrArg _ (entries_shift (f := this.gaps) (d := 1) fun k hk _ => ?_).symm
      rw [if_neg (by omega), if_neg (by omega), Nat.add_sub_cancel]
  have htake : spans ⟨min (this.numGaps + 1) MAX_GAP_COUNT, gaps⟩ cTsnAck cTsnAck =
      (((0, 0) :: (entries this.gaps 0 i).map (Block.span cTsnAck)) ++
        (offset cTsnAck receivedTsn, offset cTsnAck receivedTsn) ::
          (entries this.gaps i (this.numGaps - i)).map (Block.span cTsnAck)).take
        (min (this.numGaps + 1) MAX_GAP_COUNT + 1) := by
    rw [spans, blocks_inserted (min_le_left _ _) hgaps, hfull, offset_self, List.cons_append,
      List.take_succ_cons, List.map_take, List.map_append]
    rfl
  rw [htake, List.take_eq_take_iff]
  simp only [List.length_append, List.length_cons, List.length_map, entries, List.length_range']
  omega

/-! ## Adding a TSN -/

theorem gapsize_iff (base : Tsn) {lo hi : Tsn} (hle : offset base lo ≤ offset base hi)
    (hlt : offset base hi < 2 ^ 31) : hi - lo + 1 > 1 ↔ offset base lo < offset base hi := by
  unfold offset at *
  bv_omega

theorem eq_iff_offset (base : Tsn) {a b : Tsn} : a = b ↔ offset base a = offset base b :=
  offset_inj.symm

theorem offset_one (cTsnAck : Tsn) : offset cTsnAck (cTsnAck + 1) = 1 := by
  rw [offset_add_one (by rw [offset_self]; decide), offset_self]

theorem Valid.takes_start (h : this.Valid cTsnAck) (hi : i < this.numGaps)
    (hlt : this.stopBefore cTsnAck i + 2 ≤ offset cTsnAck receivedTsn)
    (hgt : offset cTsnAck receivedTsn + 1 = offset cTsnAck (this.gaps i).start) :
    this.Takes cTsnAck receivedTsn ⟨this.numGaps, Function.update this.gaps i
      { this.gaps i with start := receivedTsn }⟩ cTsnAck := by
  refine .of_adds h.numGaps_le le_rfl ?_
  have hseparated := h.separated
  rw [spans_at hi] at hseparated ⊢
  rw [spans_mk (blocks_update hi)]
  refine hseparated.lower hgt fun y hy => ?_
  rw [offset_self] at hy
  have hle := h.le_stopBefore hi.le hy
  omega

theorem Valid.takes_stop (h : this.Valid cTsnAck) {j : ℕ} (hj : j < this.numGaps)
    (heq : offset cTsnAck receivedTsn = offset cTsnAck (this.gaps j).stop + 1)
    (hgt : j + 1 < this.numGaps →
      offset cTsnAck receivedTsn + 2 ≤ offset cTsnAck (this.gaps (j + 1)).start) :
    this.Takes cTsnAck receivedTsn ⟨this.numGaps, Function.update this.gaps j
      { this.gaps j with stop := receivedTsn }⟩ cTsnAck := by
  refine .of_adds h.numGaps_le le_rfl ?_
  have hseparated := h.separated
  rw [spans_at hj] at hseparated ⊢
  rw [spans_mk (blocks_update hj)]
  refine hseparated.raise heq fun y hy => ?_
  by_cases hlast : j + 1 < this.numGaps
  · have hle := h.start_le hlast hy
    have hlt := hgt hlast
    omega
  · rw [show this.numGaps - (j + 1) = 0 by omega] at hy
    cases hy

theorem Valid.takes_cumAck (h : this.Valid cTsnAck) (heq : offset cTsnAck receivedTsn = 1)
    (hgt : 0 < this.numGaps →
      offset cTsnAck receivedTsn + 2 ≤ offset cTsnAck (this.gaps 0).start) :
    this.Takes cTsnAck receivedTsn this receivedTsn := by
  refine .of_adds h.numGaps_le le_rfl ?_
  have hseparated := h.separated
  rw [spans, offset_self] at hseparated ⊢
  refine Separated.raise (A := []) hseparated heq fun y hy => ?_
  by_cases hpos : 0 < this.numGaps
  · rw [blocks_eq] at hy
    have hle := h.start_le hpos (y := y) hy
    have hlt := hgt hpos
    omega
  · rw [blocks, show this.numGaps = 0 by omega] at hy
    cases hy

theorem Valid.takes_first (h : this.Valid cTsnAck) (hpos : 0 < this.numGaps)
    (heq : offset cTsnAck receivedTsn = 1) (hgt : offset cTsnAck (this.gaps 0).start = 2) :
    ∃ this', this.removeBlock 0 = .ok this' ∧
      this.Takes cTsnAck receivedTsn this' (this.gaps 0).stop := by
  obtain ⟨gaps, hremove, hblocks⟩ := removeBlock_eq hpos h.numGaps_le
  refine ⟨_, hremove, .of_adds h.numGaps_le (Nat.sub_le _ _) ?_⟩
  have hseparated := h.separated
  rw [spans_at hpos, offset_self] at hseparated ⊢
  rw [spans, hblocks]
  exact Separated.join (A := []) (a := (0, 0)) hseparated heq (by rw [heq]; exact hgt.symm)

theorem Valid.takes_between (h : this.Valid cTsnAck) {j : ℕ} (hj : j + 1 < this.numGaps)
    (heq : offset cTsnAck receivedTsn = offset cTsnAck (this.gaps j).stop + 1)
    (hgt : offset cTsnAck receivedTsn + 1 = offset cTsnAck (this.gaps (j + 1)).start) :
    ∃ this', removeBlock ⟨this.numGaps, Function.update this.gaps j
        { this.gaps j with stop := (this.gaps (j + 1)).stop }⟩ (j + 1) = .ok this' ∧
      this.Takes cTsnAck receivedTsn this' cTsnAck := by
  obtain ⟨gaps, hremove, hblocks⟩ := @removeBlock_eq ⟨this.numGaps, Function.update this.gaps j
    { this.gaps j with stop := (this.gaps (j + 1)).stop }⟩ (j + 1) hj h.numGaps_le
  refine ⟨_, hremove, .of_adds h.numGaps_le (Nat.sub_le _ _) ?_⟩
  have hblocks' : blocks ⟨this.numGaps - 1, gaps⟩ = entries this.gaps 0 j ++
      { this.gaps j with stop := (this.gaps (j + 1)).stop } ::
        entries this.gaps (j + 2) (this.numGaps - (j + 2)) := by
    refine hblocks.trans ?_
    rw [entries_add, Nat.zero_add, List.append_assoc]
    congr 1
    · exact entries_congr fun k _ hk => Function.update_of_ne (by omega) _ _
    · refine congrArg₂ List.cons (Function.update_self j _ _) ?_
      exact entries_congr fun k hk _ => Function.update_of_ne (by omega) _ _
  have hseparated := h.separated
  rw [spans_at (Nat.lt_of_succ_lt hj), offset_self,
    show this.numGaps - (j + 1) = this.numGaps - (j + 2) + 1 by omega, entries_succ,
    List.map_cons] at hseparated ⊢
  rw [spans_mk hblocks', offset_self]
  exact hseparated.join heq hgt

theorem Valid.exists_updateBefore (h : this.Valid cTsnAck) {lo : Tsn} (hi : i < this.numGaps)
    (hlo : offset cTsnAck lo = this.stopBefore cTsnAck i + 1)
    (hlt : this.stopBefore cTsnAck i < offset cTsnAck receivedTsn)
    (hgt : offset cTsnAck receivedTsn < offset cTsnAck (this.gaps i).start) :
    ∃ this' cTsnAck', this.updateBefore receivedTsn cTsnAck i lo = .ok (this', cTsnAck') ∧
      this.Takes cTsnAck receivedTsn this' cTsnAck' := by
  obtain ⟨hbefore, hle, hstop⟩ := h.block hi
  have hmax := h.lt_max hi
  have hhi : offset cTsnAck ((this.gaps i).start - 1) = offset cTsnAck (this.gaps i).start - 1 :=
    offset_sub_one (by omega)
  have hone := offset_one cTsnAck
  -- Only the first block has the cumulative ack before it.
  have hfirst : lo = cTsnAck + 1 ↔ i = 0 := by
    rw [eq_iff_offset cTsnAck, hlo, hone]
    cases i with
    | zero => exact iff_of_true rfl rfl
    | succ j =>
      obtain ⟨hpos, hle', -⟩ := h.block (Nat.lt_of_succ_lt hi)
      refine iff_of_false (fun heq => ?_) (Nat.succ_ne_zero j)
      change offset cTsnAck (this.gaps j).stop + 1 = 1 at heq
      omega
  rw [updateBefore, get_eq hmax, Error.ok_bind]
  by_cases hsize : (this.gaps i).start - 1 - lo + 1 > 1
  · have hlarge := (gapsize_iff cTsnAck (by omega) (by omega)).1 hsize
    rw [if_pos hsize]
    by_cases hend : receivedTsn = (this.gaps i).start - 1
    · rw [if_pos hend, setStart_eq hmax]
      rw [eq_iff_offset cTsnAck] at hend
      exact ⟨_, _, rfl, h.takes_start hi (by omega) (by omega)⟩
    rw [if_neg hend]
    rw [eq_iff_offset cTsnAck] at hend
    by_cases hbegin : receivedTsn = lo
    · subst hbegin
      rw [if_pos rfl]
      cases i with
      | zero =>
        have heq := hfirst.2 rfl
        rw [if_pos heq, ← heq]
        exact ⟨_, _, rfl, h.takes_cumAck hlo fun _ => by omega⟩
      | succ j =>
        rw [if_neg fun heq => absurd (hfirst.1 heq) (Nat.succ_ne_zero j),
          before_succ (Nat.lt_of_succ_lt hmax), setStop_eq (by omega)]
        exact ⟨_, _, rfl, h.takes_stop (Nat.lt_of_succ_lt hi) hlo fun _ => by omega⟩
    · rw [if_neg hbegin]
      rw [eq_iff_offset cTsnAck] at hbegin
      have hup := @moveUp_eq ⟨min (this.numGaps + 1) MAX_GAP_COUNT, this.gaps⟩ i
        (min (this.numGaps + 1) MAX_GAP_COUNT - 1) (by omega)
      dsimp only at hup ⊢
      rw [hup, Error.ok_bind, set_eq hmax]
      refine ⟨_, _, rfl, h.takes_inserted hi.le (by omega) (fun _ => by omega) fun k hk => ?_⟩
      dsimp only
      rcases Nat.lt_trichotomy k i with hlt' | rfl | hgt'
      · rw [Function.update_of_ne (by omega), if_neg (by omega), if_pos hlt']
      · rw [Function.update_self, if_neg (lt_irrefl k), if_pos rfl]
      · rw [Function.update_of_ne (by omega), if_pos (by omega), if_neg (by omega),
          if_neg (by omega)]
  · have hsmall := mt (gapsize_iff cTsnAck (by omega) (by omega)).2 hsize
    rw [if_neg hsize]
    cases i with
    | zero =>
      change 0 + 2 ≤ offset cTsnAck (this.gaps 0).start at hbefore
      change offset cTsnAck lo = 0 + 1 at hlo
      have heq : offset cTsnAck receivedTsn = 1 := by omega
      obtain ⟨this', hremove, htakes⟩ := h.takes_first hi heq (by omega)
      rw [if_pos (hfirst.2 rfl), hremove]
      exact ⟨_, _, rfl, htakes⟩
    | succ j =>
      rw [if_neg fun heq => absurd (hfirst.1 heq) (Nat.succ_ne_zero j),
        before_succ (Nat.lt_of_succ_lt hmax), setStop_eq (by omega), Error.ok_bind]
      change offset cTsnAck (this.gaps j).stop + 2 ≤ _ at hbefore
      change offset cTsnAck lo = offset cTsnAck (this.gaps j).stop + 1 at hlo
      change offset cTsnAck (this.gaps j).stop < _ at hlt
      have heq : offset cTsnAck receivedTsn = offset cTsnAck (this.gaps j).stop + 1 := by omega
      obtain ⟨this', hremove, htakes⟩ := h.takes_between hi heq (by omega)
      rw [hremove]
      exact ⟨_, _, rfl, htakes⟩

theorem Valid.takes_covered (h : this.Valid cTsnAck)
    (hcovers : Covers (this.spans cTsnAck cTsnAck) (offset cTsnAck receivedTsn)) :
    this.Takes cTsnAck receivedTsn this cTsnAck := by
  refine .of_adds h.numGaps_le le_rfl ⟨h.separated, fun p => ?_⟩
  constructor
  · exact .inl
  · rintro (hp | rfl)
    · exact hp
    · exact hcovers

theorem Valid.takes_appended (h : this.Valid cTsnAck)
    (hlt : this.stopBefore cTsnAck this.numGaps + 2 ≤ offset cTsnAck receivedTsn) :
    (this.numGaps < MAX_GAP_COUNT → this.Takes cTsnAck receivedTsn ⟨this.numGaps + 1,
      Function.update this.gaps this.numGaps ⟨receivedTsn, receivedTsn⟩⟩ cTsnAck) ∧
    (this.numGaps = MAX_GAP_COUNT → this.Takes cTsnAck receivedTsn this cTsnAck) := by
  constructor
  · intro hroom
    have htakes : this.Takes cTsnAck receivedTsn ⟨min (this.numGaps + 1) MAX_GAP_COUNT,
        Function.update this.gaps this.numGaps ⟨receivedTsn, receivedTsn⟩⟩ cTsnAck := by
      refine h.takes_inserted le_rfl hlt (fun hlt => absurd hlt (lt_irrefl _)) fun k hk => ?_
      rcases Nat.lt_or_ge k this.numGaps with hlt' | hge
      · rw [Function.update_of_ne (by omega), if_pos hlt']
      · obtain rfl : k = this.numGaps := by omega
        rw [Function.update_self, if_neg (lt_irrefl _), if_pos rfl]
    rwa [min_eq_left hroom] at htakes
  · intro hfull
    have hmin : min (this.numGaps + 1) MAX_GAP_COUNT = this.numGaps := by omega
    have htakes : this.Takes cTsnAck receivedTsn
        ⟨min (this.numGaps + 1) MAX_GAP_COUNT, this.gaps⟩ cTsnAck :=
      h.takes_inserted le_rfl hlt (fun hlt => absurd hlt (lt_irrefl _)) fun k hk =>
        (if_pos (by omega)).symm
    rwa [hmin] at htakes

theorem Valid.exists_updateBehind (h : this.Valid cTsnAck) {lo : Tsn}
    (hpos : 0 < offset cTsnAck receivedTsn) (hwindow : offset cTsnAck receivedTsn < 2 ^ 31)
    (hlo : offset cTsnAck lo = this.stopBefore cTsnAck this.numGaps + 1)
    (hbehind : Covers (this.spans cTsnAck cTsnAck) (offset cTsnAck receivedTsn) ∨
      this.stopBefore cTsnAck this.numGaps < offset cTsnAck receivedTsn)
    (newChunkReceived : Bool) : ∃ this' cTsnAck' newChunkReceived',
      this.updateBehind receivedTsn cTsnAck newChunkReceived lo =
        .ok (this', cTsnAck', newChunkReceived') ∧
      this.Takes cTsnAck receivedTsn this' cTsnAck' ∧
      (this.numGaps < MAX_GAP_COUNT → (newChunkReceived' = true ↔ newChunkReceived = true ∨
        ¬ Covers (this.spans cTsnAck cTsnAck) (offset cTsnAck receivedTsn))) := by
  have hone := offset_one cTsnAck
  have hle := h.numGaps_le
  have hnew (hlt : this.stopBefore cTsnAck this.numGaps < offset cTsnAck receivedTsn) :
      true = true ↔ newChunkReceived = true ∨
        ¬ Covers (this.spans cTsnAck cTsnAck) (offset cTsnAck receivedTsn) :=
    iff_of_true rfl (.inr (h.not_covers le_rfl hlt fun hlt => absurd hlt (lt_irrefl _)))
  have hend : receivedTsn = lo ↔ offset cTsnAck receivedTsn = _ := eq_iff_offset cTsnAck
  have hcum : receivedTsn = cTsnAck + 1 ↔ offset cTsnAck receivedTsn = _ := eq_iff_offset cTsnAck
  rw [hlo] at hend
  rw [hone] at hcum
  rw [updateBehind]
  cases hn : this.numGaps with
  | zero =>
    rw [hn] at hbehind hle hend
    change receivedTsn = lo ↔ offset cTsnAck receivedTsn = 1 at hend
    by_cases heq : offset cTsnAck receivedTsn = 1
    · rw [if_pos (hend.2 heq), if_pos (hcum.2 heq)]
      refine ⟨_, _, _, rfl, h.takes_cumAck heq fun hlt => absurd hlt (by omega), fun _ => hnew ?_⟩
      rw [hn]
      change 0 < _
      omega
    · have hgap : this.stopBefore cTsnAck this.numGaps + 2 ≤ offset cTsnAck receivedTsn := by
        rw [hn]
        change 0 + 2 ≤ _
        omega
      have hroom := (h.takes_appended hgap).1 (by rw [hn]; decide)
      rw [hn] at hroom
      rw [if_neg (heq ∘ hend.1), if_pos rfl, pure_bind]
      dsimp only
      rw [if_pos (by decide), set_eq (by decide)]
      refine ⟨_, _, _, rfl, ?_, fun _ => hnew (by omega)⟩
      dsimp only
      rwa [hn]
  | succ j =>
    rw [hn] at hbehind hle hend
    change receivedTsn = lo ↔
      offset cTsnAck receivedTsn = offset cTsnAck (this.gaps j).stop + 1 at hend
    obtain ⟨hbefore, hle', hstop⟩ := h.block (show j < this.numGaps by omega)
    change _ ∨ offset cTsnAck (this.gaps j).stop < offset cTsnAck receivedTsn at hbehind
    have hnext : offset cTsnAck ((this.gaps j).stop + 1) = offset cTsnAck (this.gaps j).stop + 1 :=
      offset_add_one (by omega)
    by_cases heq : offset cTsnAck receivedTsn = offset cTsnAck (this.gaps j).stop + 1
    · have hreceived : (this.gaps j).stop + 1 = receivedTsn :=
        (eq_iff_offset cTsnAck).2 (hnext.trans heq.symm)
      have hne : receivedTsn ≠ cTsnAck + 1 := by
        rw [Ne, hcum]
        omega
      rw [if_pos (hend.2 heq), if_neg hne, before_succ (by omega), get_eq (by omega), Error.ok_bind,
        setStop_eq (by omega), hreceived]
      refine ⟨_, _, _, rfl, h.takes_stop (by omega) heq fun hlt => absurd hlt (by omega),
        fun _ => hnew ?_⟩
      rw [hn]
      change offset cTsnAck (this.gaps j).stop < _
      omega
    · rw [if_neg (heq ∘ hend.1), if_neg (Nat.succ_ne_zero j), Nat.add_sub_cancel, get_eq (by omega),
        Error.ok_bind, pure_bind]
      dsimp only
      by_cases hgreater : tsnGt receivedTsn ((this.gaps j).stop + 1) = true
      · rw [hgreater, Bool.true_and]
        rw [tsnGt_iff cTsnAck (by omega) (by omega), hnext] at hgreater
        have hgap : this.stopBefore cTsnAck this.numGaps + 2 ≤ offset cTsnAck receivedTsn := by
          rw [hn]
          exact hgreater
        obtain ⟨hroom, hfull⟩ := h.takes_appended hgap
        rw [hn] at hroom hfull
        by_cases hlt : j + 1 < MAX_GAP_COUNT
        · rw [decide_eq_true hlt, if_pos rfl, set_eq hlt]
          refine ⟨_, _, _, rfl, ?_, fun _ => hnew (by omega)⟩
          dsimp only
          rw [hn]
          exact hroom hlt
        · rw [decide_eq_false hlt, if_neg Bool.false_ne_true]
          exact ⟨_, _, _, rfl, hfull (by omega), fun hroom => absurd hroom hlt⟩
      · rw [Bool.eq_false_of_not_eq_true hgreater, Bool.false_and, if_neg Bool.false_ne_true]
        rw [tsnGt_iff cTsnAck (by omega) (by omega), hnext] at hgreater
        have hcovers := hbehind.resolve_right (by omega)
        exact ⟨_, _, _, rfl, h.takes_covered hcovers, fun _ =>
          (or_iff_left (not_not.2 hcovers)).symm⟩

theorem Valid.exists_updateGapList (h : this.Valid cTsnAck) (hzero : this.NoZeroStart)
    (hwindow : offset cTsnAck receivedTsn < 2 ^ 31) (newChunkReceived : Bool) :
    ∃ this' cTsnAck' newChunkReceived',
      this.updateGapList receivedTsn cTsnAck newChunkReceived = .ok (this', cTsnAck',
        newChunkReceived', decide (0 < offset cTsnAck receivedTsn)) ∧
      this.Takes cTsnAck receivedTsn this' cTsnAck' ∧
      (this.numGaps < MAX_GAP_COUNT → (newChunkReceived' = true ↔ newChunkReceived = true ∨
        ¬ Covers (this.spans cTsnAck cTsnAck) (offset cTsnAck receivedTsn))) := by
  have hself := offset_self cTsnAck
  have hone := offset_one cTsnAck
  rw [updateGapList]
  by_cases hle : tsnLe receivedTsn cTsnAck = true
  · rw [if_pos hle]
    rw [tsnLe_iff cTsnAck (by omega) (by omega), hself] at hle
    have hcovers : Covers (this.spans cTsnAck cTsnAck) (offset cTsnAck receivedTsn) := by
      refine ⟨(0, 0), ?_, Nat.zero_le _, hle⟩
      rw [spans, hself]
      exact List.mem_cons_self
    rw [decide_eq_false (not_lt.2 hle)]
    exact ⟨_, _, _, rfl, h.takes_covered hcovers, fun _ =>
      (or_iff_left (not_not.2 hcovers)).symm⟩
  rw [if_neg hle]
  rw [tsnLe_iff cTsnAck (by omega) (by omega), hself] at hle
  have hpos := Nat.lt_of_not_ge hle
  rw [decide_eq_true hpos]
  rcases h.findGap_cases hzero (Nat.zero_add this.numGaps) hone (.inr hpos) with
    ⟨i, lo, hfind, hi, hlo, hlt, hgt⟩ | ⟨lo, hfind, hlo, hbehind⟩
  · obtain ⟨this', cTsnAck', hupdate, htakes⟩ := h.exists_updateBefore hi hlo hlt hgt
    rw [hfind]
    exact ⟨_, _, _, Error.bind_of_eq_ok rfl (Error.bind_of_eq_ok hupdate rfl), htakes,
      fun _ => iff_of_true rfl (.inr (h.not_covers hi.le hlt fun _ => hgt))⟩
  · obtain ⟨this', cTsnAck', new, hupdate, htakes⟩ :=
      h.exists_updateBehind hpos hwindow hlo hbehind newChunkReceived
    rw [hfind]
    exact ⟨_, _, _, Error.bind_of_eq_ok rfl (Error.bind_of_eq_ok hupdate rfl), htakes⟩

end SctpSimpleGapList

end Inet.Sctp
