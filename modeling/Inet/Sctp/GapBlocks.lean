import Inet.Lib.Separated
import Inet.Sctp.GapList

/-! # The blocks of a gap list

TSNs are compared as their offsets from the cumulative ack. The cumulative ack
and the blocks behind it are separated intervals of offsets.
-/

namespace Inet.Sctp

open Intervals

/-! ## Offsets -/

/-- How far a TSN is behind another one. -/
def offset (base tsn : Tsn) : ℕ := (tsn - base).toNat

section Offset

variable {base a b tsn : Tsn}

theorem offset_self (base : Tsn) : offset base base = 0 := by
  rw [offset, BitVec.sub_self]
  rfl

theorem offset_inj : offset base a = offset base b ↔ a = b := by
  unfold offset
  constructor
  · intro h
    bv_omega
  · rintro rfl
    rfl

theorem offset_add_one (h : offset base tsn + 1 < 2 ^ 32) :
    offset base (tsn + 1) = offset base tsn + 1 := by
  unfold offset at *
  bv_omega

theorem offset_sub_one (h : 0 < offset base tsn) :
    offset base (tsn - 1) = offset base tsn - 1 := by
  unfold offset at *
  bv_omega

theorem offset_rebase (h : offset base a ≤ offset base tsn) :
    offset a tsn = offset base tsn - offset base a := by
  unfold offset at *
  bv_omega

variable (base)

theorem tsnGt_iff (h₁ : offset base a < offset base b + 2 ^ 31)
    (h₂ : offset base b ≤ offset base a + 2 ^ 31) :
    tsnGt a b = true ↔ offset base b < offset base a := by
  unfold offset at *
  simp only [tsnGt, Bool.or_eq_true, Bool.and_eq_true, decide_eq_true_eq]
  bv_omega

theorem tsnGe_iff (h₁ : offset base a < offset base b + 2 ^ 31)
    (h₂ : offset base b ≤ offset base a + 2 ^ 31) :
    tsnGe a b = true ↔ offset base b ≤ offset base a := by
  rw [tsnGe, Bool.or_eq_true, tsnGt_iff base h₁ h₂, beq_iff_eq, ← @offset_inj base]
  omega

theorem tsnLe_iff (h₁ : offset base b < offset base a + 2 ^ 31)
    (h₂ : offset base a ≤ offset base b + 2 ^ 31) :
    tsnLe a b = true ↔ offset base a ≤ offset base b := tsnGe_iff base h₁ h₂

theorem tsnBetween_iff (hle : offset base a ≤ offset base b)
    (hlt : offset base b < offset base a + 2 ^ 31) :
    tsnBetween a tsn b = true ↔ offset base a ≤ offset base tsn ∧ offset base tsn ≤
      offset base b := by
  unfold offset at *
  simp only [tsnBetween, tsnGe, tsnGt, Bool.or_eq_true, Bool.and_eq_true, decide_eq_true_eq,
    beq_iff_eq]
  bv_omega

end Offset

/-! ## Entries of an array -/

section Entries

variable {α : Type*} (f g : ℕ → α) (i m k : ℕ)

/-- As many entries from an index on. -/
def entries : List α := (List.range' i m).map f

theorem entries_add : entries f i (m + k) = entries f i m ++ entries f (i + m) k := by
  rw [entries, entries, entries, ← List.map_append, List.range'_append_1]

theorem entries_succ : entries f i (m + 1) = f i :: entries f (i + 1) m := rfl

variable {f g i m k}

theorem entries_take : (entries f i m).take k = entries f i (min k m) := by
  induction m generalizing i k with
  | zero =>
    rw [Nat.min_zero]
    exact List.take_nil
  | succ m ih =>
    cases k with
    | zero =>
      rw [Nat.zero_min]
      rfl
    | succ k =>
      rw [entries_succ, List.take_succ_cons, ih, Nat.succ_min_succ]
      rfl

theorem entries_shift {d : ℕ} (h : ∀ j, i ≤ j → j < i + m → f j = g (j + d)) :
    entries f i m = entries g (i + d) m := by
  induction m generalizing i with
  | zero => rfl
  | succ m ih =>
    rw [entries_succ, entries_succ, h i le_rfl (by omega),
      ih fun j hj hlt => h j (by omega) (by omega), Nat.add_right_comm]

theorem entries_congr (h : ∀ j, i ≤ j → j < i + m → f j = g j) : entries f i m = entries g i m :=
  entries_shift (d := 0) h

theorem entries_split (h : i < m) :
    entries f 0 m = entries f 0 i ++ f i :: entries f (i + 1) (m - (i + 1)) := by
  rw [← entries_succ, show m - (i + 1) + 1 = m - i by omega]
  conv_lhs => rw [show m = i + (m - i) by omega, entries_add, Nat.zero_add]

theorem mem_entries {x : α} : x ∈ entries f i m ↔ ∃ j, (i ≤ j ∧ j < i + m) ∧ f j = x := by
  rw [entries, List.mem_map]
  simp only [List.mem_range'_1]

end Entries

/-! ## The loops over the arrays -/

namespace SctpSimpleGapList

variable {this : SctpSimpleGapList} {i j n : ℕ} {block : Block}

theorem ok_congr {gaps gaps' : ℕ → Block} (h : ∀ k, gaps k = gaps' k) :
    (Except.ok ⟨n, gaps⟩ : Except Error SctpSimpleGapList) = .ok ⟨n, gaps'⟩ := by
  rw [funext h]

theorem get_eq (h : i < MAX_GAP_COUNT) : this.get i = .ok (this.gaps i) := if_pos h

theorem set_eq (h : i < MAX_GAP_COUNT) :
    this.set i block = .ok ⟨this.numGaps, Function.update this.gaps i block⟩ := if_pos h

theorem setStart_eq (h : i < MAX_GAP_COUNT) (start : Tsn) : this.setStart i start =
    .ok ⟨this.numGaps, Function.update this.gaps i { this.gaps i with start }⟩ := by
  rw [setStart, get_eq h]
  exact set_eq h

theorem setStop_eq (h : i < MAX_GAP_COUNT) (stop : Tsn) : this.setStop i stop =
    .ok ⟨this.numGaps, Function.update this.gaps i { this.gaps i with stop }⟩ := by
  rw [setStop, get_eq h]
  exact set_eq h

theorem moveDown_eq {distance count : ℕ} (h : i + count + distance ≤ MAX_GAP_COUNT) :
    this.moveDown distance count i = .ok ⟨this.numGaps, fun k =>
      if i ≤ k ∧ k < i + count then this.gaps (k + distance) else this.gaps k⟩ := by
  induction count generalizing this i with
  | zero =>
    rw [moveDown]
    refine ok_congr fun k => ?_
    rw [if_neg (by omega)]
  | succ count ih =>
    rw [moveDown, get_eq (by omega), Error.ok_bind, set_eq (by omega), Error.ok_bind,
      ih (by omega)]
    refine ok_congr fun k => ?_
    dsimp only
    by_cases hk : k = i
    · subst hk
      rw [if_neg (by omega), if_pos (by omega), Function.update_self]
    · rw [Function.update_of_ne hk]
      by_cases hmem : i + 1 ≤ k ∧ k < i + 1 + count
      · rw [if_pos hmem, if_pos (by omega), Function.update_of_ne (by omega)]
      · rw [if_neg hmem, if_neg (by omega)]

theorem moveUp_eq (h : j < MAX_GAP_COUNT) : this.moveUp i j = .ok ⟨this.numGaps, fun k =>
    if i < k ∧ k ≤ j then this.gaps (k - 1) else this.gaps k⟩ := by
  induction j generalizing this with
  | zero =>
    rw [moveUp]
    refine ok_congr fun k => ?_
    rw [if_neg (by omega)]
  | succ j ih =>
    rw [moveUp]
    by_cases hlt : j + 1 > i
    · rw [if_pos hlt, get_eq (by omega), Error.ok_bind, set_eq h, Error.ok_bind, ih (by omega)]
      refine ok_congr fun k => ?_
      dsimp only
      by_cases hk : k = j + 1
      · subst hk
        rw [if_neg (by omega), if_pos (by omega), Function.update_self, Nat.add_sub_cancel]
      · by_cases hmem : i < k ∧ k ≤ j
        · rw [if_pos hmem, if_pos (by omega), Function.update_of_ne (by omega)]
        · rw [if_neg hmem, if_neg (by omega), Function.update_of_ne hk]
    · rw [if_neg hlt]
      refine ok_congr fun k => ?_
      rw [if_neg (by omega)]

/-! ## The blocks after a change of the arrays -/

theorem blocks_eq : this.blocks = entries this.gaps 0 this.numGaps := by
  rw [blocks, entries, List.range_eq_range']

theorem blocks_split (h : i < this.numGaps) : this.blocks = entries this.gaps 0 i ++
    this.gaps i :: entries this.gaps (i + 1) (this.numGaps - (i + 1)) := by
  rw [blocks_eq, entries_split h]

theorem blocks_update (h : i < n) : blocks ⟨n, Function.update this.gaps i block⟩ =
    entries this.gaps 0 i ++ block :: entries this.gaps (i + 1) (n - (i + 1)) := by
  rw [blocks_split h]
  dsimp only
  rw [Function.update_self]
  congr 1
  · exact entries_congr fun k _ hk => Function.update_of_ne (by omega) _ _
  · congr 1
    exact entries_congr fun k hk _ => Function.update_of_ne (by omega) _ _

theorem blocks_removed (h : i < n) {gaps : ℕ → Block} (hbefore : ∀ k < i, gaps k = this.gaps k)
    (hbehind : ∀ k, i ≤ k → k < n - 1 → gaps k = this.gaps (k + 1)) :
    blocks ⟨n - 1, gaps⟩ = entries this.gaps 0 i ++ entries this.gaps (i + 1) (n - (i + 1)) := by
  rw [blocks_eq]
  dsimp only
  rw [show n - 1 = i + (n - (i + 1)) by omega, entries_add, Nat.zero_add]
  congr 1
  · exact entries_congr fun k _ hk => hbefore k (by omega)
  · exact entries_shift fun k hk hlt => hbehind k hk (by omega)

theorem blocks_inserted {m : ℕ} {gaps full : ℕ → Block} (hm : m ≤ n)
    (hgaps : ∀ k < m, gaps k = full k) : blocks ⟨m, gaps⟩ = (entries full 0 n).take m := by
  rw [blocks_eq, entries_take, min_eq_left hm]
  refine entries_congr fun k _ hk => hgaps k ?_
  dsimp only at hk
  omega

end SctpSimpleGapList

end Inet.Sctp
