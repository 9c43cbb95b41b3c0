import Mathlib.Algebra.Ring.Nat
import Mathlib.Data.Int.Basic

/-! # Sequence numbers

TCP compares 32-bit sequence numbers by their distance. Inside a window of
less than `2 ^ 31` bytes that is the order of the offsets in the window,
wherever the window crosses the end of the number range.
-/

namespace Inet.Tcp

abbrev Seq := BitVec 32

def seqLess (a b : Seq) : Bool := a ≠ b ∧ (b - a).toNat < 2 ^ 31

def seqLE (a b : Seq) : Bool := (b - a).toNat < 2 ^ 31

def seqGreater (a b : Seq) : Bool := a ≠ b ∧ (a - b).toNat < 2 ^ 31

def seqGE (a b : Seq) : Bool := (a - b).toNat < 2 ^ 31

def seqMin (a b : Seq) : Seq := if (b - a).toNat < 2 ^ 31 then a else b

def seqMax (a b : Seq) : Seq := if (a - b).toNat < 2 ^ 31 then a else b

/-- The sequence number some bytes behind another. -/
def Seq.add (b : Seq) (n : ℕ) : Seq := b + BitVec.ofNat 32 n

variable {a b x : Seq} {m n : ℕ}

theorem Seq.toNat_add : (b.add n).toNat = (b.toNat + n) % 2 ^ 32 := by
  simp [Seq.add, BitVec.toNat_add]

@[simp] theorem Seq.add_zero : b.add 0 = b := by simp [Seq.add]

theorem Seq.add_add : (b.add m).add n = b.add (m + n) := by
  apply BitVec.eq_of_toNat_eq
  rw [toNat_add, toNat_add, toNat_add]
  omega

theorem Seq.add_sub_toNat (b x : Seq) : b.add (x - b).toNat = x := by
  apply BitVec.eq_of_toNat_eq
  rw [toNat_add, BitVec.toNat_sub]
  have := x.isLt
  have := b.isLt
  omega

theorem Seq.sub_add_toNat (h : n < 2 ^ 32) : (b.add n - b).toNat = n := by
  rw [BitVec.toNat_sub, toNat_add]
  have := b.isLt
  omega

section Window

variable (b) (hm : m < 2 ^ 31) (hn : n < 2 ^ 31)

include hm hn

theorem Seq.toNat_add_sub_add :
    (b.add n - b.add m).toNat = if m ≤ n then n - m else 2 ^ 32 - (m - n) := by
  rw [BitVec.toNat_sub, toNat_add, toNat_add]
  have := b.isLt
  split_ifs <;> omega

theorem Seq.add_inj : b.add m = b.add n ↔ m = n := by
  refine ⟨fun h => ?_, fun h => h ▸ rfl⟩
  have := congrArg BitVec.toNat h
  rw [toNat_add, toNat_add] at this
  have := b.isLt
  omega

theorem seqLE_add : seqLE (b.add m) (b.add n) = decide (m ≤ n) := by
  rw [seqLE, Seq.toNat_add_sub_add b hm hn, decide_eq_decide]
  split_ifs <;> omega

theorem seqGE_add : seqGE (b.add m) (b.add n) = decide (n ≤ m) := seqLE_add b hn hm

theorem seqLess_add : seqLess (b.add m) (b.add n) = decide (m < n) := by
  rw [seqLess, Seq.toNat_add_sub_add b hm hn, decide_eq_decide, Ne, Seq.add_inj b hm hn]
  split_ifs <;> omega

theorem seqGreater_add : seqGreater (b.add m) (b.add n) = decide (n < m) := by
  rw [seqGreater, Seq.toNat_add_sub_add b hn hm, decide_eq_decide, Ne, Seq.add_inj b hm hn]
  split_ifs <;> omega

end Window

section Near

/-! Offsets that are less than half the range apart are compared as they are. -/

variable (b) (hmn : m < n + 2 ^ 31) (hnm : n < m + 2 ^ 31)

theorem Seq.toNat_sub_of_le (h : m ≤ n) (hlt : n < m + 2 ^ 32) :
    (b.add n - b.add m).toNat = n - m := by
  rw [BitVec.toNat_sub, toNat_add, toNat_add]
  have := b.isLt
  omega

include hmn hnm

theorem Seq.toNat_sub_lt_iff : (b.add n - b.add m).toNat < 2 ^ 31 ↔ m ≤ n := by
  rw [BitVec.toNat_sub, toNat_add, toNat_add]
  have := b.isLt
  omega

theorem Seq.add_eq_iff : b.add m = b.add n ↔ m = n := by
  refine ⟨fun h => ?_, fun h => h ▸ rfl⟩
  have := congrArg BitVec.toNat h
  rw [toNat_add, toNat_add] at this
  have := b.isLt
  omega

theorem seqLE_near : seqLE (b.add m) (b.add n) = decide (m ≤ n) := by
  rw [seqLE, decide_eq_decide]
  exact Seq.toNat_sub_lt_iff b hmn hnm

theorem seqGE_near : seqGE (b.add m) (b.add n) = decide (n ≤ m) := seqLE_near b hnm hmn

theorem seqLess_near : seqLess (b.add m) (b.add n) = decide (m < n) := by
  rw [seqLess, decide_eq_decide, Ne, Seq.add_eq_iff b hmn hnm, Seq.toNat_sub_lt_iff b hmn hnm]
  omega

theorem seqMin_near : seqMin (b.add m) (b.add n) = b.add (min m n) := by
  rw [seqMin]
  simp only [Seq.toNat_sub_lt_iff b hmn hnm]
  split_ifs with h
  · rw [Nat.min_eq_left h]
  · rw [Nat.min_eq_right (by omega)]

theorem seqMax_near : seqMax (b.add m) (b.add n) = b.add (max m n) := by
  rw [seqMax]
  simp only [Seq.toNat_sub_lt_iff b hnm hmn]
  split_ifs with h
  · rw [Nat.max_eq_left h]
  · rw [Nat.max_eq_right (by omega)]

end Near

end Inet.Tcp
