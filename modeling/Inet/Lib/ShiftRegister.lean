import Mathlib.Logic.Function.Iterate
import Mathlib.Data.BitVec

/-! # Shift registers with feedback

A register shifts by a bit and adds the feedback polynomial when a one falls
out. Shifting is linear, so that what `n` shifts make of a register is what they
make of the `n` bits that fall out, added to the other bits moved by `n`. This
is why a step over `n` bits can be read from a table.
-/

namespace Inet.ShiftRegister

variable {w : ℕ} {poly x y : BitVec w} {n : ℕ}

/-- The lowest bit falls out. -/
def shiftRight (poly x : BitVec w) : BitVec w :=
  if x.getLsbD 0 then (x >>> 1) ^^^ poly else x >>> 1

/-- The highest bit falls out. -/
def shiftLeft (poly x : BitVec w) : BitVec w :=
  if x.msb then (x <<< 1) ^^^ poly else x <<< 1

theorem xor_xor_xor_self (a b p : BitVec w) : (a ^^^ p) ^^^ (b ^^^ p) = a ^^^ b := by
  rw [BitVec.xor_assoc a p, BitVec.xor_comm b p, ← BitVec.xor_assoc p p b, BitVec.xor_self,
    BitVec.zero_xor]

theorem xor_right_comm (a b p : BitVec w) : (a ^^^ p) ^^^ b = (a ^^^ b) ^^^ p := by
  rw [BitVec.xor_assoc, BitVec.xor_comm p b, ← BitVec.xor_assoc]

theorem shiftRight_xor (poly x y : BitVec w) :
    shiftRight poly (x ^^^ y) = shiftRight poly x ^^^ shiftRight poly y := by
  unfold shiftRight
  rw [BitVec.getLsbD_xor, BitVec.ushiftRight_xor_distrib]
  cases x.getLsbD 0 <;> cases y.getLsbD 0
  · rfl
  · exact BitVec.xor_assoc ..
  · exact (xor_right_comm ..).symm
  · exact (xor_xor_xor_self ..).symm

theorem shiftLeft_xor (poly x y : BitVec w) :
    shiftLeft poly (x ^^^ y) = shiftLeft poly x ^^^ shiftLeft poly y := by
  unfold shiftLeft
  rw [BitVec.msb_xor, BitVec.shiftLeft_xor_distrib]
  cases x.msb <;> cases y.msb
  · rfl
  · exact BitVec.xor_assoc ..
  · exact (xor_right_comm ..).symm
  · exact (xor_xor_xor_self ..).symm

theorem iterate_xor {f : BitVec w → BitVec w} (hf : ∀ x y, f (x ^^^ y) = f x ^^^ f y) (n : ℕ)
    (x y : BitVec w) : f^[n] (x ^^^ y) = f^[n] x ^^^ f^[n] y := by
  induction n generalizing x y with
  | zero => rfl
  | succ n ih => rw [Function.iterate_succ_apply, hf, ih]; rfl

/-- Without a one among the bits that fall out there is no feedback. -/
theorem iterate_shiftRight_of_clear (h : ∀ i < n, x.getLsbD i = false) :
    (shiftRight poly)^[n] x = x >>> n := by
  induction n with
  | zero => rfl
  | succ n ih =>
    have hbit : (x >>> n).getLsbD 0 = false := by
      rw [BitVec.getLsbD_ushiftRight]
      exact h n (Nat.lt_succ_self n)
    rw [Function.iterate_succ_apply', ih fun i hi => h i (Nat.lt_succ_of_lt hi), shiftRight, hbit,
      BitVec.shiftRight_add]
    rfl

theorem iterate_shiftLeft_of_clear (h : ∀ i < n, x.getMsbD i = false) :
    (shiftLeft poly)^[n] x = x <<< n := by
  induction n with
  | zero => simp
  | succ n ih =>
    have hbit : (x <<< n).msb = false := by
      rw [BitVec.msb, BitVec.getMsbD_shiftLeft]
      simpa using h n (Nat.lt_succ_self n)
    rw [Function.iterate_succ_apply', ih fun i hi => h i (Nat.lt_succ_of_lt hi), shiftLeft, hbit,
      BitVec.shiftLeft_add]
    rfl

/-- The lowest `n` bits. -/
def low (n : ℕ) (x : BitVec w) : BitVec w := (x.setWidth n).setWidth w

/-- The highest `n` bits. -/
def high (n : ℕ) (x : BitVec w) : BitVec w := (x >>> (w - n)) <<< (w - n)

theorem iterate_shiftRight (poly : BitVec w) (n : ℕ) (x : BitVec w) :
    (shiftRight poly)^[n] x = (shiftRight poly)^[n] (low n x) ^^^ x >>> n := by
  have hsplit : x = low n x ^^^ (low n x ^^^ x) := by
    rw [← BitVec.xor_assoc, BitVec.xor_self, BitVec.zero_xor]
  have hclear : ∀ i < n, (low n x ^^^ x).getLsbD i = false := by
    intro i hi
    simp only [low, BitVec.getLsbD_xor, BitVec.getLsbD_setWidth, hi, decide_true, Bool.true_and]
    by_cases hw : i < w
    · simp [hw]
    · simp [hw, BitVec.getLsbD_of_ge x i (by omega)]
  have hshift : (low n x ^^^ x) >>> n = x >>> n := by
    apply BitVec.eq_of_getLsbD_eq
    intro i _
    simp [low, BitVec.getLsbD_xor]
  conv => lhs; rw [hsplit]
  rw [iterate_xor (shiftRight_xor poly), iterate_shiftRight_of_clear hclear, hshift]

theorem getLsbD_high (n : ℕ) (x : BitVec w) (i : ℕ) :
    (high n x).getLsbD i = (decide (w - n ≤ i) && x.getLsbD i) := by
  simp only [high, BitVec.getLsbD_shiftLeft, BitVec.getLsbD_ushiftRight]
  by_cases hi : i < w
  · by_cases hn : i < w - n
    · simp [hn, show ¬ w - n ≤ i by omega]
    · simp [hi, hn, show w - n + (i - (w - n)) = i by omega, show w - n ≤ i by omega]
  · simp [hi, BitVec.getLsbD_of_ge x i (by omega)]

theorem iterate_shiftLeft (poly : BitVec w) (n : ℕ) (x : BitVec w) :
    (shiftLeft poly)^[n] x = (shiftLeft poly)^[n] (high n x) ^^^ x <<< n := by
  have hsplit : x = high n x ^^^ (high n x ^^^ x) := by
    rw [← BitVec.xor_assoc, BitVec.xor_self, BitVec.zero_xor]
  have hclear : ∀ i < n, (high n x ^^^ x).getMsbD i = false := by
    intro i hi
    rw [BitVec.getMsbD_eq_getLsbD, BitVec.getLsbD_xor, getLsbD_high]
    simp [show w - n ≤ w - 1 - i by omega]
  have hshift : (high n x ^^^ x) <<< n = x <<< n := by
    apply BitVec.eq_of_getLsbD_eq
    intro i hi
    rw [BitVec.getLsbD_shiftLeft, BitVec.getLsbD_shiftLeft, BitVec.getLsbD_xor, getLsbD_high]
    by_cases hn : i < n
    · simp [hn]
    · simp [show ¬ w - n ≤ i - n by omega]
  conv => lhs; rw [hsplit]
  rw [iterate_xor (shiftLeft_xor poly), iterate_shiftLeft_of_clear hclear, hshift]

end Inet.ShiftRegister
