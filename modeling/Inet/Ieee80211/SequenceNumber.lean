import Inet.Common.Error
import Mathlib.Data.Nat.ModEq

/-! # Cyclic sequence numbers

The 12-bit sequence numbers of 802.11. They are compared by the distance from
one to the other, which is less than half of the number range if the other is
ahead. An offset that takes a number to `-1` fails the assertion meant for
unspecified numbers.
-/

namespace Inet.Ieee80211

/-- A specified number. -/
structure SequenceNumberCyclic where
  value : ℕ
  value_lt : value < 4096
  deriving DecidableEq, Repr

namespace SequenceNumberCyclic

theorem ext_value {a b : SequenceNumberCyclic} (h : a.value = b.value) : a = b := by
  cases a
  cases b
  simp_all

/-- The number with the value that is the given one modulo 4096. -/
def ofNat (n : ℕ) : SequenceNumberCyclic := ⟨n % 4096, Nat.mod_lt _ (by decide)⟩

/-- `modulo4096`, with the remainder of the language, which has the sign of the dividend. -/
def modulo4096 (value : ℤ) : Except Error SequenceNumberCyclic :=
  if value ≠ -1 then .ok (ofNat ((value.tmod 4096 + 4096).tmod 4096).toNat)
  else .error (.assertion "value != -1")

/-- `operator+`. -/
def add (a : SequenceNumberCyclic) (other : ℤ) : Except Error SequenceNumberCyclic :=
  modulo4096 (a.value + other)

/-- `operator-`. -/
def sub (a : SequenceNumberCyclic) (other : ℤ) : Except Error SequenceNumberCyclic :=
  modulo4096 (a.value - other)

/-- The distance from one number forward to another. -/
def distance (a b : SequenceNumberCyclic) : ℕ := (b.value + 4096 - a.value) % 4096

/-- `operator<`. -/
instance : LT SequenceNumberCyclic where
  lt a b := 0 < a.distance b ∧ a.distance b < 2048

/-- `operator<=`. -/
instance : LE SequenceNumberCyclic where
  le a b := a = b ∨ a < b

theorem lt_def {a b : SequenceNumberCyclic} : a < b ↔ 0 < a.distance b ∧ a.distance b < 2048 :=
    Iff.rfl

theorem le_def {a b : SequenceNumberCyclic} : a ≤ b ↔ a = b ∨ a < b := Iff.rfl

instance (a b : SequenceNumberCyclic) : Decidable (a < b) :=
  decidable_of_iff _ lt_def.symm

instance (a b : SequenceNumberCyclic) : Decidable (a ≤ b) :=
  decidable_of_iff _ le_def.symm

/-- The number some places ahead of another. -/
def ahead (a : SequenceNumberCyclic) (n : ℕ) : SequenceNumberCyclic := ofNat (a.value + n)

variable {a b c : SequenceNumberCyclic} {m n : ℕ}

theorem distance_lt : a.distance b < 4096 := Nat.mod_lt _ (by decide)

@[simp] theorem distance_self : a.distance a = 0 := by
  unfold distance
  omega

theorem distance_eq_zero : a.distance b = 0 ↔ a = b := by
  have ha := a.value_lt
  have hb := b.value_lt
  constructor
  · intro h
    apply ext_value
    unfold distance at h
    omega
  · rintro rfl
    exact distance_self

theorem le_iff : a ≤ b ↔ a.distance b < 2048 := by
  rw [le_def, lt_def, ← distance_eq_zero]
  omega

@[simp] theorem ahead_zero : a.ahead 0 = a := by
  have ha := a.value_lt
  apply ext_value
  simp only [ahead, ofNat]
  omega

theorem distance_ahead (hn : n < 4096) : a.distance (a.ahead n) = n := by
  have ha := a.value_lt
  simp only [distance, ahead, ofNat]
  omega

theorem ahead_distance : a.ahead (a.distance b) = b := by
  have ha := a.value_lt
  have hb := b.value_lt
  apply ext_value
  simp only [distance, ahead, ofNat]
  omega

theorem ahead_ahead : (a.ahead m).ahead n = a.ahead (m + n) := by
  apply ext_value
  simp only [ahead, ofNat]
  omega

theorem distance_of_ahead (hn : n ≤ 4096) :
    (a.ahead n).distance b = if n ≤ a.distance b then a.distance b - n else a.distance b +
      4096 - n := by
  have ha := a.value_lt
  have hb := b.value_lt
  by_cases h : n ≤ a.distance b
  · rw [if_pos h]
    simp only [distance, ahead, ofNat] at h ⊢
    omega
  · rw [if_neg h]
    simp only [distance, ahead, ofNat] at h ⊢
    omega

theorem distance_eq (b : SequenceNumberCyclic) (c : SequenceNumberCyclic) :
    b.distance c = if a.distance b ≤ a.distance c then a.distance c - a.distance b
      else a.distance c + 4096 - a.distance b := by
  have h := @distance_of_ahead a c (a.distance b) distance_lt.le
  rwa [ahead_distance] at h

theorem tmod_add_tmod (v : ℤ) : (v.tmod 4096 + 4096).tmod 4096 = v % 4096 := by
  have hlo := Int.lt_tmod_of_pos v (show (0 : ℤ) < 4096 by decide)
  have hrem := Int.tmod_add_mul_tdiv v 4096
  rw [Int.tmod_eq_emod_of_nonneg (by omega)]
  omega

theorem modulo4096_eq {v : ℤ} {n : ℕ} (h : v ≠ -1) (hn : v % 4096 = (n % 4096 : ℕ)) :
    modulo4096 v = .ok (ofNat n) := by
  rw [modulo4096, if_pos h, tmod_add_tmod]
  refine congrArg Except.ok (ext_value ?_)
  simp only [ofNat]
  omega

@[simp] theorem add_eq (a : SequenceNumberCyclic) (n : ℕ) : a.add n = .ok (a.ahead n) :=
  modulo4096_eq (by omega) (by omega)

theorem sub_eq (a : SequenceNumberCyclic) {n : ℕ} (hn : n ≤ 4096) :
    a.sub n = if a.value + 1 = n then .error (.assertion "value != -1")
      else .ok (a.ahead (4096 - n)) := by
  split
  next h =>
    rw [sub, modulo4096, if_neg (by omega)]
  next h => exact modulo4096_eq (by omega) (by omega)

end SequenceNumberCyclic

end Inet.Ieee80211
