import Mathlib.Algebra.BigOperators.Group.List.Basic
import Mathlib.Algebra.Order.BigOperators.Group.List
import Mathlib.Algebra.Order.Floor.Ring
import Mathlib.Data.Bool.Basic
import Mathlib.Algebra.Ring.Parity
import Mathlib.Tactic.FieldSimp
import Mathlib.Tactic.Linarith
import Mathlib.Tactic.Ring

/-! # Alternation

A list of durations stands for a value that is inverted after each of them.
Repeated for ever, a list of even length gives a periodic value; its last
duration can be moved to the front when it has the same value as the first.
-/

namespace Inet

/-- The value after some time. -/
def alternation {K : Type*} [Sub K] [LT K] [DecidableLT K] (value : Bool) : List K → K → Bool
  | [], _ => value
  | d :: ds, time => if time < d then value else alternation (!value) ds (time - d)

section Alternation

variable {K : Type*} [CommRing K] [LinearOrder K]
variable {value : Bool} {time d : K} {ds ds' : List K}

theorem alternation_of_lt (h : time < d) : alternation value (d :: ds) time = value :=
  if_pos h

theorem alternation_of_ge (h : d ≤ time) :
    alternation value (d :: ds) time = alternation (!value) ds (time - d) :=
  if_neg (not_lt.2 h)

variable [IsStrictOrderedRing K]

theorem alternation_append_of_lt (h0 : 0 ≤ time) (h : time < ds.sum) :
    alternation value (ds ++ ds') time = alternation value ds time := by
  induction ds generalizing value time with
  | nil => exact absurd h0 (not_le.2 h)
  | cons d ds ih =>
    rw [List.cons_append]
    rcases lt_or_ge time d with hd | hd
    · rw [alternation_of_lt hd, alternation_of_lt hd]
    · rw [List.sum_cons] at h
      rw [alternation_of_ge hd, alternation_of_ge hd, ih (by linarith) (by linarith)]

theorem alternation_append_of_ge (hds : ∀ d ∈ ds, 0 ≤ d) (h : ds.sum ≤ time) :
    alternation value (ds ++ ds') time = alternation (not^[ds.length] value) ds'
      (time - ds.sum) := by
  induction ds generalizing value time with
  | nil => simp
  | cons d ds ih =>
    obtain ⟨hd, hds⟩ := List.forall_mem_cons.1 hds
    have hsum := List.sum_nonneg hds
    rw [List.sum_cons] at h
    rw [List.cons_append, alternation_of_ge (by linarith), ih hds (by linarith), List.sum_cons,
      List.length_cons, Function.iterate_succ_apply, sub_sub]

/-- The value is inverted once for each duration that is over. -/
theorem alternation_append_cons {pre post : List K} (hds : ∀ d ∈ pre, 0 ≤ d)
    (h : pre.sum ≤ time) (hd : time < pre.sum + d) :
    alternation value (pre ++ d :: post) time = not^[pre.length] value := by
  rw [alternation_append_of_ge hds h, alternation_of_lt (by linarith)]

theorem iterate_not_of_even {n : ℕ} (h : Even n) : not^[n] value = value := by
  rw [Bool.involutive_not.iterate_even h, id]

end Alternation

section Phase

variable {K : Type*} [Field K] [LinearOrder K] [IsStrictOrderedRing K] [FloorRing K]
variable {value : Bool} {c time : K}

/-- The time since the start of the current period. -/
def phase (c time : K) : K := time - c * ⌊time / c⌋

theorem phase_eq (hc : 0 < c) {k : ℤ} (h : k * c ≤ time) (h' : time < k * c + c) :
    phase c time = time - k * c := by
  have hfloor : ⌊time / c⌋ = k := by
    rw [Int.floor_eq_iff, le_div_iff₀ hc, div_lt_iff₀ hc]
    exact ⟨h, by linarith⟩
  rw [phase, hfloor, mul_comm]

/-- Every time is in a period. -/
theorem exists_period (hc : 0 < c) (time : K) :
    ∃ k : ℤ, k * c ≤ time ∧ time < k * c + c ∧ phase c time = time - k * c := by
  have h := Int.floor_le (time / c)
  have h' := Int.lt_floor_add_one (time / c)
  rw [le_div_iff₀ hc] at h
  rw [div_lt_iff₀ hc] at h'
  refine ⟨⌊time / c⌋, h, by linarith, ?_⟩
  rw [phase, mul_comm]

theorem phase_nonneg (hc : 0 < c) (time : K) : 0 ≤ phase c time := by
  obtain ⟨k, h, -, hk⟩ := exists_period hc time
  linarith

theorem phase_lt (hc : 0 < c) (time : K) : phase c time < c := by
  obtain ⟨k, -, h, hk⟩ := exists_period hc time
  linarith

theorem phase_add_mul (hc : 0 < c) (time : K) (m : ℤ) : phase c (time + m * c) = phase c time := by
  obtain ⟨k, h, h', hk⟩ := exists_period hc time
  have hcast : ((k + m : ℤ) : K) * c = k * c + m * c := by
    push_cast
    ring
  rw [phase_eq hc (show ((k + m : ℤ) : K) * c ≤ time + m * c by linarith) (by linarith), hk, hcast]
  ring

/-- Moving the last duration to the front of an odd list shifts its time. -/
theorem alternation_rotate {first last : K} {ds : List K} (hds : ∀ d ∈ ds, 0 < d)
    (hfirst : 0 < first) (hlast : 0 < last) (hodd : Odd ds.length)
    (hc : c = first + last + ds.sum) (time : K) :
    alternation value ((first + last) :: ds) (phase c (last + time)) =
      alternation value (first :: (ds ++ [last])) (phase c time) := by
  have hds' : ∀ d ∈ ds, 0 ≤ d := fun d hd => (hds d hd).le
  have hsum := List.sum_nonneg hds'
  have hpos : 0 < c := by linarith
  obtain ⟨k, h, h', hk⟩ := exists_period hpos time
  rw [hk]
  rcases lt_or_ge (time - k * c) (first + ds.sum) with hlt | hge
  · -- The time is before the last duration, so the shifted time is in the same period.
    rw [phase_eq hpos (show (k : K) * c ≤ last + time by linarith) (by linarith)]
    rcases lt_or_ge (time - k * c) first with hf | hf
    · rw [alternation_of_lt (by linarith), alternation_of_lt hf]
    · rw [alternation_of_ge (by linarith), alternation_of_ge hf,
        alternation_append_of_lt (by linarith) (by linarith)]
      congr 1
      ring
  · -- In the last duration the shifted time is in the next period, in the first duration.
    have hnext : ((k + 1 : ℤ) : K) * c = k * c + c := by
      push_cast
      ring
    rw [phase_eq hpos (show ((k + 1 : ℤ) : K) * c ≤ last + time by linarith) (by linarith),
      alternation_of_lt (by linarith), alternation_of_ge (by linarith),
      alternation_append_of_ge hds' (by linarith), alternation_of_lt (by linarith),
      ← Function.iterate_succ_apply]
    exact (iterate_not_of_even (by simpa using hodd.add_one)).symm

end Phase

end Inet
