import Mathlib.Data.Nat.ModEq

/-! # One's complement sums

Addition with an end-around carry on the numbers up to `m = 2 ^ k - 1`. A sum
is zero only if all of its parts are, and otherwise the representative between
`1` and `m` of the class modulo `m`. So it does not matter when the carries are
added.
-/

namespace Inet.OnesComplement

variable {m a b n : ℕ}

/-- The sum with an end-around carry. -/
def add (m a b : ℕ) : ℕ := if a + b ≤ m then a + b else a + b - m

/-- What is left of a sum when its carries have been added. -/
def reduce (m n : ℕ) : ℕ := if n = 0 then 0 else (n - 1) % m + 1

theorem reduce_of_pos (h : 0 < n) : reduce m n = (n - 1) % m + 1 := if_neg h.ne'

theorem reduce_le (hm : 0 < m) (n : ℕ) : reduce m n ≤ m := by
  unfold reduce
  split
  · exact Nat.zero_le m
  · exact Nat.mod_lt _ hm

theorem reduce_of_le (h : n ≤ m) : reduce m n = n := by
  rcases Nat.eq_zero_or_pos n with rfl | hpos
  · rfl
  · rw [reduce_of_pos hpos, Nat.mod_eq_of_lt (by omega)]
    omega

/-- A carry may be added at any time. -/
theorem reduce_add_self (h : 0 < n) : reduce m (n + m) = reduce m n := by
  rw [reduce_of_pos h, reduce_of_pos (Nat.add_pos_left h m),
    show n + m - 1 = n - 1 + m by omega, Nat.add_mod_right]

theorem reduce_add_mul (h : 0 < n) (k : ℕ) : reduce m (n + m * k) = reduce m n := by
  induction k with
  | zero => rfl
  | succ k ih =>
    rw [Nat.mul_succ, ← Nat.add_assoc, reduce_add_self (Nat.add_pos_left h _), ih]

theorem reduce_reduce_add (m a b : ℕ) : reduce m (reduce m a + b) = reduce m (a + b) := by
  rcases Nat.eq_zero_or_pos a with rfl | ha
  · rfl
  · have hsplit : a + b = (a - 1) % m + 1 + b + m * ((a - 1) / m) := by
      have hdiv := Nat.mod_add_div (a - 1) m
      omega
    rw [reduce_of_pos ha, hsplit, reduce_add_mul (by omega)]

theorem add_eq_reduce (ha : a ≤ m) (hb : b ≤ m) : add m a b = reduce m (a + b) := by
  unfold add
  split
  next h => exact (reduce_of_le h).symm
  next h =>
    have hsplit : a + b = a + b - m + m := by omega
    rw [hsplit, reduce_add_self (by omega), reduce_of_le (by omega)]
    omega

theorem foldl_add {ns : List ℕ} (hm : 0 < m) (hns : ∀ n ∈ ns, n ≤ m) (ha : a ≤ m) :
    ns.foldl (add m) a = reduce m (a + ns.sum) := by
  induction ns generalizing a with
  | nil => exact (reduce_of_le ha).symm
  | cons n ns ih =>
    have hadd := add_eq_reduce ha (hns n List.mem_cons_self)
    rw [List.foldl_cons, ih (fun n hn => hns n (List.mem_cons_of_mem _ hn)), hadd,
      reduce_reduce_add, List.sum_cons, Nat.add_assoc]
    rw [hadd]
    exact reduce_le hm _

/-- The high part of a number added to its low part. -/
theorem reduce_fold (m n : ℕ) : reduce m (n % (m + 1) + n / (m + 1)) = reduce m n := by
  rcases Nat.eq_zero_or_pos n with rfl | hpos
  · simp
  · have hdiv := Nat.mod_add_div n (m + 1)
    have hsplit : n = n % (m + 1) + n / (m + 1) + m * (n / (m + 1)) := by
      rw [Nat.add_one_mul] at hdiv
      omega
    have hlow : 0 < n % (m + 1) + n / (m + 1) := by
      by_contra hzero
      obtain ⟨hr, hq⟩ := Nat.add_eq_zero_iff.mp (Nat.eq_zero_of_not_pos hzero)
      rw [hr, hq] at hdiv
      omega
    conv => rhs; rw [hsplit]
    rw [reduce_add_mul hlow]

/-- A number and its complement add up to all ones. -/
theorem reduce_add_complement (hm : 0 < m) (n : ℕ) : reduce m (n + (m - reduce m n)) = m := by
  have hle := reduce_le hm n
  rw [← reduce_reduce_add, show reduce m n + (m - reduce m n) = m by omega, reduce_of_le le_rfl]

end Inet.OnesComplement
