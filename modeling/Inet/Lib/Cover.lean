import Mathlib.Data.Nat.Find
import Mathlib.Data.List.Basic

/-! # Ranges that cover a prefix

A list of ranges, each given by its start and its length, covers some numbers.
The covered prefix ends at the first number that is not covered.
-/

namespace Inet

/-- The number is in one of the ranges. -/
def Covered (ranges : List (ℕ × ℕ)) (k : ℕ) : Prop :=
  ∃ range ∈ ranges, range.1 ≤ k ∧ k < range.1 + range.2

instance (ranges : List (ℕ × ℕ)) (k : ℕ) : Decidable (Covered ranges k) :=
  inferInstanceAs (Decidable (∃ range ∈ ranges, range.1 ≤ k ∧ k < range.1 + range.2))

variable {ranges : List (ℕ × ℕ)} {range : ℕ × ℕ} {k n bound : ℕ}

theorem covered_cons :
    Covered (range :: ranges) k ↔ (range.1 ≤ k ∧ k < range.1 + range.2) ∨ Covered ranges k := by
  simp only [Covered, List.mem_cons, exists_eq_or_imp]

theorem not_covered_of_bound (h : ∀ range ∈ ranges, range.1 + range.2 ≤ bound) (hk : bound ≤ k) :
    ¬ Covered ranges k := by
  rintro ⟨range, hrange, -, hlt⟩
  have := h range hrange
  omega

theorem exists_bound (ranges : List (ℕ × ℕ)) :
    ∃ bound, ∀ range ∈ ranges, range.1 + range.2 ≤ bound := by
  induction ranges with
  | nil => exact ⟨0, by simp⟩
  | cons range ranges ih =>
    obtain ⟨bound, hbound⟩ := ih
    refine ⟨max (range.1 + range.2) bound, fun r hr => ?_⟩
    rcases List.mem_cons.1 hr with rfl | hr
    · exact Nat.le_max_left _ _
    · exact Nat.le_trans (hbound r hr) (Nat.le_max_right _ _)

theorem exists_not_covered (ranges : List (ℕ × ℕ)) : ∃ k, ¬ Covered ranges k := by
  obtain ⟨bound, hbound⟩ := exists_bound ranges
  exact ⟨bound, not_covered_of_bound hbound le_rfl⟩

/-- The length of the longest prefix that the ranges cover. -/
def coveredPrefix (ranges : List (ℕ × ℕ)) : ℕ := Nat.find (exists_not_covered ranges)

theorem not_covered_coveredPrefix (ranges : List (ℕ × ℕ)) :
    ¬ Covered ranges (coveredPrefix ranges) := Nat.find_spec (exists_not_covered ranges)

theorem covered_of_lt (h : k < coveredPrefix ranges) : Covered ranges k :=
  not_not.1 (Nat.find_min (exists_not_covered ranges) h)

theorem coveredPrefix_eq (h : ∀ k < n, Covered ranges k) (hn : ¬ Covered ranges n) :
    coveredPrefix ranges = n := by
  rcases lt_trichotomy (coveredPrefix ranges) n with hlt | heq | hlt
  · exact absurd (h _ hlt) (not_covered_coveredPrefix ranges)
  · exact heq
  · exact absurd (covered_of_lt hlt) hn

theorem coveredPrefix_le (h : ∀ range ∈ ranges, range.1 + range.2 ≤ bound) :
    coveredPrefix ranges ≤ bound :=
  Nat.find_min' (exists_not_covered ranges) (not_covered_of_bound h le_rfl)

theorem coveredPrefix_le_cons (range : ℕ × ℕ) (ranges : List (ℕ × ℕ)) :
    coveredPrefix ranges ≤ coveredPrefix (range :: ranges) := by
  by_contra hlt
  refine not_covered_coveredPrefix (range :: ranges) (covered_cons.2 (Or.inr ?_))
  exact covered_of_lt (not_le.1 hlt)

end Inet
