import Mathlib.Data.List.Basic
import Mathlib.Algebra.Order.Ring.Int

/-! # Segments of lists

The part of a list from an offset on with a given length, where offsets and
lengths are integers, as in code that computes with signed quantities.
-/

namespace Inet

variable {α β : Type*}

/-- The elements of `xs` from `offset` on, at most `length` many. -/
def seg (xs : List α) (offset length : ℤ) : List α := (xs.drop offset.toNat).take length.toNat

theorem length_seg {xs : List α} {offset length : ℤ} (h₀ : 0 ≤ offset) (h₁ : 0 ≤ length)
    (h : offset + length ≤ xs.length) : ((seg xs offset length).length : ℤ) = length := by
  simp only [seg, List.length_take, List.length_drop]
  omega

theorem getElem?_seg (xs : List α) (offset length : ℤ) (i : ℕ) :
    (seg xs offset length)[i]? = if i < length.toNat then xs[offset.toNat + i]? else none := by
  rw [seg, List.getElem?_take]
  split_ifs
  · rw [List.getElem?_drop]
  · rfl

theorem seg_whole (xs : List α) : seg xs 0 xs.length = xs := by simp [seg]

theorem seg_zero (xs : List α) {length : ℤ} (h : (xs.length : ℤ) ≤ length) :
    seg xs 0 length = xs := by
  rw [seg, Int.toNat_zero, List.drop_zero, List.take_of_length_le (by omega)]

theorem seg_of_nonpos (xs : List α) (offset : ℤ) {length : ℤ} (h : length ≤ 0) :
    seg xs offset length = [] := by
  rw [seg, Int.toNat_of_nonpos h, List.take_zero]

theorem map_seg (f : α → β) (xs : List α) (offset length : ℤ) :
    (seg xs offset length).map f = seg (xs.map f) offset length := by
  simp [seg, List.map_take, List.map_drop]

theorem seg_seg (xs : List α) {o l p n : ℤ} (ho : 0 ≤ o) (hp : 0 ≤ p) (h : p + n ≤ l) :
    seg (seg xs o l) p n = seg xs (o + p) n := by
  simp only [seg, List.drop_take, List.take_take, List.drop_drop]
  congr 1
  · omega
  · congr 1
    omega

theorem seg_add (xs : List α) {o l m : ℤ} (ho : 0 ≤ o) (hl : 0 ≤ l) (hm : 0 ≤ m) :
    seg xs o (l + m) = seg xs o l ++ seg xs (o + l) m := by
  simp only [seg, Int.toNat_add hl hm, Int.toNat_add ho hl, List.take_add, List.drop_drop]

theorem seg_append_of_le (xs ys : List α) {o l : ℤ} (ho : 0 ≤ o)
    (h : o + l ≤ xs.length) : seg (xs ++ ys) o l = seg xs o l := by
  by_cases hl : l ≤ 0
  · rw [seg_of_nonpos _ _ hl, seg_of_nonpos _ _ hl]
  · rw [seg, List.drop_append_of_le_length (by omega),
      List.take_append_of_le_length (by simp; omega), seg]

theorem seg_append_of_ge {xs : List α} (ys : List α) {o : ℤ} (l : ℤ) (h : (xs.length : ℤ) ≤ o) :
    seg (xs ++ ys) o l = seg ys (o - xs.length) l := by
  rw [seg, List.drop_append, List.drop_of_length_le (by omega), List.nil_append, seg]
  congr 2
  omega

theorem seg_isInfix (xs : List α) (offset length : ℤ) : seg xs offset length <:+: xs :=
  (List.take_prefix _ _).isInfix.trans (List.drop_suffix _ _).isInfix

theorem seg_replicate (n : ℕ) (a : α) {offset length : ℤ} (h₀ : 0 ≤ offset)
    (h : offset + length ≤ n) :
    seg (List.replicate n a) offset length = List.replicate length.toNat a := by
  simp only [seg, List.drop_replicate, List.take_replicate]
  congr 1
  omega

section Locate

variable {f : α → ℤ}

/-- The element of a list of consecutive intervals that contains a position. -/
theorem exists_append_cons_of_lt_sum {xs : List α} {s p : ℤ} (h₀ : s ≤ p)
    (h : p < s + (xs.map f).sum) :
    ∃ as x bs, xs = as ++ x :: bs ∧ s + (as.map f).sum ≤ p ∧ p < s + (as.map f).sum + f x := by
  induction xs generalizing s with
  | nil =>
    simp only [List.map_nil, List.sum_nil] at h
    omega
  | cons x xs ih =>
    rw [List.map_cons, List.sum_cons] at h
    by_cases hx : p < s + f x
    · exact ⟨[], x, xs, rfl, by simpa using h₀, by simpa using hx⟩
    · obtain ⟨as, y, bs, rfl, h₁, h₂⟩ := ih (s := s + f x) (by omega) (by omega)
      refine ⟨x :: as, y, bs, rfl, ?_, ?_⟩ <;> rw [List.map_cons, List.sum_cons] <;> omega

theorem sum_map_nonneg {xs : List α} (h : ∀ x ∈ xs, 0 < f x) : 0 ≤ (xs.map f).sum := by
  induction xs with
  | nil => simp
  | cons x xs ih =>
    rw [List.forall_mem_cons] at h
    have := ih h.2
    rw [List.map_cons, List.sum_cons]
    omega

end Locate

end Inet
