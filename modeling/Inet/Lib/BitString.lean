import Mathlib.Data.List.Basic
import Mathlib.Data.Nat.Bitwise

/-! # Bit strings

The bits of a machine word from the most significant one on, and the words of
a list written one after the other. Shifts and disjunctions of words are list
operations on their bit strings, and a word is recovered from its parts when
the parts cover every position.
-/

namespace Inet.BitString

variable {w : ℕ}

/-- The bits of a word, most significant first. -/
def msb (x : BitVec w) : List Bool := (List.range w).map x.getMsbD

/-- The bits of a list of words, written one after the other. -/
def concat (xs : List (BitVec w)) : List Bool := xs.flatMap msb

@[simp] theorem length_msb (x : BitVec w) : (msb x).length = w := by simp [msb]

@[simp] theorem getElem_msb (x : BitVec w) (i : ℕ) (h : i < (msb x).length) :
    (msb x)[i] = x.getMsbD i := by simp [msb]

theorem msb_injective : Function.Injective (msb : BitVec w → List Bool) := by
  intro x y h
  apply BitVec.eq_of_getMsbD_eq
  intro i hi
  have hx : (msb x)[i]? = (msb y)[i]? := by rw [h]
  simpa [msb, hi] using hx

theorem exists_msb_eq {bits : List Bool} (h : bits.length = w) : ∃ x : BitVec w, msb x = bits := by
  subst h
  refine ⟨.ofBoolListBE bits, List.ext_getElem (length_msb _) fun i _ hi => ?_⟩
  rw [getElem_msb, BitVec.getMsbD_ofBoolListBE, List.getD_eq_getElem _ _ hi]

@[simp] theorem concat_nil : concat ([] : List (BitVec w)) = [] := rfl

@[simp] theorem concat_cons (x : BitVec w) (xs : List (BitVec w)) :
    concat (x :: xs) = msb x ++ concat xs := by simp [concat]

@[simp] theorem concat_append (xs ys : List (BitVec w)) :
    concat (xs ++ ys) = concat xs ++ concat ys := by simp [concat]

theorem concat_flatMap {α : Type*} (f : α → List (BitVec w)) (xs : List α) :
    concat (xs.flatMap f) = xs.flatMap fun x => concat (f x) := List.flatMap_assoc

@[simp] theorem length_concat (xs : List (BitVec w)) : (concat xs).length = w * xs.length := by
  induction xs with
  | nil => simp
  | cons x xs ih => simp [ih, Nat.mul_succ, Nat.add_comm]

theorem concat_eq_nil [NeZero w] {xs : List (BitVec w)} (h : concat xs = []) : xs = [] := by
  have hl := congrArg List.length h
  rw [length_concat, List.length_nil, Nat.mul_eq_zero] at hl
  exact List.length_eq_zero_iff.1 (hl.resolve_left (NeZero.ne w))

theorem concat_injective [NeZero w] :
    Function.Injective (concat : List (BitVec w) → List Bool) := by
  intro xs
  induction xs with
  | nil => exact fun ys h => (concat_eq_nil h.symm).symm
  | cons x xs ih =>
    intro ys h
    cases ys with
    | nil => exact concat_eq_nil h
    | cons y ys =>
      rw [concat_cons, concat_cons] at h
      obtain ⟨hx, hxs⟩ := List.append_inj h (by simp)
      rw [msb_injective hx, ih hxs]

theorem drop_concat (xs : List (BitVec w)) (k : ℕ) :
    (concat xs).drop (w * k) = concat (xs.drop k) := by
  induction xs generalizing k with
  | nil => simp
  | cons x xs ih =>
    cases k with
    | zero => simp
    | succ k =>
      have hk : w * (k + 1) = (msb x).length + w * k := by simp [Nat.mul_succ, Nat.add_comm]
      rw [concat_cons, hk, List.drop_length_add_append, List.drop_succ_cons, ih]

theorem take_concat (xs : List (BitVec w)) (k : ℕ) :
    (concat xs).take (w * k) = concat (xs.take k) := by
  induction xs generalizing k with
  | nil => simp
  | cons x xs ih =>
    cases k with
    | zero => simp
    | succ k =>
      have hk : w * (k + 1) = (msb x).length + w * k := by simp [Nat.mul_succ, Nat.add_comm]
      rw [concat_cons, hk, List.take_length_add_append, List.take_succ_cons, concat_cons, ih]

/-- The bits from position `i` inside word `k` on. -/
theorem drop_concat_add (xs : List (BitVec w)) {k i : ℕ} (hk : k < xs.length) (hi : i ≤ w) :
    (concat xs).drop (w * k + i) = (msb xs[k]).drop i ++ concat (xs.drop (k + 1)) := by
  rw [← List.drop_drop, drop_concat, List.drop_eq_getElem_cons hk, concat_cons,
    List.drop_append_of_le_length (by simpa using hi)]

theorem msb_ushiftRight (x : BitVec w) {k : ℕ} (hk : k ≤ w) :
    msb (x >>> k) = List.replicate k false ++ (msb x).take (w - k) := by
  apply List.ext_getElem
  · simp; omega
  · intro i hi hi'
    rw [getElem_msb, List.getElem_append]
    simp only [length_msb] at hi
    split
    · rename_i h
      simp at h
      simp [h]
    · rename_i h
      simp at h
      simp [BitVec.getMsbD_ushiftRight, hi]
      omega

theorem msb_shiftLeft (x : BitVec w) {k : ℕ} (hk : k ≤ w) :
    msb (x <<< k) = (msb x).drop k ++ List.replicate k false := by
  apply List.ext_getElem
  · simp; omega
  · intro i hi hi'
    rw [getElem_msb, List.getElem_append]
    simp only [length_msb] at hi
    split
    · rename_i h
      simp at h
      simp [Nat.add_comm]
    · rename_i h
      simp at h
      simp only [BitVec.getMsbD_shiftLeft, List.getElem_replicate]
      apply BitVec.getMsbD_of_ge
      omega

theorem msb_or (x y : BitVec w) : msb (x ||| y) = List.zipWith (· || ·) (msb x) (msb y) := by
  apply List.ext_getElem <;> simp

theorem msb_one_shiftLeft {i : ℕ} (hi : i < w) :
    msb (1#w <<< (w - 1 - i)) =
      List.replicate i false ++ true :: List.replicate (w - 1 - i) false := by
  apply List.ext_getElem
  · simp; omega
  · intro j hj hj'
    simp only [length_msb] at hj
    rw [getElem_msb, BitVec.getMsbD_shiftLeft, BitVec.getMsbD_one, List.getElem_append]
    split
    · rename_i h
      simp only [List.length_replicate] at h
      simp only [List.getElem_replicate, Bool.and_eq_false_imp, decide_eq_true_eq]
      omega
    · rename_i h
      simp only [List.length_replicate, not_lt] at h
      rw [List.getElem_cons]
      split
      · rename_i h'
        rw [List.length_replicate] at h'
        simp only [Bool.and_eq_true, decide_eq_true_eq]
        omega
      · rename_i h'
        rw [List.length_replicate] at h'
        simp only [List.getElem_replicate, Bool.and_eq_false_imp, decide_eq_true_eq]
        omega

/-- A disjunction of words that occupy complementary positions is their concatenation. -/
theorem zipWith_or_pad (xs ys : List Bool) :
    List.zipWith (· || ·) (xs ++ List.replicate ys.length false)
      (List.replicate xs.length false ++ ys) = xs ++ ys := by
  rw [List.zipWith_append (by simp)]
  congr 1
  · apply List.ext_getElem <;> simp
  · apply List.ext_getElem <;> simp

section Cover

theorem testBit_foldl_or (parts : List ℕ) (a i : ℕ) :
    (parts.foldl (· ||| ·) a).testBit i = (a.testBit i || parts.any (·.testBit i)) := by
  induction parts generalizing a with
  | nil => simp
  | cons x xs ih => simp [ih, Bool.or_assoc]

/-- Bytes cut out of a number at shifts that cover all its positions recover the number. -/
theorem foldl_or_bytes {shifts : List ℕ} {n v : ℕ} (hv : v < 2 ^ n)
    (hc : ∀ i < n, ∃ k ∈ shifts, k ≤ i ∧ i < k + 8) :
    (shifts.map fun k => ((v >>> k) % 256) <<< k).foldl (· ||| ·) 0 = v := by
  apply Nat.eq_of_testBit_eq
  intro i
  rw [testBit_foldl_or, Nat.zero_testBit, Bool.false_or, List.any_map]
  have hpart : ∀ k, (((v >>> k) % 256) <<< k).testBit i =
    (decide (k ≤ i ∧ i < k + 8) && v.testBit i) := by
    intro k
    rw [Nat.testBit_shiftLeft, show (256 : ℕ) = 2 ^ 8 from rfl, Nat.testBit_mod_two_pow,
      Nat.testBit_shiftRight]
    by_cases hk : k ≤ i
    · have : k + (i - k) = i := by omega
      have h8 : decide (i - k < 8) = decide (i < k + 8) := by congr 1; apply propext; omega
      simp [hk, this, h8]
    · simp [hk]
  by_cases hi : v.testBit i
  · have hn : i < n := Nat.lt_of_not_le fun h => by
      have := Nat.testBit_lt_two_pow (lt_of_lt_of_le hv (Nat.pow_le_pow_right (by decide) h))
      simp [this] at hi
    obtain ⟨k, hk, hki⟩ := hc i hn
    rw [hi, List.any_eq_true]
    exact ⟨k, hk, by simp [hpart, hi, hki]⟩
  · have hf : v.testBit i = false := by simpa using hi
    rw [hf, List.any_eq_false]
    intro k _
    simp [hpart, hf]

/-- The set bits of a number, read off mask by mask, recover the number. -/
theorem foldl_or_masks {masks : List ℕ} {n v : ℕ} (hv : v < 2 ^ n)
    (hc : ∀ i < n, 2 ^ i ∈ masks) (hp : ∀ m ∈ masks, ∃ i, m = 2 ^ i) :
    (masks.map fun m => if v &&& m ≠ 0 then m else 0).foldl (· ||| ·) 0 = v := by
  apply Nat.eq_of_testBit_eq
  intro i
  rw [testBit_foldl_or, Nat.zero_testBit, Bool.false_or, List.any_map]
  have hpart : ∀ j, (if v &&& 2 ^ j ≠ 0 then 2 ^ j else 0).testBit i =
      (decide (j = i) && v.testBit j) := by
    intro j
    rw [Nat.and_two_pow]
    cases h : v.testBit j <;> simp [Nat.testBit_two_pow]
  by_cases hi : v.testBit i
  · have hn : i < n := Nat.lt_of_not_le fun h => by
      have := Nat.testBit_lt_two_pow (lt_of_lt_of_le hv (Nat.pow_le_pow_right (by decide) h))
      simp [this] at hi
    rw [hi, List.any_eq_true]
    refine ⟨2 ^ i, hc i hn, ?_⟩
    rw [Function.comp_apply, hpart]
    simp [hi]
  · have hf : v.testBit i = false := by simpa using hi
    rw [hf, List.any_eq_false]
    intro m hm
    obtain ⟨j, rfl⟩ := hp m hm
    rw [Function.comp_apply, hpart]
    rintro h
    simp only [Bool.and_eq_true, decide_eq_true_eq] at h
    obtain ⟨rfl, h⟩ := h
    exact hi h

end Cover

end Inet.BitString
