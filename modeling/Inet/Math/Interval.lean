import Inet.Common.Error
import Inet.Lib.Range
import Mathlib.Data.BitVec
import Mathlib.Data.List.FinRange
import Mathlib.Data.Set.Basic

/-! # Intervals of several dimensions

An interval is given by two opposite corners. Three masks have a bit for each
dimension: whether the lower and the upper end belong to the interval, and
whether the dimension is fixed to one coordinate. The bit of the first dimension
is the most significant one in use.
-/

namespace Inet.Math

variable {n : ℕ}

/-- The coordinates of a point. -/
abbrev Point (T : Fin n → Type) : Type := ∀ i, T i

structure Interval (T : Fin n → Type) where
  lower : Point T
  upper : Point T
  lowerClosed : BitVec 8
  upperClosed : BitVec 8
  fixed : BitVec 8

/-- `b >> IS`, where `b` is the bit of the first dimension. -/
def dimensionBit (i : Fin n) : BitVec 8 := BitVec.ofNat 8 (1 <<< n >>> 1) >>> i.val

/-- `m`, the bits of all dimensions. -/
def dimensionMask (n : ℕ) : BitVec 8 := BitVec.ofNat 8 ((1 <<< n) - 1)

/-- A mask that is added up over the dimensions, each of which gives its own bit. -/
def sumOfBits (flags : Fin n → BitVec 8) : BitVec 8 :=
  (List.finRange n).foldl (fun mask i => mask + (dimensionBit i &&& flags i)) 0

namespace Interval

variable {T : Fin n → Type} [∀ i, LinearOrder (T i)]

def checkImpl (a : Interval T) : Except Error Unit :=
  if ¬ ∀ i, a.lower i ≤ a.upper i then
    throw (.runtime "Invalid lower or upper arguments")
  else if ¬ ∀ i : Fin n, a.fixed &&& dimensionBit i ≠ 0 →
      a.lowerClosed &&& a.upperClosed &&& dimensionBit i ≠ 0 ∧ a.lower i = a.upper i then
    throw (.runtime "Invalid fixed argument, interval = %s, fixed = %d")
  else if a.lowerClosed ≠ a.lowerClosed &&& dimensionMask n then
    throw (.runtime "Invalid lowerClosed argument")
  else if a.upperClosed ≠ a.upperClosed &&& dimensionMask n then
    throw (.runtime "Invalid upperClosed argument")
  else if a.fixed ≠ a.fixed &&& dimensionMask n then
    throw (.runtime "Invalid fixed argument")
  else if a.fixed ≠ a.lowerClosed &&& a.fixed then
    throw (.runtime "Invalid combination of fixed and lowerClosed arguments")
  else if a.fixed ≠ a.upperClosed &&& a.fixed then
    throw (.runtime "Invalid combination of fixed and upperClosed arguments")
  else pure ()

/-- The constructor. -/
def new (lower upper : Point T) (lowerClosed upperClosed fixed : BitVec 8) :
    Except Error (Interval T) :=
  let a : Interval T := ⟨lower, upper, lowerClosed, upperClosed, fixed⟩
  do
    a.checkImpl
    pure a

def contains (a : Interval T) (p : Point T) : Bool :=
  (List.finRange n).all (fun i =>
    if a.lowerClosed &&& dimensionBit i ≠ 0 then a.lower i ≤ p i else a.lower i < p i) &&
  (List.finRange n).all fun i =>
    if a.upperClosed &&& dimensionBit i ≠ 0 then p i ≤ a.upper i else p i < a.upper i

def getIntersected (a o : Interval T) : Except Error (Interval T) :=
  let l (i : Fin n) := max (a.lower i) (o.lower i)
  let u (i : Fin n) := min (a.upper i) (o.upper i)
  let lc := sumOfBits fun i : Fin n =>
    if a.upper i < l i ∨ a.lower i > u i then 0
    else if a.lower i = o.lower i then a.lowerClosed &&& o.lowerClosed
    else if a.lower i > o.lower i then a.lowerClosed
    else o.lowerClosed
  let uc := sumOfBits fun i : Fin n =>
    if a.lower i > u i ∨ a.upper i < l i then 0
    else if a.upper i = o.upper i then a.upperClosed &&& o.upperClosed
    else if a.upper i < o.upper i then a.upperClosed
    else o.upperClosed
  let l₁ (i : Fin n) := min (a.upper i) (l i)
  let u₁ (i : Fin n) := max (a.lower i) (u i)
  new l₁ u₁ lc uc ((a.fixed ||| o.fixed) &&& lc &&& uc)

def isFixed (a : Interval T) (i : Fin n) : Bool := a.fixed &&& dimensionBit i ≠ 0

/-- The interval passes the check of the constructor. -/
def Accepted (a : Interval T) : Prop := a.checkImpl = .ok ()

/-- The points of the interval. -/
def points (a : Interval T) : Set (Point T) := {p | a.contains p = true}

/-- The interval in one of its dimensions. -/
def range (a : Interval T) (i : Fin n) : Range (T i) where
  lower := a.lower i
  upper := a.upper i
  lowerClosed := a.lowerClosed &&& dimensionBit i ≠ 0
  upperClosed := a.upperClosed &&& dimensionBit i ≠ 0

end Interval

/-- The place of the bit of a dimension. -/
def place (i : Fin n) : ℕ := n - 1 - i

theorem place_lt (i : Fin n) : place i < n := by
  have := i.isLt
  unfold place
  omega

theorem place_injective : Function.Injective (place (n := n)) := by
  intro i j h
  have hi := i.isLt
  have hj := j.isLt
  unfold place at h
  omega

/-- Each bit in use is the bit of a dimension. -/
theorem exists_place {k : ℕ} (hk : k < n) : ∃ i : Fin n, place i = k := by
  refine ⟨⟨n - 1 - k, by omega⟩, ?_⟩
  simp only [place]
  omega

theorem dimensionBit_eq_twoPow (hn : n ≤ 8) (i : Fin n) :
    dimensionBit i = BitVec.twoPow 8 (place i) := by
  have hall : ∀ n ≤ 8, ∀ i < n, BitVec.ofNat 8 (1 <<< n >>> 1) >>> i =
      BitVec.twoPow 8 (n - 1 - i) := by decide
  exact hall n hn i i.isLt

theorem and_dimensionBit_ne_zero (hn : n ≤ 8) (mask : BitVec 8) (i : Fin n) :
    mask &&& dimensionBit i ≠ 0 ↔ mask.getLsbD (place i) = true := by
  have hplace : place i < 8 := (place_lt i).trans_le hn
  have hne : BitVec.twoPow 8 (place i) ≠ 0 := by
    intro heq
    have hbit := BitVec.getLsbD_twoPow (w := 8) (place i) (place i)
    simp [heq, hplace] at hbit
  rw [dimensionBit_eq_twoPow hn, BitVec.and_twoPow]
  cases mask.getLsbD (place i)
  · simp
  · simpa using hne

theorem getLsbD_dimensionMask (hn : n ≤ 8) (k : ℕ) :
    (dimensionMask n).getLsbD k = decide (k < n) := by
  by_cases hk : k < 8
  · have hall : ∀ n ≤ 8, ∀ k < 8, (BitVec.ofNat 8 ((1 <<< n) - 1)).getLsbD k = decide (k < n) := by
      decide
    exact hall n hn k hk
  · rw [BitVec.getLsbD_of_ge _ _ (Nat.le_of_not_lt hk), eq_comm, decide_eq_false_iff_not]
    exact fun h => hk (h.trans_le hn)

theorem eq_and_dimensionMask (hn : n ≤ 8) {mask : BitVec 8}
    (h : ∀ k, mask.getLsbD k = true → k < n) : mask = mask &&& dimensionMask n := by
  apply BitVec.eq_of_getLsbD_eq
  intro k _
  rw [BitVec.getLsbD_and, getLsbD_dimensionMask hn]
  cases hk : mask.getLsbD k
  · rfl
  · simp [h k hk]

theorem getLsbD_add_dimensionBit (hn : n ≤ 8) (flags : BitVec 8) {mask : BitVec 8} {i : Fin n}
    (hclear : mask.getLsbD (place i) = false) (k : ℕ) :
    (mask + (dimensionBit i &&& flags)).getLsbD k = true ↔
      mask.getLsbD k = true ∨ place i = k ∧ flags.getLsbD k = true := by
  have hplace : place i < 8 := (place_lt i).trans_le hn
  rw [dimensionBit_eq_twoPow hn, BitVec.add_eq_or_of_and_eq_zero]
  · rw [BitVec.getLsbD_or, BitVec.getLsbD_and, BitVec.getLsbD_twoPow]
    simp [hplace]
  · apply BitVec.eq_of_getLsbD_eq
    intro j _
    rw [BitVec.getLsbD_and, BitVec.getLsbD_and, BitVec.getLsbD_twoPow]
    by_cases hj : place i = j
    · simp [← hj, hclear]
    · simp [hj]

theorem getLsbD_foldl (hn : n ≤ 8) (flags : Fin n → BitVec 8) {is : List (Fin n)} {mask : BitVec 8}
    (hnodup : is.Nodup) (hclear : ∀ i ∈ is, mask.getLsbD (place i) = false) (k : ℕ) :
    (is.foldl (fun mask i => mask + (dimensionBit i &&& flags i)) mask).getLsbD k = true ↔
      mask.getLsbD k = true ∨ ∃ i ∈ is, place i = k ∧ (flags i).getLsbD k = true := by
  induction is generalizing mask with
  | nil => simp
  | cons i is ih =>
    obtain ⟨hi, hnodup⟩ := List.nodup_cons.1 hnodup
    have hadd := getLsbD_add_dimensionBit hn (flags i) (hclear i List.mem_cons_self)
    have hrest : ∀ j ∈ is,
        (mask + (dimensionBit i &&& flags i)).getLsbD (place j) = false := by
      intro j hj
      rw [Bool.eq_false_iff]
      intro hbit
      rcases (hadd _).1 hbit with hbit | ⟨heq, -⟩
      · rw [hclear j (List.mem_cons_of_mem i hj)] at hbit
        cases hbit
      · exact hi (place_injective heq ▸ hj)
    rw [List.foldl_cons, ih hnodup hrest, hadd]
    simp [or_assoc]

theorem getLsbD_sumOfBits (hn : n ≤ 8) (flags : Fin n → BitVec 8) (i : Fin n) :
    (sumOfBits flags).getLsbD (place i) = (flags i).getLsbD (place i) := by
  rw [Bool.eq_iff_iff, sumOfBits, getLsbD_foldl hn flags (List.nodup_finRange n) (by simp)]
  constructor
  · rintro (h | ⟨j, -, heq, h⟩)
    · simp at h
    · rwa [place_injective heq] at h
  · intro h
    exact .inr ⟨i, List.mem_finRange i, rfl, h⟩

theorem lt_of_getLsbD_sumOfBits (hn : n ≤ 8) (flags : Fin n → BitVec 8) {k : ℕ}
    (h : (sumOfBits flags).getLsbD k = true) : k < n := by
  rw [sumOfBits, getLsbD_foldl hn flags (List.nodup_finRange n) (by simp)] at h
  rcases h with h | ⟨i, -, rfl, -⟩
  · simp at h
  · exact place_lt i

end Inet.Math
