import Mathlib.Data.Prod.Lex
import Mathlib.Data.Int.Order.Basic

/-! # Comparisons that answer with a number

A comparison answers a positive number when its first argument comes first, a
negative one when its second does, and zero on a tie. It ranks by a key when
these are the cases of a linear order on keys. Asking a second comparison on a
tie of the first ranks by the pair of the keys.
-/

namespace Inet

variable {α β γ : Type*} [LinearOrder β] [LinearOrder γ]

structure RanksBy (compare : α → α → ℤ) (key : α → β) : Prop where
  pos_iff : ∀ a b, 0 < compare a b ↔ key a < key b
  neg_iff : ∀ a b, compare a b < 0 ↔ key b < key a

/-- The first answer unless it is a tie. -/
def thenCompare (first second : ℤ) : ℤ := if first ≠ 0 then first else second

theorem thenCompare_pos_iff {first second : ℤ} :
    0 < thenCompare first second ↔ 0 < first ∨ first = 0 ∧ 0 < second := by
  unfold thenCompare
  split <;> omega

theorem thenCompare_neg_iff {first second : ℤ} :
    thenCompare first second < 0 ↔ first < 0 ∨ first = 0 ∧ second < 0 := by
  unfold thenCompare
  split <;> omega

namespace RanksBy

variable {compare second : α → α → ℤ} {key : α → β} {key' : α → γ}

theorem eq_zero_iff (h : RanksBy compare key) (a b : α) : compare a b = 0 ↔ key a = key b := by
  have hpos := h.pos_iff a b
  have hneg := h.neg_iff a b
  constructor
  · intro hzero
    exact le_antisymm (not_lt.mp fun hlt => by have := hneg.mpr hlt; omega)
      (not_lt.mp fun hlt => by have := hpos.mpr hlt; omega)
  · intro heq
    have hle : ¬ 0 < compare a b := fun h => absurd heq (hpos.mp h).ne
    have hge : ¬ compare a b < 0 := fun h => absurd heq.symm (hneg.mp h).ne
    omega

theorem comp {δ : Type*} (h : RanksBy compare key) (f : δ → α) :
    RanksBy (fun a b => compare (f a) (f b)) (key ∘ f) :=
  ⟨fun a b => h.pos_iff (f a) (f b), fun a b => h.neg_iff (f a) (f b)⟩

theorem lex (h : RanksBy compare key) (h' : RanksBy second key') :
    RanksBy (fun a b => thenCompare (compare a b) (second a b))
      (fun a => toLex (key a, key' a)) := by
  constructor
  · intro a b
    rw [thenCompare_pos_iff, Prod.Lex.toLex_lt_toLex, h.pos_iff, h'.pos_iff, h.eq_zero_iff]
  · intro a b
    rw [thenCompare_neg_iff, Prod.Lex.toLex_lt_toLex, h.neg_iff, h'.neg_iff, h.eq_zero_iff,
      @eq_comm _ (key a)]

end RanksBy

/-- The order of a type as a comparison. -/
def compareKeys (a b : β) : ℤ := if a < b then 1 else if b < a then -1 else 0

theorem ranksBy_compareKeys : RanksBy (compareKeys (β := β)) id := by
  constructor
  · intro a b
    unfold compareKeys
    rcases lt_trichotomy a b with h | rfl | h
    · simp [h]
    · simp
    · simp [h, h.not_gt]
  · intro a b
    unfold compareKeys
    rcases lt_trichotomy a b with h | rfl | h
    · simp [h, h.not_gt]
    · simp
    · simp [h, h.not_gt]

end Inet
