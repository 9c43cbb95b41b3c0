import Mathlib.Order.Lattice
import Mathlib.Order.MinMax
import Mathlib.Tactic.SplitIfs

/-! # Ranges with open and closed ends

What lies between two ends of a linear order, each of which belongs to the range
or not. The common part of two ranges keeps the larger lower end and the smaller
upper end. Where the ranges lie apart it is the empty range at the end of the
first one that is next to the second one.
-/

namespace Inet

@[ext] structure Range (α : Type*) where
  lower : α
  upper : α
  lowerClosed : Bool
  upperClosed : Bool

namespace Range

variable {α : Type*} [LinearOrder α] {r s : Range α} {x : α}

def AboveLower (r : Range α) (x : α) : Prop :=
  if r.lowerClosed then r.lower ≤ x else r.lower < x

def BelowUpper (r : Range α) (x : α) : Prop :=
  if r.upperClosed then x ≤ r.upper else x < r.upper

/-- What lies between the ends. -/
def Has (r : Range α) (x : α) : Prop := r.AboveLower x ∧ r.BelowUpper x

/-- One of the ranges ends before the other one starts. -/
def Apart (r s : Range α) : Prop := r.upper < s.lower ∨ s.upper < r.lower

instance : Decidable (r.AboveLower x) := by unfold AboveLower; infer_instance

instance : Decidable (r.BelowUpper x) := by unfold BelowUpper; infer_instance

instance : Decidable (r.Has x) := inferInstanceAs (Decidable (_ ∧ _))

instance : Decidable (r.Apart s) := inferInstanceAs (Decidable (_ ∨ _))

/-- The common part. -/
def inter (r s : Range α) : Range α where
  lower := min r.upper (max r.lower s.lower)
  upper := max r.lower (min r.upper s.upper)
  lowerClosed :=
    if r.Apart s then false
    else if r.lower = s.lower then r.lowerClosed && s.lowerClosed
    else if s.lower < r.lower then r.lowerClosed
    else s.lowerClosed
  upperClosed :=
    if r.Apart s then false
    else if r.upper = s.upper then r.upperClosed && s.upperClosed
    else if r.upper < s.upper then r.upperClosed
    else s.upperClosed

theorem AboveLower.le (h : r.AboveLower x) : r.lower ≤ x := by
  unfold AboveLower at h
  split_ifs at h
  · exact h
  · exact h.le

theorem BelowUpper.le (h : r.BelowUpper x) : x ≤ r.upper := by
  unfold BelowUpper at h
  split_ifs at h
  · exact h
  · exact h.le

theorem aboveLower_of_lt (h : r.lower < x) : r.AboveLower x := by
  unfold AboveLower
  split_ifs
  · exact h.le
  · exact h

theorem belowUpper_of_lt (h : x < r.upper) : r.BelowUpper x := by
  unfold BelowUpper
  split_ifs
  · exact h.le
  · exact h

theorem aboveLower_lower : r.AboveLower r.lower ↔ r.lowerClosed = true := by
  simp [AboveLower]

theorem belowUpper_upper : r.BelowUpper r.upper ↔ r.upperClosed = true := by
  simp [BelowUpper]

/-- The lower end of one range decides when it is the larger one. -/
theorem AboveLower.of_lt (h : r.AboveLower x) (hlt : s.lower < r.lower) : s.AboveLower x :=
  aboveLower_of_lt (hlt.trans_le h.le)

theorem BelowUpper.of_lt (h : r.BelowUpper x) (hlt : r.upper < s.upper) : s.BelowUpper x :=
  belowUpper_of_lt (h.le.trans_lt hlt)

theorem not_has_of_apart (h : r.Apart s) : ¬ (r.Has x ∧ s.Has x) := by
  rintro ⟨hr, hs⟩
  rcases h with h | h
  · exact absurd (hs.1.le.trans hr.2.le) h.not_ge
  · exact absurd (hr.1.le.trans hs.2.le) h.not_ge

/-- The ranges lie apart when the ends of their common part are the wrong way round. -/
theorem apart_iff (hr : r.lower ≤ r.upper) :
    r.Apart s ↔ r.upper < max r.lower s.lower ∨ min r.upper s.upper < r.lower := by
  rw [lt_max_iff, min_lt_iff, Apart, or_iff_right hr.not_gt, or_iff_right hr.not_gt]

theorem le_of_not_apart (h : ¬ r.Apart s) : s.lower ≤ r.upper ∧ r.lower ≤ s.upper :=
  ⟨not_lt.1 (mt Or.inl h), not_lt.1 (mt Or.inr h)⟩

theorem lower_inter (hr : r.lower ≤ r.upper) (h : ¬ r.Apart s) :
    (r.inter s).lower = max r.lower s.lower :=
  min_eq_right (max_le hr (le_of_not_apart h).1)

theorem upper_inter (hr : r.lower ≤ r.upper) (h : ¬ r.Apart s) :
    (r.inter s).upper = min r.upper s.upper :=
  max_eq_right (le_min hr (le_of_not_apart h).2)

/-- The ends of the common part of ranges that lie apart. -/
theorem lower_inter_eq_upper_inter (hr : r.lower ≤ r.upper) (h : r.Apart s)
    (hs : s.lower ≤ s.upper) : (r.inter s).lower = (r.inter s).upper := by
  rcases h with h | h
  · have hlower : max r.lower s.lower = s.lower := max_eq_right (hr.trans h.le)
    have hupper : min r.upper s.upper = r.upper := min_eq_left (h.le.trans hs)
    simp only [inter, hlower, hupper, min_eq_left h.le, max_eq_right hr]
  · have hlower : max r.lower s.lower = r.lower := max_eq_left (hs.trans h.le)
    have hupper : min r.upper s.upper = s.upper := min_eq_right (h.le.trans hr)
    simp only [inter, hlower, hupper, min_eq_right hr, max_eq_left h.le]

theorem inter_le (hr : r.lower ≤ r.upper) (hs : s.lower ≤ s.upper) :
    (r.inter s).lower ≤ (r.inter s).upper := by
  by_cases h : r.Apart s
  · exact (lower_inter_eq_upper_inter hr h hs).le
  · rw [lower_inter hr h, upper_inter hr h]
    have hle := le_of_not_apart h
    exact max_le (le_min hr hle.2) (le_min hle.1 hs)

theorem aboveLower_inter (hr : r.lower ≤ r.upper) (h : ¬ r.Apart s) :
    (r.inter s).AboveLower x ↔ r.AboveLower x ∧ s.AboveLower x := by
  rcases lt_trichotomy r.lower s.lower with hlt | heq | hlt
  · have hiff : (r.inter s).AboveLower x ↔ s.AboveLower x := by
      simp only [AboveLower, lower_inter hr h, max_eq_right hlt.le]
      simp [inter, h, hlt.ne, hlt.not_gt]
    rw [hiff]
    exact ⟨fun hs => ⟨hs.of_lt hlt, hs⟩, And.right⟩
  · simp only [AboveLower, lower_inter hr h, heq, max_self]
    cases hc : r.lowerClosed <;> cases hd : s.lowerClosed <;>
      simp [inter, h, heq, hc, hd]
    · exact le_of_lt
    · exact le_of_lt
  · have hiff : (r.inter s).AboveLower x ↔ r.AboveLower x := by
      simp only [AboveLower, lower_inter hr h, max_eq_left hlt.le]
      simp [inter, h, hlt.ne', hlt]
    rw [hiff]
    exact ⟨fun hr => ⟨hr, hr.of_lt hlt⟩, And.left⟩

theorem belowUpper_inter (hr : r.lower ≤ r.upper) (h : ¬ r.Apart s) :
    (r.inter s).BelowUpper x ↔ r.BelowUpper x ∧ s.BelowUpper x := by
  rcases lt_trichotomy r.upper s.upper with hlt | heq | hlt
  · have hiff : (r.inter s).BelowUpper x ↔ r.BelowUpper x := by
      simp only [BelowUpper, upper_inter hr h, min_eq_left hlt.le]
      simp [inter, h, hlt.ne, hlt]
    rw [hiff]
    exact ⟨fun hr => ⟨hr, hr.of_lt hlt⟩, And.left⟩
  · simp only [BelowUpper, upper_inter hr h, heq, min_self]
    cases hc : r.upperClosed <;> cases hd : s.upperClosed <;>
      simp [inter, h, heq, hc, hd]
    · exact le_of_lt
    · exact le_of_lt
  · have hiff : (r.inter s).BelowUpper x ↔ s.BelowUpper x := by
      simp only [BelowUpper, upper_inter hr h, min_eq_right hlt.le]
      simp [inter, h, hlt.ne', hlt.not_gt]
    rw [hiff]
    exact ⟨fun hs => ⟨hs.of_lt hlt, hs⟩, And.right⟩

/-- The common part has what both ranges have. -/
theorem has_inter (hr : r.lower ≤ r.upper) (hs : s.lower ≤ s.upper) :
    (r.inter s).Has x ↔ r.Has x ∧ s.Has x := by
  by_cases h : r.Apart s
  · have hnot : ¬ (r.inter s).Has x := by
      rintro ⟨hlower, hupper⟩
      have heq := lower_inter_eq_upper_inter hr h hs
      simp only [AboveLower, BelowUpper, heq] at hlower hupper
      simp only [inter, h, if_true, Bool.false_eq_true, if_false] at hlower hupper
      exact lt_asymm hlower hupper
    exact iff_of_false hnot (not_has_of_apart h)
  · rw [Has, aboveLower_inter hr h, belowUpper_inter hr h]
    constructor
    · rintro ⟨⟨hr₁, hs₁⟩, hr₂, hs₂⟩
      exact ⟨⟨hr₁, hr₂⟩, hs₁, hs₂⟩
    · rintro ⟨⟨hr₁, hr₂⟩, hs₁, hs₂⟩
      exact ⟨⟨hr₁, hs₁⟩, hr₂, hs₂⟩

/-- The range with one value. -/
structure IsPoint (r : Range α) (x : α) : Prop where
  lower_eq : r.lower = x
  upper_eq : r.upper = x
  lowerClosed : r.lowerClosed = true
  upperClosed : r.upperClosed = true

theorem IsPoint.has (h : r.IsPoint x) : r.Has x := by
  constructor
  · simp [AboveLower, h.lowerClosed, h.lower_eq]
  · simp [BelowUpper, h.upperClosed, h.upper_eq]

/-- The ends of the common part when one of the ranges is a point. -/
theorem inter_eq_of_isPoint (hr : r.lower ≤ r.upper) (h : ¬ r.Apart s)
    (hx : r.IsPoint x ∨ s.IsPoint x) : (r.inter s).lower = x ∧ (r.inter s).upper = x := by
  rw [lower_inter hr h, upper_inter hr h]
  have hle := le_of_not_apart h
  rcases hx with hx | hx
  · rw [hx.upper_eq, hx.lower_eq] at *
    exact ⟨max_eq_left hle.1, min_eq_left hle.2⟩
  · rw [hx.upper_eq, hx.lower_eq] at *
    exact ⟨max_eq_right hle.2, min_eq_right hle.1⟩

theorem isPoint_inter (hr : r.lower ≤ r.upper) (hx : r.IsPoint x ∨ s.IsPoint x)
    (hclosed : (r.inter s).lowerClosed = true ∧ (r.inter s).upperClosed = true) :
    (r.inter s).IsPoint x := by
  have h : ¬ r.Apart s := by
    intro hapart
    simp [inter, hapart] at hclosed
  obtain ⟨hlower, hupper⟩ := inter_eq_of_isPoint hr h hx
  exact ⟨hlower, hupper, hclosed.1, hclosed.2⟩

/-- A point stays one when the other range has it. -/
theorem closed_inter_iff (hr : r.lower ≤ r.upper) (hs : s.lower ≤ s.upper)
    (hx : r.IsPoint x ∨ s.IsPoint x) :
    (r.inter s).lowerClosed = true ∧ (r.inter s).upperClosed = true ↔ r.Has x ∧ s.Has x := by
  by_cases h : r.Apart s
  · exact iff_of_false (by simp [inter, h]) (not_has_of_apart h)
  · obtain ⟨hlower, hupper⟩ := inter_eq_of_isPoint hr h hx
    rw [← has_inter hr hs, Has, ← aboveLower_lower, ← belowUpper_upper, hlower, hupper]

end Range

end Inet
