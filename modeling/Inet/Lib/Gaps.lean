import Mathlib.Order.Lattice
import Mathlib.Tactic.Order
import Mathlib.Data.List.Basic

/-! # Gaps between intervals

The half-open intervals of a list leave gaps in a range. A single sweep finds
all of them when the intervals that reach into the range come in their order.
-/

namespace Inet

variable {α : Type*} [LinearOrder α] {lo hi p : α} {x g : α × α} {xs : List (α × α)}

/-- Sweep from `lo` to `hi`, and note what lies before the next interval. -/
def gaps (hi : α) : List (α × α) → α → List (α × α)
  | [], lo => if lo < hi then [(lo, hi)] else []
  | x :: xs, lo =>
    if lo < x.1 then
      (lo, min x.1 hi) ::
        if hi ≤ max (min x.1 hi) x.2 then [] else gaps hi xs (max (min x.1 hi) x.2)
    else if hi ≤ max lo x.2 then [] else gaps hi xs (max lo x.2)

/-- A part of the range that no interval reaches into, between intervals or ends of the range. -/
structure IsGap (xs : List (α × α)) (lo hi : α) (g : α × α) : Prop where
  lt : g.1 < g.2
  lo_le : lo ≤ g.1
  le_hi : g.2 ≤ hi
  clear : ∀ x ∈ xs, x.2 ≤ g.1 ∨ g.2 ≤ x.1
  left : g.1 = lo ∨ ∃ x ∈ xs, x.2 = g.1
  right : g.2 = hi ∨ ∃ x ∈ xs, x.1 = g.2

/-- No interval crosses an end of the range, and those in the range come after those they follow. -/
structure Sweepable (xs : List (α × α)) (lo hi : α) : Prop where
  lt : ∀ x ∈ xs, x.1 < x.2
  lo_le : ∀ x ∈ xs, x.2 ≤ lo ∨ lo ≤ x.1
  le_hi : ∀ x ∈ xs, x.2 ≤ hi ∨ hi ≤ x.1
  ordered : xs.Pairwise fun x y => y.2 ≤ lo ∨ hi ≤ y.1 ∨ x.2 ≤ y.1

namespace Sweepable

theorem tail (h : Sweepable (x :: xs) lo hi) : Sweepable xs lo hi where
  lt := (List.forall_mem_cons.1 h.lt).2
  lo_le := (List.forall_mem_cons.1 h.lo_le).2
  le_hi := (List.forall_mem_cons.1 h.le_hi).2
  ordered := h.ordered.of_cons

/-- Behind an interval in the range the sweep goes on at its end. -/
theorem behind (h : Sweepable (x :: xs) lo hi) (hlo : lo ≤ x.1) (hhi : x.2 ≤ hi) :
    Sweepable xs x.2 hi where
  lt := h.tail.lt
  lo_le y hy := by
    have hlt := h.lt x List.mem_cons_self
    rcases (List.pairwise_cons.1 h.ordered).1 y hy with hle | hle | hle
    · exact Or.inl (hle.trans (hlo.trans hlt.le))
    · exact Or.inr (hhi.trans hle)
    · exact Or.inr hle
  le_hi := h.tail.le_hi
  ordered := h.tail.ordered.imp fun hxy =>
    hxy.imp_left fun hle => hle.trans (hlo.trans (h.lt x List.mem_cons_self).le)

end Sweepable

theorem gaps_cons_of_le (hx : x.1 < x.2) (hle : x.2 ≤ lo) (hlt : lo < hi) :
    gaps hi (x :: xs) lo = gaps hi xs lo := by
  rw [gaps, if_neg (by order), max_eq_left hle, if_neg (not_le.2 hlt)]

theorem gaps_cons_of_beyond (hle : hi ≤ x.1) (hlt : lo < hi) :
    gaps hi (x :: xs) lo = [(lo, hi)] := by
  rw [gaps, if_pos (by order), min_eq_right hle, if_pos (le_max_left _ _)]

theorem gaps_cons_of_mem (hx : x.1 < x.2) (hlo : lo ≤ x.1) (hhi : x.2 ≤ hi) :
    gaps hi (x :: xs) lo = (if lo < x.1 then [(lo, x.1)] else []) ++
      if x.2 = hi then [] else gaps hi xs x.2 := by
  have hend : hi ≤ x.2 ↔ x.2 = hi := ⟨hhi.antisymm, fun h => h.ge⟩
  rw [gaps, min_eq_left (by order), max_eq_right hx.le, max_eq_right (by order)]
  simp only [hend]
  split_ifs <;> rfl

/-- The interval at the head of the list, and what the sweep finds there. -/
theorem Sweepable.cases (h : Sweepable (x :: xs) lo hi) :
    x.2 ≤ lo ∨ hi ≤ x.1 ∨ lo ≤ x.1 ∧ x.2 ≤ hi := by
  rcases h.lo_le x List.mem_cons_self with hlo | hlo
  · exact Or.inl hlo
  · rcases h.le_hi x List.mem_cons_self with hhi | hhi
    · exact Or.inr (Or.inr ⟨hlo, hhi⟩)
    · exact Or.inr (Or.inl hhi)

theorem isGap_cons_of_le (hx : x.1 < x.2) (hle : x.2 ≤ lo) :
    IsGap (x :: xs) lo hi g ↔ IsGap xs lo hi g := by
  constructor
  · rintro ⟨hlt, hlo, hhi, hclear, hleft, hright⟩
    refine ⟨hlt, hlo, hhi, (List.forall_mem_cons.1 hclear).2, ?_, ?_⟩
    · grind
    · grind
  · rintro ⟨hlt, hlo, hhi, hclear, hleft, hright⟩
    exact ⟨hlt, hlo, hhi,
      List.forall_mem_cons.2 ⟨Or.inl (hle.trans hlo), hclear⟩, by grind, by grind⟩

theorem isGap_cons_of_beyond (h : Sweepable (x :: xs) lo hi) (hle : hi ≤ x.1) (hlt : lo < hi) :
    IsGap (x :: xs) lo hi g ↔ g = (lo, hi) := by
  have hbeyond := (List.pairwise_cons.1 h.ordered).1
  have hpos := h.lt
  constructor
  · rintro ⟨hlt, hlo, hhi, hclear, hleft, hright⟩
    refine Prod.ext ?_ ?_
    · grind
    · grind
  · rintro rfl
    refine ⟨hlt, le_rfl, le_rfl, ?_, Or.inl rfl, Or.inl rfl⟩
    grind

theorem isGap_cons_of_mem (h : Sweepable (x :: xs) lo hi) (hlo : lo ≤ x.1) (hhi : x.2 ≤ hi) :
    IsGap (x :: xs) lo hi g ↔
      (lo < x.1 ∧ g = (lo, x.1)) ∨ (x.2 ≠ hi ∧ IsGap xs x.2 hi g) := by
  have hbeyond := (List.pairwise_cons.1 h.ordered).1
  have hpos := h.lt
  constructor
  · rintro ⟨hlt, hg, hg', hclear, hleft, hright⟩
    rcases hclear x List.mem_cons_self with hx | hx
    · right
      refine ⟨by grind, hlt, hx, hg', (List.forall_mem_cons.1 hclear).2, ?_, ?_⟩
      · grind
      · grind
    · left
      have hg₁ : g.1 = lo := by grind
      have hg₂ : g.2 = x.1 := by grind
      exact ⟨by grind, Prod.ext hg₁ hg₂⟩
  · rintro (⟨hlt, rfl⟩ | ⟨hne, hlt, hg, hg', hclear, hleft, hright⟩)
    · refine ⟨hlt, le_rfl, by grind, by grind, Or.inl rfl, Or.inr ⟨x, by simp, rfl⟩⟩
    · refine ⟨hlt, by grind, hg', by grind, Or.inr ?_, by grind⟩
      grind

/-- The sweep finds the gaps, and nothing else. -/
theorem mem_gaps_iff (h : Sweepable xs lo hi) (hlt : lo < hi) :
    g ∈ gaps hi xs lo ↔ IsGap xs lo hi g := by
  induction xs generalizing lo with
  | nil =>
    rw [gaps, if_pos hlt, List.mem_singleton]
    constructor
    · rintro rfl
      exact ⟨hlt, le_rfl, le_rfl, by simp, Or.inl rfl, Or.inl rfl⟩
    · rintro ⟨-, -, -, -, hleft, hright⟩
      simp only [List.not_mem_nil, false_and, exists_false, or_false] at hleft hright
      exact Prod.ext hleft hright
  | cons x xs ih =>
    have hx := h.lt x List.mem_cons_self
    rcases h.cases with hle | hle | ⟨hlo, hhi⟩
    · rw [gaps_cons_of_le hx hle hlt, isGap_cons_of_le hx hle, ih h.tail hlt]
    · rw [gaps_cons_of_beyond hle hlt, isGap_cons_of_beyond h hle hlt, List.mem_singleton]
    · rw [gaps_cons_of_mem hx hlo hhi, isGap_cons_of_mem h hlo hhi, List.mem_append]
      refine or_congr ?_ ?_
      · split_ifs with hgap <;> simp [hgap]
      · split_ifs with hend
        · simp [hend]
        · rw [ih (h.behind hlo hhi) (hhi.lt_of_ne hend)]
          simp [hend]

theorem pairwise_gaps (h : Sweepable xs lo hi) (hlt : lo < hi) :
    (gaps hi xs lo).Pairwise fun g g' => g.2 ≤ g'.1 := by
  induction xs generalizing lo with
  | nil =>
    rw [gaps, if_pos hlt]
    exact List.pairwise_singleton _ _
  | cons x xs ih =>
    have hx := h.lt x List.mem_cons_self
    rcases h.cases with hle | hle | ⟨hlo, hhi⟩
    · rw [gaps_cons_of_le hx hle hlt]
      exact ih h.tail hlt
    · rw [gaps_cons_of_beyond hle hlt]
      exact List.pairwise_singleton _ _
    · rw [gaps_cons_of_mem hx hlo hhi, List.pairwise_append]
      refine ⟨by split_ifs <;> simp, ?_, ?_⟩
      · split_ifs with hend
        · exact List.Pairwise.nil
        · exact ih (h.behind hlo hhi) (hhi.lt_of_ne hend)
      · intro g hg g' hg'
        split_ifs at hg hg' with hgap hend
        · cases hg'
        · rw [List.mem_singleton.1 hg]
          exact hx.le.trans ((mem_gaps_iff (h.behind hlo hhi) (hhi.lt_of_ne hend)).1 hg').lo_le
        all_goals cases hg

/-- Every position of the range that is in no interval is in a gap. -/
theorem exists_mem_gaps (h : Sweepable xs lo hi) (hlo : lo ≤ p) (hhi : p < hi)
    (hp : ∀ x ∈ xs, p < x.1 ∨ x.2 ≤ p) : ∃ g ∈ gaps hi xs lo, g.1 ≤ p ∧ p < g.2 := by
  induction xs generalizing lo with
  | nil =>
    rw [gaps, if_pos (hlo.trans_lt hhi)]
    exact ⟨(lo, hi), List.mem_singleton_self _, hlo, hhi⟩
  | cons x xs ih =>
    obtain ⟨hpx, hp⟩ := List.forall_mem_cons.1 hp
    have hlt := hlo.trans_lt hhi
    have hx := h.lt x List.mem_cons_self
    rcases h.cases with hle | hle | ⟨hxlo, hxhi⟩
    · rw [gaps_cons_of_le hx hle hlt]
      exact ih h.tail hlo hp
    · rw [gaps_cons_of_beyond hle hlt]
      exact ⟨(lo, hi), List.mem_singleton_self _, hlo, hhi⟩
    · rw [gaps_cons_of_mem hx hxlo hxhi]
      rcases hpx with hpx | hpx
      · refine ⟨(lo, x.1), List.mem_append_left _ ?_, hlo, hpx⟩
        rw [if_pos (hlo.trans_lt hpx)]
        exact List.mem_singleton_self _
      · obtain ⟨g, hg, hin⟩ := ih (h.behind hxlo hxhi) hpx hp
        refine ⟨g, List.mem_append_right _ ?_, hin⟩
        rw [if_neg (hpx.trans_lt hhi).ne]
        exact hg

theorem gaps_bounds (hlt : lo < hi) (hg : g ∈ gaps hi xs lo) : lo ≤ g.1 ∧ g.1 < g.2 := by
  induction xs generalizing lo with
  | nil =>
    rw [gaps, if_pos hlt] at hg
    rw [List.mem_singleton.1 hg]
    exact ⟨le_rfl, hlt⟩
  | cons x xs ih =>
    rw [gaps] at hg
    split_ifs at hg with hgap hend hend
    · rw [List.mem_singleton.1 hg]
      exact ⟨le_rfl, lt_min hgap hlt⟩
    · rcases List.mem_cons.1 hg with rfl | hg
      · exact ⟨le_rfl, lt_min hgap hlt⟩
      · obtain ⟨hle, hg⟩ := ih (not_le.1 hend) hg
        exact ⟨(lt_min hgap hlt).le.trans ((le_max_left _ _).trans hle), hg⟩
    · cases hg
    · obtain ⟨hle, hg⟩ := ih (not_le.1 hend) hg
      exact ⟨(le_max_left _ _).trans hle, hg⟩

/-- Where the sweep fills no position twice, the intervals come in their order. -/
theorem ordered_of_clear (hlt : lo < hi) (hpos : ∀ x ∈ xs, x.1 < x.2)
    (hlo : ∀ x ∈ xs, x.2 ≤ lo ∨ lo ≤ x.1) (hhi : ∀ x ∈ xs, x.2 ≤ hi ∨ hi ≤ x.1)
    (hdisjoint : xs.Pairwise fun x y => x.2 ≤ y.1 ∨ y.2 ≤ x.1)
    (hclear : ∀ g ∈ gaps hi xs lo, ∀ x ∈ xs, x.2 ≤ g.1 ∨ g.2 ≤ x.1) :
    xs.Pairwise fun x y => y.2 ≤ lo ∨ hi ≤ y.1 ∨ x.2 ≤ y.1 := by
  induction xs generalizing lo with
  | nil => exact List.Pairwise.nil
  | cons x xs ih =>
    obtain ⟨hx, hpos⟩ := List.forall_mem_cons.1 hpos
    obtain ⟨hxlo, hlo⟩ := List.forall_mem_cons.1 hlo
    obtain ⟨hxhi, hhi⟩ := List.forall_mem_cons.1 hhi
    obtain ⟨hdx, hdisjoint⟩ := List.pairwise_cons.1 hdisjoint
    have htail (g : α × α) (hg : g ∈ gaps hi (x :: xs) lo) :=
      (List.forall_mem_cons.1 (hclear g hg)).2
    rcases hxlo with hle | hxlo
    · rw [gaps_cons_of_le hx hle hlt] at htail
      refine List.pairwise_cons.2 ⟨fun y hy => ?_, ih hlt hpos hlo hhi hdisjoint htail⟩
      exact (hlo y hy).imp_right fun hy => Or.inr (hle.trans hy)
    rcases hxhi with hxhi | hle
    · rw [gaps_cons_of_mem hx hxlo hxhi] at htail
      -- before the interval there is nothing, behind it the sweep goes on
      have hbefore (y : α × α) (hy : y ∈ xs) : y.2 ≤ lo ∨ x.2 ≤ y.1 := by
        have hyx := hdx y hy
        have hypos := hpos y hy
        by_cases hgap : lo < x.1
        · rw [if_pos hgap] at htail
          have := htail (lo, x.1) (by simp) y hy
          grind
        · grind
      refine List.pairwise_cons.2 ⟨fun y hy => (hbefore y hy).imp_right Or.inr, ?_⟩
      by_cases hend : x.2 = hi
      · refine List.pairwise_of_forall_mem_list fun y _ z hz => ?_
        exact (hbefore z hz).imp_right fun hz => Or.inl (hend ▸ hz)
      · rw [if_neg hend] at htail
        have hrest := ih (hxhi.lt_of_ne hend) hpos
          (fun y hy => (hbefore y hy).imp_left fun hle => hle.trans (hxlo.trans hx.le)) hhi
            hdisjoint
          fun g hg => htail g (List.mem_append_right _ hg)
        refine hrest.imp_of_mem fun {y z} _ hz hyz => ?_
        have hzpos := hpos z hz
        have hzbefore := hbefore z hz
        grind
    · rw [gaps_cons_of_beyond hle hlt] at htail
      have hout (y : α × α) (hy : y ∈ xs) := htail (lo, hi) (by simp) y hy
      refine List.pairwise_cons.2 ⟨fun y hy => (hout y hy).imp_right Or.inl, ?_⟩
      exact List.pairwise_of_forall_mem_list fun y _ z hz => (hout z hz).imp_right Or.inl

end Inet
