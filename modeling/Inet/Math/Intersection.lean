import Inet.Math.Interval
import Mathlib.Data.Fin.VecNotation

/-! # Intersecting intervals

The intersection of two intervals is in each dimension the common part of two
ranges, and its masks have in each place the flag of that common part. So it
passes the check of the constructor, it has the points of both intervals, and a
fixed dimension stays fixed where the other interval has its coordinate.
-/

namespace Inet.Math.Interval

variable {n : ℕ} {T : Fin n → Type} {a b c : Interval T} {i : Fin n}

theorem lowerClosed_range (hn : n ≤ 8) :
    (a.range i).lowerClosed = a.lowerClosed.getLsbD (place i) := by
  rw [Bool.eq_iff_iff, ← and_dimensionBit_ne_zero hn]
  exact decide_eq_true_iff

theorem upperClosed_range (hn : n ≤ 8) :
    (a.range i).upperClosed = a.upperClosed.getLsbD (place i) := by
  rw [Bool.eq_iff_iff, ← and_dimensionBit_ne_zero hn]
  exact decide_eq_true_iff

theorem isFixed_eq (hn : n ≤ 8) : a.isFixed i = a.fixed.getLsbD (place i) := by
  rw [Bool.eq_iff_iff, ← and_dimensionBit_ne_zero hn]
  exact decide_eq_true_iff

theorem eq_and_of_imp {mask other : BitVec 8}
    (h : ∀ k, mask.getLsbD k = true → other.getLsbD k = true) : mask = other &&& mask := by
  apply BitVec.eq_of_getLsbD_eq
  intro k _
  rw [BitVec.getLsbD_and]
  cases hk : mask.getLsbD k
  · simp
  · simp [h k hk]

variable [∀ i, LinearOrder (T i)]

/-- What the check of the constructor promises. -/
structure Valid (a : Interval T) : Prop where
  le : ∀ i, a.lower i ≤ a.upper i
  isPoint : ∀ i, a.isFixed i = true → (a.range i).IsPoint (a.lower i)
  lowerClosed_lt : ∀ k, a.lowerClosed.getLsbD k = true → k < n
  upperClosed_lt : ∀ k, a.upperClosed.getLsbD k = true → k < n
  fixed_lt : ∀ k, a.fixed.getLsbD k = true → k < n

theorem ite_throw_eq_ok {e : Error} {p : Prop} [Decidable p] {x : Except Error Unit} :
    (if p then throw e else x) = .ok () ↔ ¬ p ∧ x = .ok () := by
  split_ifs with h
  · simp [h]
  · simp [h]

theorem accepted_iff :
    a.Accepted ↔ (∀ i, a.lower i ≤ a.upper i) ∧
      (∀ i : Fin n, a.fixed &&& dimensionBit i ≠ 0 →
        a.lowerClosed &&& a.upperClosed &&& dimensionBit i ≠ 0 ∧ a.lower i = a.upper i) ∧
      a.lowerClosed = a.lowerClosed &&& dimensionMask n ∧
      a.upperClosed = a.upperClosed &&& dimensionMask n ∧
      a.fixed = a.fixed &&& dimensionMask n ∧
      a.fixed = a.lowerClosed &&& a.fixed ∧ a.fixed = a.upperClosed &&& a.fixed := by
  simp only [Accepted, checkImpl, ite_throw_eq_ok, not_not, ne_eq, Error.pure_eq_ok, and_true]

theorem Accepted.valid (hn : n ≤ 8) (h : a.Accepted) : a.Valid := by
  obtain ⟨hle, hfixed, hlower, hupper, hmask, -⟩ := accepted_iff.1 h
  have hlt {mask : BitVec 8} (heq : mask = mask &&& dimensionMask n) (k : ℕ)
      (hk : mask.getLsbD k = true) : k < n := by
    rw [heq, BitVec.getLsbD_and, getLsbD_dimensionMask hn, Bool.and_eq_true] at hk
    exact of_decide_eq_true hk.2
  constructor
  · exact hle
  · intro i hi
    obtain ⟨hclosed, heq⟩ := hfixed i (of_decide_eq_true hi)
    rw [and_dimensionBit_ne_zero hn, BitVec.getLsbD_and, Bool.and_eq_true] at hclosed
    constructor
    · rfl
    · exact heq.symm
    · rw [lowerClosed_range hn]
      exact hclosed.1
    · rw [upperClosed_range hn]
      exact hclosed.2
  · exact hlt hlower
  · exact hlt hupper
  · exact hlt hmask

theorem Valid.accepted (hn : n ≤ 8) (h : a.Valid) : a.Accepted := by
  have hclosed (k : ℕ) (hk : a.fixed.getLsbD k = true) :
      a.lowerClosed.getLsbD k = true ∧ a.upperClosed.getLsbD k = true := by
    obtain ⟨i, rfl⟩ := exists_place (h.fixed_lt k hk)
    have hpoint := h.isPoint i ((isFixed_eq hn).trans hk)
    rw [← lowerClosed_range hn, ← upperClosed_range hn]
    exact ⟨hpoint.lowerClosed, hpoint.upperClosed⟩
  rw [accepted_iff]
  refine ⟨h.le, fun i hi => ?_, eq_and_dimensionMask hn h.lowerClosed_lt,
    eq_and_dimensionMask hn h.upperClosed_lt, eq_and_dimensionMask hn h.fixed_lt,
    eq_and_of_imp fun k hk => (hclosed k hk).1, eq_and_of_imp fun k hk => (hclosed k hk).2⟩
  have hpoint := h.isPoint i (decide_eq_true hi)
  rw [and_dimensionBit_ne_zero hn] at hi
  rw [and_dimensionBit_ne_zero hn, BitVec.getLsbD_and, (hclosed _ hi).1, (hclosed _ hi).2]
  exact ⟨rfl, hpoint.upper_eq.symm⟩

theorem contains_iff {p : Point T} : a.contains p = true ↔ ∀ i, (a.range i).Has (p i) := by
  simp only [contains, Bool.and_eq_true, List.all_eq_true, List.mem_finRange, true_imp_iff,
    ← forall_and, Range.Has, Range.AboveLower, Range.BelowUpper, range, decide_eq_true_eq]
  apply forall_congr'
  intro i
  apply and_congr
  · split_ifs
    · exact decide_eq_true_iff
    · exact decide_eq_true_iff
  · split_ifs
    · exact decide_eq_true_iff
    · exact decide_eq_true_iff

theorem exists_getIntersected (hn : n ≤ 8) (ha : a.Valid) (b : Interval T) :
    ∃ c : Interval T, a.getIntersected b = (do c.checkImpl; pure c) ∧
      (∀ i, c.range i = (a.range i).inter (b.range i)) ∧
      (∀ i, c.isFixed i = ((a.isFixed i || b.isFixed i) &&
        ((c.range i).lowerClosed && (c.range i).upperClosed))) ∧
      (∀ k, c.lowerClosed.getLsbD k = true → k < n) ∧
      (∀ k, c.upperClosed.getLsbD k = true → k < n) ∧
      (∀ k, c.fixed.getLsbD k = true → c.lowerClosed.getLsbD k = true) := by
  refine ⟨_, rfl, fun i => ?_, fun i => ?_, fun k hk => lt_of_getLsbD_sumOfBits hn _ hk,
    fun k hk => lt_of_getLsbD_sumOfBits hn _ hk, fun k hk => ?_⟩
  · have hapart := (a.range i).apart_iff (s := b.range i) (ha.le i)
    ext
    · rfl
    · rfl
    · rw [lowerClosed_range hn, getLsbD_sumOfBits hn]
      simp only [apply_ite (BitVec.getLsbD · (place i)), BitVec.getLsbD_and,
        ← lowerClosed_range hn]
      exact if_congr hapart.symm BitVec.getLsbD_zero rfl
    · rw [upperClosed_range hn, getLsbD_sumOfBits hn]
      simp only [apply_ite (BitVec.getLsbD · (place i)), BitVec.getLsbD_and,
        ← upperClosed_range hn]
      exact if_congr (hapart.trans or_comm).symm BitVec.getLsbD_zero rfl
  · rw [isFixed_eq hn, isFixed_eq hn, isFixed_eq hn, lowerClosed_range hn, upperClosed_range hn]
    simp only [BitVec.getLsbD_and, BitVec.getLsbD_or, Bool.and_assoc]
  · rw [BitVec.getLsbD_and, BitVec.getLsbD_and, Bool.and_eq_true, Bool.and_eq_true] at hk
    exact hk.1.2

/-- What holds of the intersection of two valid intervals. -/
structure IsIntersection (a b c : Interval T) : Prop where
  valid : c.Valid
  range_eq : ∀ i, c.range i = (a.range i).inter (b.range i)
  isFixed_iff : ∀ i x, (a.range i).IsPoint x ∧ a.isFixed i = true ∨
    (b.range i).IsPoint x ∧ b.isFixed i = true →
      (c.isFixed i = true ↔ (a.range i).Has x ∧ (b.range i).Has x)

theorem Valid.exists_isIntersection (hn : n ≤ 8) (ha : a.Valid) (hb : b.Valid) :
    ∃ c, a.getIntersected b = .ok c ∧ IsIntersection a b c := by
  obtain ⟨c, heq, hrange, hfixed, hlower, hupper, hmask⟩ := exists_getIntersected hn ha b
  have hpoint (i : Fin n) (hi : c.isFixed i = true) : (c.range i).IsPoint (c.lower i) := by
    rw [hfixed, Bool.and_eq_true, Bool.or_eq_true, Bool.and_eq_true] at hi
    obtain ⟨hor, hclosed⟩ := hi
    rw [hrange] at hclosed
    have hx : (c.range i).IsPoint (a.lower i) ∨ (c.range i).IsPoint (b.lower i) := by
      rw [hrange]
      rcases hor with h | h
      · exact .inl (Range.isPoint_inter (ha.le i) (.inl (ha.isPoint i h)) hclosed)
      · exact .inr (Range.isPoint_inter (ha.le i) (.inr (hb.isPoint i h)) hclosed)
    rcases hx with hx | hx
    · rwa [← hx.lower_eq] at hx
    · rwa [← hx.lower_eq] at hx
  have hvalid : c.Valid := by
    refine ⟨fun i => ?_, hpoint, hlower, hupper, fun k hk => hlower k (hmask k hk)⟩
    have hle := Range.inter_le (r := a.range i) (s := b.range i) (ha.le i) (hb.le i)
    rwa [← hrange] at hle
  refine ⟨c, ?_, hvalid, hrange, fun i x hx => ?_⟩
  · rw [heq, hvalid.accepted hn]
    rfl
  · have hor : (a.range i).IsPoint x ∨ (b.range i).IsPoint x := hx.imp And.left And.left
    have hany : (a.isFixed i || b.isFixed i) = true :=
      Bool.or_eq_true_iff.2 (hx.imp And.right And.right)
    rw [hfixed, hany, Bool.true_and, Bool.and_eq_true, hrange]
    exact Range.closed_inter_iff (ha.le i) (hb.le i) hor

theorem IsIntersection.points_eq (h : IsIntersection a b c) (ha : a.Valid) (hb : b.Valid) :
    c.points = a.points ∩ b.points := by
  ext p
  simp only [points, Set.mem_inter_iff, Set.mem_ofPred_eq, contains_iff, h.range_eq]
  rw [← forall_and]
  exact forall_congr' fun i => Range.has_inter (ha.le i) (hb.le i)

theorem IsIntersection.eq_of_isFixed (h : IsIntersection a b c) (ha : a.Valid) {x : T i}
    (hx : (a.range i).IsPoint x ∨ (b.range i).IsPoint x) (hi : c.isFixed i = true) :
    c.lower i = x ∧ c.upper i = x := by
  have hpoint := h.valid.isPoint i hi
  have hclosed := hpoint.lowerClosed
  have hclosed' := hpoint.upperClosed
  rw [h.range_eq] at hclosed hclosed'
  have hinter := Range.isPoint_inter (ha.le i) hx ⟨hclosed, hclosed'⟩
  rw [← h.range_eq] at hinter
  exact ⟨hinter.lower_eq, hinter.upper_eq⟩

theorem Accepted.map_points (hn : n ≤ 8) (ha : a.Accepted) (hb : b.Accepted) :
    (a.getIntersected b).map points = .ok (a.points ∩ b.points) := by
  obtain ⟨c, heq, hc⟩ := (ha.valid hn).exists_isIntersection hn (hb.valid hn)
  rw [heq, ← hc.points_eq (ha.valid hn) (hb.valid hn)]
  rfl

/-- The intersection of two accepted intervals is accepted and has the points of both, and a fixed
dimension stays fixed, at its coordinate, if and only if the other interval has the coordinate. -/
theorem getIntersected_exact (hn : n ≤ 8) (ha : a.Accepted) (hb : b.Accepted) (hc : c.Accepted) :
    (∃ d, a.getIntersected b = .ok d ∧ d.Accepted ∧
      (∀ p, d.contains p = true ↔ a.contains p = true ∧ b.contains p = true) ∧
      ∀ i, (a.isFixed i = true → (d.isFixed i = true ↔ (b.range i).Has (a.lower i)) ∧
          (d.isFixed i = true → d.lower i = a.lower i ∧ d.upper i = a.lower i)) ∧
        (b.isFixed i = true → (d.isFixed i = true ↔ (a.range i).Has (b.lower i)) ∧
          (d.isFixed i = true → d.lower i = b.lower i ∧ d.upper i = b.lower i))) ∧
    (a.getIntersected b).map points = (b.getIntersected a).map points ∧
    (a.getIntersected b >>= fun d => d.getIntersected c).map points =
      (b.getIntersected c >>= fun d => a.getIntersected d).map points ∧
    (a.getIntersected a).map points = .ok a.points := by
  have hva := ha.valid hn
  have hvb := hb.valid hn
  obtain ⟨d, hd, hab⟩ := hva.exists_isIntersection hn hvb
  obtain ⟨e, he, hbc⟩ := hvb.exists_isIntersection hn (hc.valid hn)
  have hpoints := hab.points_eq hva hvb
  refine ⟨⟨d, hd, hab.valid.accepted hn, fun p => ?_, fun i => ⟨fun hi => ?_, fun hi => ?_⟩⟩,
    ?_, ?_, ?_⟩
  · exact Set.ext_iff.1 hpoints p
  · have hx := hva.isPoint i hi
    exact ⟨(hab.isFixed_iff i _ (.inl ⟨hx, hi⟩)).trans (and_iff_right hx.has),
      fun h => hab.eq_of_isFixed hva (.inl hx) h⟩
  · have hx := hvb.isPoint i hi
    exact ⟨(hab.isFixed_iff i _ (.inr ⟨hx, hi⟩)).trans (and_iff_left hx.has),
      fun h => hab.eq_of_isFixed hva (.inr hx) h⟩
  · rw [ha.map_points hn hb, hb.map_points hn ha, Set.inter_comm]
  · rw [hd, he, Error.ok_bind, Error.ok_bind, (hab.valid.accepted hn).map_points hn hc,
      ha.map_points hn (hbc.valid.accepted hn), hpoints, hbc.points_eq hvb (hc.valid hn),
      Set.inter_assoc]
  · rw [ha.map_points hn ha, Set.inter_self]

/-- Two intervals of two dimensions that touch, the second one fixed in its second dimension. -/
theorem getIntersected_exact_touching :
    ∃ a b d : Interval fun _ : Fin 2 => ℕ, a.isFixed 1 = false ∧ b.isFixed 1 = true ∧
      a.getIntersected b = .ok d ∧ d.Accepted ∧
      (∀ p, d.contains p = true ↔ a.contains p = true ∧ b.contains p = true) := by
  have ha : Accepted (T := fun _ : Fin 2 => ℕ) ⟨![1, 0], ![3, 4], 0b11, 0b10, 0b00⟩ :=
    accepted_iff.2 (by decide)
  have hb : Accepted (T := fun _ : Fin 2 => ℕ) ⟨![3, 4], ![5, 4], 0b11, 0b11, 0b01⟩ :=
    accepted_iff.2 (by decide)
  obtain ⟨⟨d, hd, haccepted, hcontains, -⟩, -⟩ := getIntersected_exact (by decide) ha hb ha
  exact ⟨_, _, d, by decide, by decide, hd, haccepted, hcontains⟩

end Inet.Math.Interval
