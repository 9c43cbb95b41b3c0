import Mathlib.Algebra.Order.Ring.Defs
import Mathlib.Algebra.BigOperators.Group.List.Basic
import Mathlib.Tactic.Linarith
import Mathlib.Tactic.Ring

/-! # Chains of reservoirs

A reservoir has a capacity, a rate at which it is filled, and a level between
zero and the capacity. In a chain, what one reservoir cannot hold is poured
into the next.
-/

namespace Inet

variable {K : Type*} [CommRing K] [LinearOrder K]

structure Reservoir (K : Type*) [CommRing K] [LinearOrder K] where
  capacity : K
  rate : K
  level : K
  capacity_pos : 0 < capacity
  rate_nonneg : 0 ≤ rate
  level_nonneg : 0 ≤ level
  level_le : level ≤ capacity

namespace Reservoir

/-- The level is set, within its bounds. -/
def setLevel (r : Reservoir K) (level : K) : Reservoir K where
  capacity := r.capacity
  rate := r.rate
  level := max 0 (min level r.capacity)
  capacity_pos := r.capacity_pos
  rate_nonneg := r.rate_nonneg
  level_nonneg := le_max_left _ _
  level_le := max_le r.capacity_pos.le (min_le_right _ _)

variable {r r' : Reservoir K} {rs : List (Reservoir K)} {a b level : K}

@[simp] theorem setLevel_capacity : (r.setLevel level).capacity = r.capacity := rfl

@[simp] theorem setLevel_rate : (r.setLevel level).rate = r.rate := rfl

theorem setLevel_level_of_le (h0 : 0 ≤ level) (h : level ≤ r.capacity) :
    (r.setLevel level).level = level := by
  simp only [setLevel]
  rw [min_eq_left h, max_eq_right h0]

theorem setLevel_level_of_ge (h : r.capacity ≤ level) :
    (r.setLevel level).level = r.capacity := by
  simp only [setLevel]
  rw [min_eq_right h, max_eq_right r.capacity_pos.le]

theorem setLevel_level_le (h0 : 0 ≤ level) : (r.setLevel level).level ≤ level :=
  max_le h0 (min_le_left _ _)

theorem ext_fields (hc : r.capacity = r'.capacity) (hr : r.rate = r'.rate)
    (hl : r.level = r'.level) : r = r' := by
  cases r
  cases r'
  simp_all

@[simp] theorem setLevel_twice : (r.setLevel a).setLevel b = r.setLevel b := rfl

@[simp] theorem setLevel_self : r.setLevel r.level = r :=
  ext_fields rfl rfl (setLevel_level_of_le r.level_nonneg r.level_le)

/-- A chain without room. -/
def Full (rs : List (Reservoir K)) : Prop := ∀ r ∈ rs, r.level = r.capacity

@[simp] theorem full_nil : Full ([] : List (Reservoir K)) := by
  simp [Full]

@[simp] theorem full_cons : Full (r :: rs) ↔ r.level = r.capacity ∧ Full rs := by
  simp [Full]

/-- The sum of the levels. -/
def total (rs : List (Reservoir K)) : K := (rs.map (·.level)).sum

/-- The sum of the rates. -/
def totalRate (rs : List (Reservoir K)) : K := (rs.map (·.rate)).sum

@[simp] theorem total_cons : total (r :: rs) = r.level + total rs := rfl

@[simp] theorem totalRate_cons : totalRate (r :: rs) = r.rate + totalRate rs := rfl

/-- What does not fit when an amount is added. -/
def overflow (r : Reservoir K) (amount : K) : K := max 0 (r.level + amount - r.capacity)

theorem overflow_nonneg : 0 ≤ r.overflow a := le_max_left _ _

/-- An amount is poured into the first reservoir of a chain. -/
def pour (amount : K) : List (Reservoir K) → List (Reservoir K)
  | [] => []
  | r :: rs => r.setLevel (r.level + amount) :: pour (r.overflow amount) rs

@[simp] theorem pour_eq_nil : pour a rs = [] ↔ rs = [] := by
  cases rs <;> simp [pour]

@[simp] theorem totalRate_pour (rs : List (Reservoir K)) :
    totalRate (pour a rs) = totalRate rs := by
  induction rs generalizing a with
  | nil => rfl
  | cons r rs ih => simp [pour, ih]

/-- Every reservoir is filled at its own rate for some time. -/
def grow (time : K) (rs : List (Reservoir K)) : List (Reservoir K) :=
  rs.map fun r => r.setLevel (r.level + r.rate * time)

@[simp] theorem grow_cons (time : K) :
    grow time (r :: rs) = r.setLevel (r.level + r.rate * time) :: grow time rs := rfl

@[simp] theorem grow_zero (rs : List (Reservoir K)) : grow 0 rs = rs := by
  simp [grow]

@[simp] theorem totalRate_grow (time : K) : totalRate (grow time rs) = totalRate rs := by
  induction rs with
  | nil => rfl
  | cons r rs ih => simp [ih]

/-- In the given time no reservoir that is filled reaches its capacity, unless the chain behind it
has no room either. -/
def Calm (time : K) : List (Reservoir K) → Prop
  | [] => True
  | r :: rs =>
    (r.rate = 0 ∨ r.level + r.rate * time < r.capacity ∨ Full rs) ∧ Calm time rs

variable [IsStrictOrderedRing K]

/-- Adding to a level and adding again. -/
theorem setLevel_setLevel (ha : 0 ≤ a) (hb : 0 ≤ b) :
    (r.setLevel (r.level + a)).setLevel ((r.setLevel (r.level + a)).level + b) =
      r.setLevel (r.level + (a + b)) := by
  have h0 := r.level_nonneg
  refine ext_fields rfl rfl ?_
  rw [setLevel_twice]
  rcases le_total r.capacity (r.level + a) with h | h
  · rw [setLevel_level_of_ge h, setLevel_level_of_ge (by linarith),
      setLevel_level_of_ge (by linarith)]
  · rw [setLevel_level_of_le (by linarith) h, add_assoc]

theorem overflow_of_le (h : r.level + a ≤ r.capacity) : r.overflow a = 0 :=
  max_eq_left (by linarith)

theorem overflow_of_ge (h : r.capacity ≤ r.level + a) :
    r.overflow a = r.level + a - r.capacity :=
  max_eq_right (by linarith)

@[simp] theorem overflow_zero : r.overflow 0 = 0 :=
  overflow_of_le (by simpa using r.level_le)

theorem overflow_setLevel (ha : 0 ≤ a) (hb : 0 ≤ b) :
    r.overflow a + (r.setLevel (r.level + a)).overflow b = r.overflow (a + b) := by
  have h0 := r.level_nonneg
  rcases le_total r.capacity (r.level + a) with h | h
  · have hl := setLevel_level_of_ge h
    rw [overflow_of_ge h, overflow_of_ge (by rw [hl, setLevel_capacity]; linarith),
      overflow_of_ge (by linarith), hl, setLevel_capacity]
    ring
  · have hl := setLevel_level_of_le (by linarith) h
    rw [overflow_of_le h, zero_add]
    simp only [overflow, hl, setLevel_capacity, add_assoc]

@[simp] theorem pour_zero (rs : List (Reservoir K)) : pour 0 rs = rs := by
  induction rs with
  | nil => rfl
  | cons r rs ih => simp [pour, ih]

theorem pour_pour (ha : 0 ≤ a) (hb : 0 ≤ b) (rs : List (Reservoir K)) :
    pour b (pour a rs) = pour (a + b) rs := by
  induction rs generalizing a b with
  | nil => rfl
  | cons r rs ih =>
    simp only [pour]
    rw [setLevel_setLevel ha hb, ih overflow_nonneg overflow_nonneg, overflow_setLevel ha hb]

theorem grow_grow (ha : 0 ≤ a) (hb : 0 ≤ b) (rs : List (Reservoir K)) :
    grow b (grow a rs) = grow (a + b) rs := by
  induction rs with
  | nil => rfl
  | cons r rs ih =>
    have hpa := mul_nonneg r.rate_nonneg ha
    have hpb := mul_nonneg r.rate_nonneg hb
    rw [grow_cons, grow_cons, grow_cons, ih, setLevel_rate, setLevel_setLevel hpa hpb, mul_add]

theorem setLevel_of_full (h : r.level = r.capacity) (ha : 0 ≤ a) :
    r.setLevel (r.level + a) = r :=
  ext_fields rfl rfl (by rw [setLevel_level_of_ge (by linarith), h])

theorem Full.grow_eq (h : Full rs) (ha : 0 ≤ a) : grow a rs = rs := by
  induction rs with
  | nil => rfl
  | cons r rs ih =>
    obtain ⟨hr, hrs⟩ := full_cons.1 h
    rw [grow_cons, ih hrs, setLevel_of_full hr (mul_nonneg r.rate_nonneg ha)]

theorem total_grow_le (ha : 0 ≤ a) (rs : List (Reservoir K)) :
    total (grow a rs) ≤ total rs + totalRate rs * a := by
  induction rs with
  | nil => simp [total, totalRate, grow]
  | cons r rs ih =>
    have hprod := mul_nonneg r.rate_nonneg ha
    have h0 := r.level_nonneg
    have hr : (r.setLevel (r.level + r.rate * a)).level ≤ r.level + r.rate * a :=
      setLevel_level_le (by linarith)
    rw [grow_cons, total_cons, total_cons, totalRate_cons]
    linarith

theorem Calm.mono (h : Calm b rs) (hab : a ≤ b) : Calm a rs := by
  induction rs with
  | nil => trivial
  | cons r rs ih =>
    obtain ⟨hr, hrs⟩ := h
    refine ⟨?_, ih hrs⟩
    rcases hr with hr | hr | hr
    · exact .inl hr
    · have := mul_le_mul_of_nonneg_left hab r.rate_nonneg
      exact .inr (.inl (by linarith))
    · exact .inr (.inr hr)

/-- A calm chain is calm in the rest of the time as well. -/
theorem Calm.grow (h : Calm (a + b) rs) (ha : 0 ≤ a) (hb : 0 ≤ b) : Calm b (grow a rs) := by
  induction rs with
  | nil => trivial
  | cons r rs ih =>
    obtain ⟨hr, hrs⟩ := h
    refine ⟨?_, ih hrs⟩
    rcases hr with hr | hr | hr
    · exact .inl hr
    · have hpa := mul_nonneg r.rate_nonneg ha
      have hpb := mul_nonneg r.rate_nonneg hb
      have h0 := r.level_nonneg
      have hl : (r.setLevel (r.level + r.rate * a)).level ≤ r.level + r.rate * a :=
        setLevel_level_le (by linarith)
      refine .inr (.inl ?_)
      rw [mul_add] at hr
      simp only [setLevel_rate, setLevel_capacity]
      linarith
    · have hsame : Full (Reservoir.grow a rs) := by rwa [hr.grow_eq ha]
      exact .inr (.inr hsame)

/-- An amount is taken from the first reservoir that has it. -/
def take (amount : K) : List (Reservoir K) → Option (ℕ × List (Reservoir K))
  | [] => none
  | r :: rs =>
    if amount ≤ r.level then some (0, r.setLevel (r.level - amount) :: rs)
    else (take amount rs).map fun p => (p.1 + 1, r :: p.2)

theorem take_spec (ha : 0 ≤ a) {p : ℕ × List (Reservoir K)} (h : take a rs = some p) :
    p.2.length = rs.length ∧ total p.2 = total rs - a ∧ totalRate p.2 = totalRate rs := by
  induction rs generalizing p with
  | nil => cases h
  | cons r rs ih =>
    simp only [take] at h
    split at h
    next hle =>
      obtain rfl := (Option.some.inj h).symm
      have hl := r.level_le
      have hlevel : (r.setLevel (r.level - a)).level = r.level - a :=
        setLevel_level_of_le (by linarith) (by linarith)
      simp only [List.length_cons, total_cons, totalRate_cons, hlevel, setLevel_rate, true_and,
        and_true]
      ring
    next =>
      obtain ⟨q, hq, rfl⟩ := Option.map_eq_some_iff.1 h
      obtain ⟨hlen, htotal, hrate⟩ := ih hq
      simp only [List.length_cons, total_cons, totalRate_cons, hlen, htotal, hrate, true_and,
        and_true]
      ring

end Reservoir

end Inet
