import Mathlib.Data.List.Pairwise
import Mathlib.Data.Set.Basic
import Mathlib.Tactic.Common

/-! # Separated intervals

Closed intervals of numbers in their order, with a number left out between any
two of them. A number next to an interval extends it, joins it with the next
one, or makes an interval of its own; a number in an interval shortens it,
splits it, or takes it away.
-/

namespace Inet.Intervals

/-- The numbers of the intervals. -/
def Covers (l : List (ℕ × ℕ)) (p : ℕ) : Prop := ∃ x ∈ l, x.1 ≤ p ∧ p ≤ x.2

structure Separated (l : List (ℕ × ℕ)) : Prop where
  le : ∀ x ∈ l, x.1 ≤ x.2
  apart : l.Pairwise fun x y => x.2 + 2 ≤ y.1

/-- All numbers up to one have a property, and the next one has not. -/
def Reaches (P : ℕ → Prop) (c : ℕ) : Prop := (∀ p ≤ c, P p) ∧ ¬ P (c + 1)

/-- The second list has the numbers of the first one and one more. -/
structure Adds (l : List (ℕ × ℕ)) (d : ℕ) (l' : List (ℕ × ℕ)) : Prop where
  separated : Separated l'
  covers : ∀ p, Covers l' p ↔ Covers l p ∨ p = d

/-- The second list has the numbers of the first one but for one. -/
structure Removes (l : List (ℕ × ℕ)) (d : ℕ) (l' : List (ℕ × ℕ)) : Prop where
  separated : Separated l'
  covers : ∀ p, Covers l' p ↔ Covers l p ∧ p ≠ d

variable {l l₁ l₂ A B : List (ℕ × ℕ)} {x a b : ℕ × ℕ} {d p : ℕ}

theorem Reaches.congr {P Q : ℕ → Prop} (h : Reaches P d) (hiff : ∀ p, P p ↔ Q p) : Reaches Q d :=
  ⟨fun p hp => (hiff p).1 (h.1 p hp), mt (hiff _).2 h.2⟩

/-- A property of more numbers reaches further. -/
theorem Reaches.le {P Q : ℕ → Prop} {c : ℕ} (hP : Reaches P c) (hQ : Reaches Q d)
    (hsub : ∀ p, P p → Q p) : c ≤ d := by
  by_contra hlt
  exact hQ.2 (hsub _ (hP.1 _ (Nat.lt_of_not_ge hlt)))

theorem not_covers_nil : ¬ Covers [] p := by
  rintro ⟨x, hx, -⟩
  cases hx

theorem covers_cons : Covers (x :: l) p ↔ (x.1 ≤ p ∧ p ≤ x.2) ∨ Covers l p := by
  constructor
  · rintro ⟨y, hy, hp⟩
    rcases List.mem_cons.1 hy with rfl | hy
    · exact .inl hp
    · exact .inr ⟨y, hy, hp⟩
  · rintro (hp | ⟨y, hy, hp⟩)
    · exact ⟨x, List.mem_cons_self, hp⟩
    · exact ⟨y, List.mem_cons_of_mem x hy, hp⟩

theorem covers_append : Covers (l₁ ++ l₂) p ↔ Covers l₁ p ∨ Covers l₂ p := by
  constructor
  · rintro ⟨x, hx, hp⟩
    rcases List.mem_append.1 hx with hx | hx
    · exact .inl ⟨x, hx, hp⟩
    · exact .inr ⟨x, hx, hp⟩
  · rintro (⟨x, hx, hp⟩ | ⟨x, hx, hp⟩)
    · exact ⟨x, List.mem_append_left l₂ hx, hp⟩
    · exact ⟨x, List.mem_append_right l₁ hx, hp⟩

theorem separated_nil : Separated [] := ⟨List.forall_mem_nil _, .nil⟩

theorem separated_cons :
    Separated (x :: l) ↔ x.1 ≤ x.2 ∧ (∀ y ∈ l, x.2 + 2 ≤ y.1) ∧ Separated l := by
  constructor
  · rintro ⟨hle, hapart⟩
    obtain ⟨hx, hapart⟩ := List.pairwise_cons.1 hapart
    exact ⟨hle x List.mem_cons_self, hx, fun y hy => hle y (List.mem_cons_of_mem x hy), hapart⟩
  · rintro ⟨hx, hapart, hl⟩
    exact ⟨List.forall_mem_cons.2 ⟨hx, hl.le⟩, List.pairwise_cons.2 ⟨hapart, hl.apart⟩⟩

theorem separated_append : Separated (l₁ ++ l₂) ↔
    Separated l₁ ∧ Separated l₂ ∧ ∀ x ∈ l₁, ∀ y ∈ l₂, x.2 + 2 ≤ y.1 := by
  constructor
  · rintro ⟨hle, hapart⟩
    obtain ⟨h₁, h₂, h⟩ := List.pairwise_append.1 hapart
    exact ⟨⟨fun x hx => hle x (List.mem_append_left l₂ hx), h₁⟩,
      ⟨fun x hx => hle x (List.mem_append_right l₁ hx), h₂⟩, h⟩
  · rintro ⟨⟨hle₁, h₁⟩, ⟨hle₂, h₂⟩, h⟩
    exact ⟨List.forall_mem_append.2 ⟨hle₁, hle₂⟩, List.pairwise_append.2 ⟨h₁, h₂, h⟩⟩

/-- What it takes for an interval to stand between two lists. -/
theorem separated_between : Separated (A ++ x :: B) ↔ Separated A ∧ Separated B ∧
    x.1 ≤ x.2 ∧ (∀ y ∈ A, y.2 + 2 ≤ x.1) ∧ (∀ y ∈ B, x.2 + 2 ≤ y.1) := by
  rw [separated_append, separated_cons]
  constructor
  · rintro ⟨hA, ⟨hx, hxB, hB⟩, hAB⟩
    exact ⟨hA, hB, hx, fun y hy => hAB y hy x List.mem_cons_self, hxB⟩
  · rintro ⟨hA, hB, hx, hAx, hxB⟩
    refine ⟨hA, ⟨hx, hxB, hB⟩, fun y hy z hz => ?_⟩
    rcases List.mem_cons.1 hz with rfl | hz
    · exact hAx y hy
    · have := hAx y hy
      have := hxB z hz
      omega

theorem covers_between :
    Covers (A ++ x :: B) p ↔ (x.1 ≤ p ∧ p ≤ x.2) ∨ Covers A p ∨ Covers B p := by
  rw [covers_append, covers_cons]
  exact or_left_comm

theorem Covers.of_take (h : Covers (l.take d) p) : Covers l p := by
  obtain ⟨x, hx, hp⟩ := h
  exact ⟨x, List.mem_of_mem_take hx, hp⟩

namespace Separated

theorem take (h : Separated l) (k : ℕ) : Separated (l.take k) :=
  ⟨fun x hx => h.le x (List.mem_of_mem_take hx), h.apart.sublist (List.take_sublist k l)⟩

/-- The first interval is reached, and the number behind it is left out. -/
theorem reaches {c : ℕ} (h : Separated ((0, c) :: l)) : Reaches (Covers ((0, c) :: l)) c := by
  obtain ⟨-, hbehind, -⟩ := separated_cons.1 h
  refine ⟨fun p hp => covers_cons.2 (.inl ⟨p.zero_le, hp⟩), fun hnext => ?_⟩
  rcases covers_cons.1 hnext with hp | ⟨x, hx, hp⟩
  · dsimp only at hp
    omega
  · have hlt := hbehind x hx
    dsimp only at hlt
    omega

/-! ## Another origin -/

/-- The numbers from the end of the first interval on. -/
def shift (c : ℕ) (x : ℕ × ℕ) : ℕ × ℕ := (x.1 - c, x.2 - c)

theorem map_shift {c : ℕ} (h : Separated ((0, c) :: l)) :
    Separated ((0, 0) :: l.map (shift c)) := by
  obtain ⟨-, hbehind, hl⟩ := separated_cons.1 h
  refine separated_cons.2 ⟨le_rfl, fun y hy => ?_, ⟨fun y hy => ?_, ?_⟩⟩
  · obtain ⟨x, hx, rfl⟩ := List.mem_map.1 hy
    have hlt := hbehind x hx
    change 0 + 2 ≤ x.1 - c
    dsimp only at hlt
    omega
  · obtain ⟨x, hx, rfl⟩ := List.mem_map.1 hy
    exact Nat.sub_le_sub_right (hl.le x hx) c
  · refine List.pairwise_map.2 (hl.apart.imp_of_mem fun {x y} hx _ hxy => ?_)
    have hlt := hbehind x hx
    have hle := hl.le x hx
    change x.2 - c + 2 ≤ y.1 - c
    dsimp only at hlt
    omega

theorem covers_map_shift {c : ℕ} (h : Separated ((0, c) :: l)) :
    Covers ((0, 0) :: l.map (shift c)) p ↔ Covers ((0, c) :: l) (p + c) := by
  obtain ⟨-, hbehind, hl⟩ := separated_cons.1 h
  rw [covers_cons, covers_cons]
  constructor
  · rintro (hp | ⟨y, hy, hp⟩)
    · exact .inl (by omega)
    · obtain ⟨x, hx, rfl⟩ := List.mem_map.1 hy
      have hlt := hbehind x hx
      have hle := hl.le x hx
      dsimp only [shift] at hp hlt
      exact .inr ⟨x, hx, by omega⟩
  · rintro (hp | ⟨x, hx, hp⟩)
    · exact .inl (by dsimp only at hp; omega)
    · have hlt := hbehind x hx
      refine .inr ⟨shift c x, List.mem_map_of_mem hx, ?_⟩
      dsimp only [shift] at hlt ⊢
      omega

/-- Numbers of the list before an interval are before it. -/
theorem lt_of_covers_left (h : Separated (A ++ x :: B)) (hp : Covers A p) : p + 2 ≤ x.1 := by
  obtain ⟨y, hy, -, hle⟩ := hp
  have := (separated_between.1 h).2.2.2.1 y hy
  omega

theorem lt_of_covers_right (h : Separated (A ++ x :: B)) (hp : Covers B p) : x.2 + 2 ≤ p := by
  obtain ⟨y, hy, hle, -⟩ := hp
  have := (separated_between.1 h).2.2.2.2 y hy
  omega

/-! ## One number more -/

/-- A number is put between two intervals. -/
theorem insert (h : Separated (A ++ B)) (hA : ∀ y ∈ A, y.2 + 2 ≤ d) (hB : ∀ y ∈ B, d + 2 ≤ y.1) :
    Adds (A ++ B) d (A ++ (d, d) :: B) := by
  obtain ⟨h₁, h₂, -⟩ := separated_append.1 h
  refine ⟨separated_between.2 ⟨h₁, h₂, le_rfl, hA, hB⟩, fun p => ?_⟩
  rw [covers_between, covers_append]
  constructor
  · rintro (hp | hp)
    · exact .inr (by omega)
    · exact .inl hp
  · rintro (hp | rfl)
    · exact .inr hp
    · exact .inl ⟨le_rfl, le_rfl⟩

/-- An interval is replaced by one with one number more. -/
theorem replace (h : Separated (A ++ b :: B))
    (hcovers : ∀ p, (b.1 ≤ p ∧ p ≤ b.2) ↔ (a.1 ≤ p ∧ p ≤ a.2) ∨ p = d) :
    Adds (A ++ a :: B) d (A ++ b :: B) := by
  refine ⟨h, fun p => ?_⟩
  rw [covers_between, covers_between, hcovers, or_right_comm]

/-- An interval is extended to the front. -/
theorem lower (h : Separated (A ++ b :: B)) (hd : d + 1 = b.1) (hA : ∀ y ∈ A, y.2 + 2 ≤ d) :
    Adds (A ++ b :: B) d (A ++ (d, b.2) :: B) := by
  obtain ⟨h₁, h₂, hle, -, hB⟩ := separated_between.1 h
  apply replace
  · exact separated_between.2 ⟨h₁, h₂, by dsimp only; omega, hA, hB⟩
  · intro p
    dsimp only
    omega

/-- An interval is extended to the back. -/
theorem raise (h : Separated (A ++ a :: B)) (hd : d = a.2 + 1) (hB : ∀ y ∈ B, d + 2 ≤ y.1) :
    Adds (A ++ a :: B) d (A ++ (a.1, d) :: B) := by
  obtain ⟨h₁, h₂, hle, hA, -⟩ := separated_between.1 h
  apply replace
  · exact separated_between.2 ⟨h₁, h₂, by dsimp only; omega, hA, hB⟩
  · intro p
    dsimp only
    omega

/-- Two intervals are joined by the number between them. -/
theorem join (h : Separated (A ++ a :: b :: B)) (hd : d = a.2 + 1) (hd' : d + 1 = b.1) :
    Adds (A ++ a :: b :: B) d (A ++ (a.1, b.2) :: B) := by
  obtain ⟨h₁, hb, ha, hA, -⟩ := separated_between.1 h
  obtain ⟨hle, hB, h₂⟩ := separated_cons.1 hb
  refine ⟨separated_between.2 ⟨h₁, h₂, by dsimp only; omega, hA, hB⟩, fun p => ?_⟩
  rw [covers_between, covers_between, covers_cons]
  dsimp only
  constructor
  · rintro (hp | hp | hp)
    · by_cases heq : p = d
      · exact .inr heq
      · by_cases hlt : p < d
        · exact .inl (.inl (by omega))
        · exact .inl (.inr (.inr (.inl (by omega))))
    · exact .inl (.inr (.inl hp))
    · exact .inl (.inr (.inr (.inr hp)))
  · rintro ((hp | hp | hp | hp) | rfl)
    · exact .inl (by omega)
    · exact .inr (.inl hp)
    · exact .inl (by omega)
    · exact .inr (.inr hp)
    · exact .inl (by omega)

/-! ## One number less -/

/-- What stands in the place of an interval has its numbers but for one. -/
theorem removes_of_place (h : Separated (A ++ x :: B)) (hd : x.1 ≤ d ∧ d ≤ x.2)
    (hl : Separated l) (hcovers : ∀ p, Covers l p ↔ (x.1 ≤ p ∧ p ≤ x.2) ∧ p ≠ d)
    (hplace : ∀ y ∈ l, x.1 ≤ y.1 ∧ y.2 ≤ x.2) : Removes (A ++ x :: B) d (A ++ (l ++ B)) := by
  obtain ⟨h₁, h₂, hle, hA, hB⟩ := separated_between.1 h
  refine ⟨separated_append.2 ⟨h₁, separated_append.2 ⟨hl, h₂, fun y hy z hz => ?_⟩,
    fun y hy z hz => ?_⟩, fun p => ?_⟩
  · have := (hplace y hy).2
    have := hB z hz
    omega
  · rcases List.mem_append.1 hz with hz | hz
    · have := hA y hy
      have := (hplace z hz).1
      omega
    · have := hA y hy
      have := hB z hz
      omega
  · rw [covers_between, covers_append, covers_append, hcovers]
    have hleft := @lt_of_covers_left A B x p h
    have hright := @lt_of_covers_right A B x p h
    constructor
    · rintro (hp | hp | hp)
      · exact ⟨.inr (.inl hp), by have := hleft hp; omega⟩
      · exact ⟨.inl hp.1, hp.2⟩
      · exact ⟨.inr (.inr hp), by have := hright hp; omega⟩
    · rintro ⟨hp | hp | hp, hne⟩
      · exact .inr (.inl ⟨hp, hne⟩)
      · exact .inl hp
      · exact .inr (.inr hp)

/-- An interval loses its last number. -/
theorem removes_last (h : Separated (A ++ x :: B)) (hlt : x.1 < x.2) :
    Removes (A ++ x :: B) x.2 (A ++ (x.1, x.2 - 1) :: B) := by
  refine h.removes_of_place (l := [(x.1, x.2 - 1)]) ⟨hlt.le, le_rfl⟩
    ⟨List.forall_mem_singleton.2 (by dsimp only; omega), List.pairwise_singleton _ _⟩ (fun p => ?_)
    (List.forall_mem_singleton.2 (by dsimp only; omega))
  rw [covers_cons]
  simp only [not_covers_nil, or_false]
  omega

/-- An interval loses its first number. -/
theorem removes_first (h : Separated (A ++ x :: B)) (hlt : x.1 < x.2) :
    Removes (A ++ x :: B) x.1 (A ++ (x.1 + 1, x.2) :: B) := by
  refine h.removes_of_place (l := [(x.1 + 1, x.2)]) ⟨le_rfl, hlt.le⟩
    ⟨List.forall_mem_singleton.2 (by dsimp only; omega), List.pairwise_singleton _ _⟩ (fun p => ?_)
    (List.forall_mem_singleton.2 (by dsimp only; omega))
  rw [covers_cons]
  simp only [not_covers_nil, or_false]
  omega

/-- An interval is split. -/
theorem removes_inner (h : Separated (A ++ x :: B)) (hlt : x.1 < d) (hgt : d < x.2) :
    Removes (A ++ x :: B) d (A ++ (x.1, d - 1) :: (d + 1, x.2) :: B) := by
  refine h.removes_of_place (l := [(x.1, d - 1), (d + 1, x.2)]) ⟨hlt.le, hgt.le⟩ ?_ (fun p => ?_) ?_
  · refine separated_cons.2
      ⟨by dsimp only; omega, List.forall_mem_singleton.2 (by dsimp only; omega),
      List.forall_mem_singleton.2 (by dsimp only; omega), List.pairwise_singleton _ _⟩
  · rw [covers_cons, covers_cons]
    simp only [not_covers_nil, or_false]
    omega
  · intro y hy
    simp only [List.mem_cons, List.not_mem_nil, or_false] at hy
    rcases hy with rfl | rfl
    · dsimp only
      omega
    · dsimp only
      omega

/-- An interval of one number is taken away. -/
theorem removes_single (h : Separated (A ++ x :: B)) (heq : x.1 = d) (heq' : x.2 = d) :
    Removes (A ++ x :: B) d (A ++ B) := by
  refine h.removes_of_place (l := []) ⟨heq.le, heq'.ge⟩ separated_nil (fun p => ?_)
    (List.forall_mem_nil _)
  simp only [not_covers_nil, false_iff]
  omega

end Separated

end Inet.Intervals
