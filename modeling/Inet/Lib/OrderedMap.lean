import Mathlib.Data.List.Sort
import Mathlib.Data.List.TakeWhile

/-! # Ordered maps

`std::map` is an ordered tree map whose keys are equal where they compare as
equal. Lookups after an insertion or a removal are written with equality, and
a strictly ordered list is known by its elements.
-/

namespace Inet.OrderedMap

variable {α β : Type} [Ord α]

/-- The order of the keys of a map. -/
def StrictlySorted (l : List α) : Prop := l.Pairwise fun a b => compare a b = .lt

theorem StrictlySorted.filter {l : List α} (h : StrictlySorted l) (p : α → Bool) :
    StrictlySorted (l.filter p) :=
  List.Pairwise.filter p h

section Lookup

variable [Std.TransOrd α]

theorem mem_iff_ne_none {m : Std.ExtTreeMap α β} {a : α} : a ∈ m ↔ m[a]? ≠ none := by
  rw [Std.ExtTreeMap.mem_iff_isSome_getElem?, Option.isSome_iff_ne_none]

theorem strictlySorted_keys (m : Std.ExtTreeMap α β) : StrictlySorted m.keys :=
  Std.ExtTreeMap.ordered_keys

variable [Std.LawfulEqOrd α] [DecidableEq α]

theorem getElem?_insert (m : Std.ExtTreeMap α β) (k a : α) (v : β) :
    (m.insert k v)[a]? = if a = k then some v else m[a]? := by
  rw [Std.ExtTreeMap.getElem?_insert]
  simp only [Std.LawfulEqCmp.compare_eq_iff_eq, @eq_comm α a k]

theorem getElem?_erase (m : Std.ExtTreeMap α β) (k a : α) :
    (m.erase k)[a]? = if a = k then none else m[a]? := by
  rw [Std.ExtTreeMap.getElem?_erase]
  simp only [Std.LawfulEqCmp.compare_eq_iff_eq, @eq_comm α a k]

end Lookup

section Sorted

variable [Std.OrientedOrd α] {l₁ l₂ : List α}

theorem StrictlySorted.notMem_of_cons {a : α} (h : StrictlySorted (a :: l₁)) : a ∉ l₁ := by
  intro ha
  have hlt := (List.pairwise_cons.1 h).1 a ha
  rw [Std.ReflOrd.compare_self] at hlt
  cases hlt

/-- A strictly ordered list is known by its elements. -/
theorem StrictlySorted.ext (h₁ : StrictlySorted l₁) (h₂ : StrictlySorted l₂)
    (h : ∀ a, a ∈ l₁ ↔ a ∈ l₂) : l₁ = l₂ := by
  induction l₁ generalizing l₂ with
  | nil =>
    cases l₂ with
    | nil => rfl
    | cons b l₂ => exact absurd ((h b).2 List.mem_cons_self) List.not_mem_nil
  | cons a l₁ ih =>
    cases l₂ with
    | nil => exact absurd ((h a).1 List.mem_cons_self) List.not_mem_nil
    | cons b l₂ =>
      have ha₁ := (List.pairwise_cons.1 h₁).1
      have hb₂ := (List.pairwise_cons.1 h₂).1
      -- the head of each list is the least element of both
      have hab : a = b := by
        rcases List.mem_cons.1 ((h a).1 List.mem_cons_self) with heq | ha
        · exact heq
        · rcases List.mem_cons.1 ((h b).2 List.mem_cons_self) with heq | hb
          · exact heq.symm
          · exact absurd (ha₁ b hb) (Std.OrientedCmp.not_lt_of_lt (hb₂ a ha))
      rw [hab] at h₁ h ⊢
      rw [ih (List.Pairwise.of_cons h₁) (List.Pairwise.of_cons h₂)]
      intro c
      constructor
      · intro hc
        have hcb : c ≠ b := fun heq => h₁.notMem_of_cons (heq ▸ hc)
        exact (List.mem_cons.1 ((h c).1 (List.mem_cons_of_mem b hc))).resolve_left hcb
      · intro hc
        have hcb : c ≠ b := fun heq => h₂.notMem_of_cons (heq ▸ hc)
        exact (List.mem_cons.1 ((h c).2 (List.mem_cons_of_mem b hc))).resolve_left hcb

end Sorted

/-- What is inserted behind smaller and in front of greater elements leaves a list sorted. -/
theorem pairwise_insert {α β : Type*} [LinearOrder β] (key : α → β) {l : List α} {e : α}
    {stays : α → Bool} (hstays : ∀ p, stays p = true → key p ≤ key e)
    (hmoves : ∀ p, stays p = false → key e ≤ key p) (h : l.Pairwise fun p q => key p ≤ key q) :
    (l.takeWhile stays ++ e :: l.dropWhile stays).Pairwise fun p q => key p ≤ key q := by
  have hbehind : ∀ q ∈ l.dropWhile stays, key e ≤ key q := by
    induction l with
    | nil => exact nofun
    | cons a l ih =>
      obtain ⟨ha, hl⟩ := List.pairwise_cons.1 h
      by_cases hstay : stays a = true
      · rw [List.dropWhile_cons_of_pos hstay]
        exact ih hl
      · rw [List.dropWhile_cons_of_neg hstay]
        have hle := hmoves a (Bool.not_eq_true _ ▸ hstay)
        exact List.forall_mem_cons.2 ⟨hle, fun q hq => hle.trans (ha q hq)⟩
  refine List.pairwise_append.2 ⟨h.sublist (List.takeWhile_sublist _),
    List.pairwise_cons.2 ⟨hbehind, h.sublist (List.dropWhile_sublist _)⟩, fun a ha q hq => ?_⟩
  have hle := hstays a (List.mem_takeWhile_imp ha)
  rcases List.mem_cons.1 hq with rfl | hq
  · exact hle
  · exact hle.trans (hbehind q hq)

end Inet.OrderedMap
