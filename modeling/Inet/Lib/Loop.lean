import Mathlib.Data.List.Nodup

/-! # Loops over the members of a family

A loop whose turn for an index changes the data at that index only leaves at
every index of its list what its own turn has made of it. A property of every
turn and the turns before it is checked turn by turn.
-/

namespace Inet.Loop

variable {σ ι α : Type*} (data : σ → ι → α) {body : σ → ι → σ} (Inv : σ → Prop)

/-- The turn at an index sees the data there as it was before the loop. -/
theorem foldl_data [DecidableEq ι] (g : ι → α → α) {ids : List ι} (hnodup : ids.Nodup) {s : σ}
    (h : Inv s) (hbody : ∀ s i, Inv s → Inv (body s i))
    (hself : ∀ s i, Inv s → data (body s i) i = g i (data s i))
    (hother : ∀ s i j, Inv s → j ≠ i → data (body s i) j = data s j) (i : ι) :
    data (ids.foldl body s) i = if i ∈ ids then g i (data s i) else data s i := by
  induction ids generalizing s with
  | nil => simp
  | cons first ids ih =>
    have hfirst : first ∉ ids := (List.nodup_cons.mp hnodup).1
    rw [List.foldl_cons, ih (List.nodup_cons.mp hnodup).2 (hbody s first h)]
    by_cases heq : i = first
    · subst heq
      rw [if_neg hfirst, hself s i h, if_pos List.mem_cons_self]
    · rw [hother s first i h heq]
      simp [heq]

/-- A property of the last turn and of every turn before it. -/
theorem forall_split_concat {P : List ι → ι → Prop} {turns : List ι} {last : ι} :
    (∀ before turn after, turns ++ [last] = before ++ turn :: after → P before turn) ↔
      (∀ before turn after, turns = before ++ turn :: after → P before turn) ∧ P turns last := by
  constructor
  · intro h
    exact ⟨fun before turn after heq =>
      h before turn (after ++ [last]) (by rw [heq, List.append_assoc, List.cons_append]),
      h turns last [] rfl⟩
  · rintro ⟨h, hlast⟩ before turn after heq
    rcases after.eq_nil_or_concat with rfl | ⟨after, other, rfl⟩
    · obtain ⟨rfl, hturn⟩ := List.append_inj' heq rfl
      obtain rfl := List.singleton_inj.1 hturn
      exact hlast
    · rw [List.concat_eq_append, ← List.cons_append, ← List.append_assoc] at heq
      exact h before turn after (List.append_inj' heq rfl).1

end Inet.Loop
