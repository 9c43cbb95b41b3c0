import Mathlib.Data.List.Basic
import Mathlib.Data.List.Nodup

/-! # Vectors searched by a key

Records in a vector, each with a key, that are found, replaced and erased by a
linear search. Where no two records have the same key, the vector is a map.
-/

namespace Inet.Keyed

variable {α κ : Type} [DecidableEq κ] (key : α → κ)

def hasKey (k : κ) (a : α) : Bool := decide (key a = k)

def find (l : List α) (k : κ) : Option α := l.find? (hasKey key k)

/-- The first record with the key of `a` becomes `a`. -/
def replace (l : List α) (a : α) : List α :=
  l.replaceF fun b => if hasKey key (key a) b then some a else none

def erase (l : List α) (k : κ) : List α := l.eraseP (hasKey key k)

variable {key} {l : List α} {a b : α} {k k' : κ}

@[simp] theorem hasKey_iff : hasKey key k a = true ↔ key a = k := decide_eq_true_iff

@[simp] theorem find_nil : find key [] k = none := rfl

theorem find_cons_self (l : List α) (h : key a = k) : find key (a :: l) k = some a :=
  List.find?_cons_of_pos (hasKey_iff.2 h)

theorem find_cons_ne (l : List α) (h : key a ≠ k) : find key (a :: l) k = find key l k :=
  List.find?_cons_of_neg fun ha => h (hasKey_iff.1 ha)

theorem key_of_find (h : find key l k = some a) : key a = k :=
  hasKey_iff.1 (List.find?_some h)

theorem find_eq_none : find key l k = none ↔ ∀ a ∈ l, key a ≠ k := by
  simp [find]

theorem find_append_self (h : find key l (key a) = none) :
    find key (l ++ [a]) (key a) = some a := by
  rw [find, List.find?_append, ← find, h]
  exact find_cons_self [] rfl

theorem find_append_ne (h : key a ≠ k) : find key (l ++ [a]) k = find key l k := by
  rw [find, List.find?_append, ← find, ← find, find_cons_ne [] h, find_nil, Option.or_none]

theorem replace_cons_self (h : key b = key a) : replace key (b :: l) a = a :: l :=
  List.replaceF_cons_of_some _ (if_pos (hasKey_iff.2 h))

theorem replace_cons_ne (h : key b ≠ key a) : replace key (b :: l) a = b :: replace key l a :=
  List.replaceF_cons_of_none _ (if_neg fun hb => h (hasKey_iff.1 hb))

theorem find_replace_self (h : find key l (key a) = some b) :
    find key (replace key l a) (key a) = some a := by
  induction l with
  | nil => cases h
  | cons c l ih =>
    by_cases hc : key c = key a
    · rw [replace_cons_self hc]
      exact find_cons_self l rfl
    · rw [find_cons_ne l hc] at h
      rw [replace_cons_ne hc, find_cons_ne _ hc]
      exact ih h

theorem find_replace_ne (h : key a ≠ k) : find key (replace key l a) k = find key l k := by
  induction l with
  | nil => rfl
  | cons c l ih =>
    by_cases hc : key c = key a
    · rw [replace_cons_self hc, find_cons_ne l h, find_cons_ne l (hc.trans_ne h)]
    · rw [replace_cons_ne hc]
      by_cases hk : key c = k
      · rw [find_cons_self _ hk, find_cons_self _ hk]
      · rw [find_cons_ne _ hk, find_cons_ne _ hk, ih]

theorem map_replace (l : List α) (a : α) : (replace key l a).map key = l.map key := by
  induction l with
  | nil => rfl
  | cons c l ih =>
    by_cases hc : key c = key a
    · rw [replace_cons_self hc, List.map_cons, List.map_cons, hc]
    · rw [replace_cons_ne hc, List.map_cons, List.map_cons, ih]

theorem erase_cons_self (h : key a = k) : erase key (a :: l) k = l :=
  List.eraseP_cons_of_pos (hasKey_iff.2 h)

theorem erase_cons_ne (h : key a ≠ k) : erase key (a :: l) k = a :: erase key l k :=
  List.eraseP_cons_of_neg fun ha => h (hasKey_iff.1 ha)

theorem find_erase_ne (h : k ≠ k') : find key (erase key l k) k' = find key l k' := by
  induction l with
  | nil => rfl
  | cons c l ih =>
    by_cases hc : key c = k
    · rw [erase_cons_self hc, find_cons_ne l (hc.trans_ne h)]
    · rw [erase_cons_ne hc]
      by_cases hk : key c = k'
      · rw [find_cons_self _ hk, find_cons_self _ hk]
      · rw [find_cons_ne _ hk, find_cons_ne _ hk, ih]

theorem find_erase_self (h : (l.map key).Nodup) : find key (erase key l k) k = none := by
  induction l with
  | nil => rfl
  | cons c l ih =>
    rw [List.map_cons, List.nodup_cons] at h
    by_cases hc : key c = k
    · rw [erase_cons_self hc, find_eq_none]
      intro a ha hk
      exact h.1 (hc.trans hk.symm ▸ List.mem_map_of_mem ha)
    · rw [erase_cons_ne hc, find_cons_ne _ hc]
      exact ih h.2

theorem nodup_append (h : (l.map key).Nodup) (ha : find key l (key a) = none) :
    ((l ++ [a]).map key).Nodup := by
  rw [List.map_append, List.nodup_append]
  refine ⟨h, List.nodup_singleton _, ?_⟩
  rintro _ hk _ hk' rfl
  obtain ⟨b, hb, hkey⟩ := List.mem_map.1 hk
  obtain rfl := List.mem_singleton.1 hk'
  exact find_eq_none.1 ha b hb hkey

theorem nodup_replace (h : (l.map key).Nodup) : ((replace key l a).map key).Nodup := by
  rwa [map_replace]

theorem nodup_erase (h : (l.map key).Nodup) : ((erase key l k).map key).Nodup :=
  h.sublist (List.eraseP_sublist.map key)

end Inet.Keyed
