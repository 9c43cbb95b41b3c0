import Inet.Stream.Consumes

/-! # What reads return

A postcondition of a reader holds of every value that it returns, whatever the
stream and wherever it stands.
-/

namespace Inet

namespace MemoryInputStream

variable {α β : Type} {m : Reader α} {P : α → Prop} {Q : β → Prop}

/-- Every value that the reader returns satisfies the postcondition. -/
def Returns (m : Reader α) (P : α → Prop) : Prop :=
  ∀ s a s', m.run s = .ok (a, s') → P a

theorem Returns.pure {a : α} (h : P a) : Returns (Pure.pure a) P := by
  rintro s _ _ ⟨⟩
  exact h

theorem Returns.throw (e : Error) : Returns (throw e) P := by
  rintro s _ _ ⟨⟩

theorem Returns.bind {f : α → Reader β} (hm : Returns m P) (hf : ∀ a, P a → Returns (f a) Q) :
    Returns (m >>= f) Q := by
  intro s b s' h
  rw [StateT.run_bind] at h
  obtain ⟨⟨a, s₁⟩, h₁, h₂⟩ := Error.exists_of_bind_eq_ok h
  exact hf a (hm _ _ _ h₁) _ _ _ h₂

theorem Returns.trivial (m : Reader α) : Returns m fun _ => True := fun _ _ _ _ => True.intro

theorem Returns.bind' {f : α → Reader β} (hf : ∀ a, Returns (f a) Q) : Returns (m >>= f) Q :=
  (Returns.trivial m).bind fun a _ => hf a

theorem Returns.mono {P' : α → Prop} (hm : Returns m P) (h : ∀ a, P a → P' a) : Returns m P' :=
  fun s a s' hrun => h a (hm s a s' hrun)

theorem returns_foldlM {f : β → α → Reader β} {as : List α}
    (hf : ∀ b a, a ∈ as → Q b → Returns (f b a) Q) {b : β} (hb : Q b) :
    Returns (as.foldlM f b) Q := by
  induction as generalizing b with
  | nil => exact Returns.pure hb
  | cons a as ih =>
    rw [List.foldlM_cons]
    exact (hf b a List.mem_cons_self hb).bind fun b' hb' =>
      ih (fun b a ha => hf b a (List.mem_cons_of_mem _ ha)) hb'

theorem returns_readShifted {shifts : List ℕ} {n : ℕ} (h : ∀ shift ∈ shifts, shift + 8 ≤ n) :
    Returns (readShifted shifts) fun value => value < 2 ^ n := by
  apply returns_foldlM (Q := fun value => value < 2 ^ n) _ (Nat.two_pow_pos n)
  intro value shift hshift hvalue
  apply Returns.bind'
  intro byte
  apply Returns.pure
  apply Nat.or_lt_two_pow hvalue
  calc byte.toNat <<< shift < 2 ^ (8 + shift) := by
        rw [Nat.shiftLeft_eq, Nat.pow_add]
        exact Nat.mul_lt_mul_of_pos_right byte.isLt (Nat.two_pow_pos _)
    _ ≤ 2 ^ n := Nat.pow_le_pow_right (by decide) (by have := h shift hshift; omega)

theorem returns_readMasked {masks : List ℕ} {n : ℕ} (h : ∀ mask ∈ masks, mask < 2 ^ n) :
    Returns (readMasked masks) fun value => value < 2 ^ n := by
  apply returns_foldlM (Q := fun value => value < 2 ^ n) _ (Nat.two_pow_pos n)
  intro value mask hmask hvalue
  apply Returns.bind'
  rintro (_ | _)
  · exact Returns.pure hvalue
  · exact Returns.pure (Nat.or_lt_two_pow hvalue (h mask hmask))

theorem returns_readByteLoop (n : ℕ) : Returns (readByteLoop n) fun bytes => bytes.length = n := by
  induction n with
  | zero => exact Returns.pure rfl
  | succ n ih =>
    apply Returns.bind'
    intro byte
    exact ih.bind fun bytes hbytes => Returns.pure (congrArg Nat.succ hbytes)

theorem returns_readBytes (length : ℕ) :
    Returns (readBytes length) fun bytes => bytes.length ≤ length := by
  intro s a s' h
  rw [readBytes, StateT.run_bind, StateT.run_get, pure_bind] at h
  rw [StateT.run_bind] at h
  obtain ⟨⟨n, s₁⟩, h₁, h⟩ := Error.exists_of_bind_eq_ok h
  have hn : n ≤ length := by
    simp only at h₁
    by_cases hbeyond : s.position + 8 * length > s.length
    · rw [if_pos hbeyond, StateT.run_bind] at h₁
      obtain ⟨⟨rest, s₂⟩, hrest, h₁⟩ := Error.exists_of_bind_eq_ok h₁
      have hle : rest ≤ (s.length - s.position : ℤ) / 8 := by
        rw [toBytes] at hrest
        by_cases hmod : ((s.length : ℤ) - s.position) % 8 = 0
        · rw [if_pos hmod] at hrest
          cases hrest
          exact Int.le_refl _
        · rw [if_neg hmod] at hrest
          cases hrest
      cases h₁
      omega
    · rw [if_neg hbeyond] at h₁
      cases h₁
      exact Nat.le_refl _
  have hrest : Returns (do
      assert (s.position ≤ 8 * s.data.length) "b(0) <= position && position <= B(data.size())"
      assert (s.position + 8 * n ≤ 8 * s.data.length) "b(0) <= end && end <= B(data.size())"
      if s.isByteAligned = true then do
        modify fun s => { s with position := s.position + 8 * n }
        return (s.data.drop (s.position / 8)).take n
      else readByteLoop n) fun bytes => bytes.length ≤ n := by
    apply Returns.bind'
    rintro -
    apply Returns.bind'
    rintro -
    by_cases haligned : s.isByteAligned = true
    · rw [if_pos haligned]
      apply Returns.bind'
      rintro -
      exact Returns.pure (List.length_take_le _ _)
    · rw [if_neg haligned]
      exact (returns_readByteLoop n).mono fun _ h => Nat.le_of_eq h
  exact (hrest s₁ a s' h).trans hn

end MemoryInputStream

end Inet
