import Inet.Lib.Outcome

/-! # Simulations of fallible computations

A stateful computation simulates a plain one if it returns whenever the plain
one does, and what it returns is related to what that returns.
-/

namespace Inet.Outcome

variable {σ ε ε' α α' β β' : Type} {x : StateT σ (Except ε) α} {y : Except ε' β}
  {rel : α → β → Prop} {rel' : α' → β' → Prop}

/-- Whatever the second computation returns, the first one returns it up to a relation. -/
def Simulates (x : StateT σ (Except ε) α) (y : Except ε' β) (rel : α → β → Prop) : Prop :=
  ∀ b, y = .ok b → Returns x fun a => rel a b

theorem Simulates.pure {a : α} {b : β} (h : rel a b) :
    Simulates (Pure.pure a : StateT σ (Except ε) α) (Pure.pure b : Except ε' β) rel := by
  intro b' hb
  obtain rfl := Except.ok.inj hb
  exact Spec.pure h

theorem Simulates.throw (x : StateT σ (Except ε) α) (e : ε') :
    Simulates x (MonadExcept.throw e : Except ε' β) rel := by
  intro b hb
  cases hb

theorem Simulates.bind {f : α → StateT σ (Except ε) α'} {g : β → Except ε' β'}
    (h : Simulates x y rel) (hf : ∀ a b, rel a b → Simulates (f a) (g b) rel') :
    Simulates (x >>= f) (y >>= g) rel' := by
  intro c hc
  cases hy : y with
  | error e =>
    rw [hy] at hc
    cases hc
  | ok b =>
    rw [hy] at hc
    exact (h b hy).bind fun a ha => hf a b ha c hc

end Inet.Outcome
