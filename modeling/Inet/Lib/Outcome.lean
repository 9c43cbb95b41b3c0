import Mathlib.Control.Lawful
import Mathlib.Data.List.Basic

/-! # Outcomes of fallible stateful computations

A specification bounds what a computation returns from any state, and says
when it is allowed to throw. A computation that may never throw returns; one
that may return nothing throws.
-/

namespace Inet.Outcome

variable {σ ε α β : Type}

/-- From every state the computation returns a value in `post`, or it throws and `fail` holds. -/
def Spec (fail : Prop) (x : StateT σ (Except ε) α) (post : α → Prop) : Prop :=
  ∀ s, match x.run s with
    | .ok (a, _) => post a
    | .error _ => fail

/-- From every state the computation returns a value in `post`. -/
abbrev Returns (x : StateT σ (Except ε) α) (post : α → Prop) : Prop := Spec False x post

/-- From every state the computation throws. -/
abbrev Throws (x : StateT σ (Except ε) α) : Prop := Spec True x fun _ => False

variable {fail fail' : Prop} {x : StateT σ (Except ε) α} {post post' : α → Prop}

theorem Spec.pure {a : α} (h : post a) :
    Spec fail (Pure.pure a : StateT σ (Except ε) α) post := fun _ => h

theorem Spec.throw {e : ε} (h : fail) :
    Spec fail (MonadExcept.throw e : StateT σ (Except ε) α) post := fun _ => h

theorem Spec.bind {f : α → StateT σ (Except ε) β} {post' : β → Prop} (hx : Spec fail x post)
    (hf : ∀ a, post a → Spec fail (f a) post') : Spec fail (x >>= f) post' := by
  intro s
  have h := hx s
  rw [StateT.run_bind]
  cases hrun : x.run s with
  | error e =>
    rw [hrun] at h
    exact h
  | ok r =>
    rw [hrun] at h
    exact hf r.1 h r.2

/-- What follows a computation that returns nothing does not matter. -/
theorem Spec.bind_of_false {f : α → StateT σ (Except ε) β} {post' : β → Prop}
    (h : Spec fail x fun _ => False) : Spec fail (x >>= f) post' :=
  h.bind fun _ ha => ha.elim

theorem Spec.mono (h : Spec fail x post) (hf : fail → fail') (hp : ∀ a, post a → post' a) :
    Spec fail' x post' := by
  intro s
  have hs := h s
  cases hrun : x.run s with
  | error e =>
    rw [hrun] at hs
    exact hf hs
  | ok r =>
    rw [hrun] at hs
    exact hp r.1 hs

/-- What a computation has returned is in `post`. -/
theorem Spec.of_run (h : Spec fail x post) {s s' : σ} {a : α} (hrun : x.run s = .ok (a, s')) :
    post a := by
  have hs := h s
  rw [hrun] at hs
  exact hs

theorem Spec.map {g : α → β} {post' : β → Prop} (h : Spec fail x fun a => post' (g a)) :
    Spec fail (do let a ← x; Pure.pure (g a)) post' :=
  h.bind fun _ ha => Spec.pure ha

theorem Spec.and {post' : α → Prop} (h : Spec fail x post) (h' : Spec fail' x post') :
    Spec (fail ∧ fail') x fun a => post a ∧ post' a := by
  intro s
  have hs := h s
  have hs' := h' s
  cases hrun : x.run s with
  | error e =>
    rw [hrun] at hs hs'
    exact ⟨hs, hs'⟩
  | ok r =>
    rw [hrun] at hs hs'
    exact ⟨hs, hs'⟩

/-- A loop keeps an invariant of the elements that are still to come. -/
theorem Spec.foldlM {f : β → α → StateT σ (Except ε) β} {inv : β → List α → Prop} {as : List α}
    {b : β} (hb : inv b as)
    (hf : ∀ b a as, inv b (a :: as) → Spec fail (f b a) fun b' => inv b' as) :
    Spec fail (as.foldlM f b) fun b' => inv b' [] := by
  induction as generalizing b with
  | nil => exact Spec.pure hb
  | cons a as ih =>
    rw [List.foldlM_cons]
    exact (hf b a as hb).bind fun b' hb' => ih hb'

/-- A computation for each element of a list. -/
theorem Spec.mapM {f : α → StateT σ (Except ε) β} {as : List α} {rel : α → β → Prop}
    (hf : ∀ a ∈ as, Spec fail (f a) (rel a)) : Spec fail (as.mapM f) (List.Forall₂ rel as) := by
  induction as with
  | nil => exact Spec.pure .nil
  | cons a as ih =>
    rw [List.mapM_cons]
    refine (hf a List.mem_cons_self).bind fun b hb => ?_
    refine (ih fun a' ha' => hf a' (List.mem_cons_of_mem a ha')).bind fun bs hbs => ?_
    exact Spec.pure (.cons hb hbs)

/-- `Spec` for one state that the computation starts from. -/
def SpecFrom (fail : Prop) (s : σ) (x : StateT σ (Except ε) α) (post : α → Prop) : Prop :=
  match x.run s with
  | .ok (a, _) => post a
  | .error _ => fail

theorem Spec.specFrom (h : Spec fail x post) (s : σ) : SpecFrom fail s x post := h s

theorem SpecFrom.get_bind {s : σ} {f : σ → StateT σ (Except ε) α}
    (hf : SpecFrom fail s (f s) post) :
    SpecFrom fail s (MonadState.get >>= f) post := hf

theorem SpecFrom.mono {s : σ} (h : SpecFrom fail s x post) (hp : ∀ a, post a → post' a) :
    SpecFrom fail s x post' := by
  unfold SpecFrom at *
  split at h
  · exact hp _ h
  · exact h

theorem SpecFrom.bind {s : σ} {f : α → StateT σ (Except ε) β} {post' : β → Prop}
    (hx : SpecFrom fail s x post) (hf : ∀ a, post a → Spec fail (f a) post') :
    SpecFrom fail s (x >>= f) post' := by
  unfold SpecFrom at *
  rw [StateT.run_bind]
  cases hrun : x.run s with
  | error e =>
    rw [hrun] at hx
    exact hx
  | ok r =>
    rw [hrun] at hx
    exact hf r.1 hx r.2

theorem Returns.exists_run (h : Returns x post) (s : σ) :
    ∃ a s', x.run s = .ok (a, s') ∧ post a := by
  have hs := h s
  cases hrun : x.run s with
  | error e =>
    rw [hrun] at hs
    exact hs.elim
  | ok r =>
    rw [hrun] at hs
    exact ⟨r.1, r.2, rfl, hs⟩

theorem Returns.exists [Nonempty σ] (h : Returns x post) : ∃ a, post a := by
  obtain ⟨s⟩ := ‹Nonempty σ›
  obtain ⟨a, -, -, ha⟩ := h.exists_run s
  exact ⟨a, ha⟩

/-! A call without state. -/

/-- The call returns a value with the property. -/
def ReturnsWith (x : Except ε α) (post : α → Prop) : Prop := ∃ a, x = .ok a ∧ post a

instance ReturnsWith.decidable (x : Except ε α) (post : α → Prop) [DecidablePred post] :
    Decidable (ReturnsWith x post) :=
  match x with
  | .ok a => decidable_of_iff (post a) ⟨fun h => ⟨a, rfl, h⟩, fun ⟨_, h, h'⟩ => by
      cases h
      exact h'⟩
  | .error _ => isFalse fun ⟨_, h, _⟩ => by cases h

theorem ReturnsWith.mono {x : Except ε α} {post post' : α → Prop} (h : ReturnsWith x post)
    (hp : ∀ a, post a → post' a) : ReturnsWith x post' := by
  obtain ⟨a, hx, ha⟩ := h
  exact ⟨a, hx, hp a ha⟩

theorem ReturnsWith.bind {x : Except ε α} {f : α → Except ε β} {post : α → Prop}
    {post' : β → Prop} (h : ReturnsWith x post) (hf : ∀ a, post a → ReturnsWith (f a) post') :
    ReturnsWith (x >>= f) post' := by
  obtain ⟨a, rfl, ha⟩ := h
  exact hf a ha

/-- A call for each element of a list. -/
theorem ReturnsWith.mapM {f : α → Except ε β} {as : List α} {rel : α → β → Prop}
    (hf : ∀ a ∈ as, ReturnsWith (f a) (rel a)) :
    ReturnsWith (as.mapM f) (List.Forall₂ rel as) := by
  induction as with
  | nil => exact ⟨[], rfl, .nil⟩
  | cons a as ih =>
    obtain ⟨hfa, hfas⟩ := List.forall_mem_cons.1 hf
    rw [List.mapM_cons]
    exact hfa.bind fun b hb => (ih hfas).bind fun bs hbs => ⟨b :: bs, rfl, .cons hb hbs⟩

/-- What a call has returned is in `post`. -/
theorem ReturnsWith.of_eq_ok {x : Except ε α} {post : α → Prop} {a : α} (h : ReturnsWith x post)
    (hx : x = .ok a) : post a := by
  obtain ⟨a', hx', ha⟩ := h
  rw [hx] at hx'
  cases hx'
  exact ha

end Inet.Outcome
