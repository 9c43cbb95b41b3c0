import Mathlib.Data.List.Basic

/-! # Transducers

A machine that takes one input after the other, and for each of them fails or
gives an output and its next state. Its runs compose along the input, and an
invariant that no step fails or breaks holds after every run.
-/

namespace Inet.Transducer

variable {σ ι ω ε : Type} (step : σ → ι → Except ε (σ × ω))

/-- The state after some inputs, and the output for each of them. -/
def run : σ → List ι → Except ε (σ × List ω)
  | s, [] => .ok (s, [])
  | s, x :: xs =>
    match step s x with
    | .error e => .error e
    | .ok (s', output) =>
      match run s' xs with
      | .error e => .error e
      | .ok (s'', outputs) => .ok (s'', output :: outputs)

variable {step} {s s' s'' : σ} {x : ι} {xs ys : List ι} {output : ω} {outputs outputs' : List ω}

@[simp] theorem run_nil : run step s [] = .ok (s, []) := rfl

theorem run_cons (h : step s x = .ok (s', output)) (hrun : run step s' xs = .ok (s'', outputs)) :
    run step s (x :: xs) = .ok (s'', output :: outputs) := by
  simp only [run, h, hrun]

theorem exists_of_run_cons (h : run step s (x :: xs) = .ok (s'', outputs)) :
    ∃ s' output outputs', step s x = .ok (s', output) ∧ run step s' xs = .ok (s'', outputs') ∧
      outputs = output :: outputs' := by
  cases hstep : step s x with
  | error e => simp [run, hstep] at h
  | ok r =>
    obtain ⟨s', output⟩ := r
    cases hrun : run step s' xs with
    | error e => simp [run, hstep, hrun] at h
    | ok r =>
      obtain ⟨s₁, outputs'⟩ := r
      simp only [run, hstep, hrun, Except.ok.injEq, Prod.mk.injEq] at h
      obtain ⟨rfl, rfl⟩ := h
      exact ⟨s', output, outputs', rfl, hrun, rfl⟩

theorem run_append (h : run step s xs = .ok (s', outputs))
    (h' : run step s' ys = .ok (s'', outputs')) :
    run step s (xs ++ ys) = .ok (s'', outputs ++ outputs') := by
  induction xs generalizing s outputs with
  | nil =>
    obtain ⟨rfl, rfl⟩ : s = s' ∧ [] = outputs := by simpa using h
    exact h'
  | cons x xs ih =>
    obtain ⟨s₁, output, rest, hstep, hrun, rfl⟩ := exists_of_run_cons h
    exact run_cons hstep (ih hrun)

theorem run_singleton (h : step s x = .ok (s', output)) : run step s [x] = .ok (s', [output]) :=
  run_cons h run_nil

theorem length_outputs (h : run step s xs = .ok (s', outputs)) : outputs.length = xs.length := by
  induction xs generalizing s outputs with
  | nil =>
    obtain ⟨-, rfl⟩ : s = s' ∧ [] = outputs := by simpa using h
    rfl
  | cons x xs ih =>
    obtain ⟨s₁, output, rest, -, hrun, rfl⟩ := exists_of_run_cons h
    simp [ih hrun]

/-- What no step fails or breaks: the run returns, and it holds afterwards. `Inv` is about the
state, the inputs that led to it and the outputs for these. -/
theorem run_induction (Inv : List ι → List ω → σ → Prop) {xs : List ι} (hs : Inv [] [] s)
    (hstep : ∀ past outputs s x, x ∈ xs → Inv past outputs s →
      ∃ s' output, step s x = .ok (s', output) ∧ Inv (past ++ [x]) (outputs ++ [output]) s') :
    ∃ s' outputs, run step s xs = .ok (s', outputs) ∧ Inv xs outputs s' := by
  suffices h : ∀ n ≤ xs.length, ∃ s' outputs,
      run step s (xs.take n) = .ok (s', outputs) ∧ Inv (xs.take n) outputs s' by
    simpa using h xs.length (Nat.le_refl _)
  intro n
  induction n with
  | zero => exact fun _ => ⟨s, [], by simp, by simpa using hs⟩
  | succ n ih =>
    intro hn
    obtain ⟨s', outputs, hrun, hinv⟩ := ih (by omega)
    obtain ⟨s'', output, hx, hinv'⟩ := hstep _ _ _ xs[n] (List.getElem_mem hn) hinv
    rw [List.take_succ_eq_append_getElem hn]
    exact ⟨s'', _, run_append hrun (run_singleton hx), hinv'⟩

end Inet.Transducer
