import Mathlib.Data.List.Basic

/-! # Runs of guarded calls

A call is made only where it is enabled, and may fail. An invariant that every
careful call keeps holds along every run of careful calls, and so does whatever
follows from it.
-/

namespace Inet.GuardedRun

variable {σ κ ε : Type} (step : σ → κ → Except ε σ) (Enabled Careful : σ → κ → Prop)
  (Safe : σ → Prop) (Meets : σ → κ → σ → Prop)

/-- The state after a run in which every call is enabled. -/
def run [∀ s c, Decidable (Enabled s c)] (s : σ) : List κ → Option σ
  | [] => some s
  | c :: cs => if Enabled s c then (step s c).toOption.bind (run · cs) else none

/-- Every state of the run is safe, and every enabled call returns and does what it should. -/
def Holds (s : σ) : List κ → Prop
  | [] => Safe s
  | c :: cs => Safe s ∧ (Enabled s c → ∃ s', step s c = .ok s' ∧ Meets s c s' ∧ Holds s' cs)

/-- Every enabled call of the run is careful. -/
def CarefulRun (s : σ) : List κ → Prop
  | [] => True
  | c :: cs => Enabled s c → Careful s c ∧ ∀ s' ∈ (step s c).toOption, CarefulRun s' cs

instance [∀ s c, Decidable (Enabled s c)] [∀ s c, Decidable (Careful s c)] :
    (s : σ) → (cs : List κ) → Decidable (CarefulRun step Enabled Careful s cs)
  | _, [] => inferInstanceAs (Decidable True)
  | s, c :: cs =>
    have (s' : σ) : Decidable (CarefulRun step Enabled Careful s' cs) :=
      instDecidableCarefulRun s' cs
    inferInstanceAs (Decidable (Enabled s c → Careful s c ∧ _))

variable {step Enabled Careful Safe Meets} {Inv : σ → Prop} {s s' : σ} {c : κ} {cs : List κ}

theorem CarefulRun.holds (hsafe : ∀ s, Inv s → Safe s)
    (hstep : ∀ s c, Inv s → Enabled s c → Careful s c →
      ∃ s', step s c = .ok s' ∧ Inv s' ∧ Meets s c s')
    (h : CarefulRun step Enabled Careful s cs) (hs : Inv s) :
    Holds step Enabled Safe Meets s cs := by
  induction cs generalizing s with
  | nil => exact hsafe s hs
  | cons c cs ih =>
    refine ⟨hsafe s hs, fun henabled => ?_⟩
    obtain ⟨hcareful, hrest⟩ := h henabled
    obtain ⟨s', hok, hinv, hmeets⟩ := hstep s c hs henabled hcareful
    refine ⟨s', hok, hmeets, ih (hrest s' ?_) hinv⟩
    rw [hok]
    rfl

variable [∀ s c, Decidable (Enabled s c)]

theorem exists_of_run_cons (h : run step Enabled s (c :: cs) = some s') :
    ∃ s₁, Enabled s c ∧ step s c = .ok s₁ ∧ run step Enabled s₁ cs = some s' := by
  rw [run] at h
  split at h
  · rename_i henabled
    cases hok : step s c with
    | error e =>
      rw [hok] at h
      cases h
    | ok s₁ =>
      rw [hok] at h
      exact ⟨s₁, henabled, rfl, h⟩
  · cases h

theorem Holds.of_run {cs' : List κ} (h : Holds step Enabled Safe Meets s (cs ++ cs'))
    (hrun : run step Enabled s cs = some s') : Holds step Enabled Safe Meets s' cs' := by
  induction cs generalizing s with
  | nil =>
    cases hrun
    exact h
  | cons c cs ih =>
    obtain ⟨s₁, henabled, hok, hrest⟩ := exists_of_run_cons hrun
    obtain ⟨s₂, hok', -, hholds⟩ := h.2 henabled
    obtain rfl := Except.ok.inj (hok.symm.trans hok')
    exact ih hholds hrest

theorem Holds.safe_of_run (h : Holds step Enabled Safe Meets s cs)
    (hrun : run step Enabled s cs = some s') : Safe s' := by
  have happend : Holds step Enabled Safe Meets s (cs ++ []) := by rwa [List.append_nil]
  exact happend.of_run hrun

end Inet.GuardedRun
