import Mathlib.Algebra.Ring.Nat
import Mathlib.Data.Int.Basic

/-! # Failures

The ways a call can fail to return: a thrown `cRuntimeError`, a failed
`ASSERT`, an operation the language leaves undefined, and a virtual call
nested deeper than the model's call depth allows.
-/

namespace Inet

inductive Error where
  | runtime (message : String)
  | assertion (condition : String)
  | undefinedBehavior (operation : String)
  | callDepthExceeded
  deriving DecidableEq, Repr

/-- `ASSERT(condition)`. -/
def assert {m : Type → Type} [Monad m] [MonadExceptOf Error m] (condition : Prop)
    [Decidable condition] (text : String) : m Unit :=
  if condition then pure () else throw (Error.assertion text)

/-- `CHUNK_CHECK_USAGE(condition, format)`. -/
def checkUsage {m : Type → Type} [Monad m] [MonadExceptOf Error m] (condition : Prop)
    [Decidable condition] (text : String) : m Unit :=
  if condition then pure () else throw (Error.runtime ("Error: " ++ text))

namespace Error

variable {α β : Type}

@[simp] theorem pure_eq_ok (a : α) : (pure a : Except Error α) = .ok a := rfl

@[simp] theorem throw_eq_error (e : Error) : (throw e : Except Error α) = .error e := rfl

@[simp] theorem ok_bind (a : α) (f : α → Except Error β) : (Except.ok a >>= f) = f a := rfl

@[simp] theorem error_bind (e : Error) (f : α → Except Error β) :
    (Except.error e >>= f) = .error e := rfl

theorem bind_of_eq_ok {x : Except Error α} {f : α → Except Error β} {a : α} {r : Except Error β}
    (h : x = .ok a) (hf : f a = r) : (x >>= f) = r := by
  rw [h]
  exact hf

theorem exists_of_bind_eq_ok {x : Except Error α} {f : α → Except Error β} {b : β}
    (h : (x >>= f) = .ok b) : ∃ a, x = .ok a ∧ f a = .ok b := by
  cases x with
  | error e => cases h
  | ok a => exact ⟨a, rfl, h⟩

variable {condition : Prop} [Decidable condition] {text : String}

theorem assert_of_pos (h : condition) : (assert condition text : Except Error Unit) = .ok () :=
  if_pos h

theorem of_assert_eq_ok {u : Unit} (h : (assert condition text : Except Error Unit) = .ok u) :
    condition := by
  by_contra hc
  rw [assert, if_neg hc] at h
  cases h

end Error

end Inet
