import Inet.Chunk.Bounded

/-! # Bounded peeks of a header

A peek with a requested class of fields chunks at the beginning of a chunk of
that class returns the chunk itself, or a copy that is marked incomplete and
has the requested length, which is negative for a bound.
-/

namespace Inet

open Outcome

namespace Chunk

section Conditions

variable (isInstance : ℕ → Bool)

mutual

/-- At the position begins a fields chunk of the requested class. -/
def MatchesAt : Chunk → ℤ → Prop
  | fields _ _ type _, p => p = 0 ∧ isInstance type = true
  | slice _ chunk offset _, p => MatchesAt chunk (p + offset)
  | sequence _ chunks, p => MatchesIn chunks p
  | _, _ => False

def MatchesIn : List Chunk → ℤ → Prop
  | [], _ => False
  | chunk :: chunks, p =>
    if getChunkLength chunk ≤ p then MatchesIn chunks (p - getChunkLength chunk)
    else MatchesAt chunk p

end

end Conditions

mutual

/-- The part of a positive length lies inside the elements at the position. -/
def TypedPart : Chunk → ℤ → ℤ → Prop
  | fields .., _, _ => True
  | slice _ chunk offset _, p, l => TypedPart chunk (p + offset) l
  | sequence _ chunks, p, l => TypedPartIn chunks p l
  | _, _, _ => False

def TypedPartIn : List Chunk → ℤ → ℤ → Prop
  | [], _, _ => False
  | chunk :: chunks, p, l =>
    if getChunkLength chunk ≤ p then TypedPartIn chunks (p - getChunkLength chunk) l
    else p + l ≤ getChunkLength chunk ∧ TypedPart chunk p l

end

mutual

/-- The bound covers the fields chunk at the position, which is not longer than the limit; a slice
that begins behind its own length turns the bound into a positive length. -/
def TypedFits : Chunk → ℤ → ℤ → ℤ → Prop
  | fields _ chunkLength _ _, _, m, limit => chunkLength ≤ m ∧ chunkLength ≤ limit
  | slice _ chunk offset length, p, m, limit =>
    if offset < length then TypedFits chunk (p + offset) (min m (length - offset)) limit
    else offset ≠ length ∧ offset - length ≤ limit ∧ TypedPart chunk (p + offset) (offset - length)
  | sequence _ chunks, p, m, limit => TypedFitsIn chunks p m limit
  | _, _, _, _ => False

def TypedFitsIn : List Chunk → ℤ → ℤ → ℤ → Prop
  | [], _, _, _ => False
  | chunk :: chunks, p, m, limit =>
    if getChunkLength chunk ≤ p then TypedFitsIn chunks (p - getChunkLength chunk) m limit
    else TypedFits chunk p m limit

end

section Elements

variable {isInstance : ℕ → Bool} {as bs : List Chunk} {chunk : Chunk} {p : ℤ}

end Elements

/-- The result passes `checkPeekResult` when incomplete chunks are allowed. -/
def Acceptable (chunk : Chunk) : Prop :=
  chunk.getChunkType ≠ .empty ∧ chunk.isIncorrect = false ∧ chunk.isImproperlyRepresented = false

section Requests

variable {isInstance : ℕ → Bool} {deserialize : MemoryInputStream → ChunkM Chunk}

/-- Only incomplete chunks are allowed. -/
def allowIncomplete : PeekFlags := { allowIncomplete := true }

theorem Acceptable.checkPeekResult {chunk : Chunk} (h : chunk.Acceptable) :
    checkPeekResult (some chunk) allowIncomplete = pure (some chunk) := by
  obtain ⟨h₁, h₂, h₃⟩ := h
  simp [Inet.checkPeekResult, h₁, h₂, h₃, allowIncomplete]

theorem spec_checkPeekResult_eq (chunk : Option Chunk) (flags : PeekFlags) :
    Spec True (checkPeekResult chunk flags) fun r => r = chunk := by
  unfold Inet.checkPeekResult
  cases chunk with
  | none =>
    dsimp only
    split_ifs <;> first | exact Spec.throw trivial | exact Spec.pure rfl
  | some chunk =>
    dsimp only
    split_ifs <;> first | exact Spec.throw trivial | exact Spec.pure rfl

end Requests

end Chunk

end Inet
