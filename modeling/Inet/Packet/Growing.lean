import Inet.Chunk.Typed
import Inet.Packet.Insert
import Inet.Packet.QueueRun

/-! # Headers in a growing packet

While a packet grows at its end, a header in its content stays the object that
it is, also where elements are merged. A pop with a request for its class
returns it as it was inserted.
-/

namespace Inet

open Chunk Outcome

namespace Chunk

/-! Headers in a content that grows at its end. -/

/-- At the position begins the element, as it is: it is the content, or it is part of an element. -/
inductive ElementAt (element : Chunk) : Chunk → ℤ → Prop
  | here : ElementAt element element 0
  | inside {header : ChunkHeader} {as bs : List Chunk} {chunk : Chunk} {q : ℤ}
      (h : ElementAt element chunk q) :
      ElementAt element (sequence header (as ++ chunk :: bs)) ((as.map getChunkLength).sum + q)

variable {content chunk element : Chunk} {p : ℤ} {n : ℕ}

theorem spec_simplify_eq (htype : content.getChunkType = .fields ∨ content.getChunkType = .sequence)
    (n : ℕ) : Spec True ((dispatch n).simplify content) fun r => r = content := by
  cases n with
  | zero => exact Spec.bind_of_false (Spec.bind_of_false (Spec.throw trivial))
  | succ n =>
    have hwhole : content.whole = content := by
      cases content with
      | slice => simp [getChunkType] at htype
      | _ => rfl
    have hpeek (flags : PeekFlags)
      (hflags : flags.allowNullptr = false ∧ flags.allowEmpty = false) :
        Spec True ((dispatch (n + 1)).peek content (Iterator.ofPosition 0) content.getChunkLength
          flags) fun r => r = some content := by
      change Spec True
        (peekUncheckedOf (dispatch n) content none ⟨true, 0, 0⟩ content.getChunkLength
        flags >>= _) _
      rcases lt_or_ge 0 content.getChunkLength with hpos | hle
      · rw [peekUnchecked_whole _ hpos, pure_bind, hwhole]
        exact spec_checkPeekResult_eq _ _
      · refine Spec.bind_of_false ?_
        rcases hle.lt_or_eq with hneg | hzero
        · have hcheck : Throws (checkUsage (m := ChunkM) (0 ≤ (0 : ℤ) ∧ 0 ≤ content.getChunkLength)
              "iterator is out of range") := by
            rw [checkUsage, if_neg (by omega)]
            exact Spec.throw trivial
          cases content with
          | fields => exact Spec.bind_of_false hcheck
          | sequence => exact Spec.bind_of_false hcheck
          | _ => simp [getChunkType] at htype
        · rw [hzero, peekUncheckedOf_nothing _ le_rfl hzero.ge, getEmptyChunk, hflags.1, hflags.2]
          exact Spec.throw trivial
    unfold Dispatch.simplify
    refine (hpeek _ ⟨rfl, rfl⟩).bind ?_
    rintro _ rfl
    exact Spec.pure rfl

theorem ElementAt.fields_or_sequence (h : element.ElementAt content p)
    (hfields : element.getChunkType = .fields) :
    content.getChunkType = .fields ∨ content.getChunkType = .sequence := by
  cases h with
  | here => exact Or.inl hfields
  | inside => exact Or.inr rfl

theorem ElementAt.simplify (h : element.ElementAt content p)
    (hfields : element.getChunkType = .fields)
    (n : ℕ) : Spec True ((dispatch n).simplify content) fun r => element.ElementAt r p :=
  (spec_simplify_eq (h.fields_or_sequence hfields) n).mono id fun _ hr => hr ▸ h

theorem insertAtBack_nil (header : ChunkHeader) (hpos : 0 < chunk.getChunkLength)
    (hfields : chunk.getChunkType = .fields) :
    (sequence header []).insertAtBack chunk = pure (sequence header [chunk]) := by
  cases chunk with
  | fields h l t s =>
    change (do
      return sequence header
        (← SequenceChunk.doInsertChunkAt (dispatch 1) .back [] (fields h l t s))) = _
    unfold SequenceChunk.doInsertChunkAt
    rw [checkUsage, if_pos hpos, pure_bind]
    rfl
  | _ => cases hfields

/-- What holds of a content after something has been inserted at its end. -/
structure Extends (content after : Chunk) : Prop where
  type : after.getChunkType = .sequence
  elements : ∀ (element : Chunk) (p : ℤ), element.getChunkType = .fields →
    element.ElementAt content p → element.ElementAt after p

end Chunk

namespace Packet

variable {this : Packet} {content chunk element : Chunk} {p : ℤ}

end Packet

namespace Chunk

variable {content chunk element : Chunk} {p : ℤ}

section Pop

variable {request : PeekRequest} {iterator : Iterator}

theorem ElementAt.bounds (h : element.ElementAt content p) (hwf : content.WF) :
    0 ≤ p ∧ p + element.getChunkLength ≤ content.getChunkLength := by
  induction h with
  | here => exact ⟨le_rfl, (zero_add _).le⟩
  | @inside header as bs chunk q _ ih =>
    have helements := (wf_sequence _ _).1 hwf
    obtain ⟨h₀, h₁⟩ := ih (helements chunk (by simp)).1
    have has : 0 ≤ (as.map getChunkLength).sum :=
      sum_map_nonneg fun c hc => (helements c (by simp [hc])).2
    have hbs : 0 ≤ (bs.map getChunkLength).sum :=
      sum_map_nonneg fun c hc => (helements c (by simp [hc])).2
    rw [getChunkLength_sequence, List.map_append, List.map_cons, List.sum_append, List.sum_cons]
    omega

end Pop

end Chunk

namespace Packet

variable {this : Packet} {content chunk element : Chunk} {p length : ℤ}

end Packet

end Inet
