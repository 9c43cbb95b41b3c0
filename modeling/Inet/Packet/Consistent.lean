import Inet.Chunk.Elements
import Inet.Chunk.Merge
import Inet.Packet.Basic

/-! # Consistent packets

`Packet::isConsistent` and the iterator operations that keep it. An iterator
with a known index has as many elements before it as the index says.
-/

namespace Inet

open Chunk Outcome

namespace SequenceChunk

variable {chunks : List Chunk} {offset start i : ℤ}

theorem seekIndex_append (start i : ℤ) {as : List Chunk} (bs : List Chunk)
    (hpos : ∀ c ∈ as, 0 < c.getChunkLength)
    (hne : as ≠ []) : seekIndex (start + (as.map getChunkLength).sum) (as ++ bs) start i =
      i + as.length := by
  induction as generalizing start i with
  | nil => exact absurd rfl hne
  | cons a as ih =>
    rw [List.forall_mem_cons] at hpos
    rw [List.cons_append, seekIndex, List.map_cons, List.sum_cons]
    by_cases has : as = []
    · simp [has]
    · obtain ⟨b, hb⟩ := List.exists_mem_of_ne_nil as has
      have hsum : 0 < (as.map getChunkLength).sum := by
        obtain ⟨s, t, rfl⟩ := List.append_of_mem hb
        rw [List.forall_mem_append, List.forall_mem_cons] at hpos
        have := sum_map_nonneg (f := getChunkLength) hpos.2.1
        have := sum_map_nonneg (f := getChunkLength) hpos.2.2.2
        have := hpos.2.2.1
        simp only [List.map_append, List.map_cons, List.sum_append, List.sum_cons]
        omega
      rw [if_neg (by omega), if_neg (by omega), ← add_assoc, ih _ _ hpos.2 has, List.length_cons]
      omega

theorem exists_append_of_seekIndex (hi : 0 ≤ i) (h : seekIndex offset chunks start i ≠ -1) :
    ∃ as bs, chunks = as ++ bs ∧ start + (as.map getChunkLength).sum = offset ∧
      seekIndex offset chunks start i = i + as.length := by
  induction chunks generalizing start i with
  | nil => exact absurd rfl h
  | cons chunk chunks ih =>
    rw [seekIndex] at h ⊢
    by_cases h₁ : start + chunk.getChunkLength = offset
    · rw [if_pos h₁]
      exact ⟨[chunk], chunks, rfl, by simpa using h₁, by simp⟩
    · rw [if_neg h₁] at h ⊢
      by_cases h₂ : start + chunk.getChunkLength > offset
      · rw [if_pos h₂] at h
        exact absurd rfl h
      · rw [if_neg h₂] at h ⊢
        obtain ⟨as, bs, rfl, hsum, hidx⟩ := ih (by omega) h
        refine ⟨chunk :: as, bs, rfl, ?_, ?_⟩
        · rw [List.map_cons, List.sum_cons]
          omega
        · rw [hidx, List.length_cons]
          omega

end SequenceChunk

namespace Chunk

/-- `isIteratorConsistent`. -/
def IteratorConsistent (this : Chunk) (iterator : Iterator) : Prop :=
  iterator.index = -1 ∨
    iterator.index = this.seekedIndex iterator.isForward iterator.position

variable {this : Chunk} {iterator : Iterator}

theorem IteratorConsistent.consistent (h : this.IteratorConsistent iterator) :
    this.Consistent iterator := by
  rcases h with h | h
  · exact Or.inl h
  · by_cases hneg : iterator.index = -1
    · exact Or.inl hneg
    refine Or.inr ?_
    cases this with
    | sequence header chunks =>
      rw [seekedIndex] at h
      by_cases h₀ : iterator.position = 0
      · rw [if_pos h₀] at h
        exact ⟨h.ge, by omega, by simp [h, h₀]⟩
      · rw [if_neg h₀] at h
        obtain ⟨as, bs, hsplit, hsum, hidx⟩ := SequenceChunk.exists_append_of_seekIndex le_rfl
          (h ▸ hneg)
        have hidx : iterator.index = as.length := by omega
        have hsplit : SequenceChunk.elementsOf iterator chunks = as ++ bs := hsplit
        refine ⟨by omega, by rw [hsplit, List.length_append]; omega, ?_⟩
        rw [hsplit, hidx, Int.toNat_natCast, List.take_left]
        omega
    | _ => trivial

theorem iteratorConsistent_of_indexAt {header : ChunkHeader} {chunks : List Chunk}
    (hpos : ∀ c ∈ chunks, 0 < c.getChunkLength)
    (h : SequenceChunk.IndexAt (SequenceChunk.elementsOf iterator chunks) iterator.position
      iterator.index) :
    (sequence header chunks).IteratorConsistent iterator := by
  refine Or.inr ?_
  obtain ⟨i, hi⟩ := Int.eq_ofNat_of_zero_le h.nonneg
  have hle := h.le
  have hsum := h.sum_eq
  rw [hi, Int.toNat_natCast] at hsum
  have hpos : ∀ c ∈ (SequenceChunk.elementsOf iterator chunks).take i, 0 < c.getChunkLength :=
    fun c hc => hpos c (SequenceChunk.mem_elementsOf.1 (List.mem_of_mem_take hc))
  rw [seekedIndex]
  by_cases h₀ : iterator.position = 0
  · rw [if_pos h₀]
    by_contra hne
    obtain ⟨j, rfl⟩ : ∃ j, i = j + 1 := ⟨i - 1, by omega⟩
    cases hel : SequenceChunk.elementsOf iterator chunks with
    | nil =>
      rw [hel, List.length_nil] at hle
      omega
    | cons c cs =>
      rw [hel, List.take_succ_cons, List.forall_mem_cons] at hpos
      have := sum_map_nonneg (f := getChunkLength) hpos.2
      have := hpos.1
      rw [hel, List.take_succ_cons, List.map_cons, List.sum_cons] at hsum
      omega
  · rw [if_neg h₀]
    have hne : (SequenceChunk.elementsOf iterator chunks).take i ≠ [] := by
      rintro hnil
      rw [hnil] at hsum
      exact h₀ hsum.symm
    have := SequenceChunk.seekIndex_append 0 0
      ((SequenceChunk.elementsOf iterator chunks).drop i) hpos hne
    rw [List.take_append_drop, zero_add, zero_add, hsum, List.length_take] at this
    rw [hi]
    exact (this.trans (by omega)).symm

theorem spec_seekIterator {fail : Prop} (offset : ℤ) (h : 0 ≤ offset)
    (h' : offset ≤ this.getChunkLength) :
    Spec fail (this.seekIterator iterator offset) fun r =>
      r.isForward = iterator.isForward ∧ r.position = offset ∧ this.IteratorConsistent r := by
  have he : this.seekIterator iterator offset =
      pure ⟨iterator.isForward, offset, this.seekedIndex iterator.isForward offset⟩ := by
    unfold seekIterator
    split
    · rw [checkUsage, if_pos ⟨h, h'⟩]
      rfl
    · rfl
  rw [he]
  exact Spec.pure ⟨rfl, rfl, Or.inr rfl⟩

theorem spec_moveIterator {fail : Prop} (hwf : this.WF) (hc : this.IteratorConsistent iterator)
    (length : ℤ) :
    Spec fail (this.moveIterator iterator length) fun r =>
      r.isForward = iterator.isForward ∧ r.position = iterator.position + length ∧
        this.IteratorConsistent r := by
  cases this with
  | sequence header chunks =>
    rw [moveIterator]
    dsimp only
    by_cases hidx : iterator.index ≠ -1 ∧ iterator.index ≠ chunks.length
    · have helems := (wf_sequence _ _).1 hwf
      have hat := hc.consistent.resolve_left hidx.1
      have hle := hat.le
      obtain ⟨i, hi⟩ := Int.eq_ofNat_of_zero_le hat.nonneg
      have hlen : (SequenceChunk.elementsOf iterator chunks).length = chunks.length := by
        unfold SequenceChunk.elementsOf
        split <;> simp
      have hlt : i < (SequenceChunk.elementsOf iterator chunks).length := by omega
      have hget := SequenceChunk.getElementChunk_eq
        ((List.take_append_drop i _).symm.trans (congrArg _ (List.drop_eq_getElem_cons hlt)))
        (by rw [hi, List.length_take]; omega)
      rw [if_pos hidx, hget, pure_bind]
      split_ifs with hsame
      · refine Spec.pure ⟨rfl, rfl, iteratorConsistent_of_indexAt
          (fun c hc => (helems c hc).2) ⟨by dsimp only; omega, ?_, ?_⟩⟩
        · have : SequenceChunk.elementsOf ⟨iterator.isForward, iterator.position + length,
              iterator.index + 1⟩ chunks = SequenceChunk.elementsOf iterator chunks := rfl
          rw [this]
          dsimp only
          omega
        · have hsum := hat.sum_eq
          rw [hi, Int.toNat_natCast] at hsum
          have : ((iterator.index + 1).toNat) = i + 1 := by omega
          dsimp only
          rw [this, show SequenceChunk.elementsOf ⟨iterator.isForward, iterator.position + length,
            iterator.index + 1⟩ chunks = SequenceChunk.elementsOf iterator chunks from rfl,
            List.take_succ_eq_append_getElem hlt, List.map_append, List.sum_append, hsum]
          simpa using hsame
      · exact Spec.pure ⟨rfl, rfl, Or.inl rfl⟩
    · rw [if_neg hidx]
      exact Spec.pure ⟨rfl, rfl, Or.inl rfl⟩
  | _ =>
    refine Spec.pure ⟨rfl, rfl, Or.inr ?_⟩
    simp only [seekedIndex]

theorem spec_moveIterator_any {k : Prop} {length : ℤ} (hwf : this.WF) (hi : -1 ≤ iterator.index)
    (hk : k → ∀ header chunks, this = sequence header chunks → iterator.index ≤ chunks.length) :
    Spec (¬ k) (this.moveIterator iterator length) fun r =>
      r.isForward = iterator.isForward ∧ r.position = iterator.position + length ∧
        (iterator.index = -1 ∨ length < 0 → this.IteratorConsistent r) := by
  cases this with
  | sequence header chunks =>
    have helems := (wf_sequence _ _).1 hwf
    rw [moveIterator]
    dsimp only
    by_cases hidx : iterator.index ≠ -1 ∧ iterator.index ≠ chunks.length
    · rw [if_pos hidx]
      rcases SequenceChunk.getElementChunk_cases chunks iterator with ⟨c, hc, h⟩ | ⟨hrange, e, h⟩
      · have hpos := (helems c hc).2
        rw [h, pure_bind]
        split_ifs
        · exact Spec.pure ⟨rfl, rfl, fun h => by omega⟩
        · exact Spec.pure ⟨rfl, rfl, fun _ => Or.inl rfl⟩
      · rw [h]
        refine Spec.throw fun hsafe => ?_
        have hle := hk hsafe header chunks rfl
        omega
    · rw [if_neg hidx]
      exact Spec.pure ⟨rfl, rfl, fun _ => Or.inl rfl⟩
  | _ =>
    refine Spec.pure ⟨rfl, rfl, fun _ => Or.inr ?_⟩
    simp only [seekedIndex]

theorem IteratorConsistent.index_ge (h : this.IteratorConsistent iterator) :
    -1 ≤ iterator.index := by
  rcases h.consistent with h | h'
  · omega
  · cases this with
    | sequence header chunks =>
      have := h'.nonneg
      omega
    | _ =>
      rcases h with h | h
      · omega
      · simp only [h, seekedIndex]
        split_ifs <;> simp

end Chunk

namespace Packet

/-- `isConsistent`, together with the well-formedness of the content. -/
structure Consistent (this : Packet) : Prop where
  wf : this.content.WF
  length_eq : this.content.getChunkLength = this.getTotalLength
  isForward : this.frontIterator.isForward = true
  isBackward : this.backIterator.isForward = false
  front_nonneg : 0 ≤ this.getFrontOffset
  front_le_back : this.getFrontOffset ≤ this.getBackOffset
  back_le : this.getBackOffset ≤ this.getTotalLength
  front_index : this.content.IteratorConsistent this.frontIterator
  back_index : this.content.IteratorConsistent this.backIterator

/-- The bits of the data part. -/
def dataBits (this : Packet) : List Bool :=
  seg this.content.toBits this.getFrontOffset this.getDataLength

end Packet

end Inet
