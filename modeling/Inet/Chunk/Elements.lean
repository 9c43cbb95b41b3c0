import Inet.Chunk.Cells

/-! # The element at a position

The loop of `SequenceChunk::peekUnchecked` stops at the element that contains
the position of the iterator. An index that fits the position does not change
the result.
-/

namespace Inet

open Chunk

namespace SequenceChunk

/-- The elements in the order of an iterator. -/
def elementsOf (iterator : Iterator) (chunks : List Chunk) : List Chunk :=
  if iterator.isForward then chunks else chunks.reverse

theorem mem_elementsOf {iterator : Iterator} {chunks : List Chunk} {chunk : Chunk} :
    chunk ∈ elementsOf iterator chunks ↔ chunk ∈ chunks := by
  unfold elementsOf
  split <;> simp

theorem locate_append {F : List Chunk → ℤ → Prop} {G : Chunk → ℤ → Prop}
    (hF : ∀ c cs p, F (c :: cs) p ↔
      if c.getChunkLength ≤ p then F cs (p - c.getChunkLength) else G c p)
    {as bs : List Chunk} {chunk : Chunk} {p : ℤ} (hpos : ∀ c ∈ as, 0 < c.getChunkLength)
    (h₀ : (as.map getChunkLength).sum ≤ p)
    (h₁ : p < (as.map getChunkLength).sum + chunk.getChunkLength) :
    F (as ++ chunk :: bs) p ↔ G chunk (p - (as.map getChunkLength).sum) := by
  induction as generalizing p with
  | nil =>
    simp only [List.map_nil, List.sum_nil] at h₀ h₁ ⊢
    rw [List.nil_append, hF, if_neg (by omega), sub_zero]
  | cons a as ih =>
    rw [List.forall_mem_cons] at hpos
    rw [List.map_cons, List.sum_cons] at h₀ h₁ ⊢
    have := sum_map_nonneg hpos.2
    rw [List.cons_append, hF, if_pos (by omega), ih hpos.2 (by omega) (by omega), sub_sub]

variable {dispatch : Dispatch} {request : Option PeekRequest} {iterator : Iterator} {length : ℤ}
  {flags : PeekFlags} {start : ℤ}

theorem peekElements_of_lt {chunks : List Chunk} (hpos : ∀ c ∈ chunks, 0 < c.getChunkLength)
    (h : iterator.position < start) :
    peekElements dispatch request iterator length flags chunks start = pure none := by
  induction chunks generalizing start with
  | nil => rfl
  | cons chunk chunks ih =>
    rw [List.forall_mem_cons] at hpos
    rw [peekElements, if_neg (by omega), if_neg (by omega), ih hpos.2 (by omega)]

theorem peekElements_append {as chunks : List Chunk} (hpos : ∀ c ∈ as, 0 < c.getChunkLength)
    (h : start + (as.map getChunkLength).sum ≤ iterator.position) :
    peekElements dispatch request iterator length flags (as ++ chunks) start =
      peekElements dispatch request iterator length flags chunks
        (start + (as.map getChunkLength).sum) := by
  induction as generalizing start with
  | nil => simp
  | cons chunk as ih =>
    rw [List.forall_mem_cons] at hpos
    rw [List.map_cons, List.sum_cons] at h ⊢
    have := sum_map_nonneg hpos.2
    rw [List.cons_append, peekElements, if_neg (by omega), if_neg (by omega),
      ih hpos.2 (by omega), add_assoc]

theorem peekElements_eq {as bs : List Chunk} {chunk : Chunk}
    (hpos : ∀ c ∈ as ++ chunk :: bs, 0 < c.getChunkLength)
    (h₀ : (as.map getChunkLength).sum ≤ iterator.position)
    (h₁ : iterator.position < (as.map getChunkLength).sum + chunk.getChunkLength) :
    peekElements dispatch request iterator length flags (as ++ chunk :: bs) 0 =
      if (iterator.position = (as.map getChunkLength).sum ∧
          (-length ≥ chunk.getChunkLength ∨ length = chunk.getChunkLength)) ∧
          accepts request (some chunk) then
        pure (some (some chunk))
      else if -length ≥ chunk.getChunkLength ∨
          iterator.position + length ≤ (as.map getChunkLength).sum + chunk.getChunkLength then do
        return some (← dispatch.peekUnchecked chunk request
          ⟨iterator.isForward, iterator.position - (as.map getChunkLength).sum, -1⟩ length flags)
      else pure none := by
  rw [List.forall_mem_append, List.forall_mem_cons] at hpos
  rw [peekElements_append hpos.1 (by omega), zero_add, peekElements]
  simp only [h₀, h₁, true_and]
  rw [peekElements_of_lt hpos.2.2 (by omega)]

theorem peekElements_withIndex (index : ℤ) (chunks : List Chunk) :
    peekElements dispatch request { iterator with index := index } length flags chunks start =
      peekElements dispatch request iterator length flags chunks start := by
  induction chunks generalizing start with
  | nil => rfl
  | cons chunk chunks ih => rw [peekElements, peekElements, ih]

/-- The index is the number of elements before the position. -/
structure IndexAt (elements : List Chunk) (position index : ℤ) : Prop where
  nonneg : 0 ≤ index
  le : index ≤ elements.length
  sum_eq : ((elements.take index.toNat).map getChunkLength).sum = position

theorem getElementChunk_cases (chunks : List Chunk) (iterator : Iterator) :
    (∃ c ∈ chunks, getElementChunk chunks iterator = pure c) ∨
      (¬ (0 ≤ iterator.index ∧ iterator.index < chunks.length) ∧
        ∃ e, getElementChunk chunks iterator = throw e) := by
  unfold getElementChunk
  dsimp only
  set index := if iterator.isForward = true then iterator.index
    else (chunks.length : ℤ) - iterator.index - 1 with hindex
  have hrange : 0 ≤ index ∧ index < chunks.length ↔
      0 ≤ iterator.index ∧ iterator.index < chunks.length := by
    rw [hindex]
    split_ifs <;> omega
  rw [← hrange]
  by_cases hi : 0 ≤ index
  · rw [if_pos hi]
    cases hc : chunks[index.toNat]? with
    | some c => exact Or.inl ⟨c, List.mem_of_getElem? hc, rfl⟩
    | none =>
      rw [List.getElem?_eq_none_iff] at hc
      exact Or.inr ⟨by omega, _, rfl⟩
  · rw [if_neg hi]
    exact Or.inr ⟨by omega, _, rfl⟩

theorem getElementChunk_eq {chunks as bs : List Chunk} {chunk : Chunk}
    (h : elementsOf iterator chunks = as ++ chunk :: bs) (hi : iterator.index = as.length) :
    getElementChunk chunks iterator = pure chunk := by
  unfold elementsOf at h
  unfold getElementChunk
  by_cases hf : iterator.isForward = true
  · rw [if_pos hf] at h
    subst h
    simp [hf, hi]
  · rw [if_neg hf] at h
    have hrev : chunks = bs.reverse ++ chunk :: as.reverse := by
      rw [← List.reverse_reverse chunks, h]
      simp
    have hidx : ((chunks.length : ℤ) - iterator.index - 1) = bs.length := by
      rw [hrev, hi]
      simp
      omega
    rw [if_neg hf, hidx, hrev]
    simp

theorem peekIndexed_neg_one {chunks : List Chunk} (h : iterator.index = -1) :
    peekIndexed chunks request iterator length = pure none := by
  simp [peekIndexed, h]

theorem peekUnchecked_index {header : ChunkHeader} {chunks : List Chunk}
    (hpos : ∀ c ∈ chunks, 0 < c.getChunkLength)
    (h : IndexAt (elementsOf iterator chunks) iterator.position iterator.index) :
    peekUnchecked dispatch (.sequence header chunks) chunks none iterator length flags =
      peekUnchecked dispatch (.sequence header chunks) chunks none { iterator with index := -1 }
        length flags := by
  have hlen : (elementsOf iterator chunks).length = chunks.length := by
    unfold elementsOf
    split <;> simp
  have hle := h.le
  rw [hlen] at hle
  by_cases hend : iterator.index = chunks.length
  · have hi : peekIndexed chunks none iterator length = pure none := by simp [peekIndexed, hend]
    simp only [peekUnchecked, hi, peekIndexed_neg_one, peekElements_withIndex, convertedOffset]
  · obtain ⟨i, hi⟩ := Int.eq_ofNat_of_zero_le h.nonneg
    have hlt : i < (elementsOf iterator chunks).length := by omega
    obtain ⟨as, chunk, bs, hsplit, has⟩ :
        ∃ as chunk bs, elementsOf iterator chunks = as ++ chunk :: bs ∧ as.length = i :=
      ⟨_, _, _, (List.take_append_drop i _).symm.trans
        (congrArg _ (List.drop_eq_getElem_cons hlt)), by simp; omega⟩
    have hsum : (as.map getChunkLength).sum = iterator.position := by
      rw [← h.sum_eq, hsplit, hi, Int.toNat_natCast, ← has, List.take_left]
    have hget := getElementChunk_eq hsplit (by rw [hi, has])
    have hposs : ∀ c ∈ as ++ chunk :: bs, 0 < c.getChunkLength := by
      intro c hc
      rw [← hsplit, mem_elementsOf] at hc
      exact hpos c hc
    have hne : iterator.index ≠ -1 := by omega
    by_cases hcond : -length ≥ chunk.getChunkLength ∨ length = chunk.getChunkLength
    · -- the loop stops at the same element
      have hloop : peekElements dispatch none iterator length flags (elementsOf iterator chunks) 0 =
          pure (some (some chunk)) := by
        have := hposs chunk (by simp)
        rw [hsplit, peekElements_eq hposs (by omega) (by omega), if_pos ⟨⟨by omega, hcond⟩, rfl⟩]
      have h₁ : peekIndexed chunks none iterator length = pure (some chunk) := by
        simp [peekIndexed, hne, hend, hget, hcond, accepts]
      simp only [elementsOf] at hloop
      simp only [peekUnchecked, h₁, peekIndexed_neg_one, peekElements_withIndex, hloop, pure_bind]
    · have h₁ : peekIndexed chunks none iterator length = pure none := by
        simp [peekIndexed, hne, hend, hget, hcond]
      simp only [peekUnchecked, h₁, peekIndexed_neg_one, peekElements_withIndex, convertedOffset]

end SequenceChunk

namespace Chunk

/-- The index is unknown, or it is the one of the position; only sequences use it. -/
def Consistent (chunk : Chunk) (iterator : Iterator) : Prop :=
  iterator.index = -1 ∨
    match chunk with
    | sequence _ chunks =>
      SequenceChunk.IndexAt (SequenceChunk.elementsOf iterator chunks) iterator.position
        iterator.index
    | _ => True

theorem peekUncheckedOf_index {dispatch : Dispatch} {chunk : Chunk} {iterator : Iterator}
    (hwf : chunk.WF) (h : chunk.Consistent iterator) (length : ℤ) (flags : PeekFlags) :
    peekUncheckedOf dispatch chunk none iterator length flags =
      peekUncheckedOf dispatch chunk none { iterator with index := -1 } length flags := by
  rcases h with h | h
  · rw [← h]
  · cases chunk with
    | sequence header chunks =>
      rw [wf_sequence] at hwf
      exact SequenceChunk.peekUnchecked_index (fun c hc => (hwf c hc).2) h
    | _ => rfl

theorem consistent_ofPosition (chunk : Chunk) (position : ℤ) :
    chunk.Consistent (Iterator.ofPosition position) := by
  by_cases h : position = 0
  · subst h
    right
    cases chunk with
    | sequence header chunks => exact ⟨le_rfl, by simp [Iterator.ofPosition], rfl⟩
    | _ => trivial
  · exact Or.inl (by simp [Iterator.ofPosition, h])

end Chunk

end Inet
