import Inet.Chunk.Backward
import Inet.Packet.ChunkQueue
import Inet.Packet.Content

/-! # A queue of bits

Whatever the representation of the content, what is popped is what was pushed,
in the same order. The iterator stays in the first half of the content, and
its index fits although a push may merge the content without seeking.
-/

namespace Inet

open Chunk Outcome

namespace Chunk

/-- A chunk that is not marked and in which no bit counts occur. -/
structure Solid (chunk : Chunk) : Prop where
  wf : chunk.WF
  clean : chunk.Clean
  plain : ∀ x ∈ chunk.cells, x.counted = false

/-- A chunk that is not marked and in which no bit counts clash. -/
structure ClashFree (chunk : Chunk) : Prop where
  wf : chunk.WF
  clean : chunk.Clean
  noClash : NoClash chunk.cells

theorem Solid.clashFree {chunk : Chunk} (h : chunk.Solid) : chunk.ClashFree :=
  ⟨h.wf, h.clean, noClash_of_plain h.plain⟩

theorem ClashFree.solid {chunk : Chunk} (h : chunk.ClashFree)
    (hplain : ∀ x ∈ chunk.cells, x.counted = false) :
    chunk.Solid := ⟨h.wf, h.clean, hplain⟩

theorem ClashFree.rep {chunk : Chunk} (h : chunk.ClashFree) : Rep True chunk chunk.cells :=
  h.wf.rep fun _ => h.clean

theorem Rep.clashFree {chunk : Chunk} {xs : List Cell} (h : Rep True chunk xs)
    (hclash : NoClash xs) :
    chunk.ClashFree ∧ chunk.cells = xs := by
  have hcells := h.cells_eq hclash
  refine ⟨⟨h.wf, h.clean trivial, ?_⟩, hcells⟩
  rwa [hcells]

/-! The iterator of a content that grows at its end. -/

theorem exists_append_doInsertChunkAt (dispatch : Dispatch) (first : List Chunk) {last : List Chunk}
    (hlast : last ≠ []) (chunk : Chunk) :
    Spec True (SequenceChunk.doInsertChunkAt dispatch .back (first ++ last) chunk) fun r =>
      ∃ last', last' ≠ [] ∧ r = first ++ last' := by
  unfold SequenceChunk.doInsertChunkAt
  refine (spec_true _).bind fun _ _ => ?_
  split
  · rename_i hnone
    exact absurd (List.append_eq_nil_iff.1 (Side.back.uncons_eq_none hnone)).2 hlast
  · rename_i neighbour others hsome
    obtain ⟨hne, rfl⟩ : first ++ last ≠ [] ∧ others = (first ++ last).dropLast := by
      simp only [Side.uncons, Option.map_eq_some_iff, Prod.mk.injEq] at hsome
      obtain ⟨_, -, -, hothers⟩ := hsome
      exact ⟨fun h => hlast (List.append_eq_nil_iff.1 h).2, hothers.symm⟩
    have hothers : (first ++ last).dropLast = first ++ last.dropLast :=
      List.dropLast_append_of_ne_nil hlast
    split
    · refine Spec.pure ⟨last ++ [chunk], by simp, ?_⟩
      rw [Side.join, List.append_assoc]
    · refine (spec_true _).bind fun _ _ => (spec_true _).bind fun _ _ =>
        (spec_true _).bind fun simplified _ =>
          Spec.pure ⟨last.dropLast ++ [simplified], by simp, ?_⟩
      rw [hothers, Side.join, List.append_assoc]

theorem spec_doInsertAt_back (dispatch : Dispatch) {P : List Chunk → Prop}
    (hP : ∀ chunks chunk, P chunks →
      Spec True (SequenceChunk.doInsertChunkAt dispatch .back chunks chunk) P)
    {chunks : List Chunk} (h : P chunks) (chunk : Chunk) :
    Spec True (SequenceChunk.doInsertAt dispatch .back chunks chunk) P := by
  have hloop {α : Type} (g : List Chunk → α → ChunkM (List Chunk)) (as : List α)
      (hg : ∀ chunks a, P chunks → Spec True (g chunks a) P) : Spec True (as.foldlM g chunks) P :=
    @Spec.foldlM _ _ _ _ _ g (fun chunks _ => P chunks) as chunks h fun chunks a _ h =>
      hg chunks a h
  unfold SequenceChunk.doInsertAt
  split
  · refine hloop _ _ fun chunks element h => ?_
    unfold SequenceChunk.doInsertElementPart
    dsimp only
    split
    · exact hP chunks _ h
    · exact (spec_true _).bind fun _ _ => (spec_true _).bind fun _ _ => hP chunks _ h
    · exact Spec.pure h
  · exact hloop _ _ fun chunks element h => hP chunks element h
  · exact hP chunks _ h

theorem spec_insertAtBack_sequence {P : List Chunk → Prop}
    (hP : ∀ dispatch chunks chunk, P chunks →
      Spec True (SequenceChunk.doInsertChunkAt dispatch .back chunks chunk) P)
    (header : ChunkHeader) {chunks : List Chunk} (h : P chunks) (chunk : Chunk) :
    Spec True ((sequence header chunks).insertAtBack chunk) fun r =>
      ∃ chunks', P chunks' ∧ r = sequence header chunks' := by
  obtain ⟨n, hn⟩ : ∃ n, (sequence header chunks).size + chunk.size = n + 1 :=
    ⟨_, (Nat.succ_pred_eq_of_pos (Nat.add_pos_left (size_pos _) _)).symm⟩
  rw [insertAtBack, insertAtSide, hn]
  change Spec True (insertAtSideWith (dispatch n) .back (sequence header chunks) chunk) _
  have he : insertAtSideWith (dispatch n) .back (sequence header chunks) chunk = (do
      return sequence header (← SequenceChunk.doInsertAt (dispatch n) .back chunks chunk)) := by
    cases chunk <;> rfl
  rw [he]
  exact (spec_doInsertAt_back _ (hP _) h chunk).bind fun r hr => Spec.pure ⟨r, hr, rfl⟩

theorem exists_append_insertAtBack (header : ChunkHeader) (first : List Chunk)
    (element chunk : Chunk) :
    Spec True ((sequence header (first ++ [element])).insertAtBack chunk) fun r =>
      ∃ last, r = sequence header (first ++ last) := by
  refine (spec_insertAtBack_sequence
    (P := fun chunks => ∃ last, last ≠ [] ∧ chunks = first ++ last) ?_ header
    ⟨[element], List.cons_ne_nil _ _, rfl⟩ chunk).mono id ?_
  · rintro dispatch _ chunk ⟨last, hlast, rfl⟩
    exact exists_append_doInsertChunkAt dispatch first hlast chunk
  · rintro _ ⟨_, ⟨last, -, rfl⟩, rfl⟩
    exact ⟨last, rfl⟩

theorem IteratorConsistent.append {header header' : ChunkHeader} {first last : List Chunk}
    {element : Chunk} {iterator : Iterator} (hwf' : (sequence header' (first ++ last)).WF)
    (hf : iterator.isForward = true)
    (h : (sequence header (first ++ [element])).IteratorConsistent iterator)
    (hlt : iterator.position < (sequence header (first ++ [element])).getChunkLength) :
    (sequence header' (first ++ last)).IteratorConsistent iterator := by
  have helements (chunks : List Chunk) : SequenceChunk.elementsOf iterator chunks = chunks :=
    if_pos hf
  rcases h.consistent with hnone | hat
  · exact Or.inl hnone
  · dsimp only at hat
    rw [helements] at hat
    obtain ⟨h₀, hle, hsum⟩ := hat
    have hindex : iterator.index.toNat ≤ first.length := by
      by_contra hgt
      have hall : iterator.index.toNat = (first ++ [element]).length := by
        rw [List.length_append, List.length_singleton] at hle ⊢
        omega
      rw [hall, List.take_length] at hsum
      rw [getChunkLength_sequence, hsum] at hlt
      exact lt_irrefl _ hlt
    refine iteratorConsistent_of_indexAt (fun c hc => ((wf_sequence _ _).1 hwf' c hc).2) ?_
    rw [helements]
    refine ⟨h₀, ?_, ?_⟩
    · rw [List.length_append]
      omega
    · rw [List.take_append_of_le_length hindex] at hsum ⊢
      exact hsum

theorem IteratorConsistent.of_not_sequence {this after : Chunk} {iterator : Iterator}
    (h : this.IteratorConsistent iterator)
    (hnot : ∀ header chunks, this ≠ sequence header chunks) :
      after.IteratorConsistent iterator := by
  rcases h with h | h
  · exact Or.inl h
  · by_cases h₀ : iterator.position = 0
    · refine Or.inr ?_
      rw [h, h₀]
      simp only [seekedIndex, if_true]
    · refine Or.inl ?_
      rw [h]
      cases this with
      | sequence header chunks => exact absurd rfl (hnot header chunks)
      | _ => simp only [seekedIndex, h₀, if_false]

theorem returns_merge {this chunk : Chunk} (hthis : this.ClashFree) (hpos : 0 < this.getChunkLength)
    (hchunk : chunk.ClashFree) (hcpos : 0 < chunk.getChunkLength)
    (hclash : NoClash (this.cells ++ chunk.cells)) (hcan : this.canInsertAtBack chunk = true) :
    Returns (do
      let newContent ← makeExclusivelyOwnedMutableChunk this
      (← newContent.insertAtBack chunk).simplify) fun r =>
      r.ClashFree ∧ r.cells = this.cells ++ chunk.cells ∧
        ∀ iterator : Iterator, iterator.isForward = true → this.IteratorConsistent iterator →
          iterator.position < this.getChunkLength → r.IteratorConsistent iterator := by
  refine (spec_makeExclusivelyOwnedMutableChunk this).bind ?_
  rintro _ ⟨newId, rfl⟩
  set header := { this.header with id := newId }
  have hinsert := (dispatch_ok _).2 True .back (this.withHeader header) chunk
    ((wf_withHeader _ _).2 hthis.wf) (extensible_of_pos (by simpa using hpos))
    (fun _ => clean_withHeader_id _ newId hthis.clean) hchunk.wf hcpos (fun _ => hchunk.clean)
    ((canInsertAtSide_withHeader _ _ _ _).trans hcan) le_rfl
  rw [cells_withHeader] at hinsert
  have hlast : Spec True ((this.withHeader header).insertAtBack chunk) fun r =>
      ∀ h first element, this = sequence h (first ++ [element]) →
        ∃ last, r = sequence header (first ++ last) := by
    cases this with
    | sequence h chunks =>
      have hne : chunks ≠ [] := by
        rintro rfl
        exact lt_irrefl _ hpos
      obtain ⟨first, element, rfl⟩ := List.eq_nil_or_concat chunks |>.resolve_left hne
      rw [List.concat_eq_append]
      refine (exists_append_insertAtBack header first element chunk).mono id ?_
      rintro _ ⟨last, rfl⟩ h' first' element' heq
      obtain ⟨-, heq⟩ := Chunk.sequence.inj heq
      obtain ⟨rfl, -⟩ := List.append_singleton_inj.1 heq
      exact ⟨last, rfl⟩
    | _ =>
      refine (spec_true _).mono id fun r _ h first element heq => ?_
      cases heq
  refine ((hinsert.and hlast).mono (by simp) fun _ h => h).bind ?_
  rintro r ⟨⟨hrep, -⟩, hlast⟩
  have hlen : (r.getChunkLength : ℤ) = this.getChunkLength + chunk.getChunkLength := by
    have hl := hthis.wf.length_cells
    have hcl := hchunk.wf.length_cells
    rw [hrep.length_eq, Side.length_join]
    omega
  have hsimplify : r.simplify = Pure.pure r.whole := simplify_eq _ hrep.wf (by omega)
  rw [hsimplify]
  have hwhole : Rep True r.whole (this.cells ++ chunk.cells) := hrep.whole.1
  obtain ⟨hsound, hcells⟩ := hwhole.clashFree hclash
  refine Spec.pure ⟨hsound, hcells, fun iterator hf hconsistent hlt => ?_⟩
  by_cases hseq : ∃ header chunks, this = sequence header chunks
  · obtain ⟨h, chunks, rfl⟩ := hseq
    have hne : chunks ≠ [] := by
      rintro rfl
      exact lt_irrefl _ hpos
    obtain ⟨first, element, rfl⟩ := List.eq_nil_or_concat chunks |>.resolve_left hne
    rw [List.concat_eq_append] at hlast hconsistent hlt
    obtain ⟨last, rfl⟩ := hlast h first element rfl
    exact hconsistent.append hrep.wf hf hlt
  · exact hconsistent.of_not_sequence fun h chunks heq => hseq ⟨h, chunks, heq⟩

end Chunk

namespace ChunkQueue

variable {this : ChunkQueue}

/-- The data that is still in the queue. -/
def restCells (this : ChunkQueue) : List Cell :=
  this.content.cells.drop this.iterator.position.toNat

/-- The state of a queue between two operations, with content of a kind. -/
structure Settled (Kind : Chunk → Prop) (this : ChunkQueue) : Prop where
  kind : Kind this.content
  empty_or_pos : this.content.getChunkType = .empty ∨ 0 < this.content.getChunkLength
  isForward : this.iterator.isForward = true
  nonneg : 0 ≤ this.iterator.position
  half : this.iterator.position ≤ this.content.getChunkLength / 2
  index : this.content.IteratorConsistent this.iterator
  lengths : this.getPushedLength - this.getPoppedLength = this.getLength

theorem Settled.of_kind {Kind Kind' : Chunk → Prop} (h : this.Settled Kind)
    (hkind : Kind' this.content) : this.Settled Kind' :=
  { h with kind := hkind }

/-- The state where no bit counts clash. -/
abbrev Coherent (this : ChunkQueue) : Prop := this.Settled ClashFree

abbrev Consistent (this : ChunkQueue) : Prop := this.Settled Solid

theorem Consistent.coherent (h : this.Consistent) : this.Coherent := h.of_kind h.kind.clashFree

theorem Coherent.consistent (h : this.Coherent)
    (hplain : ∀ x ∈ this.content.cells, x.counted = false) : this.Consistent :=
  h.of_kind (h.kind.solid hplain)

theorem returns_new : Returns new fun r => r.Coherent ∧ r.content.cells = [] ∧ r.restCells =
    [] := by
  have hnil (header : ChunkHeader) : (empty header).cells = [] := by simp [cells]
  refine spec_newHeader.bind fun header hh => Spec.pure ⟨⟨⟨trivial, hh, ?_⟩, Or.inl rfl, rfl,
    le_rfl, le_rfl, Or.inr rfl, rfl⟩, hnil header, rfl⟩
  rw [hnil]
  exact List.isChain_nil

theorem Coherent.length_rest (h : this.Coherent) :
    (this.restCells.length : ℤ) = this.getLength := by
  have hl := h.kind.wf.length_cells
  have := h.half
  have := h.nonneg
  rw [restCells, List.length_drop, getLength]
  omega

theorem seg_restCells (h : this.Coherent) {offset : ℤ} (h₀ : 0 ≤ offset) (length : ℤ) :
    seg this.restCells offset length =
      seg this.content.cells (this.iterator.position + offset) length := by
  have := h.nonneg
  rw [restCells, seg, seg, List.drop_drop]
  congr 2
  omega

theorem Coherent.noClash_rest (h : this.Coherent) : NoClash this.restCells :=
  h.kind.noClash.of_isInfix (List.drop_suffix _ _).isInfix

theorem Coherent.returns_peek (h : this.Coherent) {iterator : Iterator}
    (hf : iterator.isForward = true) (hindex : this.content.Consistent iterator) {offset length : ℤ}
    (hposition : iterator.position = this.iterator.position + offset) (h₀ : 0 ≤ offset)
    (h₁ : 0 < length) (h₂ : offset + length ≤ this.getLength) (flags : PeekFlags) :
    Returns (this.content.peek iterator length flags) fun r =>
      ∃ c, r = some c ∧ c.ClashFree ∧ c.getChunkLength = length ∧
        c.cells = seg this.restCells offset length := by
  have hle : iterator.position + length ≤ this.content.getChunkLength := by
    rw [getLength] at h₂
    omega
  have hnonneg : 0 ≤ iterator.position := by
    have := h.nonneg
    omega
  refine (spec_peek (k := True) (dispatch_ok _).1 h.kind.wf (fun _ => h.kind.clean) hf hindex
    hnonneg h₁ hle le_rfl flags).mono (by simp) ?_
  rintro _ ⟨c, rfl, hrep, -, -⟩
  rw [hposition, ← seg_restCells h h₀] at hrep
  obtain ⟨hsound, hcells⟩ := hrep.clashFree (h.noClash_rest.seg _ _)
  refine ⟨c, rfl, hsound, ?_, hcells⟩
  rw [← hsound.wf.length_cells, hcells]
  exact length_seg h₀ h₁.le (by rw [h.length_rest]; exact h₂)

theorem Coherent.returns_peekAt (h : this.Coherent) {offset length : ℤ} (h₀ : 0 ≤ offset)
    (h₁ : 0 < length) (h₂ : offset + length ≤ this.getLength) (flags : PeekFlags) :
    Returns (this.peekAt offset length flags) fun r =>
      ∃ c, r = some c ∧ c.ClashFree ∧ c.getChunkLength = length ∧
        c.cells = seg this.restCells offset length := by
  unfold peekAt
  rw [checkUsage, if_pos ⟨h₀, by omega⟩, pure_bind, checkUsage, if_pos ⟨by omega, h₂⟩, pure_bind,
    if_neg (by omega)]
  exact h.returns_peek rfl (Or.inl rfl) rfl h₀ h₁ h₂ flags

/-! Popping. -/

theorem canRemoveAtSide_withHeader (header : ChunkHeader) (chunk : Chunk) (length : ℤ) :
    (chunk.withHeader header).canRemoveAtSide length = chunk.canRemoveAtSide length := by
  cases chunk <;> rfl

theorem drop_eq_seg {α : Type} (xs : List α) {offset : ℤ} (h₀ : 0 ≤ offset) :
    xs.drop offset.toNat = seg xs offset (xs.length - offset) := by
  have herase : Side.front.erase xs offset = _ := Side.erase_eq_seg xs h₀
  exact herase

theorem returns_removedContent (h : this.content.ClashFree) {length : ℤ} (h₀ : 0 < length)
    (h₁ : length ≤ this.content.getChunkLength) :
    Returns (this.removedContent length) fun r =>
      r.ClashFree ∧ (r.getChunkType = .empty ∨ 0 < r.getChunkLength) ∧
        r.cells = this.content.cells.drop length.toNat := by
  have hl := h.wf.length_cells
  have hclash : NoClash (this.content.cells.drop length.toNat) :=
    h.noClash.of_isInfix (List.drop_suffix _ _).isInfix
  unfold removedContent
  dsimp only
  by_cases hall : this.content.getChunkLength = length
  · rw [if_pos hall]
    have hnil : this.content.cells.drop length.toNat = [] := List.drop_of_length_le (by omega)
    rw [hnil] at hclash ⊢
    exact spec_newHeader.bind fun header hh =>
      Spec.pure ⟨⟨trivial, hh, by simpa [cells] using hclash⟩, Or.inl rfl, by simp [cells]⟩
  · rw [if_neg hall]
    by_cases hcan : this.content.canRemoveAtSide length = true
    · rw [if_pos hcan]
      refine (spec_makeExclusivelyOwnedMutableChunk this.content).bind ?_
      rintro _ ⟨newId, rfl⟩
      have hremove := spec_removeAtSide (k := True) .front ((wf_withHeader _ _).2 h.wf)
        (fun _ => clean_withHeader_id _ newId h.clean) h₀.le (by simpa using h₁)
        ((canRemoveAtSide_withHeader _ _ _).trans hcan)
      rw [cells_withHeader] at hremove
      refine hremove.mono (by simp) fun r hrep => ?_
      obtain ⟨hsound, hcells⟩ := hrep.clashFree hclash
      refine ⟨hsound, Or.inr ?_, hcells⟩
      rw [← hsound.wf.length_cells, hcells, Side.erase, List.length_drop]
      omega
    · rw [if_neg hcan]
      refine (spec_peek_deref (k := True) h.wf (fun _ => h.clean) rfl (consistent_ofPosition _ _)
        h₀.le (show 0 < this.content.getChunkLength - length by omega)
        (show length + (this.content.getChunkLength - length) ≤ _ by omega) {}).mono (by simp) ?_
      rintro r ⟨hrep, hpos⟩
      have hseg : seg this.content.cells length (this.content.getChunkLength - length) =
          this.content.cells.drop length.toNat := by
        rw [drop_eq_seg _ h₀.le, hl]
      change Rep True r (seg this.content.cells length _) at hrep
      rw [hseg] at hrep
      obtain ⟨hsound, hcells⟩ := hrep.clashFree hclash
      exact ⟨hsound, Or.inr hpos, hcells⟩

theorem Coherent.returns_moveIteratorOrRemove (h : this.Coherent) {length : ℤ}
    (h₀ : 0 < length) (h₁ : length ≤ this.getLength) :
    Returns (this.moveIteratorOrRemove length) fun r =>
      r.Coherent ∧ r.content.cells <:+ this.content.cells ∧
        r.restCells = this.restCells.drop length.toNat := by
  obtain ⟨hsound, hor, hf, hnonneg, hhalf, hindex, hlengths⟩ := h
  have hle : this.iterator.position + length ≤ this.content.getChunkLength := by
    rw [getLength] at h₁
    omega
  have hdrop : this.content.cells.drop (this.iterator.position + length).toNat =
      this.restCells.drop length.toNat := by
    rw [restCells, List.drop_drop]
    congr 1
    omega
  unfold moveIteratorOrRemove
  refine (spec_moveIterator hsound.wf hindex length).bind ?_
  rintro ⟨isForward, position, index⟩ ⟨hf', hposition, hindex'⟩
  dsimp only at hf' hposition ⊢
  by_cases hfar : position > this.content.getChunkLength / 2
  · rw [if_pos hfar]
    unfold remove
    refine (returns_removedContent hsound (show 0 < position by omega) (by omega)).bind ?_
    rintro r ⟨hr, hror, hcells⟩
    have hlen := hr.wf.length_cells
    have hl := hsound.wf.length_cells
    rw [hcells, List.length_drop] at hlen
    dsimp only
    rw [sub_self]
    refine (spec_seekIterator 0 le_rfl hr.wf.getChunkLength_nonneg).bind ?_
    rintro ⟨isForward', position', index'⟩ ⟨hf'', hposition', hindex''⟩
    dsimp only at hf'' hposition'
    subst hposition'
    refine Spec.pure ⟨⟨hr, hror, hf''.trans (hf'.trans hf), le_rfl, ?_, hindex'', ?_⟩,
      hcells ▸ List.drop_suffix _ _, ?_⟩
    · dsimp only
      omega
    · simp only [getPushedLength, getPoppedLength, getLength] at hlengths ⊢
      omega
    · rw [← hdrop, ← hposition]
      exact hcells
  · rw [if_neg hfar]
    refine Spec.pure ⟨⟨hsound, hor, hf'.trans hf, ?_, not_lt.1 hfar, hindex', ?_⟩,
      List.suffix_rfl, ?_⟩
    · dsimp only
      omega
    · simp only [getPushedLength, getPoppedLength, getLength] at hlengths ⊢
      omega
    · rw [← hdrop, ← hposition]
      rfl

theorem Coherent.returns_pop (h : this.Coherent) {length : ℤ} (h₀ : 0 < length)
    (h₁ : length ≤ this.getLength) (flags : PeekFlags) :
    Returns (this.pop length flags) fun r =>
      ∃ c, r.1 = some c ∧ c.cells = seg this.restCells 0 length ∧ r.2.Coherent ∧
        r.2.content.cells <:+ this.content.cells ∧
        r.2.restCells = this.restCells.drop length.toNat := by
  unfold pop
  rw [checkUsage, if_pos ⟨by omega, h₁⟩, pure_bind, if_neg (by omega)]
  unfold peek
  rw [checkUsage, if_pos ⟨by omega, h₁⟩, pure_bind, if_neg (by omega)]
  refine (h.returns_peek h.isForward h.index.consistent (add_zero _).symm le_rfl h₀
    (by rwa [zero_add]) flags).bind ?_
  rintro _ ⟨c, rfl, -, hlength, hcells⟩
  dsimp only
  rw [hlength]
  exact (h.returns_moveIteratorOrRemove h₀ h₁).bind fun r hr => Spec.pure ⟨c, rfl, hcells, hr⟩

theorem Coherent.returns_clear (h : this.Coherent) :
    Returns this.clear fun r => r.Coherent ∧ r.content.cells = [] ∧ r.restCells = [] := by
  have hnil (header : ChunkHeader) : (empty header).cells = [] := by simp [cells]
  unfold clear
  refine (spec_seekIterator 0 le_rfl h.kind.wf.getChunkLength_nonneg).bind ?_
  rintro ⟨isForward, position, index⟩ ⟨hf, hposition, hindex⟩
  dsimp only at hf hposition
  subst hposition
  refine spec_newHeader.bind fun header hh => Spec.pure
    ⟨⟨⟨trivial, hh, by rw [hnil]; exact List.isChain_nil⟩, Or.inl rfl, hf.trans h.isForward, le_rfl,
      le_rfl, ?_, ?_⟩, hnil header, rfl⟩
  · rcases hindex with hindex | hindex
    · exact Or.inl hindex
    · refine Or.inr ?_
      have hzero (chunk : Chunk) : chunk.seekedIndex isForward 0 = 0 := if_pos rfl
      exact hindex.trans ((hzero _).trans (hzero _).symm)
  · have hlengths := h.lengths
    simp only [getPushedLength, getPoppedLength, getLength] at hlengths ⊢
    simp only [getChunkLength]
    omega

/-! Pushing. -/

theorem Coherent.returns_push (h : this.Coherent) {chunk : Chunk} (hchunk : chunk.ClashFree)
    (hpos : 0 < chunk.getChunkLength) (hclash : NoClash (this.content.cells ++ chunk.cells)) :
    Returns (this.push chunk) fun r =>
      r.Coherent ∧ r.content.cells = this.content.cells ++ chunk.cells ∧
        r.restCells = this.restCells ++ chunk.cells := by
  obtain ⟨hsound, hor, hf, hnonneg, hhalf, hindex, hlengths⟩ := h
  have hl := hsound.wf.length_cells
  have hcl := hchunk.wf.length_cells
  have happend : (this.content.cells ++ chunk.cells).drop this.iterator.position.toNat =
      this.restCells ++ chunk.cells := by
    rw [restCells, List.drop_append_of_le_length (by omega)]
  have hgrows {content : Chunk} (hwf : content.WF)
      (hcells : content.cells = this.content.cells ++ chunk.cells) :
      content.getChunkLength = this.content.getChunkLength + chunk.getChunkLength := by
    rw [← hwf.length_cells, hcells, List.length_append]
    omega
  unfold push
  rw [checkUsage, if_pos hpos, pure_bind]
  dsimp only
  simp only [getPushedLength, getPoppedLength, getLength] at hlengths
  by_cases hempty : this.content.getChunkType = .empty
  · rw [if_pos hempty]
    have hzero : this.content.getChunkLength = 0 := by
      cases hc : this.content <;> rw [hc] at hempty <;> cases hempty
      rfl
    have hposition : this.iterator.position = 0 := by omega
    have hnil : this.content.cells = [] := List.length_eq_zero_iff.1 (by omega)
    refine Spec.pure ⟨⟨hchunk, Or.inr hpos, hf, hnonneg, ?_, ?_, ?_⟩, by rw [hnil]; rfl, ?_⟩
    · dsimp only
      omega
    · refine hindex.of_not_sequence fun header chunks heq => ?_
      rw [heq] at hempty
      cases hempty
    · simp only [getPushedLength, getPoppedLength, getLength]
      omega
    · rw [← happend, hnil]
      rfl
  · rw [if_neg hempty]
    have hcpos := hor.resolve_left hempty
    by_cases hcan : this.content.canInsertAtBack chunk = true
    · rw [if_pos hcan]
      refine (returns_merge hsound hcpos hchunk hpos hclash hcan).bind ?_
      rintro content ⟨hcontent, hcells, hiterator⟩
      have hlen := hgrows hcontent.wf hcells
      refine Spec.pure ⟨⟨hcontent, Or.inr (by dsimp only; omega), hf, hnonneg, ?_,
        hiterator _ hf hindex (show this.iterator.position < _ by omega), ?_⟩, hcells, ?_⟩
      · dsimp only
        omega
      · simp only [getPushedLength, getPoppedLength, getLength]
        omega
      · rw [← happend, ← hcells]
        rfl
    · rw [if_neg hcan]
      have hparts : List.Forall₂ (fun c xs => Rep True c xs ∧ 0 < c.getChunkLength)
          [this.content, chunk] [this.content.cells, chunk.cells] :=
        .cons ⟨hsound.rep, hcpos⟩ (.cons ⟨hchunk.rep, hpos⟩ .nil)
      refine ((Packet.spec_sequenceOf hparts).mono (by simp) fun _ h => h).bind ?_
      rintro content ⟨hrep, -⟩
      rw [List.flatten_cons, List.flatten_cons, List.flatten_nil, List.append_nil] at hrep
      obtain ⟨hcontent, hcells⟩ := hrep.clashFree hclash
      have hlen := hgrows hcontent.wf hcells
      refine (spec_seekIterator this.iterator.position hnonneg (by omega)).bind ?_
      rintro ⟨isForward, position, index⟩ ⟨hf', hposition, hindex'⟩
      dsimp only at hf' hposition
      subst hposition
      refine Spec.pure ⟨⟨hcontent, Or.inr (by dsimp only; omega), hf'.trans hf, hnonneg, ?_,
        hindex', ?_⟩, hcells, ?_⟩
      · dsimp only
        omega
      · simp only [getPushedLength, getPoppedLength, getLength]
        omega
      · rw [← happend, ← hcells]
        rfl

/-! Without bit counts. -/

theorem returns_new_consistent : Returns new fun r => r.Consistent ∧ r.restCells = [] := by
  refine returns_new.mono id ?_
  rintro r ⟨hr, hcells, hrest⟩
  exact ⟨hr.consistent (by simp [hcells]), hrest⟩

theorem Consistent.returns_push (h : this.Consistent) {chunk : Chunk} (hchunk : chunk.Solid)
    (hpos : 0 < chunk.getChunkLength) :
    Returns (this.push chunk) fun r =>
      r.Consistent ∧ r.restCells = this.restCells ++ chunk.cells := by
  have hplain : ∀ x ∈ this.content.cells ++ chunk.cells, x.counted = false :=
    List.forall_mem_append.2 ⟨h.kind.plain, hchunk.plain⟩
  refine (h.coherent.returns_push hchunk.clashFree hpos (noClash_of_plain hplain)).mono id ?_
  rintro r ⟨hr, hcells, hrest⟩
  exact ⟨hr.consistent (hcells ▸ hplain), hrest⟩

theorem Consistent.returns_pop (h : this.Consistent) {length : ℤ} (h₀ : 0 < length)
    (h₁ : length ≤ this.getLength) (flags : PeekFlags) :
    Returns (this.pop length flags) fun r =>
      ∃ c, r.1 = some c ∧ c.cells = seg this.restCells 0 length ∧
        r.2.Consistent ∧ r.2.restCells = this.restCells.drop length.toNat := by
  refine (h.coherent.returns_pop h₀ h₁ flags).mono id ?_
  rintro r ⟨c, hc, hcells, hr, hsuffix, hrest⟩
  exact ⟨c, hc, hcells, hr.consistent fun x hx => h.kind.plain x (hsuffix.subset hx), hrest⟩

theorem Consistent.returns_clear (h : this.Consistent) :
    Returns this.clear fun r => r.Consistent ∧ r.restCells = [] := by
  refine h.coherent.returns_clear.mono id ?_
  rintro r ⟨hr, hcells, hrest⟩
  exact ⟨hr.consistent (by simp [hcells]), hrest⟩

/-! Runs. -/

/-- A peek with these flags may return nothing. -/
def AllowsNothing (flags : PeekFlags) : Prop :=
  flags.allowNullptr = true ∨ flags.allowEmpty = true

/-- The data of what a peek returns, which may be nothing. -/
def bitsOf : Option Chunk → List Bool
  | none => []
  | some chunk => chunk.toBits

theorem returns_peek_nothing {chunk : Chunk} {iterator : Iterator} (h₀ : 0 ≤ iterator.position)
    (h₁ : iterator.position ≤ chunk.getChunkLength) {flags : PeekFlags}
    (hflags : AllowsNothing flags) :
    Returns (chunk.peek iterator 0 flags) fun r => bitsOf r = [] := by
  change Returns (peekUncheckedOf (dispatch (chunk.size + 1)) chunk none iterator 0 flags >>=
    fun chunk => checkPeekResult chunk flags) _
  rw [peekUncheckedOf_nothing _ h₀ h₁]
  unfold getEmptyChunk
  by_cases hnull : flags.allowNullptr = true
  · simp only [hnull, if_true, pure_bind]
    exact fun _ => by simp [checkPeekResult, hnull, bitsOf]
  · have hempty := hflags.resolve_left hnull
    rw [if_neg hnull, if_pos hempty, bind_assoc]
    refine spec_newHeader.bind fun header _ => ?_
    rw [pure_bind, checkPeekResult, hempty]
    exact Spec.pure rfl

/-- The queues after some operations, with the data that was pushed and not dropped, and with the
data that was popped. -/
inductive Reachable : ChunkQueue → List Bool → List Bool → Prop where
  | new {this : ChunkQueue} {s s' : ℕ} (hrun : new.run s = .ok (this, s')) : Reachable this [] []
  | push {this after : ChunkQueue} {kept popped : List Bool} {chunk : Chunk} {s s' : ℕ}
      (h : Reachable this kept popped) (hwf : chunk.WF) (hclean : chunk.Clean)
      (hplain : chunk.NoBitCounts) (hpos : 0 < chunk.getChunkLength)
      (hrun : (this.push chunk).run s = .ok (after, s')) :
      Reachable after (kept ++ chunk.toBits) popped
  | pop {this after : ChunkQueue} {kept popped : List Bool} {part : Chunk} {length : ℤ}
      {flags : PeekFlags} {s s' : ℕ} (h : Reachable this kept popped) (h₀ : 0 < length)
      (h₁ : length ≤ this.getLength)
      (hrun : (this.pop length flags).run s = .ok ((some part, after), s')) :
      Reachable after kept (popped ++ part.toBits)
  | clear {this after : ChunkQueue} {kept popped : List Bool} {s s' : ℕ}
      (h : Reachable this kept popped) (hrun : this.clear.run s = .ok (after, s')) :
      Reachable after (kept.take (kept.length - this.getLength.toNat)) popped

/-- The queue behaves like one that holds these bits. -/
structure Refines (this : ChunkQueue) (rest : List Bool) : Prop where
  length_eq : (rest.length : ℤ) = this.getLength
  lengths : this.getPushedLength - this.getPoppedLength = this.getLength
  half : this.iterator.position ≤ this.content.getChunkLength / 2
  index : this.content.IteratorConsistent this.iterator
  peekAt (offset length : ℤ) (flags : PeekFlags) : 0 ≤ offset → 0 ≤ length →
    offset + length ≤ this.getLength → 0 < length ∨ AllowsNothing flags →
    Returns (this.peekAt offset length flags) fun r => bitsOf r = seg rest offset length
  peekAll (flags : PeekFlags) : 0 < this.getLength ∨ AllowsNothing flags →
    Returns (this.peekAll flags) fun r => bitsOf r = rest
  push (chunk : Chunk) : chunk.WF → chunk.Clean → chunk.NoBitCounts → 0 < chunk.getChunkLength →
    Returns (this.push chunk) fun _ => True
  pop (length : ℤ) (flags : PeekFlags) : 0 < length → length ≤ this.getLength →
    Returns (this.pop length flags) fun r =>
      ∃ part, r.1 = some part ∧ part.toBits = seg rest 0 length
  clear : Returns this.clear fun _ => True

/-- The bits that are still in the queue. -/
def restBits (this : ChunkQueue) : List Bool := this.restCells.map Cell.bit

theorem Coherent.length_restBits (h : this.Coherent) :
    (this.restBits.length : ℤ) = this.getLength := by
  rw [restBits, List.length_map]
  exact h.length_rest

theorem Coherent.returns_peekAt_bits (h : this.Coherent) {offset length : ℤ} (h₀ : 0 ≤ offset)
    (h₁ : 0 ≤ length) (h₂ : offset + length ≤ this.getLength) {flags : PeekFlags}
    (hflags : 0 < length ∨ AllowsNothing flags) :
    Returns (this.peekAt offset length flags) fun r =>
      bitsOf r = seg this.restBits offset length := by
  rcases h₁.lt_or_eq with hpos | rfl
  · refine (h.returns_peekAt h₀ hpos h₂ flags).mono id ?_
    rintro _ ⟨c, rfl, -, -, hcells⟩
    rw [bitsOf, toBits, hcells, map_seg, restBits]
  · have hnonneg := h.nonneg
    have hle : this.iterator.position + offset ≤ this.content.getChunkLength := by
      rw [getLength] at h₂
      omega
    unfold peekAt
    rw [checkUsage, if_pos ⟨h₀, by omega⟩, pure_bind, checkUsage, if_pos ⟨by omega, h₂⟩, pure_bind,
      if_neg (by omega), seg_of_nonpos _ _ le_rfl]
    exact returns_peek_nothing (add_nonneg hnonneg h₀) hle (hflags.resolve_left (lt_irrefl _))

theorem Consistent.refines_restBits (h : this.Consistent) : this.Refines this.restBits where
  length_eq := h.coherent.length_restBits
  lengths := h.lengths
  half := h.half
  index := h.index
  peekAt _ _ _ h₀ h₁ h₂ hflags := h.coherent.returns_peekAt_bits h₀ h₁ h₂ hflags
  peekAll flags hflags := by
    have hlen := h.coherent.length_restBits
    have hpeek := h.coherent.returns_peekAt_bits le_rfl (show 0 ≤ this.getLength by omega)
      (zero_add _).le hflags
    rwa [← hlen, seg_whole, hlen] at hpeek
  push _ hwf hclean hplain hpos :=
    (h.returns_push ⟨hwf, hclean, hplain.plain⟩ hpos).mono id fun _ _ => trivial
  pop length flags h₀ h₁ := by
    refine (h.returns_pop h₀ h₁ flags).mono id ?_
    rintro _ ⟨part, hpart, hcells, -⟩
    refine ⟨part, hpart, ?_⟩
    rw [toBits, hcells, map_seg, restBits]
  clear := h.returns_clear.mono id fun _ _ => trivial

theorem Reachable.consistent {kept popped : List Bool} (h : Reachable this kept popped) :
    this.Consistent ∧ kept = popped ++ this.restBits := by
  induction h with
  | new hrun =>
    obtain ⟨hthis, hrest⟩ := returns_new_consistent.of_run hrun
    refine ⟨hthis, ?_⟩
    rw [restBits, hrest]
    rfl
  | push _ hwf hclean hplain hpos hrun ih =>
    obtain ⟨hthis, rfl⟩ := ih
    obtain ⟨hafter, hrest⟩ := (hthis.returns_push ⟨hwf, hclean, hplain.plain⟩ hpos).of_run hrun
    refine ⟨hafter, ?_⟩
    rw [List.append_assoc, restBits, restBits, hrest, List.map_append]
    rfl
  | @pop this after kept popped part length flags s s' _ h₀ h₁ hrun ih =>
    obtain ⟨hthis, rfl⟩ := ih
    obtain ⟨c, hc, hcells, hafter, hrest⟩ := (hthis.returns_pop h₀ h₁ flags).of_run hrun
    obtain rfl : part = c := Option.some.inj hc
    have hrest : after.restCells = this.restCells.drop length.toNat := hrest
    refine ⟨hafter, ?_⟩
    rw [List.append_assoc, toBits, hcells, restBits, restBits, hrest, ← List.map_append, seg,
      Int.toNat_zero, List.drop_zero, List.take_append_drop]
  | @clear this after kept popped s s' _ hrun ih =>
    obtain ⟨hthis, rfl⟩ := ih
    obtain ⟨hafter, hrest⟩ := hthis.returns_clear.of_run hrun
    have hlen := hthis.coherent.length_restBits
    refine ⟨hafter, ?_⟩
    have hdropped : (popped ++ this.restBits).length - this.getLength.toNat = popped.length := by
      rw [List.length_append]
      omega
    rw [hdropped, List.take_left, restBits, hrest, List.map_nil, List.append_nil]

/-- **A queue of bits**: after any operations the data that was pushed and not dropped is the popped
data followed by what the queue shows. -/
theorem Reachable.exists_rest {kept popped : List Bool} (h : Reachable this kept popped) :
    ∃ rest, kept = popped ++ rest ∧ this.Refines rest := by
  obtain ⟨hthis, hkept⟩ := h.consistent
  exact ⟨this.restBits, hkept, hthis.refines_restBits⟩

/-- A queue with one bit in it after a pop. -/
theorem refines_poppedTwo : ∃ (this : ChunkQueue) (rest : List Bool),
    [true, false, true] = [true, false] ++ rest ∧ this.Refines rest := by
  set chunk := bits ⟨0, false, false, false⟩ [true, false, true]
  have hnew : Reachable ⟨0, 0, .empty ⟨0, false, false, false⟩, ⟨true, 0, 0⟩⟩ [] [] :=
    .new (show new.run 0 = .ok (_, 1) from rfl)
  have hpush : Reachable ⟨3, 0, chunk, ⟨true, 0, 0⟩⟩ ([] ++ chunk.toBits) [] :=
    hnew.push trivial ⟨rfl, rfl, rfl⟩ trivial (by decide)
      (show (ChunkQueue.push _ chunk).run 1 = .ok (_, 1) from rfl)
  have hrun : (ChunkQueue.pop ⟨3, 0, chunk, ⟨true, 0, 0⟩⟩ 2 {}).run 1 =
      .ok ((some (bits ⟨1, false, false, false⟩ [true, false]),
        ⟨3, 2, bits ⟨2, false, false, false⟩ [true], ⟨true, 0, 0⟩⟩), 3) := rfl
  exact ⟨_, Reachable.exists_rest (hpush.pop (by decide) (by decide) hrun)⟩

/-- Without flags an empty queue does not show its content, and a marked chunk is not popped. -/
theorem throws_unflagged :
    (do
      let this ← new
      let this ← this.push (bits ⟨0, false, false, false⟩ [true])
      let (_, this) ← this.pop 1 {}
      this.peekAll {} : ChunkM (Option Chunk)).run 1 =
        .error (.runtime "Returning an empty chunk is not allowed according to the flags") ∧
      (do
        let this ← new
        let this ← this.push (bits ⟨0, true, false, false⟩ [true])
        this.pop 1 {} : ChunkM (Option Chunk × ChunkQueue)).run 1 =
        .error (.runtime "Returning an incomplete chunk is not allowed according to the flags") :=
  ⟨rfl, rfl⟩

end ChunkQueue

end Inet
