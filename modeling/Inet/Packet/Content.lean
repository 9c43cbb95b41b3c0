import Mathlib.Data.List.Forall2
import Inet.Chunk.Edit
import Inet.Packet.Consistent

/-! # Rebuilding the content

The content after `eraseAt` and `insertAt`, whichever of their branches is
taken.
-/

namespace Inet

open Chunk Outcome

theorem Outcome.spec_true {σ ε α : Type} (x : StateT σ (Except ε) α) :
    Spec True x fun _ => True := by
  intro s
  cases h : x.run s <;> trivial

namespace Chunk

variable {k : Prop}

/-- What is denoted up to clashes composes. -/
theorem Rep.append {r c d : Chunk} {xs ys : List Cell} (hr : Rep k r (c.cells ++ d.cells))
    (hc : Rep k c xs) (hd : Rep k d ys) : Rep k r (xs ++ ys) where
  wf := hr.wf
  length_eq := by
    have := hc.wf.length_cells
    have := hd.wf.length_cells
    have := hc.length_eq
    have := hd.length_eq
    rw [hr.length_eq, List.length_append, List.length_append]
    omega
  cells_eq hn := by
    have h₁ := hc.cells_eq hn.left
    have h₂ := hd.cells_eq hn.right
    rw [← h₁, ← h₂] at hn ⊢
    exact hr.cells_eq hn
  clean := hr.clean

theorem peekUncheckedOf_nothing (dispatch : Dispatch) {chunk : Chunk} {iterator : Iterator}
    (h₀ : 0 ≤ iterator.position) (h₁ : iterator.position ≤ chunk.getChunkLength)
    (flags : PeekFlags) :
    peekUncheckedOf dispatch chunk none iterator 0 flags = getEmptyChunk flags := by
  have hcheck : checkUsage (m := ChunkM) (0 ≤ iterator.position ∧
      iterator.position ≤ chunk.getChunkLength) "iterator is out of range" = pure () :=
    if_pos ⟨h₀, h₁⟩
  cases chunk with
  | empty header =>
    have h₁ : iterator.position ≤ 0 := h₁
    rw [peekUncheckedOf, EmptyChunk.peekUnchecked, checkUsage, if_pos (by omega), pure_bind,
      checkUsage, if_pos le_rfl, pure_bind]
    rfl
  | fields =>
    rw [peekUncheckedOf, FieldsChunk.peekUnchecked, hcheck, pure_bind, if_pos ⟨Or.inl rfl, rfl⟩]
  | slice =>
    rw [peekUncheckedOf, SliceChunk.peekUnchecked, hcheck, pure_bind, if_pos ⟨Or.inl rfl, rfl⟩]
  | sequence =>
    rw [peekUncheckedOf, SequenceChunk.peekUnchecked, hcheck, pure_bind, if_pos ⟨Or.inl rfl, rfl⟩]
  | _ =>
    simp only [peekUncheckedOf, BitsChunk.peekUnchecked, BitCountChunk.peekUnchecked,
      BytesChunk.peekUnchecked, ByteCountChunk.peekUnchecked, peekUncheckedWith, hcheck, pure_bind]
    rw [if_pos ⟨Or.inl trivial, rfl⟩]

theorem throws_peek_empty {chunk : Chunk} {iterator : Iterator} (h₀ : 0 ≤ iterator.position)
    (h₁ : iterator.position ≤ chunk.getChunkLength) : Throws (chunk.peek iterator 0 {}) := by
  refine Spec.bind_of_false ?_
  change Throws (peekUncheckedOf (dispatch (chunk.size + 1)) chunk none iterator 0 {})
  rw [peekUncheckedOf_nothing _ h₀ h₁]
  exact Spec.throw trivial

theorem spec_peek_deref {chunk : Chunk} {iterator : Iterator} {length : ℤ} (hwf : chunk.WF)
    (hk : k → chunk.Clean) (hf : iterator.isForward = true) (hc : chunk.Consistent iterator)
    (h₀ : 0 ≤ iterator.position) (h₁ : 0 < length)
    (h₂ : iterator.position + length ≤ chunk.getChunkLength) (flags : PeekFlags) :
    Spec (¬ k) (do deref (← chunk.peek iterator length flags)) fun c =>
      Rep k c (seg chunk.cells iterator.position length) ∧ 0 < c.getChunkLength := by
  refine (spec_peek (dispatch_ok _).1 hwf hk hf hc h₀ h₁ h₂ le_rfl flags).bind ?_
  rintro _ ⟨c, rfl, hrep, -, -⟩
  refine Spec.pure ⟨hrep, ?_⟩
  rw [hrep.length_eq, length_seg h₀ h₁.le (by rw [hwf.length_cells]; exact h₂)]
  exact h₁

theorem spec_insertAtSide_sequence {side : Side} {header : ChunkHeader} {chunks : List Chunk}
    (hwf : (sequence header chunks).WF) (hk : k → (sequence header chunks).Clean) {chunk : Chunk}
    (hcwf : chunk.WF) (hpos : 0 < chunk.getChunkLength) (hck : k → chunk.Clean) :
    Spec (¬ k) ((sequence header chunks).insertAtSide side chunk) fun r =>
      Rep k r (side.join (sequence header chunks).cells chunk.cells) ∧
        ∃ chunks', r = sequence header chunks' := by
  have hrep := (dispatch_ok _).2 k side (sequence header chunks) chunk hwf trivial hk hcwf hpos hck
    (by cases chunk <;> rfl) le_rfl
  have hseq : Spec True ((sequence header chunks).insertAtSide side chunk) fun r =>
      ∃ chunks', r = sequence header chunks' := by
    obtain ⟨n, hn⟩ : ∃ n, (sequence header chunks).size + chunk.size = n + 1 :=
      ⟨_, (Nat.succ_pred_eq_of_pos (Nat.add_pos_left (size_pos _) _)).symm⟩
    rw [insertAtSide, hn]
    change Spec True (insertAtSideWith (dispatch n) side (sequence header chunks) chunk) _
    have he : insertAtSideWith (dispatch n) side (sequence header chunks) chunk = (do
        return sequence header (← SequenceChunk.doInsertAt (dispatch n) side chunks chunk)) := by
      cases chunk <;> rfl
    rw [he]
    exact (spec_true _).bind fun r _ => Spec.pure ⟨r, rfl⟩
  exact (hrep.and hseq).mono And.left fun r hr => ⟨hr.1.1, hr.2⟩

end Chunk

namespace Packet

variable {k : Prop}

theorem spec_sequenceOf {parts : List Chunk} {xss : List (List Cell)}
    (h : List.Forall₂ (fun c xs => Rep k c xs ∧ 0 < c.getChunkLength) parts xss) :
    Spec (¬ k) (sequenceOf parts) fun r =>
      Rep k r xss.flatten ∧ ∃ header chunks, r = sequence header chunks := by
  unfold sequenceOf
  refine spec_newHeader.bind fun header hh => ?_
  have hgen : ∀ (acc : Chunk) (xs : List Cell), Rep k acc xs →
      (∃ header chunks, acc = sequence header chunks) →
      Spec (¬ k) (parts.foldlM (fun sequence part => sequence.insertAtBack part) acc) fun r =>
        Rep k r (xs ++ xss.flatten) ∧ ∃ header chunks, r = sequence header chunks := by
    induction h with
    | nil =>
      intro acc xs hacc hseq
      exact Spec.pure ⟨by simpa using hacc, hseq⟩
    | @cons part ys parts yss hp _ ih =>
      rintro acc xs hacc ⟨header, chunks, rfl⟩
      rw [List.foldlM_cons]
      refine (spec_insertAtSide_sequence hacc.wf hacc.clean hp.1.wf hp.2
        hp.1.clean).bind ?_
      rintro r ⟨hr, chunks', rfl⟩
      have := ih _ (xs ++ ys) (Rep.append hr hacc hp.1) ⟨header, chunks', rfl⟩
      rwa [List.append_assoc] at this
  have := hgen (sequence header []) [] ((reps_nil k).rep fun _ => hh) ⟨_, _, rfl⟩
  rwa [List.nil_append] at this

variable {this : Packet} {offset length : ℤ}

/-- The branch of `eraseAt` that calls `removeAt`. -/
def RemovesInside (this : Packet) (offset length : ℤ) : Prop :=
  this.content.getChunkLength ≠ length ∧
    ¬ (offset = 0 ∧ this.content.canRemoveAtSide length = true) ∧
    ¬ (offset + length = this.getTotalLength ∧ this.content.canRemoveAtSide length = true) ∧
    this.content.canRemoveAt offset length = true

theorem spec_partIf {chunk : Chunk} {p l : ℤ} {index : ℤ} (hwf : chunk.WF) (hk : k → chunk.Clean)
    (hc : chunk.Consistent ⟨true, p, index⟩) (h₀ : 0 ≤ p) (h₁ : 0 ≤ l)
    (h₂ : p + l ≤ chunk.getChunkLength) {flags : PeekFlags} {condition : Prop}
    [Decidable condition] (hcond : condition ↔ 0 < l) :
    Spec (¬ k) (chunk.partIf condition ⟨true, p, index⟩ l flags) fun parts => ∃ xss,
      List.Forall₂ (fun c xs => Rep k c xs ∧ 0 < c.getChunkLength) parts xss ∧
        xss.flatten = seg chunk.cells p l := by
  unfold partIf
  by_cases hl : 0 < l
  · rw [if_pos (hcond.2 hl), ← bind_assoc]
    refine (spec_peek_deref hwf hk rfl hc h₀ hl h₂ flags).bind fun c hrep => ?_
    exact Spec.pure ⟨[_], List.Forall₂.cons hrep List.Forall₂.nil, by simp⟩
  · rw [if_neg (fun h => hl (hcond.1 h))]
    exact Spec.pure ⟨[], List.Forall₂.nil, by rw [seg_of_nonpos _ _ (by omega)]; rfl⟩

theorem rep_empty {header : ChunkHeader} (hh : k → header.Clean) : Rep k (empty header) [] :=
  ⟨trivial, rfl, fun _ => rfl, hh⟩

theorem spec_editAndSimplify {content : Chunk} {op : Chunk → ChunkM Chunk} {xs : List Cell}
    (hop : ∀ header, (k → content.Clean → (content.withHeader header).Clean) →
      Spec (¬ k) (op (content.withHeader header)) fun c => Rep k c xs) (hne : xs ≠ []) :
    Spec (¬ k) (do
      let newContent ← makeExclusivelyOwnedMutableChunk content
      (← op newContent).simplify) fun c => Rep k c xs := by
  refine (spec_makeExclusivelyOwnedMutableChunk content).bind ?_
  rintro _ ⟨newId, rfl⟩
  exact (hop _ fun _ hc => clean_withHeader_id _ newId hc).bind fun c hc => spec_simplify_rep hc hne

theorem spec_removeAndSimplify {side : Side} {content : Chunk} (hwf : content.WF)
    (hk : k → content.Clean) (h₀ : 0 ≤ length) (h₁ : length ≤ content.getChunkLength)
    (hcan : content.canRemoveAtSide length = true) (hne : side.erase content.cells length ≠ []) :
    Spec (¬ k) (do
      let newContent ← makeExclusivelyOwnedMutableChunk content
      (← newContent.removeAtSide side length).simplify) fun c =>
      Rep k c (side.erase content.cells length) := by
  refine spec_editAndSimplify (fun header hh => ?_) hne
  have hremove := spec_removeAtSide side (k := k)
    ((wf_withHeader _ _).2 hwf) (fun h => hh h (hk h)) h₀ (by simpa using h₁)
    (by cases content <;> exact hcan)
  rwa [cells_withHeader] at hremove

theorem spec_erasedContent (hwf : this.content.WF)
    (hlen : this.content.getChunkLength = this.getTotalLength) (hk : k → this.content.Clean)
    (h₀ : 0 ≤ offset) (h₁ : 0 ≤ length) (h₂ : offset + length ≤ this.getTotalLength)
    (hin : this.RemovesInside offset length → offset = length)
    (hend : k → offset + length = this.getTotalLength → 0 < length →
      length < this.getTotalLength → this.content.canRemoveAtSide length = true) :
    Spec (¬ k) (this.erasedContent offset length) fun c =>
      Rep k c (eraseElements this.content.cells offset length) ∧ c.Extensible ∧
        (this.getTotalLength = length → c.getChunkType = .empty) := by
  have hcells : (this.content.cells.length : ℤ) = this.getTotalLength := by
    rw [hwf.length_cells, hlen]
  unfold erasedContent
  dsimp only
  by_cases hwhole : this.content.getChunkLength = length
  · rw [if_pos hwhole]
    refine spec_newHeader.bind fun header hh => Spec.pure ⟨?_, trivial, fun _ => rfl⟩
    have : eraseElements this.content.cells offset length = [] := by
      rw [eraseElements, show offset.toNat = 0 by omega, List.take_zero, List.nil_append,
        List.drop_of_length_le (by omega)]
    rw [this]
    exact rep_empty fun _ => hh
  · -- something is left, so a merged chunk can be extended
    suffices h :
      Spec (¬ k) (if offset = 0 ∧ this.content.canRemoveAtSide length = true then _ else _)
        fun c => Rep k c (eraseElements this.content.cells offset length) by
      rw [if_neg hwhole]
      refine h.mono id fun c hc =>
        ⟨hc, extensible_of_pos ?_, fun he => absurd (hlen.trans he) hwhole⟩
      rw [hc.length_eq, eraseElements_eq_seg _ (by omega), List.length_append, Nat.cast_add,
        length_seg le_rfl h₀ (by omega), length_seg (by omega) (by omega) (by omega)]
      omega
    have hne : eraseElements this.content.cells offset length ≠ [] := by
      intro hnil
      have := congrArg (fun xs => (xs.length : ℤ)) hnil
      rw [eraseElements_eq_seg _ (by omega)] at this
      simp only [List.length_append, Nat.cast_add, List.length_nil] at this
      rw [length_seg le_rfl h₀ (by omega), length_seg (by omega) (by omega) (by omega)] at this
      omega
    split_ifs with hfront hback hinside
    · obtain ⟨rfl, hcan⟩ := hfront
      have herase : eraseElements this.content.cells 0 length =
          Side.front.erase this.content.cells length := by
        simp [eraseElements, Side.erase]
      rw [herase] at hne ⊢
      exact spec_removeAndSimplify hwf hk h₁ (by omega) hcan hne
    · obtain ⟨he, hcan⟩ := hback
      have herase : eraseElements this.content.cells offset length =
          Side.back.erase this.content.cells length := by
        rw [eraseElements, Side.erase, List.drop_of_length_le (by omega), List.append_nil]
        congr 1
        omega
      rw [herase] at hne ⊢
      exact spec_removeAndSimplify hwf hk h₁ (by omega) hcan hne
    · obtain rfl := hin ⟨hwhole, hfront, hback, hinside⟩
      refine spec_editAndSimplify (fun header hh => ?_) hne
      have hremove := spec_removeAt (k := k)
        ((wf_withHeader _ _).2 hwf) (fun h => hh h (hk h)) h₀ h₁ (by simpa [hlen] using h₂)
        (by cases hc : this.content <;> rw [hc] at hinside <;> exact hinside)
      rwa [cells_withHeader] at hremove
    · refine (spec_partIf hwf hk (consistent_ofPosition _ 0) le_rfl h₀ (by omega)
        (by omega)).bind ?_
      rintro front ⟨xss, hxss, hflat⟩
      by_cases hzero : offset + length = this.getTotalLength ∧ 0 < length
      · -- the part behind the erased one is empty, and peeking it throws
        have hnk : ¬ k := fun h => hback ⟨hzero.1, hend h hzero.1 hzero.2 (by omega)⟩
        rw [partIf, if_pos (by omega), show this.getTotalLength - offset - length = 0 by omega]
        refine Spec.bind_of_false ?_
        refine Spec.bind_of_false ?_
        exact (throws_peek_empty (by dsimp only; omega) (by dsimp only; omega)).mono
          (fun _ => hnk) fun _ hr => hr
      · refine (spec_partIf hwf hk (Or.inl rfl) (by omega) (by omega) (by omega)
          (by omega)).bind ?_
        rintro back ⟨yss, hyss, hflat'⟩
        refine (spec_sequenceOf (List.rel_append hxss hyss)).mono id fun c hc => ?_
        have hrep := hc.1
        rwa [List.flatten_append, hflat, hflat', show this.getTotalLength - offset - length =
          this.content.cells.length - (offset + length) by omega,
          ← eraseElements_eq_seg _ (by omega)] at hrep

section Iterators

/-- The iterators that are moved have an index that every rebuilt content has room for. -/
structure IndexSafe (this : Packet) (frontMoves backMoves : Prop) : Prop where
  front : frontMoves → this.frontIterator.index ≤ 1
  back : backMoves → this.backIterator.index ≤ 1

theorem index_le_of_rep {content : Chunk} {xs : List Cell} (h : Rep k content xs) (hne : xs ≠ [])
    {index : ℤ} (hi : index ≤ 1) (header : ChunkHeader) (chunks : List Chunk)
    (hc : content = sequence header chunks) : index ≤ chunks.length := by
  subst hc
  cases chunks with
  | nil =>
    have hlen := h.length_eq
    rw [getChunkLength_sequence, List.map_nil, List.sum_nil] at hlen
    exact absurd (List.length_eq_zero_iff.1 (by omega)) hne
  | cons chunk chunks =>
    rw [List.length_cons]
    omega

/-- An iterator whose index is unknown, or that has not been moved. -/
def Unindexed (iterator : Iterator) : Prop := iterator.index = -1 ∨ iterator.position = 0

theorem iteratorConsistent_zero {content content' : Chunk} {iterator : Iterator}
    (h : content.IteratorConsistent iterator) (h₀ : iterator.position = 0) :
    content'.IteratorConsistent iterator := by
  rcases h with h | h
  · exact Or.inl h
  · refine Or.inr ?_
    rw [h, h₀]
    rfl

theorem spec_moveIteratorIf {content content' : Chunk} {iterator : Iterator} {xs : List Cell}
    {l : ℤ} {moves : Prop} [Decidable moves] (hc : content.IteratorConsistent iterator)
    (hrep : Rep k content' xs) (hne : moves → xs = [] → content'.getChunkType ≠ .sequence)
    (hsafe : k → moves → iterator.index ≤ 1) (hpos : moves → iterator.position ≠ 0) :
    Spec (¬ k) (content'.moveIteratorIf moves iterator l) fun r =>
      r.isForward = iterator.isForward ∧
        r.position = (if moves then iterator.position + l else iterator.position) ∧
        (Unindexed iterator ∨ r.position < iterator.position → content'.IteratorConsistent r) := by
  unfold moveIteratorIf
  split_ifs with hm
  · refine (spec_moveIterator_any hrep.wf hc.index_ge fun h header chunks he => ?_).mono id ?_
    · by_cases hx : xs = []
      · exact absurd (by rw [he]; rfl) (hne hm hx)
      · exact index_le_of_rep hrep hx (hsafe h hm) header chunks he
    · rintro r ⟨hf, hp, hr⟩
      refine ⟨hf, hp, fun hu => hr ?_⟩
      rcases hu with hu | hu
      · exact Or.inl (hu.resolve_right (hpos hm))
      · exact Or.inr (by omega)
  · refine Spec.pure ⟨rfl, rfl, fun hu => ?_⟩
    rcases hu with (hu | hu) | hu
    · exact Or.inl hu
    · exact iteratorConsistent_zero hc hu
    · exact absurd hu (lt_irrefl _)

/-- A packet whose content has been changed to denote the given cells. -/
structure Edited (k : Prop) (this packet : Packet) (xs : List Cell) (front back : ℤ) : Prop where
  rep : Rep k packet.content xs
  extensible : packet.content.Extensible
  total_eq : packet.getTotalLength = xs.length
  isForward : packet.frontIterator.isForward = true
  isBackward : packet.backIterator.isForward = false
  front_eq : packet.getFrontOffset = front
  back_eq : packet.backIterator.position = back
  front_index : Unindexed this.frontIterator ∨
      packet.frontIterator.position < this.frontIterator.position →
    packet.content.IteratorConsistent packet.frontIterator
  back_index : Unindexed this.backIterator ∨
      packet.backIterator.position < this.backIterator.position →
    packet.content.IteratorConsistent packet.backIterator

end Iterators

theorem spec_peekDataAt {this : Packet} (hwf : this.content.WF) (hc : this.content.Clean)
    (hlength : this.content.getChunkLength = this.getTotalLength) (hfront : 0 ≤ this.getFrontOffset)
    (hback : this.getBackOffset ≤ this.getTotalLength) {offset length : ℤ} (h₀ : 0 ≤ offset)
    (h₁ : 0 < length) (h₂ : offset + length ≤ this.getDataLength) :
    Returns (do deref (← this.peekDataAt none offset length {})) fun c =>
      Rep True c (seg this.content.cells (this.getFrontOffset + offset) length) ∧
        0 < c.getChunkLength := by
  have hdata : this.getDataLength = this.getTotalLength - this.frontIterator.position -
    this.backIterator.position := rfl
  have hfo : this.getFrontOffset = this.frontIterator.position := rfl
  have hbo : this.getBackOffset = this.getTotalLength - this.backIterator.position := rfl
  unfold peekDataAt
  dsimp only
  rw [checkUsage, if_pos ⟨h₀, by omega⟩, pure_bind, checkUsage, if_pos ⟨by omega, h₂⟩, pure_bind,
    if_neg (by omega)]
  refine (spec_peek_deref (k := True) hwf (fun _ => hc) rfl (Or.inl rfl) ?_ h₁ ?_ {}).mono
    (by simp) fun c hr => hr
  · dsimp only
    omega
  · dsimp only
    rw [hlength]
    omega

theorem Consistent.spec_peekDataAt {this : Packet} (h : this.Consistent)
    (hc : this.content.Clean) {offset length : ℤ} (h₀ : 0 ≤ offset) (h₁ : 0 < length)
    (h₂ : offset + length ≤ this.getDataLength) :
    Returns (do deref (← this.peekDataAt none offset length {})) fun c =>
      Rep True c (seg this.content.cells (this.getFrontOffset + offset) length) ∧
        0 < c.getChunkLength :=
  Packet.spec_peekDataAt h.wf hc h.length_eq h.front_nonneg h.back_le h₀ h₁ h₂

theorem consistent_ofContent {content : Chunk} (h : content.WF) :
    (ofContent content).Consistent where
  wf := h
  length_eq := rfl
  isForward := rfl
  isBackward := rfl
  front_nonneg := le_rfl
  front_le_back := by
    change 0 ≤ content.getChunkLength - 0
    rw [sub_zero]
    exact h.getChunkLength_nonneg
  back_le := (sub_zero content.getChunkLength).le
  front_index := Or.inr rfl
  back_index := Or.inr rfl

theorem dataBits_ofContent {content : Chunk} (h : content.WF) :
    (ofContent content).dataBits = content.toBits := by
  change seg content.toBits 0 (content.getChunkLength - 0 - 0) = _
  rw [sub_zero, sub_zero, ← h.length_cells, toBits]
  exact seg_zero _ (by simp)

theorem spec_new_insertAtBack {chunk : Chunk} (hpos : 0 < chunk.getChunkLength) :
    Returns (do (← Packet.new).insertAtBack chunk) fun packet => packet = ofContent chunk := by
  unfold Packet.new
  simp only [bind_assoc, pure_bind]
  refine spec_newHeader.bind fun header _ => ?_
  unfold insertAtBack insertAt insertedContent
  rw [checkUsage, if_pos hpos, pure_bind, checkUsage,
    if_pos (by simp [getBackOffset, getTotalLength]), pure_bind]
  refine Spec.pure ?_
  rw [ofContent, zero_add]

end Packet

end Inet
