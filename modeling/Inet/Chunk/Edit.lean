import Inet.Chunk.Forward

/-! # Removing keeps the rest

Removing at a side erases that many cells there, whether the chunk is a vector,
a count or a sequence whose elements are dropped and cut.
-/

namespace Inet

open Outcome BitString

namespace Chunk

section Sides

variable {α β : Type} {side : Side}

theorem Side.map_erase (f : α → β) (xs : List α) (count : ℤ) :
    (side.erase xs count).map f = side.erase (xs.map f) count := by
  cases side <;> simp [Side.erase, List.map_take, List.map_drop]

theorem Side.erase_concat (side : Side) (values : List Byte) (count : ℤ) :
    side.erase (concat values) (8 * count) = concat (side.erase values count) := by
  have hmul : (8 * count).toNat = 8 * count.toNat := by omega
  cases side with
  | front => rw [Side.erase, Side.erase, hmul, drop_concat]
  | back =>
    rw [Side.erase, Side.erase, hmul, length_concat, ← Nat.mul_sub, take_concat]

theorem Side.erase_replicate (n : ℕ) (a : α) (count : ℤ) :
    side.erase (List.replicate n a) count = List.replicate (n - count.toNat) a := by
  cases side with
  | front => rw [Side.erase, List.drop_replicate]
  | back =>
      rw [Side.erase, List.take_replicate, List.length_replicate, min_eq_left (Nat.sub_le _ _)]

theorem Side.length_erase (xs : List α) {count : ℤ} (h₀ : 0 ≤ count) (h : count ≤ xs.length) :
    ((side.erase xs count).length : ℤ) = xs.length - count := by
  cases side <;> simp only [Side.erase, List.length_drop, List.length_take] <;> omega

theorem Side.erase_join_of_ge (xs ys : List α) {count : ℤ} (h : (ys.length : ℤ) ≤ count) :
    side.erase (side.join xs ys) count = side.erase xs (count - ys.length) := by
  cases side with
  | front =>
    rw [Side.erase, Side.join, List.drop_append, List.drop_of_length_le (by omega),
      List.nil_append, Side.erase]
    congr 1
    omega
  | back =>
    rw [Side.erase, Side.join, List.length_append, List.take_append_of_le_length (by omega),
      Side.erase]
    congr 1
    omega

theorem Side.erase_join_of_le (xs ys : List α) {count : ℤ} (h₀ : 0 ≤ count)
    (h : count ≤ ys.length) :
    side.erase (side.join xs ys) count = side.join xs (side.erase ys count) := by
  cases side with
  | front =>
    rw [Side.erase, Side.join, List.drop_append_of_le_length (by omega), Side.join, Side.erase]
  | back =>
    rw [Side.erase, Side.join, List.length_append, Side.join, Side.erase,
      List.take_append, List.take_of_length_le (by omega)]
    congr 2
    omega

theorem Side.erase_eq_seg (xs : List α) {count : ℤ} (h₀ : 0 ≤ count) :
    side.erase xs count =
      match side with
      | .front => seg xs count (xs.length - count)
      | .back => seg xs 0 (xs.length - count) := by
  cases side with
  | front => rw [Side.erase, seg, List.take_of_length_le (by simp; omega)]
  | back =>
    dsimp only [Side.erase, seg]
    rw [Int.toNat_zero, List.drop_zero]
    congr 1
    omega

/-- The elements taken from a side, in the order of the sequence. -/
def Side.restore (side : Side) (xs : List α) : List α :=
  match side with
  | .front => xs
  | .back => xs.reverse

theorem Side.restore_cons (x : α) (xs : List α) :
    side.restore (x :: xs) = side.join (side.restore xs) [x] := by
  cases side <;> simp [Side.restore, Side.join]

theorem Side.mem_restore {xs : List α} {x : α} : x ∈ side.restore xs ↔ x ∈ xs := by
  cases side <;> simp [Side.restore]

end Sides

variable {k : Prop} {side : Side}

theorem spec_removedPart {chunk : Chunk} (hwf : chunk.WF) (hk : k → chunk.Clean) {length : ℤ}
    (h₀ : 0 ≤ length) (h₁ : length < chunk.getChunkLength) :
    Spec (¬ k) (chunk.peek (Iterator.ofPosition (match side with
        | .front => length
        | .back => 0)) (chunk.getChunkLength - length) {}) fun r =>
      ∃ c, r = some c ∧ Rep k c (side.erase chunk.cells length) := by
  have hspec := spec_peek (k := k) (dispatch_ok (chunk.size + 2)).1 hwf hk rfl
    (consistent_ofPosition chunk (match side with
      | .front => length
      | .back => 0))
    (by cases side <;> simp only [Iterator.ofPosition] <;> omega)
    (show 0 < chunk.getChunkLength - length by omega)
    (by cases side <;> simp only [Iterator.ofPosition] <;> omega) le_rfl {}
  refine hspec.mono id ?_
  rintro r ⟨c, hr, hrep, -, -⟩
  refine ⟨c, hr, ?_⟩
  rw [Side.erase_eq_seg _ h₀, hwf.length_cells]
  cases side <;> exact hrep

theorem spec_removeElements (side : Side) {elements : List Chunk}
    (hwf : ∀ c ∈ elements, c.WF ∧ 0 < c.getChunkLength) (hk : k → ∀ c ∈ elements, c.Clean)
    {length : ℤ} (h₀ : 0 ≤ length) (h₁ : length ≤ (elements.map getChunkLength).sum) :
    Spec (¬ k) (removeElements side elements length) fun r =>
      Reps k (side.restore r) (side.erase ((side.restore elements).flatMap cells) length) := by
  induction elements generalizing length with
  | nil =>
    refine Spec.pure ?_
    have : side.erase ((side.restore ([] : List Chunk)).flatMap cells) length = [] := by
      cases side <;> simp [Side.restore, Side.erase]
    rw [this]
    cases side <;> exact reps_nil k
  | cons chunk chunks ih =>
    rw [List.forall_mem_cons] at hwf
    have hkc : k → chunk.Clean := fun h => hk h chunk (by simp)
    have hks : k → ∀ c ∈ chunks, c.Clean := fun h c hc => hk h c (by simp [hc])
    have hlen := hwf.1.1.length_cells
    rw [List.map_cons, List.sum_cons] at h₁
    have hrest : Reps k (side.restore chunks) ((side.restore chunks).flatMap cells) :=
      reps_of_wf
        ((wf_sequence ⟨0, false, false, false⟩ _).2 fun c hc => hwf.2 c (side.mem_restore.1 hc))
        fun h => (clean_sequence _ _).2
          ⟨⟨rfl, rfl, rfl⟩, fun c hc => hks h c (side.mem_restore.1 hc)⟩
    unfold removeElements
    rw [Side.restore_cons, Side.flatMap_join, List.flatMap_singleton]
    dsimp only
    by_cases hle : chunk.getChunkLength ≤ length
    · rw [if_pos hle, Side.erase_join_of_ge _ _ (by omega), hlen]
      by_cases he : length - chunk.getChunkLength = 0
      · rw [if_pos he, he]
        refine Spec.pure ?_
        have : side.erase ((side.restore chunks).flatMap cells) 0 =
            (side.restore chunks).flatMap cells := by
          cases side <;> simp [Side.erase]
        rwa [this]
      · rw [if_neg he]
        exact ih hwf.2 hks (by omega) (by omega)
    · rw [if_neg hle, Side.erase_join_of_le _ _ h₀ (by omega)]
      refine (spec_removedPart hwf.1.1 hkc h₀ (by omega)).bind ?_
      rintro _ ⟨part, rfl, hrep⟩
      refine (Spec.pure rfl).bind ?_
      rintro _ rfl
      refine Spec.pure ?_
      rw [Side.restore_cons]
      refine hrest.join side hrep ?_
      rw [hrep.length_eq, Side.length_erase _ h₀ (by omega)]
      omega

/-- `removeAtFront` and `removeAtBack` of the classes that can represent the result. -/
theorem spec_removeAtSide (side : Side) {this : Chunk} (hwf : this.WF) (hk : k → this.Clean)
    {length : ℤ}
    (h₀ : 0 ≤ length) (h₁ : length ≤ this.getChunkLength) (hcan : this.canRemoveAtSide length) :
    Spec (¬ k) (this.removeAtSide side length) fun r => Rep k r (side.erase this.cells length) := by
  unfold removeAtSide
  rw [checkUsage, if_pos ⟨h₀, h₁⟩, pure_bind]
  cases this with
  | empty | fields | slice => simp [canRemoveAtSide] at hcan
  | bits header values =>
    refine Spec.pure ?_
    have hrep := WF.rep (k := k) (show WF (bits header (side.erase values length)) from trivial) hk
    rwa [cells, Side.map_erase] at hrep
  | bitCount header count data =>
    have h₁ : length ≤ count := h₁
    refine Spec.pure ?_
    have hrep := WF.rep (k := k) (show WF (bitCount header (count - length) data) by
      change 0 ≤ count - length
      omega) hk
    rw [cells, Side.erase_replicate, show count.toNat - length.toNat =
      (count - length).toNat by omega]
    exact hrep
  | bytes header values =>
    have hcan : length % 8 = 0 := by simpa [canRemoveAtSide] using hcan
    dsimp only
    rw [toBytes_eq hcan, pure_bind]
    refine Spec.pure ?_
    have hrep :=
      WF.rep (k := k) (show WF (bytes header (side.erase values (length / 8))) from trivial) hk
    rwa [cells, ← Side.erase_concat, Side.map_erase, show 8 * (length / 8) =
      length by omega] at hrep
  | byteCount header count data =>
    have hcan : length % 8 = 0 := by simpa [canRemoveAtSide] using hcan
    have h₁ : length ≤ 8 * count := h₁
    dsimp only
    rw [toBytes_eq hcan, pure_bind]
    refine Spec.pure ?_
    have hrep := WF.rep (k := k) (show WF (byteCount header (count - length / 8) data) by
      change 0 ≤ count - length / 8
      omega) hk
    have herase := Side.erase_concat side (List.replicate count.toNat data) (length / 8)
    rw [show 8 * (length / 8) = length by omega] at herase
    rw [cells, ← Side.map_erase, herase, Side.erase_replicate,
      show count.toNat - (length / 8).toNat = (count - length / 8).toNat by omega]
    exact hrep
  | sequence header chunks =>
    have helems := (wf_sequence _ _).1 hwf
    rw [getChunkLength_sequence] at h₁
    have hrestore : side.restore (match side with
        | .front => chunks
        | .back => chunks.reverse) = chunks := by
      cases side <;> simp [Side.restore]
    have hmem : ∀ c ∈ (match side with
        | .front => chunks
        | .back => chunks.reverse), c ∈ chunks := by
      cases side <;> simp
    have hspec := spec_removeElements side (k := k) (fun c hc => helems c (hmem c hc))
      (fun h c hc => ((clean_sequence _ _).1 (hk h)).2 c (hmem c hc)) h₀
      (by cases side <;> simpa [List.sum_reverse] using h₁)
    rw [hrestore] at hspec
    refine hspec.bind fun r hr => Spec.pure ?_
    rw [cells_sequence]
    have hrep := hr.rep fun h => ((clean_sequence _ _).1 (hk h)).1
    cases side <;> exact hrep

theorem eraseElements_eq_seg {α : Type} (xs : List α) {offset length : ℤ}
    (h₂ : offset + length ≤ xs.length) :
    eraseElements xs offset length =
      seg xs 0 offset ++ seg xs (offset + length) (xs.length - (offset + length)) := by
  rw [eraseElements, seg, Int.toNat_zero, List.drop_zero, seg,
    List.take_of_length_le (l := xs.drop _) (by simp; omega)]

theorem map_eraseElements {α β : Type} (f : α → β) (xs : List α) (offset length : ℤ) :
    (eraseElements xs offset length).map f = eraseElements (xs.map f) offset length := by
  simp [eraseElements, List.map_take, List.map_drop]

theorem eraseElements_concat (values : List Byte) {offset : ℤ} (length : ℤ) (h₀ : 0 ≤ offset) :
    eraseElements (concat values) (8 * offset) (8 * length) =
      concat (eraseElements values offset length) := by
  rw [eraseElements, eraseElements, concat_append, show (8 * offset).toNat = 8 * offset.toNat by
    omega, show (8 * offset + 8 * length).toNat = 8 * (offset + length).toNat by omega, take_concat,
    drop_concat]

theorem eraseElements_replicate {α : Type} (a : α) {n offset length : ℤ} (h₀ : 0 ≤ offset)
    (h₁ : 0 ≤ length) (h₂ : offset + length ≤ n) :
    eraseElements (List.replicate n.toNat a) offset length =
      List.replicate (n - length).toNat a := by
  rw [eraseElements, List.take_replicate, List.drop_replicate, List.replicate_append_replicate]
  congr 1
  omega

theorem spec_removeAt {this : Chunk} (hwf : this.WF) (hk : k → this.Clean) {offset length : ℤ}
    (h₀ : 0 ≤ offset) (h₁ : 0 ≤ length) (h₂ : offset + length ≤ this.getChunkLength)
    (hcan : this.canRemoveAt offset length) :
    Spec (¬ k) (this.removeAt offset length) fun r =>
      Rep k r (eraseElements this.cells offset length) := by
  unfold removeAt
  dsimp only
  rw [checkUsage, if_pos ⟨h₁, by omega⟩, pure_bind, checkUsage, if_pos ⟨h₀, h₂⟩, pure_bind]
  cases this with
  | empty | fields | slice | sequence => simp [canRemoveAt] at hcan
  | bits header values =>
    refine Spec.pure ?_
    have hrep :=
      WF.rep (k := k) (show WF (bits header (eraseElements values offset length)) from trivial)
      hk
    rwa [cells, map_eraseElements] at hrep
  | bitCount header count data =>
    have h₂ : offset + length ≤ count := h₂
    refine Spec.pure ?_
    have hrep := WF.rep (k := k) (show WF (bitCount header (count - length) data) by
      change 0 ≤ count - length
      omega) hk
    rw [cells, eraseElements_replicate _ h₀ h₁ h₂]
    exact hrep
  | bytes header values =>
    obtain ⟨ho, hl⟩ : offset % 8 = 0 ∧ length % 8 = 0 := by simpa [canRemoveAt] using hcan
    dsimp only
    rw [toBytes_eq ho, pure_bind, toBytes_eq hl, pure_bind]
    refine Spec.pure ?_
    have hrep := WF.rep (k := k)
      (show WF (bytes header (eraseElements values (offset / 8) (length / 8))) from trivial) hk
    rwa [cells, ← eraseElements_concat _ _ (by omega), map_eraseElements,
      show 8 * (offset / 8) = offset by omega, show 8 * (length / 8) = length by omega] at hrep
  | byteCount header count data =>
    obtain ⟨ho, hl⟩ : offset % 8 = 0 ∧ length % 8 = 0 := by simpa [canRemoveAt] using hcan
    have h₂ : offset + length ≤ 8 * count := h₂
    dsimp only
    rw [toBytes_eq hl, pure_bind]
    refine Spec.pure ?_
    have hrep := WF.rep (k := k) (show WF (byteCount header (count - length / 8) data) by
      change 0 ≤ count - length / 8
      omega) hk
    have herase := eraseElements_concat (List.replicate count.toNat data) (length / 8)
      (show 0 ≤ offset / 8 by omega)
    rw [show 8 * (offset / 8) = offset by omega, show 8 * (length / 8) = length by omega,
      eraseElements_replicate _ (by omega) (by omega) (by omega)] at herase
    rw [cells, ← map_eraseElements, herase]
    exact hrep

theorem spec_mergeAtSide {this chunk : Chunk} (hwf : this.WF) (hext : this.Extensible)
    (hk : k → this.Clean) (hcwf : chunk.WF) (hpos : 0 < chunk.getChunkLength)
    (hck : k → chunk.Clean) (hcan : this.canInsertAtSide side chunk) :
    Spec (¬ k) (do
      let mutableChunk ← makeExclusivelyOwnedMutableChunk this
      (← mutableChunk.insertAtSide side chunk).simplify) fun r =>
      Rep k r (side.join this.cells chunk.cells) := by
  refine (spec_makeExclusivelyOwnedMutableChunk this).bind ?_
  rintro _ ⟨newId, rfl⟩
  have hinsert := (dispatch_ok _).2 k side (this.withHeader { this.header with id := newId }) chunk
    ((wf_withHeader _ _).2 hwf) (by cases this <;> exact hext)
    (fun h => clean_withHeader_id _ newId (hk h)) hcwf hpos hck (by simpa using hcan) le_rfl
  refine hinsert.bind ?_
  rintro r ⟨hr, -⟩
  rw [cells_withHeader] at hr
  have hrpos : 0 < r.getChunkLength := by
    have := hcwf.length_cells
    rw [hr.length_eq, Side.length_join]
    omega
  exact (spec_simplify _ hr hrpos).mono id fun r hr => hr.1

theorem spec_simplify_rep {fail : Prop} {chunk : Chunk} {xs : List Cell} (h : Rep k chunk xs)
    (hpos : xs ≠ []) : Spec fail chunk.simplify fun r => Rep k r xs := by
  have hpos : 0 < chunk.getChunkLength := by
    rw [h.length_eq]
    exact_mod_cast List.length_pos_iff.2 hpos
  exact (spec_simplify _ h hpos).mono id fun r hr => hr.1

end Chunk

end Inet
