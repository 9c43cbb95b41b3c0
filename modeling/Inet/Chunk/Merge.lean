import Mathlib.Algebra.BigOperators.Group.List.Basic
import Mathlib.Algebra.Order.BigOperators.Group.List
import Mathlib.Algebra.Order.Ring.Nat
import Inet.Chunk.Elements
import Inet.Lib.Outcome

/-! # Inserting keeps the data

Inserting a chunk at a side of another one puts its cells at that side of the
cells, whether the chunks are merged, appended as elements, or taken apart
first. The statements are relative to the level of virtual calls; a level is
enough when it is not below the number of objects involved.
-/

namespace Inet

open Outcome

namespace Chunk

section Headers

variable {fail : Prop}

theorem spec_newHeader : Spec fail newHeader ChunkHeader.Clean := fun _ => ⟨rfl, rfl, rfl⟩

theorem spec_copyHeader (header : ChunkHeader) :
    Spec fail (copyHeader header) fun h => ∃ id, h = { header with id := id } := fun s => ⟨s, rfl⟩

theorem spec_makeExclusivelyOwnedMutableChunk (chunk : Chunk) :
    Spec fail (makeExclusivelyOwnedMutableChunk chunk) fun c =>
      ∃ id, c = chunk.withHeader { chunk.header with id := id } := by
  refine (spec_copyHeader chunk.header).bind ?_
  rintro _ ⟨id, rfl⟩
  exact Spec.pure ⟨id, rfl⟩

theorem spec_make {k : Prop} {chunk : Chunk} {offset length : ℤ} (h : chunk.WF)
    (hk : k → chunk.Clean) (h₀ : 0 ≤ offset) (h₁ : 0 ≤ length)
    (h₂ : offset + length ≤ chunk.getChunkLength) :
    Spec fail (SliceChunk.make chunk offset length) fun r =>
      ∃ header, r = slice header chunk offset length ∧
        Denotes k r (seg chunk.cells offset length) := by
  refine spec_newHeader.bind fun header hh => Spec.pure ⟨header, ?_, ?_⟩
  · rw [partLength, if_neg (not_lt.2 h₁)]
  · rw [partLength, if_neg (not_lt.2 h₁)]
    exact WF.denotes ⟨h, h₀, h₁, h₂⟩ fun hc => (clean_slice _ _).2 ⟨hh, hk hc⟩

variable (header : ChunkHeader) (chunk : Chunk)

@[simp] theorem cells_withHeader : (chunk.withHeader header).cells = chunk.cells := by
  cases chunk <;> rfl

@[simp] theorem getChunkLength_withHeader :
    (chunk.withHeader header).getChunkLength = chunk.getChunkLength := by
  cases chunk <;> rfl

@[simp] theorem wf_withHeader : (chunk.withHeader header).WF ↔ chunk.WF := by
  cases chunk <;> rfl

@[simp] theorem size_withHeader : (chunk.withHeader header).size = chunk.size := by
  cases chunk <;> simp only [withHeader, size]

@[simp] theorem canInsertAtSide_withHeader (side : Side) (other : Chunk) :
    (chunk.withHeader header).canInsertAtSide side other = chunk.canInsertAtSide side other := by
  cases chunk <;> cases other <;> rfl

theorem clean_withHeader_id (id : ℕ) (h : chunk.Clean) :
    (chunk.withHeader { chunk.header with id := id }).Clean := by
  cases chunk with
  | slice header chunk offset length =>
    rw [clean_slice] at h
    exact (clean_slice _ _).2 h
  | sequence header chunks =>
    rw [clean_sequence] at h
    exact (clean_sequence _ _).2 h
  | _ => exact h

end Headers

section Sides

variable {α β : Type} (side : Side)

theorem Side.join_assoc (xs ys zs : List α) :
    side.join (side.join xs ys) zs = side.join xs (side.join ys zs) := by
  cases side <;> simp [Side.join]

@[simp] theorem Side.join_nil (xs : List α) : side.join xs [] = xs := by
  cases side <;> simp [Side.join]

@[simp] theorem Side.nil_join (xs : List α) : side.join [] xs = xs := by
  cases side <;> simp [Side.join]

theorem Side.flatMap_join (f : α → List β) (xs ys : List α) :
    (side.join xs ys).flatMap f = side.join (xs.flatMap f) (ys.flatMap f) := by
  cases side <;> simp [Side.join]

theorem Side.length_join (xs ys : List α) :
    (side.join xs ys).length = xs.length + ys.length := by
  cases side <;> simp [Side.join, Nat.add_comm]

theorem Side.mem_join {xs ys : List α} {a : α} : a ∈ side.join xs ys ↔ a ∈ xs ∨ a ∈ ys := by
  cases side <;> simp [Side.join, or_comm]

theorem Side.sum_map_join {M : Type} [AddCommMonoid M] (f : α → M) (xs ys : List α) :
    ((side.join xs ys).map f).sum = (xs.map f).sum + (ys.map f).sum := by
  cases side <;> simp [Side.join, add_comm]

theorem Side.uncons_eq_none {xs : List α} (h : side.uncons xs = none) : xs = [] := by
  cases side <;> simpa [Side.uncons] using h

theorem Side.eq_of_uncons {xs others : List α} {x : α} (h : side.uncons xs = some (x, others)) :
    xs = side.join others [x] := by
  cases side with
  | front =>
    simp only [Side.uncons, Option.map_eq_some_iff, Prod.mk.injEq] at h
    obtain ⟨y, hy, rfl, rfl⟩ := h
    obtain ⟨ys, rfl⟩ := List.head?_eq_some_iff.1 hy
    rfl
  | back =>
    simp only [Side.uncons, Option.map_eq_some_iff, Prod.mk.injEq] at h
    obtain ⟨y, hy, rfl, rfl⟩ := h
    obtain ⟨ys, rfl⟩ := List.getLast?_eq_some_iff.1 hy
    simp [Side.join]

theorem Side.foldr_order (f : α → List β) (xs : List α) :
    (side.order xs).foldr (fun a acc => side.join (f a) acc) [] = xs.flatMap f := by
  cases side with
  | back =>
    induction xs with
    | nil => rfl
    | cons x xs ih =>
      rw [Side.order] at ih ⊢
      rw [List.foldr_cons, ih, List.flatMap_cons, Side.join]
  | front =>
    have h : ∀ (xs : List α) (acc : List β),
        xs.foldl (fun acc a => Side.front.join (f a) acc) acc = acc ++ xs.flatMap f := by
      intro xs
      induction xs with
      | nil => simp
      | cons x xs ih =>
        intro acc
        rw [List.foldl_cons, ih, Side.join, List.flatMap_cons, List.append_assoc]
    rw [Side.order, List.foldr_reverse, h, List.nil_append]

theorem Side.mem_order {xs : List α} {a : α} : a ∈ side.order xs ↔ a ∈ xs := by
  cases side <;> simp [Side.order]

theorem Side.sum_map_order {M : Type} [AddCommMonoid M] (f : α → M) (xs : List α) :
    ((side.order xs).map f).sum = (xs.map f).sum := by
  cases side <;> simp [Side.order, List.sum_reverse]

end Sides

section Simplify

/-- What `simplify` returns for a nonempty chunk: the sliced chunk if all of it is sliced. -/
def whole : Chunk → Chunk
  | slice header chunk offset length =>
    if offset = 0 ∧ length = chunk.getChunkLength then chunk
    else slice header chunk offset length
  | chunk => chunk

theorem whole_slice (header : ChunkHeader) (chunk : Chunk) (offset length : ℤ) :
    (slice header chunk offset length).whole =
      if offset = 0 ∧ length = chunk.getChunkLength then chunk
      else slice header chunk offset length := rfl

theorem cells_whole {chunk : Chunk} (h : chunk.WF) : chunk.whole.cells = chunk.cells := by
  cases chunk with
  | slice header chunk offset length =>
    rw [whole_slice]
    split
    · rename_i hw
      obtain ⟨rfl, rfl⟩ := hw
      rw [cells, ← h.1.length_cells, seg_whole]
    · rfl
  | _ => rfl

theorem Rep.whole {k : Prop} {chunk : Chunk} {xs : List Cell} (h : Rep k chunk xs) :
    Rep k chunk.whole xs ∧ chunk.whole.size ≤ chunk.size := by
  cases chunk with
  | slice header chunk offset length =>
    rw [whole_slice]
    split
    · rename_i hw
      obtain ⟨rfl, rfl⟩ := hw
      have hcells := cells_whole h.wf
      rw [whole_slice, if_pos ⟨rfl, rfl⟩] at hcells
      exact ⟨⟨h.wf.1, h.length_eq, fun hn => hcells.trans (h.cells_eq hn),
        fun hc => ((clean_slice _ _).1 (h.clean hc)).2⟩, by simp [size]⟩
    · exact ⟨h, le_rfl⟩
  | _ => exact ⟨h, le_rfl⟩

theorem peekUnchecked_whole (dispatch : Dispatch) {chunk : Chunk} (h : 0 < chunk.getChunkLength)
    {isForward : Bool} {index : ℤ} (flags : PeekFlags) :
    peekUncheckedOf dispatch chunk none ⟨isForward, 0, index⟩ chunk.getChunkLength flags =
      pure (some chunk.whole) := by
  have hne : chunk.getChunkLength ≠ 0 := h.ne'
  have hn : ¬ chunk.getChunkLength < 0 := not_lt.2 h.le
  have hc : checkUsage (m := ChunkM) (0 ≤ (0 : ℤ) ∧ 0 ≤ chunk.getChunkLength)
      "iterator is out of range" = pure () := if_pos ⟨le_rfl, h.le⟩
  cases chunk with
  | empty header => exact absurd rfl hne
  | slice header chunk offset length =>
    simp only [peekUncheckedOf, SliceChunk.peekUnchecked, hc, hne, hn, accepts, pure_bind]
    rw [whole_slice]
    by_cases hw : offset = 0 ∧ length = chunk.getChunkLength <;> simp [getChunkLength, hw]
  | sequence header chunks =>
    simp only [peekUncheckedOf, SequenceChunk.peekUnchecked, hc, hne, hn, accepts, pure_bind]
    simp [whole]
  | fields header chunkLength type serialized =>
    simp only [peekUncheckedOf, FieldsChunk.peekUnchecked, hc, hne, hn, accepts, pure_bind]
    simp [whole]
  | _ =>
    simp only [peekUncheckedOf, BitsChunk.peekUnchecked, BitCountChunk.peekUnchecked,
      BytesChunk.peekUnchecked, ByteCountChunk.peekUnchecked, peekUncheckedWith, hc, hne, hn,
      accepts, pure_bind]
    simp [whole]

theorem simplify_eq (n : ℕ) {chunk : Chunk} (hwf : chunk.WF) (hpos : 0 < chunk.getChunkLength) :
    (Inet.dispatch (n + 1)).simplify chunk = pure chunk.whole := by
  have hw := (hwf.rep (k := False) False.elim).whole.1
  have hne : chunk.whole.getChunkType ≠ .empty := by
    intro he
    have hl : chunk.whole.getChunkLength = chunk.getChunkLength := by
      rw [hw.length_eq, hwf.length_cells]
    cases hc : chunk.whole <;> rw [hc] at he hl <;> simp [getChunkType] at he
    simp only [getChunkLength] at hl
    omega
  unfold Dispatch.simplify Dispatch.peek
  rw [show Iterator.ofPosition 0 = ⟨true, 0, 0⟩ from rfl]
  simp only [Inet.dispatch, peekUnchecked_whole _ hpos, pure_bind]
  simp [checkPeekResult, hne, deref]

theorem spec_simplify {fail k : Prop} (n : ℕ) {chunk : Chunk} {xs : List Cell}
    (h : Rep k chunk xs) (hpos : 0 < chunk.getChunkLength) :
    Spec fail ((Inet.dispatch (n + 1)).simplify chunk) fun r =>
      Rep k r xs ∧ r.size ≤ chunk.size := by
  rw [simplify_eq n h.wf hpos]
  exact Spec.pure h.whole

end Simplify

section Insert

/-- A chunk that a merge can extend without changing what it denotes. -/
def Extensible : Chunk → Prop
  | bitCount _ length _ => 0 < length
  | _ => True

theorem extensible_of_pos {chunk : Chunk} (h : 0 < chunk.getChunkLength) : chunk.Extensible := by
  cases chunk <;> first | exact h | trivial

/-- Level `n` is enough to insert chunks of at most `n` objects. -/
def InsertOk (n : ℕ) : Prop :=
  ∀ (k : Prop) (side : Side) (this chunk : Chunk), this.WF → this.Extensible → (k → this.Clean) →
    chunk.WF → 0 < chunk.getChunkLength → (k → chunk.Clean) → this.canInsertAtSide side chunk →
    this.size + chunk.size ≤ n →
    Spec (¬ k) ((dispatch n).insertAt side this chunk) fun r =>
      Rep k r (side.join this.cells chunk.cells) ∧ r.size ≤ this.size + chunk.size

/-- The number of additional objects a part of a chunk may need. -/
def cutCost (chunkLength position length : ℤ) : ℕ :=
  (if position = 0 then 0 else 1) + if position + length = chunkLength then 0 else 1

theorem cutCost_le_two (chunkLength position length : ℤ) :
    cutCost chunkLength position length ≤ 2 := by
  simp only [cutCost]
  split_ifs <;> omega

mutual

/-- The part is represented by one object of the chunk, or no bit counts clash in it. -/
def PartNoClash : Chunk → ℤ → ℤ → Prop
  | slice _ chunk offset length, p, l => (p = 0 ∧ l = length) ∨ PartNoClash chunk (p + offset) l
  | sequence _ chunks, p, l => (p = 0 ∧ l = sumLengths chunks) ∨ PartNoClashIn chunks p l
  | _, _, _ => True

def PartNoClashIn : List Chunk → ℤ → ℤ → Prop
  | [], _, _ => True
  | chunk :: chunks, p, l =>
    if getChunkLength chunk ≤ p then PartNoClashIn chunks (p - getChunkLength chunk) l
    else if p + l ≤ getChunkLength chunk then
      (p = 0 ∧ l = getChunkLength chunk) ∨ PartNoClash chunk p l
    else NoClash (seg (allCells (chunk :: chunks)) p l)

end

/-- Level `n` is enough to peek into chunks of at most `n - 2` objects. -/
def PeekOk (n : ℕ) : Prop :=
  ∀ (k : Prop) (chunk : Chunk) (iterator : Iterator) (length : ℤ) (flags : PeekFlags),
    chunk.WF → (k → chunk.Clean) → iterator.isForward = true → iterator.index = -1 →
    0 ≤ iterator.position → 0 < length → iterator.position + length ≤ chunk.getChunkLength →
    chunk.size + 2 ≤ n →
    Spec (¬ k) ((dispatch n).peekUnchecked chunk none iterator length flags) fun r =>
      ∃ c, r = some c ∧ Rep k c (seg chunk.cells iterator.position length) ∧
        (chunk.PartNoClash iterator.position length →
          c.cells = seg chunk.cells iterator.position length) ∧
        c.size ≤ chunk.size + cutCost chunk.getChunkLength iterator.position length

variable {k : Prop} {side : Side} {n : ℕ}

theorem NoClash.of_join_left {xs ys : List Cell} (h : NoClash (side.join xs ys)) : NoClash xs := by
  cases side with
  | front => exact h.right
  | back => exact h.left

theorem NoClash.of_join_right {xs ys : List Cell} (h : NoClash (side.join xs ys)) :
    NoClash ys := by
  cases side with
  | front => exact h.left
  | back => exact h.right

theorem Reps.join (side : Side) {chunks : List Chunk} {chunk : Chunk} {xs ys : List Cell}
    (hs : Reps k chunks xs) (hc : Rep k chunk ys) (hpos : 0 < chunk.getChunkLength) :
    Reps k (side.join chunks [chunk]) (side.join xs ys) where
  wf c hmem := by
    rw [Side.mem_join, List.mem_singleton] at hmem
    rcases hmem with hmem | rfl
    · exact hs.wf c hmem
    · exact ⟨hc.wf, hpos⟩
  length_eq := by
    rw [Side.sum_map_join, hs.length_eq, List.map_singleton, List.sum_singleton, hc.length_eq,
      Side.length_join, Nat.cast_add]
  cells_eq hn := by
    rw [Side.flatMap_join, hs.cells_eq (NoClash.of_join_left hn), List.flatMap_singleton,
      hc.cells_eq (NoClash.of_join_right hn)]
  clean hk c hmem := by
    rw [Side.mem_join, List.mem_singleton] at hmem
    rcases hmem with hmem | rfl
    · exact hs.clean hk c hmem
    · exact hc.clean hk

theorem Reps.merge {others : List Chunk} {neighbour chunk merged : Chunk} {xs ys : List Cell}
    (hs : Reps k (side.join others [neighbour]) xs) (hc : Rep k chunk ys)
    (hm : Rep k merged (side.join neighbour.cells chunk.cells)) :
    Reps k (side.join others [merged]) (side.join xs ys) where
  wf c hmem := by
    rw [Side.mem_join, List.mem_singleton] at hmem
    rcases hmem with hmem | rfl
    · exact hs.wf c ((Side.mem_join _).2 (Or.inl hmem))
    · have hn := (hs.wf neighbour ((Side.mem_join _).2 (Or.inr (by simp))))
      refine ⟨hm.wf, ?_⟩
      have := hn.1.length_cells
      rw [hm.length_eq, Side.length_join]
      omega
  length_eq := by
    have hn := (hs.wf neighbour ((Side.mem_join _).2 (Or.inr (by simp)))).1.length_cells
    have hl := hs.length_eq
    rw [Side.sum_map_join, List.map_singleton, List.sum_singleton] at hl ⊢
    have := hc.wf.length_cells
    have := hc.length_eq
    rw [hm.length_eq, Side.length_join, Side.length_join]
    omega
  cells_eq hn := by
    have hxs := hs.cells_eq (NoClash.of_join_left hn)
    have hys := hc.cells_eq (NoClash.of_join_right hn)
    rw [Side.flatMap_join, List.flatMap_singleton] at hxs
    have hmerged : NoClash (side.join neighbour.cells chunk.cells) := by
      rw [← hxs, ← hys, Side.join_assoc] at hn
      exact NoClash.of_join_right hn
    rw [Side.flatMap_join, List.flatMap_singleton, hm.cells_eq hmerged, ← Side.join_assoc, hxs, hys]
  clean hk c hmem := by
    rw [Side.mem_join, List.mem_singleton] at hmem
    rcases hmem with hmem | rfl
    · exact hs.clean hk c ((Side.mem_join _).2 (Or.inl hmem))
    · exact hm.clean hk

theorem spec_doInsertChunkAt (hI : InsertOk n) {chunks : List Chunk} {chunk : Chunk}
    {xs ys : List Cell} (hs : Reps k chunks xs) (hc : Rep k chunk ys)
    (hpos : 0 < chunk.getChunkLength) (hn : sumSizes chunks + chunk.size ≤ n) :
    Spec (¬ k) (SequenceChunk.doInsertChunkAt (dispatch n) side chunks chunk) fun r =>
      Reps k r (side.join xs ys) ∧ sumSizes r ≤ sumSizes chunks + chunk.size := by
  unfold SequenceChunk.doInsertChunkAt
  rw [checkUsage, if_pos hpos, pure_bind]
  simp only [sumSizes_eq] at hn ⊢
  cases hu : side.uncons chunks with
  | none =>
    obtain rfl := side.uncons_eq_none hu
    have := hs.join side hc hpos
    rw [Side.nil_join] at this
    exact Spec.pure ⟨this, by simp⟩
  | some pair =>
    obtain ⟨neighbour, others⟩ := pair
    obtain rfl := side.eq_of_uncons hu
    have hmem : neighbour ∈ side.join others [neighbour] := (side.mem_join).2 (Or.inr (by simp))
    simp only
    split
    · refine Spec.pure ⟨hs.join side hc hpos, ?_⟩
      rw [Side.sum_map_join, List.map_singleton, List.sum_singleton]
    · rename_i hcan
      have hcan : neighbour.canInsertAtSide side chunk = true := by simpa using hcan
      obtain ⟨hwf, hlen⟩ := hs.wf neighbour hmem
      rw [Side.sum_map_join, List.map_singleton, List.sum_singleton] at hn
      refine (spec_makeExclusivelyOwnedMutableChunk neighbour).bind ?_
      rintro _ ⟨id, rfl⟩
      refine (hI k side (neighbour.withHeader { neighbour.header with id := id }) chunk
        ((wf_withHeader _ _).2 hwf) (extensible_of_pos (by simpa using hlen))
        (fun hk => clean_withHeader_id _ id (hs.clean hk neighbour hmem)) hc.wf hpos hc.clean
        (by simpa using hcan) (by simp; omega)).bind ?_
      rintro merged ⟨hm, hsize⟩
      rw [cells_withHeader] at hm
      rw [size_withHeader] at hsize
      have hmpos : 0 < merged.getChunkLength := by
        have := hwf.length_cells
        rw [hm.length_eq, Side.length_join]
        omega
      obtain ⟨m, rfl⟩ : ∃ m, n = m + 1 := ⟨n - 1, by have := chunk.size_pos; omega⟩
      refine (spec_simplify m hm hmpos).bind ?_
      rintro simplified ⟨hrep, hsz⟩
      refine Spec.pure ⟨hs.merge hc hrep, ?_⟩
      rw [Side.sum_map_join, Side.sum_map_join, List.map_singleton, List.map_singleton,
        List.sum_singleton, List.sum_singleton]
      omega

theorem spec_checkPeekResult {chunk : Chunk} (h : k → chunk.Clean)
    (hpos : 0 < chunk.getChunkLength) (flags : PeekFlags) :
    Spec (¬ k) (checkPeekResult (some chunk) flags) fun r => r = some chunk := by
  have hne : chunk.getChunkType ≠ .empty := by
    cases chunk <;> simp [getChunkType]
    exact absurd hpos (lt_irrefl _)
  by_cases hk : k
  · obtain ⟨h₁, h₂, h₃⟩ := h hk
    have : checkPeekResult (some chunk) flags = pure (some chunk) := by
      simp [checkPeekResult, hne, h₁, h₂, h₃]
    rw [this]
    exact Spec.pure rfl
  · simp only [checkPeekResult, hne, if_false]
    split
    · exact Spec.throw hk
    · split
      · exact Spec.throw hk
      · split
        · exact Spec.throw hk
        · exact Spec.pure rfl

theorem spec_peek (hP : PeekOk n) {chunk : Chunk} {iterator : Iterator} {length : ℤ}
    (hwf : chunk.WF) (hk : k → chunk.Clean) (hf : iterator.isForward = true)
    (hc : chunk.Consistent iterator) (h₀ : 0 ≤ iterator.position) (h₁ : 0 < length)
    (h₂ : iterator.position + length ≤ chunk.getChunkLength) (hn : chunk.size + 2 ≤ n)
    (flags : PeekFlags) :
    Spec (¬ k) ((dispatch n).peek chunk iterator length flags) fun r =>
      ∃ c, r = some c ∧ Rep k c (seg chunk.cells iterator.position length) ∧
        (chunk.PartNoClash iterator.position length →
          c.cells = seg chunk.cells iterator.position length) ∧
        c.size ≤ chunk.size + cutCost chunk.getChunkLength iterator.position length := by
  obtain ⟨m, rfl⟩ : ∃ m, n = m + 1 := ⟨n - 1, by omega⟩
  have hi : (dispatch (m + 1)).peekUnchecked chunk none iterator length flags =
      (dispatch (m + 1)).peekUnchecked chunk none { iterator with index := -1 } length flags :=
    peekUncheckedOf_index hwf hc length flags
  unfold Dispatch.peek
  rw [hi]
  refine (hP k chunk { iterator with index := -1 } length flags hwf hk hf rfl h₀ h₁ h₂ hn).bind ?_
  rintro _ ⟨c, rfl, hrep, hexact, hsize⟩
  have hpos : 0 < c.getChunkLength := by
    rw [hrep.length_eq, length_seg h₀ h₁.le (by rw [hwf.length_cells]; exact h₂)]
    exact h₁
  exact (spec_checkPeekResult hrep.clean hpos flags).mono id fun r hr =>
    ⟨c, hr, hrep, hexact, hsize⟩

end Insert

section Parts

/-- The cells of an element at `element.1` that lie in the given range. -/
def clip (first last : ℤ) (element : ℤ × Chunk) : List Cell :=
  seg element.2.cells (max first element.1 - element.1)
    (min last (element.1 + element.2.getChunkLength) - max first element.1)

theorem flatMap_clip {chunks : List Chunk} (h : ∀ c ∈ chunks, c.Sound)
    (first last start : ℤ) :
    (SequenceChunk.withOffsets chunks start).flatMap (clip first last) =
      seg (chunks.flatMap cells) (max first start - start) (last - max first start) := by
  induction chunks generalizing start with
  | nil => simp [SequenceChunk.withOffsets, seg]
  | cons chunk chunks ih =>
    rw [List.forall_mem_cons] at h
    have hl := h.1.length_cells
    have hnonneg := h.1.getChunkLength_nonneg
    rw [SequenceChunk.withOffsets, List.flatMap_cons, ih h.2, List.flatMap_cons, clip]
    dsimp only
    set len := chunk.getChunkLength with hlen
    by_cases hlast : last ≤ max first start
    · rw [seg_of_nonpos _ _ (by omega), seg_of_nonpos _ _ (by omega), seg_of_nonpos _ _ (by omega)]
      rfl
    · by_cases hfirst : start + len ≤ first
      · rw [seg_of_nonpos _ _ (by omega), List.nil_append, seg_append_of_ge _ _ (by omega)]
        congr 1 <;> omega
      · by_cases hend : last ≤ start + len
        · rw [seg_append_of_le _ _ (by omega) (by omega),
            seg_of_nonpos (chunks.flatMap cells) _ (by omega), List.append_nil]
          congr 1
          omega
        · have hsplit : last - max first start =
              (start + len - max first start) + (last - (start + len)) := by omega
          rw [hsplit, seg_add _ (by omega) (by omega) (by omega),
            seg_append_of_le _ _ (by omega) (by omega), seg_append_of_ge _ _ (by omega)]
          congr 2 <;> omega

/-- The number of additional objects the part of an element in a range may need. -/
def partCost (first last : ℤ) (element : ℤ × Chunk) : ℕ :=
  let chunkEnd := element.1 + element.2.getChunkLength
  (if element.1 < first ∧ first < chunkEnd then 1 else 0) +
    if element.1 < last ∧ last < chunkEnd then 1 else 0

theorem sum_partCost_le {chunks : List Chunk} (h : ∀ c ∈ chunks, 0 < c.getChunkLength)
    (first last start : ℤ) :
    ((SequenceChunk.withOffsets chunks start).map (partCost first last)).sum ≤
      (if start < first then 1 else 0) +
        if start < last ∧ last < start + (chunks.map getChunkLength).sum then 1 else 0 := by
  induction chunks generalizing start with
  | nil => simp [SequenceChunk.withOffsets]
  | cons chunk chunks ih =>
    rw [List.forall_mem_cons] at h
    have hsum := sum_map_nonneg h.2
    have := ih h.2 (start + chunk.getChunkLength)
    rw [SequenceChunk.withOffsets, List.map_cons, List.sum_cons, partCost]
    dsimp only
    rw [List.map_cons, List.sum_cons]
    have hpos := h.1
    split_ifs at this ⊢ <;> omega

theorem elementPart_cases {chunkBegin chunkLength first last : ℤ} (hle : first ≤ last) :
    (elementPart chunkBegin chunkLength first last = .whole ∧
      first ≤ chunkBegin ∧ chunkBegin + chunkLength ≤ last) ∨
    (∃ offset length, elementPart chunkBegin chunkLength first last = .part offset length ∧
      offset = max first chunkBegin - chunkBegin ∧
      length = min last (chunkBegin + chunkLength) - max first chunkBegin ∧
      (first < last → 0 < length) ∧ 0 ≤ length ∧ offset + length ≤ chunkLength) ∨
    (elementPart chunkBegin chunkLength first last = .outside ∧
      (chunkBegin + chunkLength ≤ first ∨ last ≤ chunkBegin)) := by
  simp only [elementPart]
  split_ifs
  · exact Or.inl ⟨rfl, by omega, by omega⟩
  · exact Or.inr (Or.inl ⟨_, _, rfl, by omega, by omega, by omega, by omega, by omega⟩)
  · exact Or.inr (Or.inl ⟨_, _, rfl, by omega, by omega, by omega, by omega, by omega⟩)
  · exact Or.inr (Or.inl ⟨_, _, rfl, by omega, by omega, by omega, by omega, by omega⟩)
  · exact Or.inr (Or.inr ⟨rfl, by omega⟩)

variable {k : Prop} {side : Side} {n : ℕ}

theorem spec_insert_foldlM {α : Type} {g : List Chunk → α → ChunkM (List Chunk)}
    {f : α → List Cell} {cost : α → ℕ} {as : List α}
    (hg : ∀ a ∈ as, ∀ chunks xs, Reps k chunks xs → sumSizes chunks + cost a ≤ n →
      Spec (¬ k) (g chunks a) fun r =>
        Reps k r (side.join xs (f a)) ∧ sumSizes r ≤ sumSizes chunks + cost a)
    {chunks : List Chunk} {xs : List Cell} (hs : Reps k chunks xs)
    (hn : sumSizes chunks + (as.map cost).sum ≤ n) :
    Spec (¬ k) (as.foldlM g chunks) fun r =>
      Reps k r (side.join xs (as.foldr (fun a acc => side.join (f a) acc) [])) ∧
        sumSizes r ≤ sumSizes chunks + (as.map cost).sum := by
  induction as generalizing chunks xs with
  | nil => exact Spec.pure ⟨by simpa using hs, by simp⟩
  | cons a as ih =>
    rw [List.forall_mem_cons] at hg
    rw [List.map_cons, List.sum_cons] at hn ⊢
    rw [List.foldlM_cons, List.foldr_cons, ← Side.join_assoc]
    refine (hg.1 chunks xs hs (by omega)).bind ?_
    rintro r ⟨hr, hsize⟩
    refine (ih hg.2 hr (by omega)).mono id ?_
    rintro r' ⟨hr', hsize'⟩
    exact ⟨hr', by omega⟩

theorem spec_doInsertElementPart (hP : PeekOk n) (hI : InsertOk n) {first last : ℤ}
    (hlt : first < last) {element : ℤ × Chunk} (hwf : element.2.WF)
    (hpos : 0 < element.2.getChunkLength) (hk : k → element.2.Clean) (hsz : element.2.size + 2 ≤ n)
    {chunks : List Chunk} {xs : List Cell} (hs : Reps k chunks xs)
    (hn : sumSizes chunks + (element.2.size + partCost first last element) ≤ n) :
    Spec (¬ k) (SequenceChunk.doInsertElementPart (dispatch n) side first last chunks element)
      fun r => Reps k r (side.join xs (clip first last element)) ∧
        sumSizes r ≤ sumSizes chunks + (element.2.size + partCost first last element) := by
  obtain ⟨chunkBegin, chunk⟩ := element
  dsimp only at hwf hpos hk hsz hn ⊢
  have hl := hwf.length_cells
  unfold SequenceChunk.doInsertElementPart
  dsimp only
  rcases elementPart_cases
      hlt.le with
    ⟨he, h₁, h₂⟩ | ⟨offset, length, he, ho, hlen, hpl, -, h₂⟩ | ⟨he, hout⟩
  · rw [he]
    have hclip : clip first last (chunkBegin, chunk) = chunk.cells := by
      rw [clip]
      dsimp only
      rw [show max first chunkBegin - chunkBegin = 0 by omega]
      exact seg_zero _ (by omega)
    rw [hclip]
    exact (spec_doInsertChunkAt hI hs (hwf.rep hk) hpos (by omega)).mono id
      fun r hr => ⟨hr.1, by have := hr.2; omega⟩
  · rw [he]
    have h₁ := hpl hlt
    have hclip : clip first last (chunkBegin, chunk) = seg chunk.cells offset length := by
      rw [ho, hlen, clip]
    have hcost : cutCost chunk.getChunkLength offset length ≤
        partCost first last (chunkBegin, chunk) := by
      simp only [cutCost, partCost]
      split_ifs <;> omega
    have h₀ : 0 ≤ offset := by omega
    rw [hclip]
    refine (spec_peek hP hwf hk rfl
      (consistent_ofPosition _ _) h₀ h₁ h₂ hsz {}).bind ?_
    rintro _ ⟨c, rfl, hrep, -, hsize⟩
    have hrep : Rep k c (seg chunk.cells offset length) := hrep
    have hsize : c.size ≤ chunk.size + cutCost chunk.getChunkLength offset length := hsize
    have hcpos : 0 < c.getChunkLength := by
      rw [hrep.length_eq, length_seg h₀ h₁.le (by omega)]
      exact h₁
    refine (Spec.pure rfl).bind ?_
    rintro _ rfl
    exact (spec_doInsertChunkAt hI hs hrep hcpos (by omega)).mono id
      fun r hr => ⟨hr.1, by have := hr.2; omega⟩
  · rw [he]
    have hclip : clip first last (chunkBegin, chunk) = [] :=
      seg_of_nonpos _ _ (by dsimp only; omega)
    rw [hclip, Side.join_nil]
    exact Spec.pure ⟨hs, by omega⟩

theorem withOffsets_snd (chunks : List Chunk) (start : ℤ) :
    (SequenceChunk.withOffsets chunks start).map Prod.snd = chunks := by
  induction chunks generalizing start with
  | nil => rfl
  | cons chunk chunks ih => rw [SequenceChunk.withOffsets, List.map_cons, ih]

theorem size_le_sumSizes {chunk : Chunk} {chunks : List Chunk} (h : chunk ∈ chunks) :
    chunk.size ≤ sumSizes chunks := by
  rw [sumSizes_eq]
  exact List.le_sum_of_mem (List.mem_map_of_mem h)

theorem sum_cost_le (side : Side) (header : ChunkHeader) {elements : List Chunk}
    (helems : ∀ c ∈ elements, c.WF ∧ 0 < c.getChunkLength) (first last : ℤ) :
    ((side.order (SequenceChunk.withOffsets elements 0)).map
      fun e => e.2.size + partCost first last e).sum ≤ sumSizes elements +
        cutCost (sequence header elements).getChunkLength first (last - first) := by
  have hp := sum_partCost_le (fun c hc => (helems c hc).2) first last 0
  have hsum : ((SequenceChunk.withOffsets elements 0).map fun e => e.2.size).sum =
      sumSizes elements := by
    rw [sumSizes_eq]
    conv_rhs => rw [← withOffsets_snd elements 0, List.map_map]
    rfl
  rw [getChunkLength_sequence]
  rw [Side.sum_map_order, List.sum_map_add, hsum, cutCost]
  split_ifs at hp ⊢ <;> omega

theorem spec_doInsertParts (side : Side) (hP : PeekOk n) (hI : InsertOk n) {header : ChunkHeader}
    {elements : List Chunk} (hwf : (sequence header elements).WF)
    (hk : k → (sequence header elements).Clean) {first last : ℤ} (h₀ : 0 ≤ first)
    (hlt : first < last)
    (hsz : ∀ c ∈ elements, c.size + 2 ≤ n) {chunks : List Chunk} {xs : List Cell}
    (hs : Reps k chunks xs)
    (hn : sumSizes chunks + (sumSizes elements +
      cutCost (sequence header elements).getChunkLength first (last - first)) ≤ n) :
    Spec (¬ k) ((side.order (SequenceChunk.withOffsets elements 0)).foldlM
        (SequenceChunk.doInsertElementPart (dispatch n) side first last) chunks) fun r =>
      Reps k r (side.join xs (seg (elements.flatMap cells) first (last - first))) ∧
        sumSizes r ≤ sumSizes chunks + (sumSizes elements +
          cutCost (sequence header elements).getChunkLength first (last - first)) := by
  have helems := (wf_sequence _ _).1 hwf
  have hcost := sum_cost_le side header helems first last
  have hmem : ∀ e ∈ SequenceChunk.withOffsets elements 0, e.2 ∈ elements := by
    intro e he
    have := List.mem_map_of_mem (f := Prod.snd) he
    rwa [withOffsets_snd] at this
  have hspec := spec_insert_foldlM (k := k) (n := n)
    (g := SequenceChunk.doInsertElementPart (dispatch n) side first last) (f := clip first last)
    (fun e he chunks xs hs hn => by
      have he := hmem e (side.mem_order.1 he)
      exact spec_doInsertElementPart hP hI hlt (helems _ he).1 (helems _ he).2
        (fun hc => ((clean_sequence _ _).1 (hk hc)).2 _ he) (hsz _ he) hs hn)
    hs (by omega)
  rw [Side.foldr_order, flatMap_clip fun c hc => (helems c hc).1.sound] at hspec
  refine hspec.mono id fun r hr => ⟨?_, by have := hr.2; omega⟩
  have := hr.1
  rwa [show max first 0 = first by omega, sub_zero] at this

theorem spec_doInsertAt (hP : PeekOk n) (hI : InsertOk n) {chunks : List Chunk} {xs : List Cell}
    (hs : Reps k chunks xs) {chunk : Chunk} (hwf : chunk.WF) (hpos : 0 < chunk.getChunkLength)
    (hk : k → chunk.Clean) (hn : sumSizes chunks + chunk.size ≤ n) :
    Spec (¬ k) (SequenceChunk.doInsertAt (dispatch n) side chunks chunk) fun r =>
      Reps k r (side.join xs chunk.cells) ∧ sumSizes r ≤ sumSizes chunks + chunk.size := by
  unfold SequenceChunk.doInsertAt
  split
  · rename_i header header' elements offset length
    obtain ⟨hwf', h₀, h₁, h₂⟩ := hwf
    rw [size, size] at hn ⊢
    have hcost := cutCost_le_two (sequence header' elements).getChunkLength offset length
    have hlen : offset + length - offset = length := by omega
    have hspec := spec_doInsertParts side (k := k) hP hI hwf'
      (fun hc => ((clean_slice _ _).1 (hk hc)).2) h₀
      (show offset < offset + length by have : 0 < length := hpos; omega)
      (fun c hc => by have := size_le_sumSizes hc; omega) hs (by rw [hlen]; omega)
    rw [hlen] at hspec
    refine hspec.mono id fun r hr => ⟨?_, by have := hr.2; omega⟩
    rw [cells, cells_sequence]
    exact hr.1
  · rename_i header elements
    have helems := (wf_sequence _ _).1 hwf
    rw [size] at hn ⊢
    have hcost : ((side.order elements).map size).sum = sumSizes elements := by
      rw [Side.sum_map_order, sumSizes_eq]
    have hspec := spec_insert_foldlM (k := k) (n := n)
      (g := SequenceChunk.doInsertChunkAt (dispatch n) side) (f := cells)
      (fun e (he : e ∈ side.order elements) chunks xs hs hn => by
        have he := side.mem_order.1 he
        exact spec_doInsertChunkAt hI hs
          ((helems e he).1.rep fun hc => ((clean_sequence _ _).1 (hk hc)).2 e he)
            (helems e he).2 hn)
      hs (by omega)
    rw [Side.foldr_order] at hspec
    refine hspec.mono id fun r hr => ⟨?_, by have := hr.2; omega⟩
    rw [cells_sequence]
    exact hr.1
  · exact spec_doInsertChunkAt hI hs (hwf.rep hk) hpos hn

theorem map_join {α β : Type} (f : α → β) (xs ys : List α) :
    (side.join xs ys).map f = side.join (xs.map f) (ys.map f) := by
  cases side <;> simp [Side.join]

theorem replicate_join {α : Type} (a b : ℕ) (x : α) :
    side.join (List.replicate a x) (List.replicate b x) = List.replicate (a + b) x := by
  cases side <;> simp [Side.join, List.replicate_append_replicate, Nat.add_comm]

theorem NoClash.fill_eq (side : Side) {a b : ℕ} {d d' : Bool} (ha : 0 < a) (hb : 0 < b)
    (h : NoClash (side.join (List.replicate a ⟨d, true⟩) (List.replicate b ⟨d', true⟩))) :
    d = d' := by
  obtain ⟨a, rfl⟩ := Nat.exists_eq_succ_of_ne_zero ha.ne'
  obtain ⟨b, rfl⟩ := Nat.exists_eq_succ_of_ne_zero hb.ne'
  cases side with
  | back =>
    rw [Side.join, List.replicate_succ', List.replicate_succ, NoClash] at h
    rw [List.append_assoc, List.singleton_append, List.isChain_append_cons_cons] at h
    exact h.2.1 rfl rfl
  | front =>
    rw [Side.join, List.replicate_succ', List.replicate_succ, NoClash] at h
    rw [List.append_assoc, List.singleton_append, List.isChain_append_cons_cons] at h
    exact (h.2.1 rfl rfl).symm

theorem insertOk_succ (hP : PeekOk n) (hI : InsertOk n) : InsertOk (n + 1) := by
  intro k side this chunk hwf hext hk hcwf hcpos hck hcan hn
  change Spec (¬ k) (insertAtSideWith (dispatch n) side this chunk) _
  cases this with
  | empty header => simp [canInsertAtSide] at hcan
  | fields header chunkLength type serialized => simp [canInsertAtSide] at hcan
  | bits header values =>
    cases chunk <;> simp [canInsertAtSide, getChunkType] at hcan
    rename_i header' values'
    refine Spec.pure ⟨?_, by simp [size]⟩
    have hrep := WF.rep (k := k) (show WF (bits header (side.join values values')) from trivial) hk
    rwa [cells, map_join] at hrep
  | bytes header values =>
    cases chunk <;> simp [canInsertAtSide, getChunkType] at hcan
    rename_i header' values'
    refine Spec.pure ⟨?_, by simp [size]⟩
    have hrep := WF.rep (k := k) (show WF (bytes header (side.join values values')) from trivial) hk
    rwa [cells, BitString.concat, Side.flatMap_join, map_join] at hrep
  | bitCount header length data =>
    cases chunk <;> simp [canInsertAtSide, getChunkType] at hcan
    rename_i header' length' data'
    have hl : 0 < length := hext
    have hl' : 0 < length' := hcpos
    refine Spec.pure ⟨⟨?_, ?_, ?_, hk⟩, by simp [size]⟩
    · exact (add_pos hl hl').le
    · rw [Side.length_join]
      simp [getChunkLength, cells]
      omega
    · intro hn
      simp only [cells] at hn ⊢
      obtain rfl := NoClash.fill_eq side (by omega) (by omega) hn
      rw [replicate_join, Int.toNat_add hl.le hl'.le]
  | byteCount header length data =>
    cases chunk <;> simp [canInsertAtSide] at hcan
    rename_i header' length' data'
    subst hcan
    have hl : 0 ≤ length := hwf
    have hl' : 0 ≤ length' := hcwf
    refine Spec.pure ⟨?_, by simp [size]⟩
    have hrep := WF.rep (k := k)
      (show WF (byteCount header (length + length') data) from add_nonneg hl hl') hk
    rwa [cells, Int.toNat_add hl hl', ← replicate_join, BitString.concat,
      Side.flatMap_join, map_join] at hrep
  | slice header sliced offset length =>
    cases chunk <;> simp [canInsertAtSide] at hcan
    rename_i header' sliced' offset' length'
    obtain ⟨hs, h₀, h₁, h₂⟩ := hwf
    obtain ⟨hs', h₀', h₁', h₂'⟩ := hcwf
    cases side with
    | front =>
      obtain ⟨hsame, hadj⟩ := by simpa using hcan
      obtain rfl := eq_of_same hsame
      refine Spec.pure ⟨?_, by simp [size]⟩
      have hrep := WF.rep (k := k)
        (show WF (slice header sliced (offset - length') (length + length')) from
          ⟨hs, by omega, by omega, by omega⟩) hk
      have hcells : (slice header sliced (offset - length') (length + length')).cells =
          seg sliced.cells offset' length' ++ seg sliced.cells offset length := by
        rw [cells, show offset - length' = offset' by omega, add_comm length,
          seg_add _ h₀' h₁' h₁, ← hadj]
      rw [hcells] at hrep
      exact hrep
    | back =>
      obtain ⟨hsame, hadj⟩ := by simpa using hcan
      obtain rfl := eq_of_same hsame
      refine Spec.pure ⟨?_, by simp [size]⟩
      have hrep := WF.rep (k := k) (show WF (slice header sliced offset (length + length')) from
        ⟨hs, h₀, by omega, by omega⟩) hk
      rwa [cells, seg_add _ h₀ h₁ h₁', hadj] at hrep
  | sequence header chunks =>
    have hs := reps_of_wf hwf hk
    rw [size] at hn
    refine (spec_doInsertAt hP hI hs hcwf hcpos hck (by omega)).bind ?_
    rintro r ⟨hr, hsize⟩
    refine Spec.pure ⟨?_, by rw [size, size]; omega⟩
    rw [cells_sequence]
    exact hr.rep fun hc => ((clean_sequence _ _).1 (hk hc)).1

end Parts

end Chunk

end Inet
