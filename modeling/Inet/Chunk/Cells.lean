import Mathlib.Data.List.Chain
import Inet.Chunk.Operations
import Inet.Lib.Segment

/-! # What a chunk denotes

A chunk denotes a list of bits. Bits that a bit count stands for are told apart
from the others, because bit counts are merged without comparing their fill.
-/

namespace Inet

open BitString

/-- A bit of a chunk, and whether it is represented by a bit count. -/
structure Cell where
  bit : Bool
  counted : Bool
  deriving DecidableEq, Repr

/-- A bit that is not represented by a bit count. -/
def Cell.plain (bit : Bool) : Cell := ⟨bit, false⟩

/-- No bit count is directly followed by a bit count with another fill. -/
def NoClash (cells : List Cell) : Prop :=
  cells.IsChain fun a b => a.counted = true → b.counted = true → a.bit = b.bit

theorem NoClash.left {xs ys : List Cell} (h : NoClash (xs ++ ys)) : NoClash xs := h.left_of_append

theorem NoClash.right {xs ys : List Cell} (h : NoClash (xs ++ ys)) : NoClash ys :=
  h.right_of_append

theorem NoClash.seg {xs : List Cell} (h : NoClash xs) (offset length : ℤ) :
    NoClash (seg xs offset length) :=
  List.IsChain.infix h (seg_isInfix _ _ _)

theorem NoClash.of_isInfix {xs ys : List Cell} (h : NoClash ys) (hxs : xs <:+: ys) : NoClash xs :=
  List.IsChain.infix h hxs

theorem noClash_of_plain {xs : List Cell} (h : ∀ x ∈ xs, x.counted = false) : NoClash xs := by
  rw [NoClash, List.isChain_iff_forall_rel_of_append_cons_cons]
  rintro a b l₁ l₂ rfl ha
  simp [h a (by simp)] at ha

/-- None of the flags that `checkPeekResult` rejects by default. -/
def ChunkHeader.Clean (header : ChunkHeader) : Prop :=
  header.incomplete = false ∧ header.incorrect = false ∧ header.improperlyRepresented = false

namespace Chunk

mutual

def cells : Chunk → List Cell
  | empty _ => []
  | bits _ values => values.map Cell.plain
  | bitCount _ length data => List.replicate length.toNat ⟨data, true⟩
  | bytes _ values => (concat values).map Cell.plain
  | byteCount _ length data => (concat (List.replicate length.toNat data)).map Cell.plain
  | fields _ _ _ serialized => serialized.map Cell.plain
  | slice _ chunk offset length => seg (cells chunk) offset length
  | sequence _ chunks => allCells chunks

def allCells : List Chunk → List Cell
  | [] => []
  | chunk :: chunks => cells chunk ++ allCells chunks

end

/-- The bits a chunk denotes. -/
def toBits (chunk : Chunk) : List Bool := chunk.cells.map Cell.bit

mutual

/-- Lengths are not negative, slices lie inside the sliced chunk, elements are not empty, and the
serializer of a fields chunk writes as many bits as the chunk has. -/
def WF : Chunk → Prop
  | empty _ => True
  | bits _ _ => True
  | bitCount _ length _ => 0 ≤ length
  | bytes _ _ => True
  | byteCount _ length _ => 0 ≤ length
  | fields _ chunkLength _ serialized => (serialized.length : ℤ) = chunkLength
  | slice _ chunk offset length =>
    WF chunk ∧ 0 ≤ offset ∧ 0 ≤ length ∧ offset + length ≤ getChunkLength chunk
  | sequence _ chunks => AllWF chunks

def AllWF : List Chunk → Prop
  | [] => True
  | chunk :: chunks => (WF chunk ∧ 0 < getChunkLength chunk) ∧ AllWF chunks

end

mutual

/-- As `WF`, but the elements of a sequence may be empty. -/
def Sound : Chunk → Prop
  | empty _ => True
  | bits _ _ => True
  | bitCount _ length _ => 0 ≤ length
  | bytes _ _ => True
  | byteCount _ length _ => 0 ≤ length
  | fields _ chunkLength _ serialized => (serialized.length : ℤ) = chunkLength
  | slice _ chunk offset length =>
    Sound chunk ∧ 0 ≤ offset ∧ 0 ≤ length ∧ offset + length ≤ getChunkLength chunk
  | sequence _ chunks => AllSound chunks

def AllSound : List Chunk → Prop
  | [] => True
  | chunk :: chunks => Sound chunk ∧ AllSound chunks

end

/-- The chunk is complete, correct and properly represented. -/
def Clean (chunk : Chunk) : Prop :=
  chunk.isIncomplete = false ∧ chunk.isIncorrect = false ∧ chunk.isImproperlyRepresented = false

theorem induction {motive : Chunk → Prop} (empty : ∀ h, motive (empty h))
    (bits : ∀ h values, motive (bits h values))
    (bitCount : ∀ h length data, motive (bitCount h length data))
    (bytes : ∀ h values, motive (bytes h values))
    (byteCount : ∀ h length data, motive (byteCount h length data))
    (fields : ∀ h chunkLength type serialized, motive (fields h chunkLength type serialized))
    (slice : ∀ h chunk offset length, motive chunk → motive (slice h chunk offset length))
    (sequence : ∀ h chunks, (∀ chunk ∈ chunks, motive chunk) → motive (sequence h chunks))
    (chunk : Chunk) : motive chunk :=
  Chunk.rec
    empty bits bitCount bytes byteCount fields slice sequence (by simp)
    (fun _ _ hc hcs => List.forall_mem_cons.2 ⟨hc, hcs⟩) chunk

section Elements

variable (header : ChunkHeader) (chunks : List Chunk)

theorem sumLengths_eq : sumLengths chunks = (chunks.map getChunkLength).sum := by
  induction chunks with
  | nil => rfl
  | cons chunk chunks ih => rw [sumLengths, ih, List.map_cons, List.sum_cons]

theorem allCells_eq : allCells chunks = chunks.flatMap cells := by
  induction chunks with
  | nil => rfl
  | cons chunk chunks ih => rw [allCells, ih, List.flatMap_cons]

theorem sumSizes_eq : sumSizes chunks = (chunks.map size).sum := by
  induction chunks with
  | nil => rfl
  | cons chunk chunks ih => rw [sumSizes, ih, List.map_cons, List.sum_cons]

theorem allWF_iff : AllWF chunks ↔ ∀ chunk ∈ chunks, chunk.WF ∧ 0 < chunk.getChunkLength := by
  induction chunks with
  | nil => simp [AllWF]
  | cons chunk chunks ih => rw [AllWF, ih, List.forall_mem_cons]

theorem allSound_iff : AllSound chunks ↔ ∀ chunk ∈ chunks, chunk.Sound := by
  induction chunks with
  | nil => simp [AllSound]
  | cons chunk chunks ih => rw [AllSound, ih, List.forall_mem_cons]

theorem anyHasFlag_eq (flag : ChunkHeader → Bool) :
    anyHasFlag flag chunks = chunks.any (hasFlag flag) := by
  induction chunks with
  | nil => rfl
  | cons chunk chunks ih => rw [anyHasFlag, ih, List.any_cons]

@[simp] theorem getChunkLength_sequence :
    (sequence header chunks).getChunkLength = (chunks.map getChunkLength).sum := by
  rw [getChunkLength, sumLengths_eq]

@[simp] theorem cells_sequence : (sequence header chunks).cells = chunks.flatMap cells := by
  rw [cells, allCells_eq]

@[simp] theorem wf_sequence :
    (sequence header chunks).WF ↔ ∀ chunk ∈ chunks, chunk.WF ∧ 0 < chunk.getChunkLength := by
  rw [WF, allWF_iff]

@[simp] theorem sound_sequence :
    (sequence header chunks).Sound ↔ ∀ chunk ∈ chunks, chunk.Sound := by
  rw [Sound, allSound_iff]

@[simp] theorem clean_sequence :
    (sequence header chunks).Clean ↔ header.Clean ∧ ∀ chunk ∈ chunks, chunk.Clean := by
  simp only [Clean, isIncomplete, isIncorrect, isImproperlyRepresented, hasFlag, anyHasFlag_eq,
    Bool.or_eq_false_iff, List.any_eq_false, ChunkHeader.Clean, Bool.not_eq_true]
  constructor
  · rintro ⟨⟨h₁, hs₁⟩, ⟨h₂, hs₂⟩, h₃, hs₃⟩
    exact ⟨⟨h₁, h₂, h₃⟩, fun chunk hc => ⟨hs₁ chunk hc, hs₂ chunk hc, hs₃ chunk hc⟩⟩
  · rintro ⟨⟨h₁, h₂, h₃⟩, hs⟩
    exact ⟨⟨h₁, fun c hc => (hs c hc).1⟩, ⟨h₂, fun c hc => (hs c hc).2.1⟩,
      h₃, fun c hc => (hs c hc).2.2⟩

end Elements

section Objects

variable {header : ChunkHeader} {chunk : Chunk}

@[simp] theorem clean_slice (offset length : ℤ) :
    (slice header chunk offset length).Clean ↔ header.Clean ∧ chunk.Clean := by
  simp only [Clean, isIncomplete, isIncorrect, isImproperlyRepresented, hasFlag,
    Bool.or_eq_false_iff, ChunkHeader.Clean]
  constructor
  · rintro ⟨⟨h₁, c₁⟩, ⟨h₂, c₂⟩, h₃, c₃⟩
    exact ⟨⟨h₁, h₂, h₃⟩, c₁, c₂, c₃⟩
  · rintro ⟨⟨h₁, h₂, h₃⟩, c₁, c₂, c₃⟩
    exact ⟨⟨h₁, c₁⟩, ⟨h₂, c₂⟩, h₃, c₃⟩

@[simp] theorem clean_bits (values : List Bool) : (bits header values).Clean ↔ header.Clean :=
  Iff.rfl

@[simp] theorem clean_bitCount (length : ℤ) (data : Bool) :
    (bitCount header length data).Clean ↔ header.Clean := Iff.rfl

@[simp] theorem clean_bytes (values : List Byte) : (bytes header values).Clean ↔ header.Clean :=
  Iff.rfl

@[simp] theorem clean_byteCount (length : ℤ) (data : Byte) :
    (byteCount header length data).Clean ↔ header.Clean := Iff.rfl

@[simp] theorem clean_fields (chunkLength : ℤ) (type : ℕ) (serialized : List Bool) :
    (fields header chunkLength type serialized).Clean ↔ header.Clean := Iff.rfl

theorem size_pos (chunk : Chunk) : 0 < chunk.size := by
  cases chunk <;> simp [size]

theorem WF.sound (h : chunk.WF) : chunk.Sound := by
  induction chunk using Chunk.induction with
  | slice header chunk offset length ih => exact ⟨ih h.1, h.2⟩
  | sequence header chunks ih =>
    rw [wf_sequence] at h
    rw [sound_sequence]
    exact fun chunk hc => ih chunk hc (h chunk hc).1
  | _ => exact h

theorem Sound.length_cells (h : chunk.Sound) :
    (chunk.cells.length : ℤ) = chunk.getChunkLength := by
  induction chunk using Chunk.induction with
  | empty | bits | bytes => simp [cells, getChunkLength]
  | bitCount header length data =>
    have h : 0 ≤ length := h
    simp [cells, getChunkLength, max_eq_left h]
  | byteCount header length data =>
    have h : 0 ≤ length := h
    simp [cells, getChunkLength, max_eq_left h]
  | fields header chunkLength type serialized => simpa [cells, getChunkLength, Sound] using h
  | slice header chunk offset length ih =>
    obtain ⟨hc, h₀, h₁, h₂⟩ := h
    rw [← ih hc] at h₂
    exact length_seg h₀ h₁ h₂
  | sequence header chunks ih =>
    rw [sound_sequence] at h
    rw [cells_sequence, getChunkLength_sequence]
    induction chunks with
    | nil => rfl
    | cons chunk chunks ihs =>
      rw [List.forall_mem_cons] at ih h
      rw [List.flatMap_cons, List.length_append, Nat.cast_add, ih.1 h.1, ihs ih.2 h.2,
        List.map_cons, List.sum_cons]

theorem Sound.getChunkLength_nonneg (h : chunk.Sound) : 0 ≤ chunk.getChunkLength := by
  have := h.length_cells
  omega

theorem WF.length_cells (h : chunk.WF) : (chunk.cells.length : ℤ) = chunk.getChunkLength :=
  h.sound.length_cells

theorem WF.getChunkLength_nonneg (h : chunk.WF) : 0 ≤ chunk.getChunkLength :=
  h.sound.getChunkLength_nonneg

mutual

theorem eq_of_same {c d : Chunk} (h : c.same d = true) : c = d := by
  cases c <;> cases d <;> simp only [same, Bool.and_eq_true, beq_iff_eq, Bool.false_eq_true] at h
  case slice.slice =>
    obtain ⟨⟨⟨rfl, rfl⟩, rfl⟩, hc⟩ := h
    rw [eq_of_same hc]
  case sequence.sequence =>
    obtain ⟨rfl, hcs⟩ := h
    rw [eq_of_sameAll hcs]
  all_goals simp_all

theorem eq_of_sameAll {cs ds : List Chunk} (h : sameAll cs ds = true) : cs = ds := by
  cases cs <;> cases ds <;> simp only [sameAll, Bool.and_eq_true, Bool.false_eq_true] at h
  case nil.nil => rfl
  case cons.cons => rw [eq_of_same h.1, eq_of_sameAll h.2]

end

end Objects

/-- The chunk is well formed and denotes the given cells, as far as no bit counts clash; it is clean
if `k` holds. -/
structure Rep (k : Prop) (chunk : Chunk) (xs : List Cell) : Prop where
  wf : chunk.WF
  length_eq : chunk.getChunkLength = xs.length
  cells_eq : NoClash xs → chunk.cells = xs
  clean : k → chunk.Clean

theorem WF.rep {k : Prop} {chunk : Chunk} (h : chunk.WF) (hk : k → chunk.Clean) :
    Rep k chunk chunk.cells :=
  ⟨h, h.length_cells.symm, fun _ => rfl, hk⟩

/-- The chunk is well formed and denotes exactly the given cells. -/
structure Denotes (k : Prop) (chunk : Chunk) (xs : List Cell) : Prop where
  wf : chunk.WF
  cells_eq : chunk.cells = xs
  clean : k → chunk.Clean

theorem WF.denotes {k : Prop} {chunk : Chunk} (h : chunk.WF) (hk : k → chunk.Clean) :
    Denotes k chunk chunk.cells := ⟨h, rfl, hk⟩

theorem Denotes.rep {k : Prop} {chunk : Chunk} {xs : List Cell} (h : Denotes k chunk xs) :
    Rep k chunk xs := by
  have := h.wf.rep h.clean
  rwa [h.cells_eq] at this

/-- Elements that form a sequence denoting the given cells. -/
structure Reps (k : Prop) (chunks : List Chunk) (xs : List Cell) : Prop where
  wf : ∀ chunk ∈ chunks, chunk.WF ∧ 0 < chunk.getChunkLength
  length_eq : (chunks.map getChunkLength).sum = xs.length
  cells_eq : NoClash xs → chunks.flatMap cells = xs
  clean : k → ∀ chunk ∈ chunks, chunk.Clean

theorem Reps.rep {k : Prop} {chunks : List Chunk} {xs : List Cell} (h : Reps k chunks xs)
    {header : ChunkHeader} (hk : k → header.Clean) : Rep k (sequence header chunks) xs where
  wf := (wf_sequence _ _).2 h.wf
  length_eq := by rw [getChunkLength_sequence, h.length_eq]
  cells_eq hn := by rw [cells_sequence, h.cells_eq hn]
  clean hc := (clean_sequence _ _).2 ⟨hk hc, h.clean hc⟩

theorem reps_nil (k : Prop) : Reps k [] [] := ⟨by simp, by simp, by simp, by simp⟩

theorem reps_of_wf {k : Prop} {header : ChunkHeader} {chunks : List Chunk}
    (h : (sequence header chunks).WF) (hk : k → (sequence header chunks).Clean) :
    Reps k chunks (chunks.flatMap cells) where
  wf := (wf_sequence _ _).1 h
  length_eq := by
    have := h.length_cells
    rw [cells_sequence, getChunkLength_sequence] at this
    exact this.symm
  cells_eq _ := rfl
  clean hc := ((clean_sequence _ _).1 (hk hc)).2

end Chunk

end Inet
