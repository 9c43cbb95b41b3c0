import Inet.Buffer.Keep
import Inet.Lib.Loop

/-! # Runs of a chunk buffer

A buffer that is filled and cleared stores, at every position, the bit of the
last chunk written there. `clear` is given its length in bits and makes a byte
count of it, and cuts a region where it clears nothing.
-/

namespace Inet

open Chunk Outcome

namespace ChunkBuffer

inductive Operation where
  | replace (offset : ℤ) (chunk : Chunk)
  | clear (offset length : ℤ)

namespace Operation

/-- What the usage checks ask for. -/
def Valid : Operation → Prop
  | replace offset chunk => 0 ≤ offset ∧ chunk.WF ∧ 0 < chunk.getChunkLength
  | clear offset length => 0 ≤ offset ∧ 0 ≤ length

def start : Operation → ℤ
  | replace offset _ => offset
  | clear offset _ => offset

def stop : Operation → ℤ
  | replace offset chunk => offset + chunk.getChunkLength
  | clear offset length => offset + length

/-- What the operation stores at a position that it covers. -/
def stored (i : ℤ) : Operation → Option Cell
  | replace offset chunk => chunk.cells[(i - offset).toNat]?
  | clear _ _ => none

end Operation

def apply (this : ChunkBuffer) : Operation → ChunkM ChunkBuffer
  | .replace offset chunk => this.replace offset chunk
  | .clear offset length => this.clear offset length

def run (operations : List Operation) : ChunkM ChunkBuffer := operations.foldlM apply new

/-- What the last operation that covers a position has stored there. -/
def stored (operations : List Operation) (i : ℤ) : Option Cell :=
  (operations.reverse.find? fun operation => operation.start ≤ i ∧ i < operation.stop).bind
    (Operation.stored i)

/-- The bit that a region has at a position. -/
def Region.bitAt (this : Region) (i : ℤ) : Option Bool :=
  if this.getStartOffset ≤ i then this.data.toBits[(i - this.getStartOffset).toNat]? else none

def bitAt (this : ChunkBuffer) (i : ℤ) : Option Bool :=
  this.regions.findSome? fun region => region.bitAt i

/-- The regions are not empty, and there is a gap between any two of them. -/
def WellSeparated (this : ChunkBuffer) : Prop :=
  (∀ region ∈ this.regions, 0 < region.data.getChunkLength) ∧
    this.regions.Pairwise fun r s => r.getEndOffset < s.getStartOffset

/-- The operations succeed, and the buffer stores what they have written last. -/
def Refines (operations : List Operation) : Prop :=
  Returns (run operations) fun this =>
    this.WellSeparated ∧ ∀ i, this.bitAt i = (stored operations i).map Cell.bit

/-- The operation finds a state in which it does what it is for. -/
def Operation.Safe (before : List Operation) : Operation → Prop
  | replace offset chunk => chunk.Clean ∧
      Agrees (ChunkBuffer.stored (before ++ [replace offset chunk]))
  | clear offset length =>
    (length % 8 = 0 ∨ Exact (ChunkBuffer.stored before) offset length) ∧
      (length = 0 → ChunkBuffer.stored before (offset - 1) = none ∨
        ChunkBuffer.stored before offset = none)

/-- The state of the buffer after some operations. -/
structure Stores (operations : List Operation) (this : ChunkBuffer) : Prop where
  ok : ∀ region ∈ this.regions, region.Ok
  separated : Span.Separated (this.regions.map Region.span)
  lookup_eq : ∀ i, Span.lookup (this.regions.map Region.span) i = stored operations i

variable {operations : List Operation} {operation : Operation} {this : ChunkBuffer} {offset i : ℤ}

theorem stored_concat : stored (operations ++ [operation]) i =
    if operation.start ≤ i ∧ i < operation.stop then operation.stored i
    else stored operations i := by
  unfold stored
  rw [List.reverse_append, List.reverse_singleton, List.singleton_append, List.find?_cons]
  split_ifs with h
  · simp [h]
  · simp [h]

theorem Region.bitAt_eq {region : Region} : region.bitAt i = (region.span.get i).map Cell.bit := by
  unfold Region.bitAt Span.get
  split_ifs with h h' h'
  · rw [toBits, List.getElem?_map]
    rfl
  · exact absurd h h'
  · exact absurd h' h
  · rfl

theorem bitAt_eq : this.bitAt i = (Span.lookup (this.regions.map Region.span) i).map Cell.bit := by
  unfold bitAt Span.lookup
  induction this.regions with
  | nil => rfl
  | cons region regions ih =>
    rw [List.map_cons, List.findSome?_cons, List.findSome?_cons, Region.bitAt_eq, ih]
    cases region.span.get i <;> rfl

theorem Stores.wellSeparated (h : Stores operations this) : this.WellSeparated := by
  refine ⟨fun region hregion => (filled_of_mem h.separated h.ok hregion).pos, ?_⟩
  refine (List.pairwise_map.1 h.separated.gap).imp_of_mem fun hr hs hgap => ?_
  rw [(h.ok _ hr).stop_span] at hgap
  exact hgap

theorem stores_new : Stores [] new := ⟨by simp [new], Span.separated_nil, fun _ => rfl⟩

theorem Stores.keeps (h : Stores operations this) : Keeps (stored operations) this :=
  ⟨h.ok, h.separated, h.lookup_eq⟩

theorem stored_replace {chunk : Chunk} (hwf : chunk.WF) :
    stored (operations ++ [.replace offset chunk]) =
      written (stored operations) offset chunk.cells := by
  funext i
  rw [stored_concat, written, hwf.length_cells]
  rfl

theorem Stores.spec_replace {chunk : Chunk} (h : Stores operations this)
    (hvalid : (Operation.replace offset chunk).Valid)
    (hsafe : (Operation.replace offset chunk).Safe operations) :
    Returns (this.replace offset chunk) (Stores (operations ++ [.replace offset chunk])) := by
  obtain ⟨hoffset, hwf, hpos⟩ := hvalid
  obtain ⟨hclean, hagrees⟩ := hsafe
  rw [stored_replace hwf] at hagrees
  refine (h.keeps.spec_replace hoffset hwf hpos hclean hagrees).mono id fun result hresult => ?_
  exact ⟨hresult.ok, hresult.separated, by rw [stored_replace hwf]; exact hresult.lookup_eq⟩

theorem Stores.spec_clear {length : ℤ} (h : Stores operations this)
    (hvalid : (Operation.clear offset length).Valid)
    (hsafe : (Operation.clear offset length).Safe operations) :
    Returns (this.clear offset length) (Stores (operations ++ [.clear offset length])) := by
  refine (h.keeps.spec_clear hvalid.1 hvalid.2 hsafe.1 hsafe.2).mono id fun result hresult => ?_
  refine ⟨hresult.ok, hresult.separated, fun i => (hresult.lookup_eq i).trans ?_⟩
  rw [stored_concat]
  rfl

theorem Stores.spec_apply (h : Stores operations this) (hvalid : operation.Valid)
    (hsafe : operation.Safe operations) :
    Returns (this.apply operation) (Stores (operations ++ [operation])) := by
  cases operation with
  | replace offset chunk => exact h.spec_replace hvalid hsafe
  | clear offset length => exact h.spec_clear hvalid hsafe

/-- Every operation is valid, and safe in the state in which it is called. -/
def Safe (operations : List Operation) : Prop :=
  ∀ before operation after, operations = before ++ operation :: after →
    operation.Valid ∧ operation.Safe before

theorem safe_nil : Safe [] := fun before operation after h => by simp at h

theorem safe_concat (operations : List Operation) (operation : Operation) :
    Safe (operations ++ [operation]) ↔
    Safe operations ∧ operation.Valid ∧ operation.Safe operations := Loop.forall_split_concat

theorem spec_run (h : Safe operations) : Returns (run operations) (Stores operations) := by
  induction operations using List.reverseRecOn with
  | nil => exact Spec.pure stores_new
  | append_singleton operations operation ih =>
    obtain ⟨hbefore, hvalid, hsafe⟩ := (safe_concat _ _).1 h
    rw [run, List.foldlM_append]
    refine (ih hbefore).bind fun this hthis => ?_
    rw [List.foldlM_cons]
    exact (hthis.spec_apply hvalid hsafe).bind fun _ h => Spec.pure h

/-- A buffer on which every operation is safe stores what has been written last. -/
theorem refines_of_safe (h : Safe operations) : Refines operations := by
  refine (spec_run h).mono id fun this hthis => ⟨hthis.wellSeparated, fun i => ?_⟩
  rw [bitAt_eq, hthis.lookup_eq]

/-- Chunks without bit counts never clash. -/
theorem agrees_of_plain
    (h : ∀ offset chunk, Operation.replace offset chunk ∈ operations →
      ∀ cell ∈ chunk.cells, cell.counted = false) : Agrees (stored operations) := by
  intro i a b ha _ hcounted
  obtain ⟨operation, hfind, hstored⟩ := Option.bind_eq_some_iff.1 ha
  have hmem := List.mem_reverse.1 (List.mem_of_find?_eq_some hfind)
  cases operation with
  | replace offset chunk =>
    rw [h offset chunk hmem a (List.mem_of_getElem? hstored)] at hcounted
    cases hcounted
  | clear offset length => cases hstored

/-- Two bytes, a byte behind them, and the second byte cleared. -/
theorem refines_bytes :
    let header : ChunkHeader := ⟨0, false, false, false⟩
    let operations : List Operation :=
      [.replace 0 (.bytes header [1, 2]), .replace 16 (.bytes header [3]), .clear 8 8]
    Safe operations ∧ Refines operations := by
  intro header operations
  have hclean : ∀ values, (Chunk.bytes header values).Clean := fun _ => ⟨rfl, rfl, rfl⟩
  have hplain : ∀ values, ∀ cell ∈ (Chunk.bytes header values).cells, cell.counted = false := by
    intro values cell hcell
    obtain ⟨bit, -, rfl⟩ := List.mem_map.1 hcell
    rfl
  have hsafe : Safe operations := by
    refine (safe_concat [_, _] _).2 ⟨(safe_concat [_] _).2
      ⟨(safe_concat [] _).2 ⟨safe_nil, ⟨by decide, trivial, by decide⟩, hclean _, ?_⟩,
        ⟨by decide, trivial, by decide⟩, hclean _, ?_⟩, ⟨by decide, by decide⟩, Or.inl rfl, ?_⟩
    · refine agrees_of_plain fun offset chunk h => ?_
      simp only [List.nil_append, List.mem_singleton, Operation.replace.injEq] at h
      exact h.2 ▸ hplain _
    · refine agrees_of_plain fun offset chunk h => ?_
      simp only [List.cons_append, List.nil_append, List.mem_cons, Operation.replace.injEq,
        List.not_mem_nil, or_false] at h
      rcases h with h | h
      · exact h.2 ▸ hplain _
      · exact h.2 ▸ hplain _
    · intro h
      exact absurd h (by decide)
  exact ⟨hsafe, refines_of_safe hsafe⟩

/-- Clearing no bits inside a region leaves two regions without a gap, and clearing three bits of a
region throws. -/
theorem exists_not_refines :
    (∃ operations : List Operation, (∀ operation ∈ operations, operation.Valid) ∧
      ∃ this s, (run operations).run 0 = .ok (this, s) ∧ ¬ this.WellSeparated) ∧
    ∃ operations : List Operation, (∀ operation ∈ operations, operation.Valid) ∧
      ¬ Refines operations := by
  let header : ChunkHeader := ⟨0, false, false, false⟩
  have hvalid : Operation.Valid (.replace 0 (.bits header (List.replicate 8 true))) :=
    ⟨by decide, trivial, by decide⟩
  constructor
  · refine ⟨[.replace 0 (.bits header (List.replicate 8 true)), .clear 2 0], ?_,
      ⟨[⟨0, .bits ⟨1, false, false, false⟩ [true, true]⟩,
        ⟨2, .bits ⟨2, false, false, false⟩ (List.replicate 6 true)⟩]⟩, 3, rfl, ?_⟩
    · simp only [List.forall_mem_cons, List.not_mem_nil, false_imp_iff, implies_true, and_true]
      exact ⟨hvalid, by decide, by decide⟩
    · rintro ⟨-, hgap⟩
      exact absurd (List.pairwise_cons.1 hgap).1 (by decide)
  · refine ⟨[.replace 0 (.bits header (List.replicate 8 true)), .clear 2 3], ?_, fun h => ?_⟩
    · simp only [List.forall_mem_cons, List.not_mem_nil, false_imp_iff, implies_true, and_true]
      exact ⟨hvalid, by decide, by decide⟩
    · exact h 0

end ChunkBuffer

end Inet
