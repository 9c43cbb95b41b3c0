import Inet.Buffer.Reorder
import Inet.Buffer.Run
import Mathlib.Data.Nat.Find

/-! # Runs of a reorder buffer

A reorder buffer hands out what is stored from the expected offset on. Data
that is stored below the expected offset stays in front of the available data,
and hides it.
-/

namespace Inet

open Chunk Outcome ChunkBuffer

namespace ReorderBuffer

inductive Operation where
  | replace (offset : ℤ) (chunk : Chunk)
  | clear (offset length : ℤ)
  | pop (length : ℤ)

/-- The data that the call returns, and the buffer afterwards. -/
def apply (this : ReorderBuffer) : Operation → ChunkM (Option Chunk × ReorderBuffer)
  | .replace offset chunk => do
    let buffer ← this.toChunkBuffer.replace offset chunk
    return (none, ⟨buffer, this.expectedOffset⟩)
  | .clear offset length => do
    let buffer ← this.toChunkBuffer.clear offset length
    return (none, ⟨buffer, this.expectedOffset⟩)
  | .pop length => this.popAvailableData length

def run (operations : List Operation) (expectedOffset : ℤ) : ChunkM ReorderBuffer :=
  operations.foldlM (fun this operation => do return (← this.apply operation).2)
    ⟨ChunkBuffer.new, expectedOffset⟩

/-! What a reorder buffer is for. -/

open Classical in
/-- The length of the longest run of stored positions from a position on, if there is an end. -/
noncomputable def runLength (stored : ℤ → Option Cell) (start : ℤ) : ℕ :=
  if h : ∃ n : ℕ, stored (start + n) = none then Nat.find h else 0

/-- What is stored, and the offset that is expected next. -/
structure Holding where
  stored : ℤ → Option Cell
  expected : ℤ

namespace Holding

noncomputable def available (h : Holding) : ℕ := runLength h.stored h.expected

/-- The length that `popAvailableData` takes for an argument. -/
noncomputable def popLength (h : Holding) (length : ℤ) : ℤ :=
  if length = -1 then h.available else length

noncomputable def after (h : Holding) : Operation → Holding
  | .replace offset chunk => ⟨written h.stored offset chunk.cells, h.expected⟩
  | .clear offset length => ⟨cleared h.stored offset length, h.expected⟩
  | .pop length =>
      ⟨cleared h.stored h.expected (h.popLength length), h.expected + h.popLength length⟩

/-- What the usage checks ask for, and a length that is available. -/
def Valid (h : Holding) : Operation → Prop
  | .replace offset chunk => 0 ≤ offset ∧ chunk.WF ∧ 0 < chunk.getChunkLength
  | .clear offset length => 0 ≤ offset ∧ 0 ≤ length
  | .pop length => length = -1 ∨ 0 < length ∧ length ≤ h.available

/-- The operation finds a state in which the buffer does what it is for. -/
def Safe (h : Holding) : Operation → Prop
  | .replace offset chunk => chunk.Clean ∧ Agrees (written h.stored offset chunk.cells) ∧
      (written h.stored offset chunk.cells h.expected = none ∨
        ∀ i < h.expected, written h.stored offset chunk.cells i = none)
  | .clear offset length => (length % 8 = 0 ∨ Exact h.stored offset length) ∧
      (length = 0 → h.stored (offset - 1) = none ∨ h.stored offset = none)
  | .pop length => length = -1 ∨ length % 8 = 0 ∨ length = h.available

/-- The buffer shows what is stored and what is available. -/
structure Shows (h : Holding) (this : ReorderBuffer) : Prop where
  expected : this.expectedOffset = h.expected
  bits : ∀ i, this.bitAt i = (h.stored i).map Cell.bit
  available : this.getAvailableDataLength = h.available

/-- The data is what is stored at the expected offset, and there is none if nothing is. -/
def Pops (h : Holding) (length : ℤ) (data : Option Chunk) : Prop :=
  if h.popLength length = 0 then data = none
  else ∃ chunk, data = some chunk ∧ chunk.toBits.length = h.popLength length ∧
    ∀ k : ℕ, k < h.popLength length → chunk.toBits[k]? = (h.stored (h.expected + k)).map Cell.bit

end Holding

noncomputable def holding (operations : List Operation) (expectedOffset : ℤ) : Holding :=
  operations.foldl Holding.after ⟨fun _ => none, expectedOffset⟩

/-- After some operations the buffer shows what they have stored, and one more operation succeeds,
returns the data it pops, and leaves a buffer that shows what is stored then. -/
def Delivers (operations : List Operation) (expectedOffset : ℤ) (operation : Operation) : Prop :=
  Returns (do
      let this ← run operations expectedOffset
      let (data, next) ← this.apply operation
      return (this, data, next)) fun (this, data, next) =>
    (holding operations expectedOffset).Shows this ∧
      ((holding operations expectedOffset).after operation).Shows next ∧
      ∀ length, operation = .pop length → (holding operations expectedOffset).Pops length data

/-- Every operation is valid, and safe in the state in which it is called. -/
def AllSafe (operations : List Operation) (expectedOffset : ℤ) : Prop :=
  ∀ before operation after, operations = before ++ operation :: after →
    (holding before expectedOffset).Valid operation ∧ (holding before expectedOffset).Safe operation

/-! The longest run. -/

variable {stored : ℤ → Option Cell} {start : ℤ} {n : ℕ}

theorem runLength_eq (hsome : ∀ i, start ≤ i → i < start + n → (stored i).isSome)
    (hnone : stored (start + n) = none) : runLength stored start = n := by
  classical
  have hex : ∃ n : ℕ, stored (start + n) = none := ⟨n, hnone⟩
  rw [runLength, dif_pos hex, Nat.find_eq_iff]
  refine ⟨hnone, fun m hm hm' => ?_⟩
  have hs := hsome (start + m) (by omega) (by omega)
  rw [hm'] at hs
  cases hs

theorem isSome_of_lt_runLength {i : ℤ} (h₀ : start ≤ i) (h₁ : i < start + runLength stored start) :
    (stored i).isSome := by
  classical
  unfold runLength at h₁
  split at h₁
  next hex =>
    have hmin := Nat.find_min hex (m := (i - start).toNat) (by omega)
    rw [show start + ((i - start).toNat : ℤ) = i by omega] at hmin
    exact Option.isSome_iff_ne_none.mpr hmin
  next => omega

/-! The buffer tracks what is stored. -/

variable {h : Holding} {this : ReorderBuffer} {operations : List Operation} {operation : Operation}
  {expectedOffset length : ℤ}

/-- The state of the buffer. Nothing that is stored hides what is available. -/
structure Tracks (h : Holding) (this : ReorderBuffer) : Prop where
  keeps : Keeps h.stored this.toChunkBuffer
  expected : this.expectedOffset = h.expected
  nonneg : 0 ≤ h.expected
  ready : h.stored h.expected = none ∨ ∀ i < h.expected, h.stored i = none

theorem Tracks.expects (ht : Tracks h this) (hlow : ∀ i < h.expected, h.stored i = none) :
    Expects h.stored this :=
  ⟨ht.keeps, by rw [ht.expected]; exact ht.nonneg, by rw [ht.expected]; exact hlow⟩

theorem Tracks.available (ht : Tracks h this) : this.getAvailableDataLength = h.available := by
  rcases ht.ready with hnone | hlow
  · have hzero := getAvailableDataLength_eq_zero ht.keeps (by rw [ht.expected]; exact hnone)
    have hrun : h.available = 0 := runLength_eq (fun i h₀ h₁ => by omega) (by simpa using hnone)
    rw [hzero, hrun]
    rfl
  · obtain ⟨hnonneg, hsome, hnone⟩ := (ht.expects hlow).available
    obtain ⟨n, hn⟩ : ∃ n : ℕ, this.getAvailableDataLength = n :=
      ⟨_, (Int.toNat_of_nonneg hnonneg).symm⟩
    rw [hn, ht.expected] at hsome hnone
    rw [hn, Holding.available, runLength_eq hsome hnone]

theorem Tracks.shows (ht : Tracks h this) : h.Shows this where
  expected := ht.expected
  bits i := by rw [bitAt_eq, ht.keeps.lookup_eq]
  available := ht.available

theorem tracks_new (hnonneg : 0 ≤ expectedOffset) :
    Tracks (holding [] expectedOffset) ⟨ChunkBuffer.new, expectedOffset⟩ :=
  ⟨keeps_new, rfl, hnonneg, .inl rfl⟩

theorem Tracks.spec_replace {offset : ℤ} {chunk : Chunk} (ht : Tracks h this)
    (hvalid : h.Valid (.replace offset chunk)) (hsafe : h.Safe (.replace offset chunk)) :
    Returns (this.apply (.replace offset chunk)) fun result =>
      Tracks (h.after (.replace offset chunk)) result.2 := by
  obtain ⟨hoffset, hwf, hpos⟩ := hvalid
  obtain ⟨hclean, hagrees, hready⟩ := hsafe
  refine (ht.keeps.spec_replace hoffset hwf hpos hclean hagrees).bind fun buffer hbuffer =>
    Spec.pure ⟨hbuffer, ht.expected, ht.nonneg, hready⟩

theorem Tracks.spec_clear {offset : ℤ} (ht : Tracks h this)
    (hvalid : h.Valid (.clear offset length)) (hsafe : h.Safe (.clear offset length)) :
    Returns (this.apply (.clear offset length)) fun result =>
      Tracks (h.after (.clear offset length)) result.2 := by
  refine (ht.keeps.spec_clear hvalid.1 hvalid.2 hsafe.1 hsafe.2).bind fun buffer hbuffer =>
    Spec.pure ⟨hbuffer, ht.expected, ht.nonneg, ?_⟩
  have hcleared : ∀ i, h.stored i = none → cleared h.stored offset length i = none := by
    intro i hi
    unfold cleared
    split
    · rfl
    · exact hi
  exact ht.ready.imp (hcleared _) fun hlow i hi => hcleared i (hlow i hi)

theorem cleared_zero (stored : ℤ → Option Cell) (offset : ℤ) :
    cleared stored offset 0 = stored := by
  funext i
  exact if_neg (by omega)

theorem pops_of_isPart {data : Option Chunk} (hne : h.popLength length ≠ 0)
    (hdata : ∃ chunk, data = some chunk ∧ IsPart h.stored h.expected (h.popLength length) chunk) :
    h.Pops length data := by
  obtain ⟨chunk, hchunk, hpart⟩ := hdata
  rw [Holding.Pops, if_neg hne]
  refine ⟨chunk, hchunk, ?_, fun k hk => ?_⟩
  · rw [toBits, List.length_map, hpart.wf.length_cells, hpart.length_eq]
  · rw [toBits, List.getElem?_map, hpart.cells_eq k hk]

theorem Tracks.spec_pop (ht : Tracks h this) (hvalid : h.Valid (.pop length))
    (hsafe : h.Safe (.pop length)) :
    Returns (this.apply (.pop length)) fun result =>
      Tracks (h.after (.pop length)) result.2 ∧ h.Pops length result.1 := by
  have havailable := ht.available
  by_cases hsome : (h.stored h.expected).isSome
  · have hlow := ht.ready.resolve_left (Option.isSome_iff_ne_none.mp hsome)
    have hexpects := ht.expects hlow
    have hpos : 0 < h.available := by
      rw [Nat.pos_iff_ne_zero]
      intro hzero
      have hnone := hexpects.available.2.2
      rw [havailable, hzero, ht.expected, Nat.cast_zero, add_zero] at hnone
      rw [hnone] at hsome
      cases hsome
    -- what is left is above the new expected offset
    have finish : ∀ result : Option Chunk × ReorderBuffer, 0 < h.popLength length →
        (∃ chunk, result.1 = some chunk ∧
          IsPart h.stored h.expected (h.popLength length) chunk) →
        Expects (cleared h.stored h.expected (h.popLength length)) result.2 →
        result.2.expectedOffset = h.expected + h.popLength length →
        Tracks (h.after (.pop length)) result.2 ∧ h.Pops length result.1 := by
      intro result hpositive hdata hexp hoffset
      refine ⟨⟨hexp.keeps, hoffset, ?_, .inr fun i hi => ?_⟩, pops_of_isPart hpositive.ne' hdata⟩
      · have hnonneg := ht.nonneg
        change 0 ≤ h.expected + h.popLength length
        omega
      · refine hexp.low i ?_
        rw [hoffset]
        exact hi
    by_cases hall : length = -1
    · have hlength : h.popLength length = this.getAvailableDataLength := by
        rw [havailable]
        exact if_pos hall
      have hspec := hexpects.spec_popAvailableData_all (by rw [ht.expected]; exact hsome)
      rw [← hlength, ht.expected] at hspec
      subst hall
      refine hspec.mono id fun result hresult => ?_
      exact finish result (by omega) hresult.1 hresult.2.1 hresult.2.2
    · obtain ⟨hpositive, hle⟩ := hvalid.resolve_left hall
      have hlength : h.popLength length = length := if_neg hall
      have hbytes : length % 8 = 0 ∨ h.stored (h.expected + length) = none := by
        refine (hsafe.resolve_left hall).imp_right fun heq => ?_
        have hnone := hexpects.available.2.2
        rw [havailable, ht.expected, ← heq] at hnone
        exact hnone
      have hspec := hexpects.spec_popAvailableData hpositive (by rw [ht.expected]; exact hbytes)
        fun i h₀ h₁ => by
          rw [ht.expected] at h₀ h₁
          exact isSome_of_lt_runLength h₀ (lt_of_lt_of_le h₁ (Int.add_le_add_left hle _))
      rw [ht.expected] at hspec
      refine hspec.mono id fun result hresult => ?_
      rw [hlength] at finish
      exact finish result hpositive hresult.1 hresult.2.1 hresult.2.2
  · have hnone := Option.not_isSome_iff_eq_none.mp hsome
    have hzero : h.available = 0 := runLength_eq (fun i h₀ h₁ => by omega) (by simpa using hnone)
    have hall : length = -1 := by
      rcases hvalid with hall | hbounds
      · exact hall
      · omega
    have hlength : h.popLength length = 0 := by
      rw [Holding.popLength, if_pos hall, hzero]
      rfl
    have hsame : h.after (.pop length) = h := by
      rw [Holding.after, hlength, cleared_zero, add_zero]
    rw [hsame, apply, popAvailableData_eq ht.keeps (by rw [ht.expected]; exact hnone)]
    refine Spec.pure ⟨ht, ?_⟩
    rw [Holding.Pops, if_pos hlength]

theorem Tracks.spec_apply (ht : Tracks h this) (hvalid : h.Valid operation)
    (hsafe : h.Safe operation) :
    Returns (this.apply operation) fun result => Tracks (h.after operation) result.2 ∧
      ∀ length, operation = .pop length → h.Pops length result.1 := by
  cases operation with
  | replace offset chunk =>
    exact (ht.spec_replace hvalid hsafe).mono id fun _ hresult => ⟨hresult, nofun⟩
  | clear offset length =>
    exact (ht.spec_clear hvalid hsafe).mono id fun _ hresult => ⟨hresult, nofun⟩
  | pop length =>
    refine (ht.spec_pop hvalid hsafe).mono id fun _ hresult => ⟨hresult.1, ?_⟩
    rintro _ ⟨⟩
    exact hresult.2

theorem holding_concat (operations : List Operation) (operation : Operation) (expectedOffset : ℤ) :
    holding (operations ++ [operation]) expectedOffset =
      (holding operations expectedOffset).after operation := by
  rw [holding, List.foldl_append]
  rfl

theorem allSafe_nil (expectedOffset : ℤ) : AllSafe [] expectedOffset :=
  fun before operation after h => by simp at h

theorem allSafe_concat (operations : List Operation) (operation : Operation) (expectedOffset : ℤ) :
    AllSafe (operations ++ [operation]) expectedOffset ↔ AllSafe operations expectedOffset ∧
      (holding operations expectedOffset).Valid operation ∧
      (holding operations expectedOffset).Safe operation := Loop.forall_split_concat

theorem spec_run (hnonneg : 0 ≤ expectedOffset) (h : AllSafe operations expectedOffset) :
    Returns (run operations expectedOffset) (Tracks (holding operations expectedOffset)) := by
  induction operations using List.reverseRecOn with
  | nil => exact Spec.pure (tracks_new hnonneg)
  | append_singleton operations operation ih =>
    obtain ⟨hbefore, hvalid, hsafe⟩ := (allSafe_concat _ _ _).1 h
    rw [run, List.foldlM_append, holding_concat]
    refine (ih hbefore).bind fun this hthis => ?_
    rw [List.foldlM_cons]
    refine Spec.bind (Spec.map ((hthis.spec_apply hvalid hsafe).mono id fun _ hr => hr.1)) ?_
    exact fun next hnext => Spec.pure hnext

/-- In a run whose operations are safe the buffer delivers what is stored at the expected offset. -/
theorem delivers_of_allSafe (operations : List Operation) (expectedOffset : ℤ)
    (operation : Operation)
    (hnonneg : 0 ≤ expectedOffset) (h : AllSafe (operations ++ [operation]) expectedOffset) :
    Delivers operations expectedOffset operation := by
  obtain ⟨hbefore, hvalid, hsafe⟩ := (allSafe_concat _ _ _).1 h
  refine (spec_run hnonneg hbefore).bind fun this hthis => ?_
  refine (hthis.spec_apply hvalid hsafe).bind fun result hresult => Spec.pure ?_
  exact ⟨hthis.shows, hresult.1.shows, hresult.2⟩

theorem available_replace (expectedOffset offset : ℤ) (chunk : Chunk) (h₀ : offset ≤ expectedOffset)
    (h₁ : expectedOffset ≤ offset + chunk.cells.length) :
    ((holding [] expectedOffset).after (.replace offset chunk)).available =
      (offset + chunk.cells.length - expectedOffset).toNat := by
  refine runLength_eq (fun i hi hi' => ?_) ?_
  · change (written _ offset chunk.cells i).isSome
    change expectedOffset ≤ i at hi
    change i < expectedOffset + _ at hi'
    rw [written, if_pos (by omega), List.getElem?_eq_getElem (by omega)]
    rfl
  · change written (fun _ => none) offset chunk.cells (expectedOffset + _) = none
    rw [written, if_neg (by omega)]

/-- Two bytes at the expected offset, the first of which is popped. -/
theorem delivers_bytes :
    Delivers [.replace 0 (.bytes ⟨0, false, false, false⟩ [1, 2])] 0 (.pop 8) := by
  have havailable := available_replace 0 0 (.bytes ⟨0, false, false, false⟩ [1, 2]) le_rfl
    (by decide)
  refine delivers_of_allSafe _ 0 _ le_rfl ((allSafe_concat [_] _ _).2
    ⟨(allSafe_concat [] _ _).2 ⟨allSafe_nil 0, ⟨le_rfl, trivial, by decide⟩,
      ⟨rfl, rfl, rfl⟩, ?_, ?_⟩,
      ?_, ?_⟩)
  · refine @agrees_of_uncounted_lookup _ [] _ (by simp) fun cell hcell => ?_
    obtain ⟨bit, -, rfl⟩ := List.mem_map.1 hcell
    rfl
  · refine .inr fun i hi => ?_
    change i < 0 at hi
    rw [written, if_neg (by omega)]
    rfl
  · have hle : (8 : ℤ) ≤ ((holding [] 0).after
        (.replace 0 (.bytes ⟨0, false, false, false⟩ [1, 2]))).available := by
      rw [havailable]
      decide
    exact .inr ⟨by decide, hle⟩
  · exact .inr (.inl rfl)

/-- A byte below the expected offset hides the next one, and three bits of a byte cannot be
popped. -/
theorem not_delivers_bytes :
    ((holding [] 8).Valid (.replace 0 (.bytes ⟨0, false, false, false⟩ [1, 2])) ∧
      ¬ Delivers [] 8 (.replace 0 (.bytes ⟨0, false, false, false⟩ [1, 2]))) ∧
    (holding [] 0).Valid (.replace 0 (.bytes ⟨0, false, false, false⟩ [1])) ∧
      ((holding [] 0).after (.replace 0 (.bytes ⟨0, false, false, false⟩ [1]))).Valid (.pop 3) ∧
      ¬ Delivers [.replace 0 (.bytes ⟨0, false, false, false⟩ [1])] 0 (.pop 3) := by
  refine ⟨⟨⟨le_rfl, trivial, by decide⟩, fun h => ?_⟩, ⟨le_rfl, trivial, by decide⟩, ?_, fun h =>
    ?_⟩
  · have havailable := available_replace 8 0 (.bytes ⟨0, false, false, false⟩ [1, 2]) (by decide)
      (by decide)
    have hrun : ∃ result s, (do
        let this ← run [] 8
        let (data, next) ← this.apply (.replace 0 (.bytes ⟨0, false, false, false⟩ [1, 2]))
        return (this, data, next) : ChunkM _).run 0 = .ok (result, s) ∧
          result.2.2.getAvailableDataLength = 0 := ⟨_, _, rfl, rfl⟩
    obtain ⟨result, s, hresult, hzero⟩ := hrun
    unfold Delivers at h
    have hshows := (Spec.of_run h hresult).2.1.available
    rw [hzero, havailable] at hshows
    revert hshows
    decide
  · have havailable :=
      available_replace 0 0 (.bytes ⟨0, false, false, false⟩ [1]) le_rfl (by decide)
    refine .inr ⟨by decide, ?_⟩
    rw [havailable]
    decide
  · exact h 0

end ReorderBuffer

end Inet
