import Inet.Chunk.Forward
import Inet.Stream.Packed

/-! # Serialization writes the denoted bits

Serializing a part of a chunk appends exactly the bits of the part to the
stream, so the bits a chunk denotes are its serialized form.
-/

namespace Inet

open BitString MemoryOutputStream Outcome

namespace Chunk

@[simp] theorem toBits_bits (header : ChunkHeader) (values : List Bool) :
    (bits header values).toBits = values := by
  simp [toBits, cells, Cell.plain, Function.comp_def]

@[simp] theorem toBits_bitCount (header : ChunkHeader) (length : ℤ) (data : Bool) :
    (bitCount header length data).toBits = List.replicate length.toNat data := by
  simp [toBits, cells]

@[simp] theorem toBits_bytes (header : ChunkHeader) (values : List Byte) :
    (bytes header values).toBits = concat values := by
  simp [toBits, cells, Cell.plain, Function.comp_def]

@[simp] theorem toBits_byteCount (header : ChunkHeader) (length : ℤ) (data : Byte) :
    (byteCount header length data).toBits = concat (List.replicate length.toNat data) := by
  simp [toBits, cells, Cell.plain, Function.comp_def]

@[simp] theorem toBits_fields (header : ChunkHeader) (chunkLength : ℤ) (type : ℕ)
    (serialized : List Bool) : (fields header chunkLength type serialized).toBits = serialized := by
  simp [toBits, cells, Cell.plain, Function.comp_def]

@[simp] theorem toBits_slice (header : ChunkHeader) (chunk : Chunk) (offset length : ℤ) :
    (slice header chunk offset length).toBits = seg chunk.toBits offset length := by
  rw [toBits, cells, map_seg, toBits]

theorem Sound.length_toBits {chunk : Chunk} (h : chunk.Sound) :
    (chunk.toBits.length : ℤ) = chunk.getChunkLength := by
  rw [toBits, List.length_map, h.length_cells]

theorem packs_serializeByteCount {s : MemoryOutputStream} {bits : List Bool} (h : Packs s bits)
    {count offset length : ℕ} (data : Byte) (hl : offset + length ≤ 8 * count) :
    Packs (serializeByteCount s data offset length)
      (bits ++ ((concat (List.replicate count data)).drop offset).take length) := by
  set src := List.replicate count data with hsrc
  set last := offset + length with hlast
  set boundary := min last ((offset + 7) / 8 * 8) with hb
  set byteCount := (last - boundary) / 8 with hc
  have hlen : src.length = count := by simp [hsrc]
  -- a single bit of the filling byte is a bit of the byte vector
  have hbits : ∀ {s : MemoryOutputStream} {bits : List Bool}, Packs s bits → ∀ first n,
      first + n ≤ 8 * count →
      Packs ((List.range' first n).foldl
          (fun s position => s.writeBit (data.getMsbD (position % 8))) s)
        (bits ++ ((concat src).drop first).take n) := by
    intro s bits h first n hn
    rw [← map_range'_concat src (by omega), ← List.foldl_map (f := fun position : ℕ =>
      data.getMsbD (position % 8)) (g := MemoryOutputStream.writeBit)]
    have hmap : (List.range' first n).map (fun position => data.getMsbD (position % 8)) =
        (List.range' first n).map fun pos => (src.getD (pos / 8) 0).getMsbD (pos % 8) := by
      apply List.map_congr_left
      intro pos hpos
      rw [List.mem_range'_1] at hpos
      rw [List.getD_eq_getElem _ _ (by omega)]
      simp [hsrc]
    rw [hmap]
    exact h.writeBit_foldl _
  have hle : offset ≤ boundary := by omega
  have h₁ := hbits h offset (boundary - offset) (by omega)
  have h₂ := h₁.writeByte_foldl (List.replicate byteCount data)
  have h₃ := hbits h₂ (boundary + 8 * byteCount) (last - (boundary + 8 * byteCount)) (by omega)
  have hmid : concat (List.replicate byteCount data) =
      ((concat src).drop boundary).take (8 * byteCount) := by
    by_cases h0 : byteCount = 0
    · simp [h0]
    · have hba : boundary = 8 * (boundary / 8) := by omega
      rw [hba, drop_concat, take_concat, hsrc, List.drop_replicate, List.take_replicate]
      congr 2
      omega
  rw [hmid] at h₃
  rw [take_drop_split (concat src) byteCount hle (by omega), ← hlast,
    ← List.append_assoc, ← List.append_assoc]
  exact h₃

theorem packs_serializeFields (serialized : List Bool) :
    Packs (serializeFields serialized) serialized := by
  simpa [serializeFields] using packs_empty.writeBit_foldl serialized

/-- The length a serializer writes: up to the end of the chunk if it is given as `-1`. -/
def serializedLength (chunk : Chunk) (offset length : ℤ) : ℤ :=
  if length = -1 then chunk.getChunkLength - offset else length

/-- Serializing the part of the given chunk appends the bits of the part. -/
def SerializesTo (chunk : Chunk) : Prop :=
  ∀ {s : MemoryOutputStream} {bits : List Bool} {offset length : ℤ}, Packs s bits → 0 ≤ offset →
    offset ≤ chunk.getChunkLength →
    length = -1 ∨ 0 ≤ length ∧ offset + length ≤ chunk.getChunkLength →
    ∃ s', chunk.serialize s offset length = .ok s' ∧
      Packs s' (bits ++ seg chunk.toBits offset (chunk.serializedLength offset length))

theorem packs_serializePart {chunk : Chunk} (hwf : chunk.Sound) (hser : chunk.SerializesTo)
    {first last start : ℤ} (hle : first ≤ last) {s : MemoryOutputStream} {bits : List Bool}
    (hs : Packs s bits) :
    ∃ s₁, (match elementPart start chunk.getChunkLength first last with
      | .whole => chunk.serialize s 0 (-1)
      | .part offset length => chunk.serialize s offset length
      | .outside => pure s) = .ok s₁ ∧
      Packs s₁ (bits ++ (clip first last (start, chunk)).map Cell.bit) := by
  have hlen := hwf.length_cells
  have hnonneg := hwf.getChunkLength_nonneg
  rcases elementPart_cases hle with
    ⟨he, h₁, h₂⟩ | ⟨offset, length, he, ho, hl, -, h₁, h₂⟩ | ⟨he, hout⟩
  · rw [he]
    obtain ⟨s₁, hw, hp⟩ := hser hs le_rfl hnonneg (Or.inl rfl)
    refine ⟨s₁, hw, ?_⟩
    have hclip : clip first last (start, chunk) = seg chunk.cells 0 chunk.getChunkLength := by
      rw [clip]
      dsimp only
      congr 1 <;> omega
    rw [hclip, map_seg, ← toBits]
    simpa [serializedLength] using hp
  · rw [he]
    obtain ⟨s₁, hw, hp⟩ := hser hs (by omega) (by omega) (Or.inr ⟨h₁, h₂⟩)
    refine ⟨s₁, hw, ?_⟩
    rw [clip, map_seg, ← toBits]
    dsimp only
    rw [← ho, ← hl]
    rwa [serializedLength, if_neg (by omega)] at hp
  · rw [he]
    refine ⟨s, rfl, ?_⟩
    rw [clip, seg_of_nonpos _ _ (by dsimp only; omega)]
    simpa using hs

theorem packs_serializeElements {chunks : List Chunk}
    (hwf : ∀ c ∈ chunks, c.Sound) (hser : ∀ c ∈ chunks, c.SerializesTo)
    {first last start : ℤ} (hle : first ≤ last) {s : MemoryOutputStream} {bits : List Bool}
    (hs : Packs s bits) :
    ∃ s', serializeElements chunks s start first last = .ok s' ∧
      Packs s' (bits ++ (SequenceChunk.withOffsets chunks start).flatMap
        fun element => (clip first last element).map Cell.bit) := by
  induction chunks generalizing start s bits with
  | nil => exact ⟨s, rfl, by simpa [SequenceChunk.withOffsets] using hs⟩
  | cons chunk chunks ih =>
    rw [List.forall_mem_cons] at hwf hser
    obtain ⟨s₁, hw, hp⟩ := packs_serializePart hwf.1 hser.1 hle hs
    obtain ⟨s₂, hw₂, hp₂⟩ := ih hwf.2 hser.2 hp
    refine ⟨s₂, ?_, ?_⟩
    · rw [serializeElements]
      exact (congrArg (· >>= fun stream => serializeElements chunks stream _ first last) hw).trans
        hw₂
    · rw [SequenceChunk.withOffsets, List.flatMap_cons, ← List.append_assoc]
      exact hp₂

theorem serializedLength_bounds {chunk : Chunk} {offset length : ℤ}
    (h₁ : offset ≤ chunk.getChunkLength)
    (h₂ : length = -1 ∨ 0 ≤ length ∧ offset + length ≤ chunk.getChunkLength) :
    0 ≤ chunk.serializedLength offset length ∧
      offset + chunk.serializedLength offset length ≤ chunk.getChunkLength := by
  unfold serializedLength
  split <;> omega

theorem range_eq_seg {α : Type} (xs : List α) (offset : ℤ) {length : ℤ} (h : 0 ≤ length) :
    range xs offset length = seg xs offset length := by
  rw [range, if_neg (by omega), add_sub_cancel_left, seg]

theorem serializesTo {chunk : Chunk} (hwf : chunk.Sound) : chunk.SerializesTo := by
  induction chunk using Chunk.induction with
  | empty header =>
    intro s bits offset length hs h₀ h₁ h₂
    have h₁ : offset ≤ 0 := h₁
    have h₂ : length = -1 ∨ 0 ≤ length ∧ offset + length ≤ 0 := h₂
    have ho : offset = 0 := by omega
    have hl : length = -1 ∨ length = 0 := by omega
    refine ⟨s, ?_, by simpa [toBits, cells, seg] using hs⟩
    rcases hl with rfl | rfl <;> simp [serialize, checkUsage, assert, ho, getChunkLength]
  | bits header values =>
    intro s bits offset length hs h₀ h₁ h₂
    obtain ⟨hl, hle⟩ := serializedLength_bounds h₁ h₂
    obtain ⟨s', hw, hp⟩ := hs.writeBits ⟨h₀, h₁⟩ (Or.inr ⟨hl, hle⟩)
    refine ⟨s', ?_, ?_⟩
    · have hge : length ≥ -1 := by omega
      rw [serialize]
      simp only [checkUsage, hge, h₀, h₁, and_self, if_true, pure_bind]
      exact hw
    · rw [toBits_bits]
      rwa [range_eq_seg _ _ hl] at hp
  | bitCount header count data =>
    intro s bits offset length hs h₀ h₁ h₂
    obtain ⟨hl, hle⟩ := serializedLength_bounds h₁ h₂
    have hle : _ ≤ count := hle
    have hge : length ≥ -1 := by omega
    have hp := hs.writeBit_foldl (List.replicate
      ((bitCount header count data).serializedLength offset length).toNat data)
    refine ⟨s.writeBitRepeatedly data
      ((bitCount header count data).serializedLength offset length).toNat, ?_, ?_⟩
    · rw [serialize]
      simp only [checkUsage, hge, h₀, h₁, and_self, if_true, pure_bind]
      rfl
    · rw [toBits_bitCount, seg_replicate _ _ h₀ (by omega)]
      exact hp
  | bytes header values =>
    intro s bits offset length hs h₀ h₁ h₂
    obtain ⟨hl, hle⟩ := serializedLength_bounds h₁ h₂
    have hge : length ≥ -1 := by omega
    have hle : _ ≤ 8 * (values.length : ℤ) := hle
    obtain ⟨s', hw, hp⟩ := hs.writeData (show offset.toNat +
      ((bytes header values).serializedLength offset length).toNat ≤ 8 * values.length by omega)
    refine ⟨s', ?_, ?_⟩
    · rw [serialize]
      simp only [checkUsage, hge, h₀, h₁, and_self, if_true, pure_bind]
      exact hw
    · rw [toBits_bytes]
      exact hp
  | byteCount header count data =>
    intro s bits offset length hs h₀ h₁ h₂
    obtain ⟨hl, hle⟩ := serializedLength_bounds h₁ h₂
    have hge : length ≥ -1 := by omega
    have hle : _ ≤ 8 * count := hle
    have hp := packs_serializeByteCount hs data (show offset.toNat +
      ((byteCount header count data).serializedLength offset length).toNat ≤ 8 * count.toNat by
        omega)
    refine ⟨serializeByteCount s data offset.toNat
      ((byteCount header count data).serializedLength offset length).toNat, ?_, ?_⟩
    · rw [serialize]
      simp only [checkUsage, hge, h₀, h₁, and_self, if_true, pure_bind]
      rfl
    · rw [toBits_byteCount]
      exact hp
  | fields header chunkLength type serialized =>
    intro s bits offset length hs h₀ h₁ h₂
    obtain ⟨hl, hle⟩ := serializedLength_bounds h₁ h₂
    have hge : length ≥ -1 := by omega
    have hle : _ ≤ chunkLength := hle
    have hwf : (serialized.length : ℤ) = chunkLength := hwf
    have hser := packs_serializeFields serialized
    have hlen := hser.length_eq
    have hsize := hser.size_eq
    obtain ⟨s', hw, hp⟩ := hs.writeData (show offset.toNat +
      ((fields header chunkLength type serialized).serializedLength offset length).toNat ≤
        8 * (serializeFields serialized).data.length by omega)
    refine ⟨s', ?_, ?_⟩
    · have hcheck : ((serializeFields serialized).getLength : ℤ) = chunkLength := by
        rw [getLength, hlen, hwf]
      rw [serialize]
      simp only [checkUsage, hge, h₀, h₁, hcheck, and_self, if_true, pure_bind]
      exact hw
    · rw [toBits_fields]
      rw [hser.concat_eq] at hp
      have hseg := seg_append_of_le serialized (List.replicate
        (8 * (serializeFields serialized).data.length - (serializeFields serialized).length) false)
        h₀ (l := (fields header chunkLength type serialized).serializedLength offset length)
        (by omega)
      rw [← hseg]
      exact hp
  | slice header sliced sliceOffset sliceLength ih =>
    intro s bits offset length hs h₀ h₁ h₂
    obtain ⟨hl, hle⟩ := serializedLength_bounds h₁ h₂
    obtain ⟨hc, ho, hsl, hsle⟩ := hwf
    have hge : length ≥ -1 := by omega
    have h₁' : offset ≤ sliceLength := h₁
    have h₂' : length = -1 ∨ 0 ≤ length ∧ offset + length ≤ sliceLength := h₂
    have hdef : (slice header sliced sliceOffset sliceLength).serializedLength offset length =
        if length = -1 then sliceLength - offset else length := rfl
    obtain ⟨s', hw, hp⟩ := ih hc hs (show 0 ≤ sliceOffset + offset by omega) (by omega)
      (Or.inr (show 0 ≤ (if length = -1 then sliceLength - offset else length) ∧ _ by
        split <;> omega))
    refine ⟨s', ?_, ?_⟩
    · rw [serialize]
      simp only [checkUsage, hge, h₀, h₁, and_self, if_true, pure_bind]
      exact hw
    · rw [toBits_slice, hdef, seg_seg _ ho h₀ (by split <;> omega)]
      rwa [serializedLength, if_neg (by split <;> omega)] at hp
  | sequence header chunks ih =>
    intro s bits offset length hs h₀ h₁ h₂
    obtain ⟨hl, hle⟩ := serializedLength_bounds h₁ h₂
    have helems := (sound_sequence _ _).1 hwf
    have hge : length ≥ -1 := by omega
    set last := if length = -1 then sumLengths chunks else offset + length with hlast
    have hspan : last - offset = (sequence header chunks).serializedLength offset length := by
      rw [hlast, serializedLength, getChunkLength]
      split <;> omega
    obtain ⟨s', hw, hp⟩ := packs_serializeElements helems (fun c hc => ih c hc (helems c hc))
      (show offset ≤ last by omega) hs
    refine ⟨s', ?_, ?_⟩
    · rw [serialize]
      simp only [checkUsage, hge, h₀, h₁, and_self, if_true, pure_bind]
      exact hw
    · rw [← List.map_flatMap, flatMap_clip helems, show max offset 0 = offset by omega, sub_zero,
        hspan, map_seg, ← cells_sequence header, ← toBits] at hp
      exact hp

/-- The bits `Chunk::serialize` writes for a whole chunk. -/
def serializedBits (chunk : Chunk) : Except Error (List Bool) := do
  let stream ← chunk.serialize MemoryOutputStream.empty 0 (-1)
  return (concat stream.getData).take stream.getLength

theorem Sound.serializedBits_eq {chunk : Chunk} (h : chunk.Sound) :
    chunk.serializedBits = .ok chunk.toBits := by
  obtain ⟨s, hs, hp⟩ := serializesTo h packs_empty le_rfl h.getChunkLength_nonneg (Or.inl rfl)
  have hbits : seg chunk.toBits 0 (chunk.serializedLength 0 (-1)) = chunk.toBits := by
    rw [serializedLength, if_pos rfl, sub_zero, ← h.length_toBits, seg_whole]
  rw [hbits, List.nil_append] at hp
  rw [serializedBits, hs, Error.ok_bind, getData, getLength, hp.concat_eq, hp.length_eq]
  simp

/-- A part of a chunk is serialized as the part of the serialized chunk, after what the stream
holds. -/
theorem serialize_part {chunk : Chunk} (h : chunk.Sound) {stream : MemoryOutputStream}
    {bits : List Bool} (hs : Packs stream bits) {offset length : ℤ} (h₀ : 0 ≤ offset)
    (h₁ : 0 ≤ length) (h₂ : offset + length ≤ chunk.getChunkLength) :
    ∃ whole stream', chunk.serializedBits = .ok whole ∧ whole = chunk.toBits ∧
      chunk.serialize stream offset length = .ok stream' ∧
        Packs stream' (bits ++ seg whole offset length) := by
  obtain ⟨stream', hserialize, hpacks⟩ :=
    serializesTo h hs h₀ (by omega) (Or.inr ⟨h₁, h₂⟩)
  have hlength : chunk.serializedLength offset length = length := if_neg (by omega)
  rw [hlength] at hpacks
  exact ⟨chunk.toBits, stream', h.serializedBits_eq, rfl, hserialize, hpacks⟩

/-- A part that begins and ends inside bytes, behind three bits. -/
theorem serialize_part_unaligned :
    let header : ChunkHeader := ⟨0, false, false, false⟩
    let chunk := slice header (sequence header [bits header [true], byteCount header 2 0xA5]) 1 12
    ∃ whole stream', chunk.serializedBits = .ok whole ∧ whole = chunk.toBits ∧
      chunk.serialize (MemoryOutputStream.empty.writeBitRepeatedly true 3) 3 6 = .ok stream' ∧
        Packs stream' ([true, true, true] ++ seg whole 3 6) :=
  serialize_part (by simp [Sound, AllSound, getChunkLength, sumLengths])
    (packs_empty.writeBit_foldl [true, true, true]) (by decide) (by decide) (by decide)

end Chunk

end Inet
