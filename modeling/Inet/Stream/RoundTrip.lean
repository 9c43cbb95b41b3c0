import Mathlib.Data.List.Iterate
import Inet.Stream.Consumes

/-! # Writing and reading back

Every write operation appends a bit string that the corresponding read
consumes, so any sequence of writes is read back unchanged. The one exception
is `writeBytes` on a vector without storage, whose `data()` is null.
-/

namespace Inet

open BitString
open MemoryInputStream hiding length data position
open MemoryOutputStream (Packs packs_empty range bitMasks)

theorem bitMasks_eq_map (n : ℕ) : bitMasks n = (List.range n).map fun i => 2 ^ (n - 1 - i) := by
  have hiter : ∀ k, (· >>> 1)^[k] (1 <<< (n - 1)) = 1 <<< (n - 1) >>> k := by
    intro k
    induction k with
    | zero => rfl
    | succ k ih => rw [Function.iterate_succ_apply', ih, Nat.shiftRight_add]
  rw [bitMasks, ← List.range_map_iterate]
  apply List.map_congr_left
  intro i hi
  have hi : i < n := List.mem_range.1 hi
  have hpow : 2 ^ (n - 1) = 2 ^ (n - 1 - i) * 2 ^ i := by
    rw [← Nat.pow_add]
    congr 1
    omega
  rw [hiter, Nat.shiftLeft_eq, one_mul, Nat.shiftRight_eq_div_pow, hpow,
    Nat.mul_div_cancel _ (Nat.two_pow_pos i)]

theorem mem_bitMasks {n i : ℕ} (hi : i < n) : 2 ^ i ∈ bitMasks n := by
  rw [bitMasks_eq_map, List.mem_map]
  exact ⟨n - 1 - i, List.mem_range.2 (by omega), by congr 1; omega⟩

theorem eq_two_pow_of_mem_bitMasks {n mask : ℕ} (h : mask ∈ bitMasks n) :
    ∃ i, mask = 2 ^ i := by
  rw [bitMasks_eq_map, List.mem_map] at h
  obtain ⟨i, -, rfl⟩ := h
  exact ⟨_, rfl⟩

/-- A call of one of the write functions of `MemoryOutputStream`. -/
inductive WriteOp where
  | bit (value : Bool)
  | bits (values : List Bool) (offset length : ℤ)
  | byte (value : Byte)
  | bytes (values : ByteVector) (offset length : ℤ)
  | uint2 (value : ℕ)
  | uint4 (value : ℕ)
  | uint8 (value : ℕ)
  | uint16Be (value : ℕ)
  | uint16Le (value : ℕ)
  | uint24Be (value : ℕ)
  | uint24Le (value : ℕ)
  | uint32Be (value : ℕ)
  | uint32Le (value : ℕ)
  | uint48Be (value : ℕ)
  | uint48Le (value : ℕ)
  | uint64Be (value : ℕ)
  | uint64Le (value : ℕ)
  | nBitsOfUint64Be (value n : ℕ)
  | string (chars : List Byte)
  | data (src : List Byte) (srcOffset srcLength : ℕ)

/-- What a read function returns. -/
inductive StreamValue where
  | bit (value : Bool)
  | bits (values : List Bool)
  | byte (value : Byte)
  | bytes (values : List Byte)
  | number (value : ℕ)
  deriving DecidableEq, Repr

namespace WriteOp

/-- Offsets and lengths lie inside the argument, values fit their width, strings have no zero. -/
def InRange : WriteOp → Prop
  | bit _ => True
  | bits values offset length =>
    (0 ≤ offset ∧ offset ≤ values.length) ∧
      (length = -1 ∨ 0 ≤ length ∧ offset + length ≤ values.length)
  | byte _ => True
  | bytes values offset length =>
    (0 ≤ offset ∧ offset ≤ values.elems.length) ∧
      (length = -1 ∨ 0 ≤ length ∧ offset + length ≤ values.elems.length)
  | uint2 value => value < 2 ^ 2
  | uint4 value => value < 2 ^ 4
  | uint8 value => value < 2 ^ 8
  | uint16Be value | uint16Le value => value < 2 ^ 16
  | uint24Be value | uint24Le value => value < 2 ^ 24
  | uint32Be value | uint32Le value => value < 2 ^ 32
  | uint48Be value | uint48Le value => value < 2 ^ 48
  | uint64Be value | uint64Le value => value < 2 ^ 64
  | nBitsOfUint64Be value n => 1 ≤ n ∧ n ≤ 64 ∧ value < 2 ^ n
  | string chars => 0 ∉ chars
  | data src srcOffset srcLength => srcOffset + srcLength ≤ 8 * src.length

/-- The vector a `writeBytes` is given has storage, so that its `data()` is not null. -/
def HasData : WriteOp → Prop
  | bytes values _ _ => values.hasStorage = true
  | _ => True

def write : WriteOp → MemoryOutputStream → Except Error MemoryOutputStream
  | bit value, s => return s.writeBit value
  | bits values offset length, s => s.writeBits values offset length
  | byte value, s => return s.writeByte value
  | bytes values offset length, s => s.writeBytes values offset length
  | uint2 value, s => s.writeUint2 value
  | uint4 value, s => s.writeUint4 value
  | uint8 value, s => return s.writeUint8 value
  | uint16Be value, s => return s.writeUint16Be value
  | uint16Le value, s => return s.writeUint16Le value
  | uint24Be value, s => s.writeUint24Be value
  | uint24Le value, s => s.writeUint24Le value
  | uint32Be value, s => return s.writeUint32Be value
  | uint32Le value, s => return s.writeUint32Le value
  | uint48Be value, s => s.writeUint48Be value
  | uint48Le value, s => s.writeUint48Le value
  | uint64Be value, s => return s.writeUint64Be value
  | uint64Le value, s => return s.writeUint64Le value
  | nBitsOfUint64Be value n, s => s.writeNBitsOfUint64Be value n
  | string chars, s => s.writeString chars
  | data src srcOffset srcLength, s => s.writeData src srcOffset srcLength

/-- The value a write stores. -/
def value : WriteOp → StreamValue
  | bit value => .bit value
  | bits values offset length => .bits (range values offset length)
  | byte value => .byte value
  | bytes values offset length => .bytes (range values.elems offset length)
  | uint2 value | uint4 value | uint8 value
  | uint16Be value | uint16Le value | uint24Be value | uint24Le value
  | uint32Be value | uint32Le value | uint48Be value | uint48Le value
  | uint64Be value | uint64Le value | nBitsOfUint64Be value _ => .number value
  | string chars => .bytes chars
  | data src srcOffset srcLength => .bits (((concat src).drop srcOffset).take srcLength)

/-- The read corresponding to a write; data of any alignment is read back as bits. -/
def read : WriteOp → Reader StreamValue
  | bit _ => return .bit (← readBit)
  | bits values offset length => return .bits (← readBits (range values offset length).length)
  | byte _ => return .byte (← readByte)
  | bytes values offset length =>
    return .bytes (← readBytes (range values.elems offset length).length)
  | uint2 _ => return .number (← readUint2)
  | uint4 _ => return .number (← readUint4)
  | uint8 _ => return .number (← readUint8)
  | uint16Be _ => return .number (← readUint16Be)
  | uint16Le _ => return .number (← readUint16Le)
  | uint24Be _ => return .number (← readUint24Be)
  | uint24Le _ => return .number (← readUint24Le)
  | uint32Be _ => return .number (← readUint32Be)
  | uint32Le _ => return .number (← readUint32Le)
  | uint48Be _ => return .number (← readUint48Be)
  | uint48Le _ => return .number (← readUint48Le)
  | uint64Be _ => return .number (← readUint64Be)
  | uint64Le _ => return .number (← readUint64Le)
  | nBitsOfUint64Be _ n => return .number (← readNBitsToUint64Be n)
  | string _ => return .bytes (← readString)
  | data _ _ srcLength => return .bits (← readBits srcLength)

/-- The bits a write appends. -/
def encode : WriteOp → List Bool
  | bit value => [value]
  | bits values offset length => range values offset length
  | byte value => msb value
  | bytes values offset length => concat (range values.elems offset length)
  | uint2 value => encodeMasked [0x2, 0x1] value
  | uint4 value => encodeMasked [0x8, 0x4, 0x2, 0x1] value
  | uint8 value => msb (BitVec.ofNat 8 value)
  | uint16Be value => encodeShifted [8, 0] value
  | uint16Le value => encodeShifted [0, 8] value
  | uint24Be value => encodeShifted [16, 8, 0] value
  | uint24Le value => encodeShifted [0, 8, 16] value
  | uint32Be value => encodeShifted [24, 16, 8, 0] value
  | uint32Le value => encodeShifted [0, 8, 16, 24] value
  | uint48Be value => encodeShifted [40, 32, 24, 16, 8, 0] value
  | uint48Le value => encodeShifted [0, 8, 16, 24, 32, 40] value
  | uint64Be value => encodeShifted [56, 48, 40, 32, 24, 16, 8, 0] value
  | uint64Le value => encodeShifted [0, 8, 16, 24, 32, 40, 48, 56] value
  | nBitsOfUint64Be value n => encodeMasked (bitMasks n) value
  | string chars => concat chars ++ msb (0 : Byte)
  | data src srcOffset srcLength => ((concat src).drop srcOffset).take srcLength
where
  encodeShifted (shifts : List ℕ) (value : ℕ) : List Bool :=
    concat (shifts.map fun shift => BitVec.ofNat 8 (value >>> shift))
  encodeMasked (masks : List ℕ) (value : ℕ) : List Bool :=
    masks.map fun mask => decide (value &&& mask ≠ 0)

theorem packs_write {op : WriteOp} (hr : op.InRange) (hd : op.HasData) {s : MemoryOutputStream}
    {bits : List Bool} (h : Packs s bits) :
    ∃ s', op.write s = .ok s' ∧ Packs s' (bits ++ op.encode) := by
  have hs : ∀ {n v : ℕ}, v < 2 ^ n → v >>> n = 0 := fun hv => Nat.shiftRight_eq_zero _ _ hv
  cases op with
  | bit value => exact ⟨_, rfl, h.writeBit value⟩
  | bits values offset length => exact h.writeBits hr.1 hr.2
  | byte value => exact ⟨_, rfl, h.writeByte value⟩
  | bytes values offset length => exact h.writeBytes hd hr.1 hr.2
  | uint2 value =>
    exact ⟨_, by simp [write, MemoryOutputStream.writeUint2, assert, hs hr], h.writeMasked _ _⟩
  | uint4 value =>
    exact ⟨_, by simp [write, MemoryOutputStream.writeUint4, assert, hs hr], h.writeMasked _ _⟩
  | uint8 value => exact ⟨_, rfl, h.writeByte _⟩
  | uint16Be value | uint16Le value | uint32Be value | uint32Le value | uint64Be value
  | uint64Le value => exact ⟨_, rfl, h.writeShifted _ _⟩
  | uint24Be value =>
    exact ⟨_, by simp [write, MemoryOutputStream.writeUint24Be, assert, hs hr], h.writeShifted _ _⟩
  | uint24Le value =>
    exact ⟨_, by simp [write, MemoryOutputStream.writeUint24Le, assert, hs hr], h.writeShifted _ _⟩
  | uint48Be value =>
    exact ⟨_, by simp [write, MemoryOutputStream.writeUint48Be, assert, hs hr], h.writeShifted _ _⟩
  | uint48Le value =>
    exact ⟨_, by simp [write, MemoryOutputStream.writeUint48Le, assert, hs hr], h.writeShifted _ _⟩
  | nBitsOfUint64Be value n =>
    have hn : ¬ n > 64 := Nat.not_lt.2 hr.2.1
    exact ⟨_, by simp [write, MemoryOutputStream.writeNBitsOfUint64Be, hn], h.writeMasked _ _⟩
  | string chars => exact h.writeString chars
  | data src srcOffset srcLength => exact h.writeData hr

theorem consumes_readMasked_bitMasks {n v : ℕ} (hv : v < 2 ^ n) :
    Consumes (readMasked (bitMasks n)) (encode.encodeMasked (bitMasks n) v) v :=
  consumes_readMasked _ hv (fun _ => mem_bitMasks) fun _ => eq_two_pow_of_mem_bitMasks

theorem consumes_read {op : WriteOp} (hr : op.InRange) : Consumes op.read op.encode op.value := by
  cases op with
  | bit value => exact (consumes_readBit value).map _
  | bits values offset length => exact (consumes_readBits _).map _
  | byte value => exact (consumes_readByte value).map _
  | bytes values offset length => exact (consumes_readBytes _).map _
  | uint2 value => exact (consumes_readMasked_bitMasks (n := 2) hr).map _
  | uint4 value => exact (consumes_readMasked_bitMasks (n := 4) hr).map _
  | uint8 value =>
    have h := ((consumes_readByte (BitVec.ofNat 8 value)).map BitVec.toNat).map StreamValue.number
    rwa [BitVec.toNat_ofNat, Nat.mod_eq_of_lt hr] at h
  | uint16Be value | uint16Le value | uint24Be value | uint24Le value
  | uint32Be value | uint32Le value | uint48Be value | uint48Le value
  | uint64Be value | uint64Le value => exact (consumes_readShifted _ hr (by decide)).map _
  | nBitsOfUint64Be value n =>
    have hn : ¬ (n = 0 ∨ n > 64) := by have := hr.1; have := hr.2.1; omega
    have h := consumes_readMasked_bitMasks hr.2.2
    have he : readNBitsToUint64Be n = readMasked (bitMasks n) := by simp [readNBitsToUint64Be, hn]
    exact (he ▸ h).map StreamValue.number
  | string chars => exact (consumes_readString hr).map _
  | data src srcOffset srcLength =>
    have h := consumes_readBits (((concat src).drop srcOffset).take srcLength)
    have hl : (((concat src).drop srcOffset).take srcLength).length = srcLength := by
      have : srcOffset + srcLength ≤ 8 * src.length := hr
      simp only [List.length_take, List.length_drop, length_concat]
      omega
    rw [hl] at h
    exact h.map _

theorem write_without_data {op : WriteOp} (hr : op.InRange) (hd : ¬ op.HasData)
    (s : MemoryOutputStream) : op.write s = .error (.assertion "buffer != nullptr") := by
  cases op with
  | bytes values offset length =>
    have hs : values.hasStorage = false := by simpa [HasData] using hd
    have he : values.elems = [] := by
      by_contra hne
      rw [values.hasStorage_of_ne_nil hne] at hs
      cases hs
    obtain ⟨⟨h0, h1⟩, h2⟩ := hr
    have ho : offset = 0 := by rw [he] at h1; exact le_antisymm h1 h0
    have hl : length = -1 ∨ length = 0 := by
      rw [he, ho] at h2
      exact h2.imp_right fun h => le_antisymm (by simpa using h.2) h.1
    rcases hl with rfl | rfl <;>
      simp [write, MemoryOutputStream.writeBytes, MemoryOutputStream.writeBuffer, assert, hs, he,
        ho]
  | _ => exact absurd trivial hd

end WriteOp

/-- The writes in order. -/
def writeAll (ops : List WriteOp) : Except Error MemoryOutputStream :=
  ops.foldlM (fun s op => op.write s) MemoryOutputStream.empty

/-- The corresponding reads in the same order. -/
def readAll (ops : List WriteOp) : Reader (List StreamValue) := ops.mapM WriteOp.read

/-- No byte more than the bits need, and zeros in the unused low bits of the last byte. -/
def MemoryOutputStream.Padded (s : MemoryOutputStream) : Prop :=
  s.data.length = (s.length + 7) / 8 ∧
    ∀ last ∈ s.data.getLast?, ∀ i < 8 * s.data.length - s.length, last.getLsbD i = false

theorem MemoryOutputStream.Packs.padded {s : MemoryOutputStream} {bits : List Bool}
    (h : Packs s bits) : s.Padded := by
  refine ⟨h.size_eq, ?_⟩
  cases h with
  | aligned data => simp
  | @unaligned data last rest hpos hlt hlast =>
    intro last' hl i hi
    simp only [List.getLast?_append, List.getLast?_singleton, Option.some_or, Option.mem_def,
      Option.some_inj, List.length_append, List.length_singleton] at hl hi
    subst hl
    -- bit `i` from the low end is entry `7 - i` of the bit string, behind `rest`
    have hbit : (msb last)[7 - i]? = some false := by
      rw [hlast, List.getElem?_append_right (by omega), List.getElem?_replicate]
      exact if_pos (by omega)
    have hmsb : last.getMsbD (7 - i) = false := by
      simpa [msb, show 7 - i < 8 by omega] using hbit
    rw [BitVec.getMsbD_eq_getLsbD] at hmsb
    simpa [show 7 - i < 8 by omega, show 7 - (7 - i) = i by omega] using hmsb

theorem packs_writeAll {ops : List WriteOp} (hr : ∀ op ∈ ops, op.InRange)
    (hd : ∀ op ∈ ops, op.HasData) {s : MemoryOutputStream} {bits : List Bool} (h : Packs s bits) :
    ∃ s', ops.foldlM (fun s op => op.write s) s = .ok s' ∧
      Packs s' (bits ++ ops.flatMap WriteOp.encode) := by
  induction ops generalizing s bits with
  | nil => exact ⟨s, rfl, by simpa using h⟩
  | cons op ops ih =>
    rw [List.forall_mem_cons] at hr hd
    obtain ⟨s₁, h₁, hp₁⟩ := WriteOp.packs_write hr.1 hd.1 h
    obtain ⟨s₂, h₂, hp₂⟩ := ih hr.2 hd.2 hp₁
    refine ⟨s₂, ?_, by simpa using hp₂⟩
    rw [List.foldlM_cons, h₁]
    exact h₂

theorem consumes_readAll {ops : List WriteOp} (hr : ∀ op ∈ ops, op.InRange) :
    Consumes (readAll ops) (ops.flatMap WriteOp.encode) (ops.map WriteOp.value) := by
  induction ops with
  | nil => exact Consumes.pure []
  | cons op ops ih =>
    rw [List.forall_mem_cons] at hr
    rw [readAll, List.mapM_cons]
    exact (WriteOp.consumes_read hr.1).bind ((ih hr.2).map _)

theorem writeAll_without_data {ops : List WriteOp} (hr : ∀ op ∈ ops, op.InRange)
    (hd : ∃ op ∈ ops, ¬ op.HasData) {s : MemoryOutputStream} {bits : List Bool} (h : Packs s bits) :
    ops.foldlM (fun s op => op.write s) s = .error (.assertion "buffer != nullptr") := by
  induction ops generalizing s bits with
  | nil => simp at hd
  | cons op ops ih =>
    rw [List.forall_mem_cons] at hr
    rw [List.foldlM_cons]
    by_cases hop : op.HasData
    · obtain ⟨s₁, h₁, hp₁⟩ := WriteOp.packs_write hr.1 hop h
      rw [h₁, Error.ok_bind]
      apply ih hr.2 _ hp₁
      obtain ⟨op', hmem, hno⟩ := hd
      rcases List.mem_cons.1 hmem with rfl | hmem
      · exact absurd hop hno
      · exact ⟨op', hmem, hno⟩
    · rw [WriteOp.write_without_data hr.1 hop, Error.error_bind]

/-- The reads return the written values and end at the end of the stream, and every intermediate
stream is padded. -/
def RoundTrips (ops : List WriteOp) : Prop :=
  (∃ output input final, writeAll ops = .ok output ∧
    MemoryInputStream.ofData output.getData output.getLength = .ok input ∧
    (readAll ops).run input = .ok (ops.map WriteOp.value, final) ∧
    final.getRemainingLength = 0 ∧ final.isReadBeyondEnd = false) ∧
  ∀ n ≤ ops.length, ∃ output, writeAll (ops.take n) = .ok output ∧ output.Padded

theorem holds_ofData {s : MemoryOutputStream} {bits : List Bool} (h : Packs s bits) :
    ∃ input, MemoryInputStream.ofData s.getData s.getLength = .ok input ∧ Holds input bits := by
  have hl := h.length_eq
  have hs := h.size_eq
  refine ⟨⟨s.data, s.length, 0, false⟩, ?_, ?_⟩
  · have hne : ((s.length : ℕ) : ℤ) ≠ -1 := by omega
    simp [MemoryInputStream.ofData, MemoryOutputStream.getData, MemoryOutputStream.getLength,
      assert, hne]
  · exact ⟨Nat.zero_le _, by simp only; omega, rfl, by simp [h.concat_eq, hl]⟩

theorem roundTrips_iff {ops : List WriteOp} (hr : ∀ op ∈ ops, op.InRange) :
    RoundTrips ops ↔ ∀ op ∈ ops, op.HasData := by
  constructor
  · rintro ⟨⟨output, -, -, hw, -⟩, -⟩
    by_contra hd
    push Not at hd
    rw [writeAll, writeAll_without_data hr hd packs_empty] at hw
    cases hw
  · intro hd
    refine ⟨?_, ?_⟩
    · obtain ⟨output, hw, hp⟩ := packs_writeAll hr hd packs_empty
      obtain ⟨input, hi, hin⟩ := holds_ofData hp
      obtain ⟨final, hread, hfin⟩ := consumes_readAll hr input [] (by simpa using hin)
      refine ⟨output, input, final, hw, hi, hread, ?_, hfin.not_beyond⟩
      have hu := congrArg List.length hfin.unread
      have := hfin.length_le
      simp only [List.length_drop, List.length_take, length_concat, List.length_nil] at hu
      unfold getRemainingLength
      omega
    · intro n _
      have hsub : ∀ {p : WriteOp → Prop}, (∀ op ∈ ops, p op) → ∀ op ∈ ops.take n, p op :=
        fun h op hmem => h op (List.mem_of_mem_take hmem)
      obtain ⟨output, hw, hp⟩ := packs_writeAll (hsub hr) (hsub hd) packs_empty
      exact ⟨output, hw, hp.padded⟩

/-- Writes at every kind of alignment. -/
theorem roundTrips_mixed : RoundTrips [.uint2 1, .uint16Le 258, .string [104, 105],
    .nBitsOfUint64Be 9 5, .data [170, 15] 3 9] ∧
    RoundTrips [.bit true, .bytes ⟨[1, 2], true, fun _ => rfl⟩ 1 (-1)] :=
  ⟨(roundTrips_iff (by simp [WriteOp.InRange])).2 (by simp [WriteOp.HasData]),
    (roundTrips_iff (by simp [WriteOp.InRange])).2 (by simp [WriteOp.HasData])⟩

/-- An empty vector that never had storage cannot be written. -/
theorem not_roundTrips_null_data :
    (∀ op ∈ [WriteOp.bytes ⟨[], false, by simp⟩ 0 (-1)], op.InRange) ∧
      ¬ RoundTrips [WriteOp.bytes ⟨[], false, by simp⟩ 0 (-1)] := by
  refine ⟨by simp [WriteOp.InRange], ?_⟩
  rintro ⟨⟨output, -, -, hw, -⟩, -⟩
  cases hw

end Inet
