import Inet.Stream.Output

/-! # Writes append their bits

A stream packs a bit string when its bytes hold the string followed by zeros up
to the next byte boundary. Every write keeps a packed stream packed and
appends the bits of its value.
-/

namespace Inet.MemoryOutputStream

open BitString

/-- The bytes of the stream hold `bits`, most significant first and padded with zeros. -/
inductive Packs : MemoryOutputStream → List Bool → Prop where
  | aligned (data : List Byte) : Packs ⟨data, 8 * data.length⟩ (concat data)
  | unaligned (data : List Byte) {last : Byte} {rest : List Bool} (hpos : 0 < rest.length)
      (hlt : rest.length < 8) (hlast : msb last = rest ++ List.replicate (8 - rest.length) false) :
      Packs ⟨data ++ [last], 8 * data.length + rest.length⟩ (concat data ++ rest)

theorem packs_empty : Packs empty [] := Packs.aligned []

theorem Packs.length_eq {s : MemoryOutputStream} {bits : List Bool} (h : Packs s bits) :
    s.length = bits.length := by
  cases h <;> simp

theorem Packs.size_eq {s : MemoryOutputStream} {bits : List Bool} (h : Packs s bits) :
    s.data.length = (s.length + 7) / 8 := by
  cases h with
  | aligned data => simp only; omega
  | unaligned data hpos hlt hlast => simp only [List.length_append, List.length_singleton]; omega

theorem Packs.concat_eq {s : MemoryOutputStream} {bits : List Bool} (h : Packs s bits) :
    concat s.data = bits ++ List.replicate (8 * s.data.length - s.length) false := by
  cases h with
  | aligned data => simp
  | @unaligned data last rest hpos hlt hlast =>
    have hk : 8 * (data.length + 1) - (8 * data.length + rest.length) = 8 - rest.length := by
      omega
    simp only [concat_append, concat_cons, concat_nil, List.append_nil, hlast,
      List.length_append, List.length_singleton, List.append_assoc, hk]

theorem modify_append_last {α : Type*} (xs : List α) (x : α) (f : α → α) :
    (xs ++ [x]).modify xs.length f = xs ++ [f x] := by
  induction xs with
  | nil => rfl
  | cons y ys ih => simp [ih]

theorem msb_or_of_pad {last x : Byte} {rest tail : List Bool} (hl : rest.length + tail.length = 8)
    (hlast : msb last = rest ++ List.replicate (8 - rest.length) false)
    (hx : msb x = List.replicate rest.length false ++ tail) :
    msb (last ||| x) = rest ++ tail := by
  have ht : 8 - rest.length = tail.length := by omega
  rw [msb_or, hlast, hx, ht, zipWith_or_pad]

theorem Packs.writeBit {s : MemoryOutputStream} {bits : List Bool} (h : Packs s bits)
    (value : Bool) : Packs (s.writeBit value) (bits ++ [value]) := by
  cases h with
  | aligned data =>
    have hb : msb (if value then (0 ||| 1#8 <<< 7 : Byte) else 0) =
        [value] ++ List.replicate (8 - 1) false := by
      cases value <;> decide
    have hs : MemoryOutputStream.writeBit ⟨data, 8 * data.length⟩ value =
        ⟨data ++ [if value then (0 ||| 1#8 <<< 7 : Byte) else 0], 8 * data.length + 1⟩ := by
      have hm : 8 * data.length % 8 = 0 := by omega
      have hd : 8 * data.length / 8 = data.length := by omega
      cases value <;> simp [MemoryOutputStream.writeBit, hm, hd, modify_append_last]
    rw [hs]
    exact Packs.unaligned data (by simp) (by simp) hb
  | @unaligned data last rest hpos hlt hlast =>
    let last' : Byte := if value then last ||| 1#8 <<< (7 - rest.length) else last
    have hs : MemoryOutputStream.writeBit ⟨data ++ [last], 8 * data.length + rest.length⟩ value =
        ⟨data ++ [last'], 8 * data.length + rest.length + 1⟩ := by
      have hm : (8 * data.length + rest.length) % 8 = rest.length := by omega
      have hd : (8 * data.length + rest.length) / 8 = data.length := by omega
      have hne : rest.length ≠ 0 := by omega
      cases value <;> simp [MemoryOutputStream.writeBit, hm, hd, hne, modify_append_last, last']
    have hb : msb last' = rest ++ value :: List.replicate (7 - rest.length) false := by
      cases value with
      | false =>
        have hr : 8 - rest.length = (7 - rest.length) + 1 := by omega
        simp only [last', hlast, hr, List.replicate_succ, Bool.false_eq_true, if_false]
      | true =>
        apply msb_or_of_pad (by simp; omega) hlast
        exact msb_one_shiftLeft (w := 8) hlt
    rw [hs, List.append_assoc]
    by_cases h7 : rest.length = 7
    · have hfull : msb last' = rest ++ [value] := by rw [hb, h7]; rfl
      have := Packs.aligned (data ++ [last'])
      simp only [List.length_append, List.length_singleton, concat_append, concat_cons,
        concat_nil, List.append_nil, hfull] at this
      rwa [show 8 * data.length + rest.length + 1 = 8 * (data.length + 1) by omega]
    · have := Packs.unaligned data (show 0 < (rest ++ [value]).length by simp)
        (by simp; omega) (by
          rw [hb]
          simp only [List.append_assoc, List.singleton_append, List.length_append,
            List.length_singleton]
          congr 3
          omega)
      simpa only [List.length_append, List.length_singleton, Nat.add_assoc] using this

theorem Packs.writeByte {s : MemoryOutputStream} {bits : List Bool} (h : Packs s bits)
    (value : Byte) : Packs (s.writeByte value) (bits ++ msb value) := by
  cases h with
  | aligned data =>
    have hm : 8 * data.length % 8 = 0 := by omega
    have := Packs.aligned (data ++ [value])
    simp only [MemoryOutputStream.writeByte, hm, if_true]
    simpa [Nat.mul_add] using this
  | @unaligned data last rest hpos hlt hlast =>
    have hm : (8 * data.length + rest.length) % 8 = rest.length := by omega
    have hne : rest.length ≠ 0 := by omega
    have hs : MemoryOutputStream.writeByte ⟨data ++ [last], 8 * data.length + rest.length⟩ value =
        ⟨data ++ [last ||| value >>> rest.length] ++ [value <<< (8 - rest.length)],
          8 * data.length + rest.length + 8⟩ := by
      simp [MemoryOutputStream.writeByte, hm, hne, modify_append_last]
    -- the high bits of the byte fill the last byte, the low bits start a new one
    have hhigh : msb (last ||| value >>> rest.length) =
        rest ++ (msb value).take (8 - rest.length) :=
      msb_or_of_pad (by simp; omega) hlast (msb_ushiftRight value (by omega))
    have hlow : msb (value <<< (8 - rest.length)) =
        (msb value).drop (8 - rest.length) ++ List.replicate (8 - rest.length) false :=
      msb_shiftLeft value (by omega)
    have := Packs.unaligned (data ++ [last ||| value >>> rest.length])
      (show 0 < ((msb value).drop (8 - rest.length)).length by simp; omega) (by simp; omega)
        (by rw [hlow]; congr 2; simp; omega)
    rw [hs]
    have hlen : 8 * (data.length + 1) + (8 - (8 - rest.length)) =
        8 * data.length + rest.length + 8 := by omega
    simpa only [concat_append, concat_cons, concat_nil, List.append_nil, hhigh, List.append_assoc,
      List.take_append_drop, List.length_append, List.length_singleton, List.length_drop,
      length_msb, hlen] using this

theorem Packs.foldl {α : Type*} {f : MemoryOutputStream → α → MemoryOutputStream}
    {enc : α → List Bool} (hf : ∀ s bits a, Packs s bits → Packs (f s a) (bits ++ enc a))
    {s : MemoryOutputStream} {bits : List Bool} (h : Packs s bits) (as : List α) :
    Packs (as.foldl f s) (bits ++ as.flatMap enc) := by
  induction as generalizing s bits with
  | nil => simpa using h
  | cons a as ih => simpa using ih (hf _ _ a h)

theorem Packs.foldlM {α : Type*} {f : MemoryOutputStream → α → Except Error MemoryOutputStream}
    {enc : α → List Bool} {accepted : α → Prop}
    (hf : ∀ s s' bits a, Packs s bits → f s a = .ok s' → accepted a ∧ Packs s' (bits ++ enc a))
    {s s' : MemoryOutputStream} {bits : List Bool} (h : Packs s bits) {as : List α}
    (hs : as.foldlM f s = .ok s') :
    (∀ a ∈ as, accepted a) ∧ Packs s' (bits ++ as.flatMap enc) := by
  induction as generalizing s bits with
  | nil =>
    cases hs
    simpa using h
  | cons a as ih =>
    rw [List.foldlM_cons] at hs
    obtain ⟨s₁, ha, hs⟩ := Error.exists_of_bind_eq_ok hs
    obtain ⟨hacc, h₁⟩ := hf s s₁ bits a h ha
    obtain ⟨hall, h₂⟩ := ih h₁ hs
    constructor
    · exact List.forall_mem_cons.2 ⟨hacc, hall⟩
    · rwa [List.flatMap_cons, ← List.append_assoc]

theorem Packs.writeBit_foldl {s : MemoryOutputStream} {bits : List Bool} (h : Packs s bits)
    (values : List Bool) : Packs (values.foldl MemoryOutputStream.writeBit s) (bits ++ values) := by
  have := h.foldl (fun _ _ a h => h.writeBit a) values
  simpa [List.flatMap_singleton'] using this

theorem Packs.writeByte_foldl {s : MemoryOutputStream} {bits : List Bool} (h : Packs s bits)
    (values : List Byte) :
    Packs (values.foldl MemoryOutputStream.writeByte s) (bits ++ concat values) :=
  h.foldl (fun _ _ a h => h.writeByte a) values

/-- The elements a call with the given offset and length (`-1`: up to the end) is about. -/
def range {α : Type*} (xs : List α) (offset length : ℤ) : List α :=
  (xs.drop offset.toNat).take
    ((if length = -1 then (xs.length : ℤ) else offset + length) - offset).toNat

theorem Packs.writeBits {s : MemoryOutputStream} {bits : List Bool} (h : Packs s bits)
    {values : List Bool} {offset length : ℤ} (ho : 0 ≤ offset ∧ offset ≤ values.length)
    (hl : length = -1 ∨ 0 ≤ length ∧ offset + length ≤ values.length) :
    ∃ s', s.writeBits values offset length = .ok s' ∧
      Packs s' (bits ++ range values offset length) := by
  refine ⟨_, ?_, h.writeBit_foldl _⟩
  simp only [MemoryOutputStream.writeBits, assert, ho, hl, and_self, if_true, pure_bind]
  rfl

theorem Packs.writeBuffer {s : MemoryOutputStream} {bits : List Bool} (h : Packs s bits)
    {buffer : List Byte} {length : ℕ} (hl : length ≤ buffer.length) :
    ∃ s', s.writeBuffer (some buffer) length = .ok s' ∧
      Packs s' (bits ++ concat (buffer.take length)) := by
  by_cases h0 : length = 0
  · subst h0
    exact ⟨s, by simp [MemoryOutputStream.writeBuffer, assert], by simpa using h⟩
  · by_cases ha : s.isByteAligned
    · refine ⟨⟨s.data ++ buffer.take length, s.length + 8 * length⟩, ?_, ?_⟩
      · simp [MemoryOutputStream.writeBuffer, assert, h0, ha]
      · cases h with
        | aligned data =>
          have := Packs.aligned (data ++ buffer.take length)
          simpa [Nat.mul_add, Nat.min_eq_left hl] using this
        | unaligned data hpos hlt hlast =>
          simp only [isByteAligned, decide_eq_true_eq] at ha
          omega
    · refine ⟨_, ?_, h.writeByte_foldl (buffer.take length)⟩
      simp [MemoryOutputStream.writeBuffer, assert, h0, ha]

theorem Packs.writeBytes {s : MemoryOutputStream} {bits : List Bool} (h : Packs s bits)
    {bytes : ByteVector} {offset length : ℤ} (hs : bytes.hasStorage = true)
    (ho : 0 ≤ offset ∧ offset ≤ bytes.elems.length)
    (hl : length = -1 ∨ 0 ≤ length ∧ offset + length ≤ bytes.elems.length) :
    ∃ s', s.writeBytes bytes offset length = .ok s' ∧
      Packs s' (bits ++ concat (range bytes.elems offset length)) := by
  set finish : ℤ := if length = -1 then (bytes.elems.length : ℤ) else offset + length with hf
  have hfin : offset ≤ finish ∧ finish ≤ bytes.elems.length := by
    rw [hf]; split <;> omega
  obtain ⟨s', hw, hp⟩ := h.writeBuffer (show (finish - offset).toNat ≤
    (bytes.elems.drop offset.toNat).length by simp; omega)
  refine ⟨s', ?_, hp⟩
  rw [Int.toNat_of_nonneg (by omega)] at hw
  simp only [MemoryOutputStream.writeBytes, assert, ← hf, ho, hfin, hs, and_self, if_true,
    pure_bind, show 0 ≤ finish by omega, hw]

theorem concat_getD (src : List Byte) {pos : ℕ} (h : pos < 8 * src.length) :
    (concat src)[pos]? = some ((src.getD (pos / 8) 0).getMsbD (pos % 8)) := by
  have hk : pos / 8 < src.length := by omega
  have := drop_concat_add src hk (i := pos % 8) (by omega)
  rw [Nat.div_add_mod] at this
  rw [← List.head?_drop, this, List.head?_append, List.head?_drop]
  simp [msb, hk, Nat.mod_lt]

theorem map_range'_concat (src : List Byte) {first count : ℕ}
    (h : first + count ≤ 8 * src.length) :
    (List.range' first count).map (fun pos => (src.getD (pos / 8) 0).getMsbD (pos % 8)) =
      ((concat src).drop first).take count := by
  apply List.ext_getElem?
  intro i
  by_cases hi : i < count
  · rw [List.getElem?_take_of_lt hi, List.getElem?_drop, concat_getD src (by omega)]
    simp [hi]
  · rw [List.getElem?_eq_none (by simpa using hi), List.getElem?_eq_none (by simp; omega)]

theorem Packs.writeBitRange {s : MemoryOutputStream} {bits : List Bool} (h : Packs s bits)
    {src : List Byte} (first : ℕ) {last : ℕ} (hl : last ≤ 8 * src.length) :
    Packs (s.writeBitRange src first last)
      (bits ++ ((concat src).drop first).take (last - first)) := by
  by_cases hfl : first ≤ last
  · rw [← map_range'_concat src (by omega), MemoryOutputStream.writeBitRange, ← List.foldl_map]
    exact h.writeBit_foldl _
  · have h0 : last - first = 0 := by omega
    simpa [MemoryOutputStream.writeBitRange, h0] using h

theorem take_drop_split {α : Type*} (xs : List α) {offset length boundary : ℕ} (count : ℕ)
    (h₁ : offset ≤ boundary) (h₂ : boundary + 8 * count ≤ offset + length) :
    (xs.drop offset).take length =
      (xs.drop offset).take (boundary - offset) ++ (xs.drop boundary).take (8 * count) ++
        (xs.drop (boundary + 8 * count)).take (offset + length - (boundary + 8 * count)) := by
  have hlen : length =
      (boundary - offset) + (8 * count + (offset + length - (boundary + 8 * count))) := by omega
  have hbound : offset + (boundary - offset) = boundary := by omega
  conv_lhs => rw [hlen]
  rw [List.take_add, List.take_add, List.drop_drop, List.drop_drop, List.append_assoc, hbound]

theorem Packs.writeData {s : MemoryOutputStream} {bits : List Bool} (h : Packs s bits)
    {src : List Byte} {srcOffset srcLength : ℕ} (hl : srcOffset + srcLength ≤ 8 * src.length) :
    ∃ s', s.writeData src srcOffset srcLength = .ok s' ∧
      Packs s' (bits ++ ((concat src).drop srcOffset).take srcLength) := by
  set last := srcOffset + srcLength with hlast
  set boundary := min last ((srcOffset + 7) / 8 * 8) with hb
  set count := (last - boundary) / 8 with hc
  have hle : srcOffset ≤ boundary := by rw [hb]; omega
  have h₁ := h.writeBitRange srcOffset (show boundary ≤ 8 * src.length by omega)
  have hsplit :=
    take_drop_split (concat src) count hle (show boundary + 8 * count ≤ srcOffset + srcLength by
    omega)
  rw [← hlast] at hsplit
  obtain ⟨s₂, hw, h₂⟩ : ∃ s₂, (if count ≠ 0 then
      (s.writeBitRange src srcOffset boundary).writeBuffer (some (src.drop (boundary / 8))) count
      else pure (s.writeBitRange src srcOffset boundary)) = Except.ok s₂ ∧
        Packs s₂ (bits ++ ((concat src).drop srcOffset).take (boundary - srcOffset) ++
          ((concat src).drop boundary).take (8 * count)) := by
    by_cases h0 : count = 0
    · refine ⟨s.writeBitRange src srcOffset boundary, by simp [h0], ?_⟩
      simpa [h0] using h₁
    · have hba : 8 * (boundary / 8) = boundary := by omega
      obtain ⟨s₂, hw, h₂⟩ := h₁.writeBuffer (show count ≤
        (src.drop (boundary / 8)).length by simp; omega)
      refine ⟨s₂, by simpa [h0] using hw, ?_⟩
      rwa [← take_concat, ← drop_concat, hba] at h₂
  refine ⟨s₂.writeBitRange src (boundary + 8 * count) last, ?_, ?_⟩
  · simp only [MemoryOutputStream.writeData, assert, ← hlast, ← hb, ← hc, hl, if_true, pure_bind]
    rw [hw]
    rfl
  · rw [hsplit, ← List.append_assoc, ← List.append_assoc]
    exact h₂.writeBitRange _ (by omega)

theorem Packs.writeShifted {s : MemoryOutputStream} {bits : List Bool} (h : Packs s bits)
    (shifts : List ℕ) (value : ℕ) :
    Packs (s.writeShifted shifts value)
      (bits ++ concat (shifts.map fun shift => BitVec.ofNat 8 (value >>> shift))) := by
  rw [MemoryOutputStream.writeShifted, ← List.foldl_map]
  exact h.writeByte_foldl _

theorem Packs.writeMasked {s : MemoryOutputStream} {bits : List Bool} (h : Packs s bits)
    (masks : List ℕ) (value : ℕ) :
    Packs (s.writeMasked masks value)
      (bits ++ masks.map fun mask => decide (value &&& mask ≠ 0)) := by
  rw [MemoryOutputStream.writeMasked, ← List.foldl_map]
  exact h.writeBit_foldl _

theorem Packs.writeString {s : MemoryOutputStream} {bits : List Bool} (h : Packs s bits)
    (chars : List Byte) :
    ∃ s', s.writeString chars = .ok s' ∧ Packs s' (bits ++ (concat chars ++ msb (0 : Byte))) := by
  obtain ⟨s', hw, hp⟩ := h.writeBuffer le_rfl
  refine ⟨s'.writeByte 0, ?_, ?_⟩
  · rw [MemoryOutputStream.writeString, hw]
    rfl
  · rw [List.take_length] at hp
    simpa using hp.writeByte 0

end Inet.MemoryOutputStream
