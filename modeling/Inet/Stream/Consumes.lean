import Inet.Stream.Input
import Inet.Stream.Packed

/-! # Reads consume their bits

A reader consumes a bit string when, on every stream whose unread part starts
with the string, it returns its value and leaves the rest.
-/

namespace Inet

open BitString MemoryInputStream MemoryOutputStream

namespace MemoryInputStream

/-- The unread bits of a stream that has not been read beyond its end. -/
structure Holds (s : MemoryInputStream) (bits : List Bool) : Prop where
  position_le : s.position ≤ s.length
  length_le : s.length ≤ 8 * s.data.length
  not_beyond : s.isReadBeyondEnd = false
  unread : ((concat s.data).take s.length).drop s.position = bits

/-- The reader returns `a` after consuming exactly `bits`. -/
def Consumes {α : Type} (m : Reader α) (bits : List Bool) (a : α) : Prop :=
  ∀ s rest, Holds s (bits ++ rest) → ∃ s', m.run s = .ok (a, s') ∧ Holds s' rest

theorem Consumes.pure {α : Type} (a : α) : Consumes (Pure.pure a) [] a :=
  fun s _ h => ⟨s, rfl, h⟩

theorem Consumes.bind {α β : Type} {m : Reader α} {f : α → Reader β} {bits bits' : List Bool}
    {a : α} {b : β} (hm : Consumes m bits a) (hf : Consumes (f a) bits' b) :
    Consumes (m >>= f) (bits ++ bits') b := by
  intro s rest h
  rw [List.append_assoc] at h
  obtain ⟨s₁, h₁, hs₁⟩ := hm s _ h
  obtain ⟨s₂, h₂, hs₂⟩ := hf s₁ _ hs₁
  exact ⟨s₂, by rw [StateT.run_bind, h₁]; exact h₂, hs₂⟩

theorem Consumes.map {α β : Type} {m : Reader α} {bits : List Bool} {a : α} (g : α → β)
    (hm : Consumes m bits a) : Consumes (do let x ← m; Pure.pure (g x)) bits (g a) := by
  have := hm.bind (f := fun x => Pure.pure (g x)) (Consumes.pure (g a))
  rwa [List.append_nil] at this

theorem Consumes.foldlM {α β : Type} {f : β → α → Reader β} {enc : α → List Bool} {g : β → α → β}
    (hf : ∀ b a, Consumes (f b a) (enc a) (g b a)) (as : List α) (b : β) :
    Consumes (as.foldlM f b) (as.flatMap enc) (as.foldl g b) := by
  induction as generalizing b with
  | nil => exact Consumes.pure b
  | cons a as ih =>
    rw [List.foldlM_cons, List.flatMap_cons]
    exact (hf b a).bind (ih (g b a))

theorem Holds.length_append {s : MemoryInputStream} {bits rest : List Bool}
    (h : Holds s (bits ++ rest)) : s.position + bits.length ≤ s.length := by
  have hl := congrArg List.length h.unread
  have := h.length_le
  have := h.position_le
  simp only [List.length_drop, List.length_take, length_concat, List.length_append] at hl
  omega

theorem Holds.advance {s : MemoryInputStream} {bits rest : List Bool} (h : Holds s (bits ++ rest)) :
    Holds { s with position := s.position + bits.length } rest where
  position_le := h.length_append
  length_le := h.length_le
  not_beyond := h.not_beyond
  unread := by
    change ((concat s.data).take s.length).drop (s.position + bits.length) = rest
    rw [← List.drop_drop, h.unread, List.drop_left]

theorem Holds.drop_concat {s : MemoryInputStream} {bits rest : List Bool}
    (h : Holds s (bits ++ rest)) : ∃ rest', (concat s.data).drop s.position = bits ++ rest' := by
  refine ⟨rest ++ (concat s.data).drop s.length, ?_⟩
  have hsplit := List.take_append_drop s.length (concat s.data)
  conv_lhs => rw [← hsplit]
  have := h.length_le
  have := h.position_le
  rw [List.drop_append_of_le_length (by simp; omega), h.unread, List.append_assoc]

theorem consumes_readBit (b : Bool) : Consumes readBit [b] b := by
  intro s rest h
  have hlt := h.length_append
  simp only [List.length_singleton] at hlt
  have hk : s.position < 8 * s.data.length := lt_of_lt_of_le hlt h.length_le
  obtain ⟨rest', hd⟩ := h.drop_concat
  have hb : (concat s.data)[s.position]? = some b := by
    rw [← List.head?_drop, hd]
    rfl
  rw [concat_getD s.data hk] at hb
  have hi : s.position / 8 < s.data.length := by omega
  rw [List.getD_eq_getElem _ _ hi, Option.some_inj] at hb
  refine ⟨_, ?_, h.advance⟩
  have hne : s.position ≠ s.length := by omega
  simp [readBit, hne, hi, hb]

theorem consumes_readBits (bits : List Bool) : Consumes (readBits bits.length) bits bits := by
  induction bits with
  | nil => exact Consumes.pure []
  | cons b bits ih =>
    intro s rest h
    obtain ⟨s', hs', hr⟩ := (consumes_readBit b).bind
      (f := fun b => do let bits ← readBits _; Pure.pure (b :: bits)) (ih.map (b :: ·)) s rest h
    refine ⟨s', ?_, hr⟩
    rw [← hs']
    simp [readBits, h.not_beyond]

theorem readByte_run {v : Byte} {s : MemoryInputStream} {rest : List Bool}
    (h : Holds s (msb v ++ rest)) :
    readByte.run s = .ok (v, { s with position := s.position + 8 }) := by
  have hlt := h.length_append
  rw [length_msb] at hlt
  have hl := h.length_le
  obtain ⟨rest', hd⟩ := h.drop_concat
  have hpos : ¬ s.position + 8 > s.length := by omega
  by_cases ha : s.position % 8 = 0
  · have hk : s.position / 8 < s.data.length := by omega
    have hp : 8 * (s.position / 8) = s.position := by omega
    have hv : msb s.data[s.position / 8] = msb v := by
      have := drop_concat s.data (s.position / 8)
      rw [hp, hd, List.drop_eq_getElem_cons hk, concat_cons] at this
      exact (List.append_inj this (by simp)).1.symm
    simp [readByte, hpos, isByteAligned, ha, byteAt, hk, msb_injective hv]
  · -- the byte is split over two bytes of the vector
    set i := s.position % 8 with hi
    set k := s.position / 8 with hk
    have hpk : 8 * k + i = s.position := by omega
    have hk₁ : k + 1 < s.data.length := by omega
    have e₁ : (s.position - i) / 8 = k := by omega
    have e₂ : (s.position + (8 - i)) / 8 = k + 1 := by omega
    have hv : s.data[k] <<< i ||| s.data[k + 1] >>> (8 - i) = v := by
      apply msb_injective
      have hsplit := drop_concat_add s.data (k := k) (i := i) (by omega) (by omega)
      rw [hpk, hd, List.drop_eq_getElem_cons hk₁, concat_cons, ← List.append_assoc] at hsplit
      have htake := congrArg (List.take 8) hsplit
      rw [List.take_left' (length_msb v), List.take_append_of_le_length (by simp),
        List.take_append, List.length_drop, length_msb,
        List.take_of_length_le (by simp)] at htake
      have h8 : 8 - (8 - i) = i := by omega
      have hle : ((msb s.data[k]).drop i).length + ((msb s.data[k + 1]).take i).length = 8 := by
        simp; omega
      rw [htake, h8]
      apply msb_or_of_pad hle
      · rw [msb_shiftLeft _ (by omega)]
        congr 2
        simp; omega
      · rw [msb_ushiftRight _ (by omega), h8]
        congr 2
        simp
    have hk₀ : k < s.data.length := by omega
    simp [readByte, hpos, isByteAligned, ha, ← hi, e₁, e₂, byteAt, hk₀, hk₁, hv]

theorem consumes_readByte (v : Byte) : Consumes readByte (msb v) v := by
  intro s rest h
  have hadv := h.advance
  rw [length_msb] at hadv
  exact ⟨_, readByte_run h, hadv⟩

theorem consumes_readByteLoop (bytes : List Byte) :
    Consumes (readByteLoop bytes.length) (concat bytes) bytes := by
  induction bytes with
  | nil => exact Consumes.pure []
  | cons b bytes ih =>
    rw [concat_cons]
    exact (consumes_readByte b).bind
      (f := fun b => do let bytes ← readByteLoop _; Pure.pure (b :: bytes)) (ih.map (b :: ·))

theorem consumes_readBytes (bytes : List Byte) :
    Consumes (readBytes bytes.length) (concat bytes) bytes := by
  intro s rest h
  have hlt := h.length_append
  rw [length_concat] at hlt
  have hl := h.length_le
  have hpos : ¬ s.position + 8 * bytes.length > s.length := by omega
  have hp : s.position ≤ 8 * s.data.length := h.position_le.trans hl
  have hf : s.position + 8 * bytes.length ≤ 8 * s.data.length := hlt.trans hl
  by_cases ha : s.position % 8 = 0
  · obtain ⟨rest', hd⟩ := h.drop_concat
    have hadv := h.advance
    rw [length_concat] at hadv
    refine ⟨_, ?_, hadv⟩
    have hv : (s.data.drop (s.position / 8)).take bytes.length = bytes := by
      have hp8 : 8 * (s.position / 8) = s.position := by omega
      have := take_concat (s.data.drop (s.position / 8)) bytes.length
      rw [← drop_concat, hp8, hd, List.take_left' (length_concat bytes)] at this
      exact (concat_injective this).symm
    simp [readBytes, hpos, hp, hf, assert, isByteAligned, ha, hv]
  · obtain ⟨s', hs', hr⟩ := consumes_readByteLoop bytes s rest h
    refine ⟨s', ?_, hr⟩
    rw [← hs']
    simp [readBytes, hpos, hp, hf, assert, isByteAligned, ha]

theorem consumes_readShifted (shifts : List ℕ) {n value : ℕ} (hv : value < 2 ^ n)
    (hc : ∀ i < n, ∃ k ∈ shifts, k ≤ i ∧ i < k + 8) :
    Consumes (readShifted shifts) (concat (shifts.map fun k => BitVec.ofNat 8 (value >>> k)))
      value := by
  have h := Consumes.foldlM (f := fun value shift => do
      let byte ← readByte
      return value ||| byte.toNat <<< shift)
   
    (g := fun acc k => acc ||| (BitVec.ofNat 8 (value >>> k)).toNat <<< k)
    (fun acc k => (consumes_readByte _).map fun byte => acc ||| byte.toNat <<< k) shifts 0
  have he := foldl_or_bytes hv hc
  rw [List.foldl_map] at he
  simp only [BitVec.toNat_ofNat] at h
  rw [he] at h
  rwa [BitString.concat, List.flatMap_map]

theorem consumes_readMasked (masks : List ℕ) {n value : ℕ} (hv : value < 2 ^ n)
    (hc : ∀ i < n, 2 ^ i ∈ masks) (hp : ∀ m ∈ masks, ∃ i, m = 2 ^ i) :
    Consumes (readMasked masks) (masks.map fun mask => decide (value &&& mask ≠ 0)) value := by
  have h := Consumes.foldlM (f := fun value mask => do
      let bit ← readBit
      return if bit then value ||| mask else value)
   
    (g := fun acc mask => acc ||| if value &&& mask ≠ 0 then mask else 0)
    (fun acc mask => by
      have := (consumes_readBit (decide (value &&& mask ≠ 0))).map
        fun bit => if bit then acc ||| mask else acc
      convert this using 1
      by_cases hm : value &&& mask = 0 <;> simp [hm]) masks 0
  have he := foldl_or_masks hv hc hp
  rw [List.foldl_map] at he
  rw [he] at h
  rwa [← List.map_eq_flatMap] at h

theorem consumes_readStringLoop {chars : List Byte} (h0 : 0 ∉ chars) {n : ℕ}
    (hn : chars.length < n) :
    Consumes (readStringLoop n) (concat chars ++ msb (0 : Byte)) chars := by
  induction chars generalizing n with
  | nil =>
    obtain ⟨n, rfl⟩ := Nat.exists_eq_succ_of_ne_zero (by simp at hn; omega : n ≠ 0)
    exact (consumes_readByte 0).bind (f := fun byte => if byte = 0 then Pure.pure [] else _)
      (Consumes.pure [])
  | cons c chars ih =>
    obtain ⟨n, rfl⟩ := Nat.exists_eq_succ_of_ne_zero (by simp at hn; omega : n ≠ 0)
    have hc : c ≠ 0 := fun h => h0 (by simp [h])
    have htail := ih (fun h => h0 (List.mem_cons_of_mem _ h)) (n := n) (by simpa using hn)
    rw [concat_cons, List.append_assoc]
    apply (consumes_readByte c).bind
    simpa only [hc, if_false] using htail.map (c :: ·)

theorem consumes_readString {chars : List Byte} (h0 : 0 ∉ chars) :
    Consumes readString (concat chars ++ msb (0 : Byte)) chars := by
  intro s rest h
  have hlt := h.length_append
  simp only [List.length_append, length_concat, length_msb] at hlt
  have hn : chars.length < s.getRemainingLength / 8 + 1 := by
    unfold getRemainingLength; omega
  exact consumes_readStringLoop h0 hn s rest h

theorem Holds.position_add_length {s : MemoryInputStream} {bits : List Bool} (h : Holds s bits) :
    s.position + bits.length = s.length := by
  have hl := congrArg List.length h.unread
  have := h.length_le
  have := h.position_le
  simp only [List.length_drop, List.length_take, length_concat] at hl
  omega

/-- The reader does not change how long the stream is. -/
def KeepsLength {α : Type} (m : Reader α) : Prop :=
  ∀ s a s', m.run s = .ok (a, s') → s'.length = s.length

theorem KeepsLength.pure {α : Type} (a : α) : KeepsLength (Pure.pure a) := by
  rintro s _ _ ⟨⟩
  rfl

theorem KeepsLength.bind {α β : Type} {m : Reader α} {f : α → Reader β} (hm : KeepsLength m)
    (hf : ∀ a, KeepsLength (f a)) : KeepsLength (m >>= f) := by
  intro s b s' h
  rw [StateT.run_bind] at h
  obtain ⟨⟨a, s₁⟩, h₁, h₂⟩ := Error.exists_of_bind_eq_ok h
  exact (hf a _ _ _ h₂).trans (hm _ _ _ h₁)

theorem keepsLength_readByte : KeepsLength readByte := by
  intro s a s' h
  rw [readByte, StateT.run_bind, StateT.run_get, pure_bind] at h
  simp only at h
  split at h
  · cases h
    rfl
  · rw [StateT.run_bind] at h
    obtain ⟨⟨byte, s₁⟩, -, h⟩ := Error.exists_of_bind_eq_ok h
    cases h
    rfl

theorem keepsLength_readByteLoop (n : ℕ) : KeepsLength (readByteLoop n) := by
  induction n with
  | zero => exact KeepsLength.pure _
  | succ n ih => exact keepsLength_readByte.bind fun _ => ih.bind fun _ => KeepsLength.pure _

theorem keepsLength_assert (p : Prop) [Decidable p] (text : String) :
    KeepsLength (assert p text) := by
  unfold assert
  split
  · exact KeepsLength.pure _
  · rintro s _ _ ⟨⟩

theorem keepsLength_readBytes (length : ℕ) : KeepsLength (readBytes length) := by
  intro s a s' h
  rw [readBytes, StateT.run_bind, StateT.run_get, pure_bind] at h
  rw [StateT.run_bind] at h
  obtain ⟨⟨n, s₁⟩, h₁, h⟩ := Error.exists_of_bind_eq_ok h
  have hs₁ : s₁.length = s.length := by
    simp only at h₁
    split at h₁
    · rw [StateT.run_bind] at h₁
      obtain ⟨⟨rest, s₂⟩, -, h₁⟩ := Error.exists_of_bind_eq_ok h₁
      cases h₁
      rfl
    · cases h₁
      rfl
  rw [← hs₁]
  refine (keepsLength_assert _ _).bind (fun _ => (keepsLength_assert _ _).bind fun _ => ?_) s₁ a s'
    h
  split
  · rintro s _ _ ⟨⟩
    rfl
  · exact keepsLength_readByteLoop n

theorem keepsLength_readShifted (shifts : List ℕ) : KeepsLength (readShifted shifts) := by
  unfold readShifted
  generalize 0 = value
  induction shifts generalizing value with
  | nil => exact KeepsLength.pure _
  | cons shift shifts ih =>
    rw [List.foldlM_cons]
    exact (keepsLength_readByte.bind fun _ => KeepsLength.pure _).bind fun value => ih value

end MemoryInputStream

end Inet
