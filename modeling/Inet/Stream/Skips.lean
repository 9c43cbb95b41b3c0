import Inet.Stream.PastEnd

/-! # Readers that skip a number of bytes

On a stream of whole bytes, a reader that reads a number of bytes one at a time
leaves the stream behind them, or at its end when there are not so many.
-/

namespace Inet.MemoryInputStream

variable {s : MemoryInputStream} {m n : ℕ}

/-- The stream is all of its bytes, and stands between two of them. -/
structure Whole (s : MemoryInputStream) : Prop where
  length_eq : s.length = 8 * s.data.length
  position_le : s.position ≤ s.length
  aligned : s.position % 8 = 0

/-- The bytes that have not been read. -/
def left (s : MemoryInputStream) : List Byte := s.data.drop (s.position / 8)

/-- Behind the next bytes, or at the end. -/
def skip (s : MemoryInputStream) (n : ℕ) : MemoryInputStream :=
  if n ≤ s.left.length then s.advance (8 * n) else s.pastEnd

theorem skip_of_le (h : n ≤ s.left.length) : s.skip n = s.advance (8 * n) := if_pos h

theorem skip_of_lt (h : s.left.length < n) : s.skip n = s.pastEnd := if_neg h.not_ge

@[simp] theorem skip_zero (s : MemoryInputStream) : s.skip 0 = s := skip_of_le (Nat.zero_le _)

@[simp] theorem data_skip (s : MemoryInputStream) (n : ℕ) : (s.skip n).data = s.data := by
  unfold skip
  split_ifs <;> rfl

@[simp] theorem length_skip (s : MemoryInputStream) (n : ℕ) : (s.skip n).length = s.length := by
  unfold skip
  split_ifs <;> rfl

namespace Whole

theorem length_left (h : Whole s) : 8 * s.left.length = s.length - s.position := by
  have hl := h.length_eq
  have ha := h.aligned
  rw [left, List.length_drop]
  omega

theorem position_skip_of_le (hle : n ≤ s.left.length) :
    (s.skip n).position = s.position + 8 * n := by
  rw [skip_of_le hle]
  rfl

theorem position_skip_of_lt (hlt : s.left.length < n) : (s.skip n).position = s.length := by
  rw [skip_of_lt hlt]
  rfl

theorem left_skip (h : Whole s) (n : ℕ) : (s.skip n).left = s.left.drop n := by
  have hl := h.length_eq
  have ha := h.aligned
  rw [left, data_skip]
  by_cases hle : n ≤ s.left.length
  · have hdiv : (s.position + 8 * n) / 8 = s.position / 8 + n := by omega
    rw [position_skip_of_le hle, hdiv, ← List.drop_drop]
    rfl
  · rw [not_le] at hle
    rw [position_skip_of_lt hle, List.drop_of_length_le hle.le, List.drop_of_length_le (by omega)]

theorem skip (h : Whole s) (n : ℕ) : Whole (s.skip n) := by
  have hl := h.length_eq
  have ha := h.aligned
  have hp := h.position_le
  have hlen := h.length_left
  by_cases hle : n ≤ s.left.length
  · refine ⟨by simpa using hl, ?_, ?_⟩
    · rw [length_skip, position_skip_of_le hle]
      omega
    · rw [position_skip_of_le hle]
      omega
  · rw [not_le] at hle
    refine ⟨by simpa using hl, ?_, ?_⟩
    · rw [length_skip, position_skip_of_lt hle]
    · rw [position_skip_of_lt hle]
      omega

theorem left_skip_append (h : Whole s) {xs ys : List Byte} (hleft : s.left = xs ++ ys)
    (hn : n ≤ xs.length) :
    (s.skip n).left = xs.drop n ++ ys ∧
      (s.skip n).position + 8 * (xs.drop n).length = s.position + 8 * xs.length := by
  have hle : n ≤ s.left.length := by
    rw [hleft, List.length_append]
    omega
  constructor
  · rw [h.left_skip, hleft, List.drop_append_of_le_length hn]
  · rw [position_skip_of_le hle, List.length_drop]
    omega

theorem position_skip_append_iff (h : Whole s) {xs ys : List Byte} (hleft : s.left = xs ++ ys)
    (hn : xs.length < n) : (s.skip n).position = s.position + 8 * xs.length ↔ ys = [] := by
  have hlength := congrArg List.length hleft
  have hlen := h.length_left
  have hp := h.position_le
  rw [List.length_append] at hlength
  rw [← List.length_eq_zero_iff]
  by_cases hle : n ≤ s.left.length
  · rw [position_skip_of_le hle]
    omega
  · rw [not_le] at hle
    rw [position_skip_of_lt hle]
    omega

theorem skip_skip (h : Whole s) (m n : ℕ) : (s.skip m).skip n = s.skip (m + n) := by
  have hleft := h.left_skip m
  have hlen := congrArg List.length hleft
  rw [List.length_drop] at hlen
  by_cases hle : m + n ≤ s.left.length
  · rw [skip_of_le hle, skip_of_le (s := s.skip m) (by omega), skip_of_le (by omega),
      advance_advance, Nat.mul_add]
  · rw [not_le] at hle
    rw [skip_of_lt hle]
    by_cases hm : m ≤ s.left.length
    · rw [skip_of_lt (s := s.skip m) (by omega), skip_of_le hm]
      rfl
    · rw [not_le] at hm
      rw [skip_of_lt hm]
      rw [skip_of_lt hm] at hlen
      rcases Nat.eq_zero_or_pos n with rfl | hn
      · exact skip_zero _
      · rw [skip_of_lt (by omega)]
        rfl

theorem readByte_run (h : Whole s) : readByte.run s = .ok (s.left.headD 0, s.skip 1) := by
  have hl := h.length_eq
  have ha := h.aligned
  have hlen := h.length_left
  have hp := h.position_le
  by_cases hle : 1 ≤ s.left.length
  · have hpos : ¬ s.position + 8 > s.length := by omega
    have hfirst : s.position / 8 < s.data.length := by omega
    have hhead : s.left.headD 0 = s.data[s.position / 8] := by
      rw [left, List.drop_eq_getElem_cons hfirst]
      rfl
    rw [skip_of_le hle, hhead]
    simp [readByte, hpos, isByteAligned, ha, byteAt, hfirst, advance]
  · rw [not_le] at hle
    have hnil : s.left = [] := List.length_eq_zero_iff.1 (by omega)
    rw [skip_of_lt hle, hnil]
    exact readByte_run_pastEnd (by omega)

theorem readBytes_run (h : Whole s) (hn : n ≤ s.left.length) :
    (readBytes n).run s = .ok (s.left.take n, s.skip n) := by
  have hl := h.length_eq
  have ha := h.aligned
  have hp := h.position_le
  have hlen := h.length_left
  have hpos : ¬ s.position + 8 * n > s.length := by omega
  have hstart : s.position ≤ 8 * s.data.length := by omega
  have hfinish : s.position + 8 * n ≤ 8 * s.data.length := by omega
  rw [skip_of_le hn]
  simp [readBytes, hpos, hstart, hfinish, assert, isByteAligned, ha, advance, left]

end Whole

/-- The stream over a byte string. -/
def streamOf (bytes : List Byte) : MemoryInputStream := ⟨bytes, 8 * bytes.length, 0, false⟩

theorem whole_streamOf (bytes : List Byte) : Whole (streamOf bytes) := ⟨rfl, Nat.zero_le _, rfl⟩

theorem left_streamOf (bytes : List Byte) : (streamOf bytes).left = bytes := by
  simp [left, streamOf]

/-- The reader skips a number of bytes, and what it returns is as in `P`. -/
def Skips {α : Type} (r : Reader α) (n : ℕ) (P : α → Prop) : Prop :=
  ∀ s, Whole s → ∃ a, r.run s = .ok (a, s.skip n) ∧ P a

namespace Skips

variable {α β : Type} {r : Reader α} {f : α → Reader β} {P P' : α → Prop} {Q : β → Prop}

theorem pure {a : α} (h : P a) : Skips (Pure.pure a) 0 P :=
  fun s _ => ⟨a, by rw [skip_zero]; rfl, h⟩

theorem bind (hr : Skips r m P) (hf : ∀ a, P a → Skips (f a) n Q) : Skips (r >>= f) (m + n) Q := by
  intro s hs
  obtain ⟨a, hrun, ha⟩ := hr s hs
  obtain ⟨b, hrun', hb⟩ := hf a ha _ (hs.skip m)
  exact ⟨b, by rw [run_bind_of_ok hrun, hrun', hs.skip_skip], hb⟩

theorem map {g : α → β} (hr : Skips r n P) (hg : ∀ a, P a → Q (g a)) :
    Skips (do let a ← r; Pure.pure (g a)) n Q :=
  hr.bind fun a ha => Skips.pure (hg a ha)

theorem readByte : Skips readByte 1 fun _ => True :=
  fun s hs => ⟨s.left.headD 0, hs.readByte_run, trivial⟩

theorem of_eq (h : Skips r m P) (heq : m = n) : Skips r n P := heq ▸ h

theorem readByteLoop (n : ℕ) : Skips (readByteLoop n) n fun bytes => bytes.length = n := by
  induction n with
  | zero => exact Skips.pure rfl
  | succ n ih =>
    refine of_eq (readByte.bind fun byte _ => ih.map fun bytes hlength => ?_) (Nat.add_comm 1 n)
    rw [List.length_cons, hlength]

theorem foldlM_readByte (g : ℕ → ℕ → Byte → ℕ) (shifts : List ℕ) (value : ℕ) :
    Skips (shifts.foldlM (fun value shift => do
      let byte ← MemoryInputStream.readByte
      return g value shift byte) value) shifts.length fun _ => True := by
  induction shifts generalizing value with
  | nil => exact Skips.pure trivial
  | cons shift shifts ih =>
    rw [List.foldlM_cons, List.length_cons]
    have hfirst : Skips (do
        let byte ← MemoryInputStream.readByte
        return g value shift byte) 1 fun _ => True := readByte.map fun _ _ => trivial
    exact of_eq (hfirst.bind fun value _ => ih value) (Nat.add_comm 1 _)

theorem readShifted (shifts : List ℕ) : Skips (readShifted shifts) shifts.length fun _ => True :=
  foldlM_readByte (fun value shift byte => value ||| byte.toNat <<< shift) shifts 0

end Skips

/-! The first octet of an option. -/

theorem eq_zero_or_one_of_le {octet : Byte} (h : octet.toNat ≤ 1) : octet = 0 ∨ octet = 1 := by
  rcases Nat.le_one_iff_eq_zero_or_eq_one.1 h with h | h
  · exact Or.inl (BitVec.eq_of_toNat_eq h)
  · exact Or.inr (BitVec.eq_of_toNat_eq h)

theorem ne_zero_and_ne_one_of_lt {octet : Byte} (h : 1 < octet.toNat) : octet ≠ 0 ∧ octet ≠ 1 := by
  constructor
  · rintro rfl
    exact absurd h (by decide)
  · rintro rfl
    exact absurd h (by decide)

/-- The streams differ at most in the flag. -/
structure SamePlace (s t : MemoryInputStream) : Prop where
  data_eq : t.data = s.data
  length_eq : t.length = s.length
  position_eq : t.position = s.position

namespace SamePlace

variable {t : MemoryInputStream}

theorem refl (s : MemoryInputStream) : SamePlace s s := ⟨rfl, rfl, rfl⟩

theorem left_eq (h : SamePlace s t) : t.left = s.left := by
  rw [left, left, h.data_eq, h.position_eq]

theorem whole (h : SamePlace s t) (hs : Whole s) : Whole t := by
  refine ⟨?_, ?_, ?_⟩
  · rw [h.length_eq, h.data_eq]
    exact hs.length_eq
  · rw [h.position_eq, h.length_eq]
    exact hs.position_le
  · rw [h.position_eq]
    exact hs.aligned

theorem skip (h : SamePlace s t) (n : ℕ) : SamePlace (s.skip n) (t.skip n) := by
  refine ⟨by simp [h.data_eq], by simp [h.length_eq], ?_⟩
  by_cases hle : n ≤ s.left.length
  · rw [Whole.position_skip_of_le hle, Whole.position_skip_of_le (h.left_eq ▸ hle), h.position_eq]
  · rw [not_le] at hle
    rw [Whole.position_skip_of_lt hle, Whole.position_skip_of_lt (h.left_eq ▸ hle), h.length_eq]

end SamePlace

end Inet.MemoryInputStream
