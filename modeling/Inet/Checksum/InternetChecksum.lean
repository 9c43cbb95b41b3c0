import Inet.Stream.Output
import Inet.Lib.OnesComplement
import Mathlib.Algebra.Group.Even

/-! # The internet checksum

The words of a string are added in a 32 bit accumulator, whose carries are
added when its highest bit is set and at the end. Since a word cannot overflow
an accumulator without that bit, no carry is lost.
-/

namespace Inet.Checksum

open OnesComplement

/-- `(sum & 0xFFFF) + (sum >> 16)` -/
def fold (sum : BitVec 32) : BitVec 32 := (sum &&& 0xFFFF) + sum >>> 16

/-- `(addr[0] << 8) | addr[1]` -/
def wordOf (b₀ b₁ : Byte) : BitVec 32 := b₀.setWidth 32 <<< 8 ||| b₁.setWidth 32

/-- The loop over the words, and the odd byte. -/
def accumulate : List Byte → BitVec 32 → BitVec 32
  | b₀ :: b₁ :: rest, sum =>
    let sum := sum + wordOf b₀ b₁
    accumulate rest (if sum &&& 0x80000000 ≠ 0 then fold sum else sum)
  | [b₀], sum => sum + b₀.setWidth 32 <<< 8
  | [], sum => sum

theorem toNat_fold (sum : BitVec 32) :
    (fold sum).toNat = sum.toNat % 65536 + sum.toNat / 65536 := by
  have hand : sum.toNat &&& 0xFFFF = sum.toNat % 65536 :=
    Nat.and_two_pow_sub_one_eq_mod sum.toNat 16
  have hlt := sum.isLt
  have hdiv : sum.toNat / 65536 < 65536 := by omega
  simp only [fold, BitVec.toNat_add, BitVec.toNat_and, BitVec.toNat_ushiftRight,
    Nat.shiftRight_eq_div_pow]
  change ((sum.toNat &&& 0xFFFF) + sum.toNat / 65536) % 2 ^ 32 = _
  rw [hand]
  omega

/-- `while (sum >> 16)` -/
def foldAll (sum : BitVec 32) : BitVec 32 :=
  if sum >>> 16 ≠ 0 then foldAll (fold sum) else sum
termination_by sum.toNat
decreasing_by
  rename_i h
  have hhigh : sum.toNat / 65536 ≠ 0 := by
    intro hzero
    apply h
    apply BitVec.eq_of_toNat_eq
    rw [BitVec.toNat_ushiftRight, Nat.shiftRight_eq_div_pow]
    exact hzero
  rw [toNat_fold]
  omega

def internetChecksum (s : List Byte) (sum : BitVec 32) : BitVec 16 :=
  ~~~ (foldAll (accumulate s sum)).setWidth 16

/-! The one's complement sum of the words. -/

/-- The big-endian words of a string, the last one padded. -/
def words : List Byte → List ℕ
  | b₀ :: b₁ :: rest => (b₀.toNat * 256 + b₁.toNat) :: words rest
  | [b₀] => [b₀.toNat * 256]
  | [] => []

def onesComplementSum (s : List Byte) : ℕ := (words s).foldl (add 65535) 0

/-- A 16 bit value stored at an offset. -/
def storeBe (s : List Byte) (offset : ℕ) (value : BitVec 16) : List Byte :=
  (s.set offset ((value >>> 8).setWidth 8)).set (offset + 1) (value.setWidth 8)

variable {sum : BitVec 32} {s : List Byte}

theorem toNat_wordOf (b₀ b₁ : Byte) : (wordOf b₀ b₁).toNat = b₀.toNat * 256 + b₁.toNat := by
  have h₀ := b₀.isLt
  have hor : b₀.toNat <<< 8 ||| b₁.toNat = b₀.toNat <<< 8 + b₁.toNat :=
    (Nat.shiftLeft_add_eq_or_of_lt b₁.isLt b₀.toNat).symm
  rw [Nat.shiftLeft_eq] at hor
  simp only [wordOf, BitVec.toNat_or, BitVec.toNat_shiftLeft, BitVec.toNat_setWidth,
    Nat.shiftLeft_eq]
  rw [Nat.mod_eq_of_lt (by omega : b₀.toNat < 2 ^ 32),
    Nat.mod_eq_of_lt (by omega : b₁.toNat < 2 ^ 32),
    Nat.mod_eq_of_lt (by omega : b₀.toNat * 2 ^ 8 < 2 ^ 32)]
  exact hor

theorem toNat_oddByte (b₀ : Byte) : (b₀.setWidth 32 <<< 8).toNat = b₀.toNat * 256 := by
  have h₀ := b₀.isLt
  rw [BitVec.toNat_shiftLeft, BitVec.toNat_setWidth, Nat.shiftLeft_eq,
    Nat.mod_eq_of_lt (by omega : b₀.toNat < 2 ^ 32), Nat.mod_eq_of_lt (by omega)]

theorem toNat_lt_of_and_eq_zero (h : sum &&& 0x80000000 = 0) : sum.toNat < 2 ^ 31 := by
  have hbit := congrArg (BitVec.getLsbD · 31) h
  rw [BitVec.getLsbD_and] at hbit
  have hmsb : sum.msb = false := by
    rw [BitVec.msb_eq_getLsbD_last]
    simpa using hbit
  have hlt := BitVec.msb_eq_false_iff_two_mul_lt.mp hmsb
  omega

/-- No carry of the loop is lost. -/
theorem reduce_accumulate (s : List Byte) (sum : BitVec 32) (hsum : sum.toNat < 2 ^ 31) :
    reduce 65535 (accumulate s sum).toNat = reduce 65535 (sum.toNat + (words s).sum) := by
  fun_induction accumulate s sum with
  | case1 b₀ b₁ rest sum next ih =>
    have hword := toNat_wordOf b₀ b₁
    have h₀ := b₀.isLt
    have h₁ := b₁.isLt
    have hnext : next.toNat = sum.toNat + (b₀.toNat * 256 + b₁.toNat) := by
      rw [BitVec.toNat_add, hword, Nat.mod_eq_of_lt (by omega)]
    rw [words, List.sum_cons, ← Nat.add_assoc, ← hnext]
    by_cases htop : next &&& 0x80000000 ≠ 0
    · have hfold := toNat_fold next
      have hlt := next.isLt
      rw [if_pos htop] at ih ⊢
      rw [ih (by omega), hfold, ← reduce_reduce_add, reduce_fold 65535, reduce_reduce_add]
    · rw [if_neg htop] at ih ⊢
      exact ih (toNat_lt_of_and_eq_zero (not_not.mp htop))
  | case2 b₀ sum =>
    have h₀ := b₀.isLt
    rw [BitVec.toNat_add, toNat_oddByte, Nat.mod_eq_of_lt (by omega), words, List.sum_singleton]
  | case3 sum => rfl

theorem toNat_foldAll (sum : BitVec 32) : (foldAll sum).toNat = reduce 65535 sum.toNat := by
  fun_induction foldAll sum with
  | case1 sum h ih => rw [ih, toNat_fold, reduce_fold 65535]
  | case2 sum h =>
    have hzero := congrArg BitVec.toNat (not_not.mp h)
    rw [BitVec.toNat_ushiftRight, Nat.shiftRight_eq_div_pow] at hzero
    have hlow : sum.toNat / 65536 = 0 := hzero
    exact (reduce_of_le (by omega)).symm

theorem toNat_internetChecksum (s : List Byte) (hsum : sum.toNat < 2 ^ 31) :
    (internetChecksum s sum).toNat = 65535 - reduce 65535 (sum.toNat + (words s).sum) := by
  have hle := reduce_le (m := 65535) (by decide) (sum.toNat + (words s).sum)
  rw [internetChecksum, BitVec.toNat_not, BitVec.toNat_setWidth, toNat_foldAll,
    reduce_accumulate s sum hsum, Nat.mod_eq_of_lt (by omega)]

theorem word_le (s : List Byte) : ∀ n ∈ words s, n ≤ 65535 := by
  fun_induction words s with
  | case1 b₀ b₁ rest ih =>
    intro n hn
    rcases List.mem_cons.mp hn with rfl | hn
    · have h₀ := b₀.isLt
      have h₁ := b₁.isLt
      omega
    · exact ih n hn
  | case2 b₀ =>
    intro n hn
    rw [List.mem_singleton.mp hn]
    have h₀ := b₀.isLt
    omega
  | case3 => exact fun n hn => by cases hn

theorem onesComplementSum_eq (s : List Byte) :
    onesComplementSum s = reduce 65535 (words s).sum := by
  rw [onesComplementSum, foldl_add (by decide) (word_le s) (Nat.zero_le _), Nat.zero_add]

theorem toNat_internetChecksum_zero (s : List Byte) :
    (internetChecksum s 0).toNat = 65535 - reduce 65535 (words s).sum := by
  have h := toNat_internetChecksum s (show (0 : BitVec 32).toNat < 2 ^ 31 by decide)
  have hzero : (0 : BitVec 32).toNat = 0 := rfl
  rwa [hzero, Nat.zero_add] at h

theorem internetChecksum_eq (s : List Byte) :
    internetChecksum s 0 = ~~~ BitVec.ofNat 16 (onesComplementSum s) := by
  have hle := reduce_le (m := 65535) (by decide) (words s).sum
  apply BitVec.eq_of_toNat_eq
  rw [toNat_internetChecksum_zero, BitVec.toNat_not, BitVec.toNat_ofNat, onesComplementSum_eq,
    Nat.mod_eq_of_lt (by omega)]

/-! Strings in two parts. -/

theorem words_append {a : List Byte} (h : Even a.length) (b : List Byte) :
    words (a ++ b) = words a ++ words b := by
  fun_induction words a with
  | case1 b₀ b₁ rest ih =>
    have hrest : Even rest.length := by
      rwa [List.length_cons, List.length_cons, Nat.even_add_one, Nat.even_add_one, not_not] at h
    rw [List.cons_append, List.cons_append, words, ih hrest, List.cons_append]
  | case2 b₀ => exact absurd h (by simp)
  | case3 => rfl

theorem internetChecksum_append {a : List Byte} (h : Even a.length) (b : List Byte) :
    internetChecksum (a ++ b) 0 = internetChecksum b (BitVec.ofNat 32 (onesComplementSum a)) := by
  have hle := reduce_le (m := 65535) (by decide) (words a).sum
  have hsum : (BitVec.ofNat 32 (onesComplementSum a)).toNat = reduce 65535 (words a).sum := by
    rw [BitVec.toNat_ofNat, onesComplementSum_eq, Nat.mod_eq_of_lt (by omega)]
  apply BitVec.eq_of_toNat_eq
  rw [toNat_internetChecksum_zero, toNat_internetChecksum b (by omega), hsum, words_append h,
    List.sum_append, reduce_reduce_add]

/-! A checksum in its field. -/

theorem sum_words_storeBe {s : List Byte} {offset : ℕ} (heven : Even offset)
    (h₀ : s[offset]? = some 0) (h₁ : s[offset + 1]? = some 0) (value : BitVec 16) :
    (words (storeBe s offset value)).sum = (words s).sum + value.toNat := by
  fun_induction words s generalizing offset with
  | case1 b₀ b₁ rest ih =>
    rcases offset with _ | _ | offset
    · obtain rfl : b₀ = 0 := by simpa using h₀
      obtain rfl : b₁ = 0 := by simpa using h₁
      have hvalue : ((value >>> 8).setWidth 8).toNat * 256 + (value.setWidth 8).toNat =
          value.toNat := by
        have hlt := value.isLt
        rw [BitVec.toNat_setWidth, BitVec.toNat_ushiftRight, Nat.shiftRight_eq_div_pow,
          BitVec.toNat_setWidth]
        omega
      have hzero : (0 : Byte).toNat = 0 := rfl
      simp only [storeBe, List.set_cons_zero, List.set_cons_succ, words, List.sum_cons, hvalue,
        hzero]
      omega
    · exact absurd heven (by decide)
    · have hrest : Even offset := by
        rwa [Nat.even_add_one, Nat.even_add_one, not_not] at heven
      have hset : storeBe (b₀ :: b₁ :: rest) (offset + 1 + 1) value =
          b₀ :: b₁ :: storeBe rest offset value := rfl
      have hsum := ih hrest (by simpa using h₀) (by simpa using h₁)
      rw [hset, words, List.sum_cons, List.sum_cons, hsum, ← Nat.add_assoc]
  | case2 b₀ => simp at h₁
  | case3 => simp at h₀

theorem internetChecksum_storeBe {s : List Byte} {offset : ℕ} (heven : Even offset)
    (h₀ : s[offset]? = some 0) (h₁ : s[offset + 1]? = some 0) :
    internetChecksum (storeBe s offset (internetChecksum s 0)) 0 = 0 := by
  apply BitVec.eq_of_toNat_eq
  rw [toNat_internetChecksum_zero, sum_words_storeBe heven h₀ h₁, toNat_internetChecksum_zero,
    reduce_add_complement (by decide), Nat.sub_self]
  rfl

/-- The checksum is the complement of the one's complement sum, goes on from the sum of a first part
of even length, and makes the checksum of the string zero once it is in its field. -/
theorem internetChecksum_sound (s : List Byte) :
    internetChecksum s 0 = ~~~ BitVec.ofNat 16 (onesComplementSum s) ∧
      (∀ b : List Byte, Even s.length →
        internetChecksum (s ++ b) 0 = internetChecksum b (BitVec.ofNat 32 (onesComplementSum s))) ∧
      ∀ offset : ℕ, Even offset → s[offset]? = some 0 → s[offset + 1]? = some 0 →
        internetChecksum (storeBe s offset (internetChecksum s 0)) 0 = 0 :=
  ⟨internetChecksum_eq s, fun b h => internetChecksum_append h b,
    fun _ heven h₀ h₁ => internetChecksum_storeBe heven h₀ h₁⟩

theorem internetChecksum_sound_field :
    internetChecksum (storeBe [0x45, 0x00, 0x00, 0x00, 0x1c] 2
      (internetChecksum [0x45, 0x00, 0x00, 0x00, 0x1c] 0)) 0 = 0 :=
  (internetChecksum_sound [0x45, 0x00, 0x00, 0x00, 0x1c]).2.2 2 (by decide) rfl rfl

end Inet.Checksum
