import Inet.Checksum.InternetChecksum
import Mathlib.Data.ZMod.Basic
import Mathlib.Tactic.Ring

/-! # The Fletcher checksum

The check octets solve the two equations that make the running sums of the
whole region zero. The solution is computed in `int32_t` without an overflow.
-/

namespace Inet.Checksum

/-- The value of an `int32_t` expression. -/
def int32 (value : ℤ) : Except Error ℤ :=
  if -2 ^ 31 ≤ value ∧ value < 2 ^ 31 then pure value
  else throw (.undefinedBehavior "int32_t overflow")

/-- The turn of the loop at an octet. -/
def sumOctet (c : ℤ × ℤ) (octet : Byte) : Except Error (ℤ × ℤ) := do
  let c0 ← int32 (c.1 + octet.toNat)
  let c0 := c0.tmod 255
  let c1 ← int32 (c.2 + c0)
  return (c0, c1.tmod 255)

/-- `(int32_t)(length - checksumPos - 1)` -/
def octetsBehind (length checksumPos : ℕ) : ℤ :=
  ((BitVec.ofNat 64 length - BitVec.ofNat 64 checksumPos - 1).setWidth 32).toInt

/-- `((x & 0xFF) << 8) | (y & 0xFF)` -/
def packOctets (x y : ℤ) : BitVec 16 :=
  (BitVec.ofInt 16 x &&& 0xFF) <<< 8 ||| (BitVec.ofInt 16 y &&& 0xFF)

/-- `if (x <= 0) x += 255` -/
def raiseOctet (x : ℤ) : Except Error ℤ := if x ≤ 0 then int32 (x + 255) else pure x

/-- `if (y > 255) y -= 255` -/
def lowerOctet (y : ℤ) : Except Error ℤ := if y > 255 then int32 (y - 255) else pure y

/-- The checksum of the whole buffer. -/
def fletcherChecksum (buf : List Byte) (checksumPos : ℕ) : Except Error (BitVec 16) := do
  let (c0, c1) ← buf.foldlM sumOctet (0, 0)
  let product ← int32 (octetsBehind buf.length checksumPos * c0)
  let difference ← int32 (product - c1)
  let x ← raiseOctet (difference.tmod 255)
  let rest ← int32 (510 - c0)
  let y ← int32 (rest - x)
  let y ← lowerOctet y
  return packOctets x y

/-- The running sums with the next octet, modulo 255. -/
def nextSums (c : ℕ × ℕ) (octet : Byte) : ℕ × ℕ :=
  ((c.1 + octet.toNat) % 255, (c.2 + (c.1 + octet.toNat) % 255) % 255)

def runningSums (buf : List Byte) : ℕ × ℕ := buf.foldl nextSums (0, 0)

/-! The running sums in closed form. -/

/-- The sum of the octets. -/
def total : List Byte → ZMod 255
  | [] => 0
  | octet :: rest => octet.toNat + total rest

/-- The sum of the octets, each as often as it is in the running sum. -/
def weighted : List Byte → ZMod 255
  | [] => 0
  | octet :: rest => (rest.length + 1) * octet.toNat + weighted rest

variable {buf : List Byte} {c : ℕ × ℕ}

theorem int32_of_bounds {value : ℤ} (h : -2 ^ 31 ≤ value ∧ value < 2 ^ 31) :
    int32 value = .ok value := if_pos h

theorem nextSums_lt (c : ℕ × ℕ) (octet : Byte) :
    (nextSums c octet).1 < 255 ∧ (nextSums c octet).2 < 255 :=
  ⟨Nat.mod_lt _ (by decide), Nat.mod_lt _ (by decide)⟩

theorem foldl_nextSums_lt (h : c.1 < 255 ∧ c.2 < 255) (buf : List Byte) :
    (buf.foldl nextSums c).1 < 255 ∧ (buf.foldl nextSums c).2 < 255 := by
  induction buf generalizing c with
  | nil => exact h
  | cons octet rest ih => exact ih (nextSums_lt c octet)

theorem sumOctet_eq (h : c.1 < 255 ∧ c.2 < 255) (octet : Byte) :
    sumOctet (c.1, c.2) octet = .ok (((nextSums c octet).1 : ℤ), ((nextSums c octet).2 : ℤ)) := by
  have hoctet := octet.isLt
  have h0 : ((c.1 : ℤ) + octet.toNat).tmod 255 = ((c.1 + octet.toNat) % 255 : ℕ) := by
    rw [Int.tmod_eq_emod_of_nonneg (by omega)]
    omega
  have h1 : ((c.2 : ℤ) + ((c.1 + octet.toNat) % 255 : ℕ)).tmod 255 =
      ((c.2 + (c.1 + octet.toNat) % 255) % 255 : ℕ) := by
    rw [Int.tmod_eq_emod_of_nonneg (by omega)]
    omega
  simp only [sumOctet, nextSums]
  rw [int32_of_bounds (by omega), Error.ok_bind, h0, int32_of_bounds (by omega), Error.ok_bind, h1]
  rfl

/-- The loop never overflows. -/
theorem foldlM_sumOctet (h : c.1 < 255 ∧ c.2 < 255) (buf : List Byte) :
    buf.foldlM sumOctet ((c.1 : ℤ), (c.2 : ℤ)) =
      .ok (((buf.foldl nextSums c).1 : ℤ), ((buf.foldl nextSums c).2 : ℤ)) := by
  induction buf generalizing c with
  | nil => rfl
  | cons octet rest ih =>
    rw [List.foldlM_cons, sumOctet_eq h, Error.ok_bind, ih (nextSums_lt c octet)]
    rfl

theorem foldl_nextSums (c : ℕ × ℕ) (buf : List Byte) :
    ((buf.foldl nextSums c).1 : ZMod 255) = c.1 + total buf ∧
      ((buf.foldl nextSums c).2 : ZMod 255) = c.2 + buf.length * c.1 + weighted buf := by
  induction buf generalizing c with
  | nil => simp [total, weighted]
  | cons octet rest ih =>
    obtain ⟨h0, h1⟩ := ih (nextSums c octet)
    rw [List.foldl_cons, h0, h1]
    simp only [nextSums, ZMod.natCast_mod, Nat.cast_add, total, weighted, List.length_cons,
      Nat.cast_one]
    constructor <;> ring

theorem cast_runningSums (buf : List Byte) :
    ((runningSums buf).1 : ZMod 255) = total buf ∧
      ((runningSums buf).2 : ZMod 255) = weighted buf := by
  simpa [runningSums] using foldl_nextSums (0, 0) buf

theorem runningSums_lt (buf : List Byte) : (runningSums buf).1 < 255 ∧ (runningSums buf).2 < 255 :=
  foldl_nextSums_lt (by decide) buf

theorem runningSums_eq_zero (h0 : total buf = 0) (h1 : weighted buf = 0) :
    runningSums buf = (0, 0) := by
  obtain ⟨hc0, hc1⟩ := cast_runningSums buf
  obtain ⟨hlt0, hlt1⟩ := runningSums_lt buf
  rw [h0, ZMod.natCast_eq_zero_iff] at hc0
  rw [h1, ZMod.natCast_eq_zero_iff] at hc1
  exact Prod.ext (Nat.eq_zero_of_dvd_of_lt hc0 hlt0) (Nat.eq_zero_of_dvd_of_lt hc1 hlt1)

/-! An octet that is stored over a zero. -/

theorem total_set {i : ℕ} (h : buf[i]? = some 0) (octet : Byte) :
    total (buf.set i octet) = total buf + octet.toNat := by
  induction buf generalizing i with
  | nil => simp at h
  | cons first rest ih =>
    rcases i with _ | i
    · obtain rfl : first = 0 := by simpa using h
      simp [total, add_comm]
    · rw [List.set_cons_succ, total, ih (by simpa using h), total, add_assoc]

theorem weighted_set {i : ℕ} (h : buf[i]? = some 0) (octet : Byte) :
    weighted (buf.set i octet) = weighted buf +
      ((buf.length - i : ℕ) : ZMod 255) * octet.toNat := by
  induction buf generalizing i with
  | nil => simp at h
  | cons first rest ih =>
    rcases i with _ | i
    · obtain rfl : first = 0 := by simpa using h
      simp [weighted, add_comm]
    · rw [List.set_cons_succ, weighted, ih (by simpa using h), weighted, List.length_set,
        List.length_cons, Nat.add_sub_add_right, add_assoc]

/-! The check octets. -/

theorem octetsBehind_eq {length checksumPos : ℕ} (hlength : length < 2 ^ 31)
    (hpos : checksumPos + 1 < length) :
    octetsBehind length checksumPos = (length - checksumPos - 1 : ℕ) := by
  have hnat : ((BitVec.ofNat 64 length - BitVec.ofNat 64 checksumPos - 1).setWidth 32).toNat =
      length - checksumPos - 1 := by
    have hone : (1 : BitVec 64).toNat = 1 := rfl
    rw [BitVec.toNat_setWidth, BitVec.toNat_sub, BitVec.toNat_sub, BitVec.toNat_ofNat,
      BitVec.toNat_ofNat, hone]
    omega
  rw [octetsBehind, BitVec.toInt_eq_toNat_of_lt (by omega), hnat]

theorem exists_raiseOctet (difference : ℤ) : ∃ x : ℕ, 1 ≤ x ∧ x ≤ 255 ∧
    raiseOctet (difference.tmod 255) = .ok (x : ℤ) ∧ (x : ZMod 255) = (difference : ZMod 255) := by
  have hlt := Int.tmod_lt_of_pos difference (show (0 : ℤ) < 255 by decide)
  have hgt := Int.lt_tmod_of_pos difference (show (0 : ℤ) < 255 by decide)
  have hclass : ((difference.tmod 255 : ℤ) : ZMod 255) = difference := by
    have hdiv := congrArg (Int.cast (R := ZMod 255)) (Int.mul_tdiv_add_tmod difference 255)
    have h255 : ((255 : ℤ) : ZMod 255) = 0 := by decide
    rw [Int.cast_add, Int.cast_mul, h255, zero_mul, zero_add] at hdiv
    exact hdiv
  by_cases hle : difference.tmod 255 ≤ 0
  · refine ⟨(difference.tmod 255 + 255).toNat, by omega, by omega, ?_, ?_⟩
    · rw [raiseOctet, if_pos hle, int32_of_bounds (by omega), Int.toNat_of_nonneg (by omega)]
    · have hcast := congrArg (Int.cast (R := ZMod 255))
        (Int.toNat_of_nonneg (show 0 ≤ difference.tmod 255 + 255 by omega))
      have h255 : ((255 : ℤ) : ZMod 255) = 0 := by decide
      rwa [Int.cast_natCast, Int.cast_add, hclass, h255, add_zero] at hcast
  · refine ⟨(difference.tmod 255).toNat, by omega, by omega, ?_, ?_⟩
    · rw [raiseOctet, if_neg hle, Int.toNat_of_nonneg (by omega)]
      rfl
    · have hcast := congrArg (Int.cast (R := ZMod 255))
        (Int.toNat_of_nonneg (show 0 ≤ difference.tmod 255 by omega))
      rwa [Int.cast_natCast, hclass] at hcast

theorem exists_lowerOctet {c0 x : ℕ} (hc0 : c0 < 255) (h1 : 1 ≤ x) (h255 : x ≤ 255) :
    ∃ y : ℕ, 1 ≤ y ∧ y ≤ 255 ∧ lowerOctet (510 - c0 - x) = .ok (y : ℤ) ∧
      (y : ZMod 255) + c0 + x = 0 := by
  have hzero : (510 : ZMod 255) = 0 := by decide
  have hzero' : (255 : ZMod 255) = 0 := by decide
  by_cases hgt : (510 - c0 - x : ℤ) > 255
  · refine ⟨255 - c0 - x, by omega, by omega, ?_, ?_⟩
    · rw [lowerOctet, if_pos hgt, int32_of_bounds (by omega)]
      congr 1
      omega
    · have hsum : 255 - c0 - x + c0 + x = 255 := by omega
      have hcast := congrArg (Nat.cast (R := ZMod 255)) hsum
      push_cast at hcast
      rwa [hzero'] at hcast
  · refine ⟨510 - c0 - x, by omega, by omega, ?_, ?_⟩
    · rw [lowerOctet, if_neg hgt]
      change Except.ok _ = _
      congr 1
      omega
    · have hsum : 510 - c0 - x + c0 + x = 510 := by omega
      have hcast := congrArg (Nat.cast (R := ZMod 255)) hsum
      push_cast at hcast
      rwa [hzero] at hcast

theorem toNat_and_ff {x : ℕ} (hx : x ≤ 255) : (BitVec.ofInt 16 x &&& 0xFF).toNat = x := by
  have hand : x &&& 0xFF = x % 256 := Nat.and_two_pow_sub_one_eq_mod x 8
  rw [BitVec.ofInt_natCast, BitVec.toNat_and, BitVec.toNat_ofNat, Nat.mod_eq_of_lt (by omega)]
  exact hand.trans (Nat.mod_eq_of_lt (by omega))

theorem toNat_packOctets {x y : ℕ} (hx : x ≤ 255) (hy : y ≤ 255) :
    (packOctets x y).toNat = x * 256 + y := by
  have hor : x <<< 8 ||| y = x <<< 8 + y := (Nat.shiftLeft_add_eq_or_of_lt (by omega) x).symm
  rw [packOctets, BitVec.toNat_or, BitVec.toNat_shiftLeft, toNat_and_ff hx, toNat_and_ff hy,
    Nat.mod_eq_of_lt (by rw [Nat.shiftLeft_eq]; omega), hor, Nat.shiftLeft_eq]

theorem octets_of_pack {x y : ℕ} (hx : x ≤ 255) (hy : y ≤ 255) :
    ((packOctets x y >>> 8).setWidth 8).toNat = x ∧ ((packOctets x y).setWidth 8).toNat = y := by
  have hpack := toNat_packOctets hx hy
  rw [BitVec.toNat_setWidth, BitVec.toNat_setWidth, BitVec.toNat_ushiftRight,
    Nat.shiftRight_eq_div_pow, hpack]
  omega

theorem runningSums_storeBe {checksumPos x y : ℕ} {value : BitVec 16}
    (h₀ : buf[checksumPos]? = some 0) (h₁ : buf[checksumPos + 1]? = some 0)
    (hx : ((value >>> 8).setWidth 8).toNat = x) (hy : (value.setWidth 8).toNat = y)
    (hfirst : (x : ZMod 255) =
      (buf.length - checksumPos - 1 : ℕ) * (runningSums buf).1 - (runningSums buf).2)
    (hsecond : (y : ZMod 255) + (runningSums buf).1 + x = 0) :
    runningSums (storeBe buf checksumPos value) = (0, 0) := by
  obtain ⟨hc0, hc1⟩ := cast_runningSums buf
  have hlt : checksumPos + 1 < buf.length := (List.getElem?_eq_some_iff.mp h₁).1
  have h₁' : (buf.set checksumPos ((value >>> 8).setWidth 8))[checksumPos + 1]? = some 0 := by
    rw [List.getElem?_set_ne (by omega), h₁]
  have hbehind : buf.length - checksumPos = buf.length - checksumPos - 1 + 1 := by omega
  have hbehind' : buf.length - (checksumPos + 1) = buf.length - checksumPos - 1 := by omega
  have htotal : total (storeBe buf checksumPos value) = (runningSums buf).1 + x + y := by
    rw [storeBe, total_set h₁', total_set h₀, hx, hy, hc0]
  have hweighted : weighted (storeBe buf checksumPos value) = (runningSums buf).2 +
      ((buf.length - checksumPos - 1 : ℕ) + 1) * x + (buf.length - checksumPos - 1 : ℕ) * y := by
    rw [storeBe, weighted_set h₁', weighted_set h₀, hx, hy, hc1, List.length_set, hbehind', hbehind,
      Nat.cast_add, Nat.cast_one]
    rfl
  apply runningSums_eq_zero
  · rw [htotal, ← hsecond]
    ring
  · generalize ((buf.length - checksumPos - 1 : ℕ) : ZMod 255) = behind at hweighted hfirst
    have hy' : (y : ZMod 255) = -((runningSums buf).1 + x) := by
      rw [← sub_eq_zero, ← hsecond]
      ring
    rw [hweighted, hy', hfirst]
    ring

/-- The check octets are computed without an overflow, they are not zero, and they make the running
sums zero. -/
theorem fletcherChecksum_sound (buf : List Byte) (checksumPos : ℕ)
    (hlength : buf.length * 254 < 2 ^ 31) (hpos : checksumPos + 1 < buf.length)
    (h₀ : buf[checksumPos]? = some 0) (h₁ : buf[checksumPos + 1]? = some 0) :
    ∃ value, fletcherChecksum buf checksumPos = .ok value ∧
      runningSums (storeBe buf checksumPos value) = (0, 0) ∧
      (value >>> 8).setWidth 8 ≠ (0 : Byte) ∧ value.setWidth 8 ≠ (0 : Byte) := by
  obtain ⟨hlt0, hlt1⟩ := runningSums_lt buf
  generalize hc0 : (runningSums buf).1 = c0 at hlt0
  generalize hc1 : (runningSums buf).2 = c1 at hlt1
  have hloop : buf.foldlM sumOctet (0, 0) = .ok ((c0 : ℤ), (c1 : ℤ)) := by
    rw [← hc0, ← hc1]
    exact foldlM_sumOctet (c := (0, 0)) (by decide) buf
  generalize hbehind : buf.length - checksumPos - 1 = behind
  have hproduct : behind * c0 ≤ buf.length * 254 := Nat.mul_le_mul (by omega) (by omega)
  have hcast : ((behind * c0 : ℕ) : ℤ) = (behind : ℤ) * c0 := Nat.cast_mul behind c0
  obtain ⟨x, hx1, hx255, hx, hxclass⟩ := exists_raiseOctet ((behind : ℤ) * c0 - c1)
  obtain ⟨y, hy1, hy255, hy, hyclass⟩ := exists_lowerOctet hlt0 hx1 hx255
  obtain ⟨hhigh, hlow⟩ := octets_of_pack hx255 hy255
  have hreturns : fletcherChecksum buf checksumPos = .ok (packOctets x y) := by
    unfold fletcherChecksum
    rw [hloop, Error.ok_bind, octetsBehind_eq (by omega) hpos, hbehind]
    dsimp only
    rw [int32_of_bounds (by omega), Error.ok_bind, int32_of_bounds (by omega), Error.ok_bind, hx,
      Error.ok_bind, int32_of_bounds (by omega), Error.ok_bind, int32_of_bounds (by omega),
      Error.ok_bind, hy]
    rfl
  refine ⟨packOctets x y, hreturns, ?_, fun hzero => ?_, fun hzero => ?_⟩
  · refine runningSums_storeBe h₀ h₁ hhigh hlow ?_ ?_
    · rw [hxclass, hbehind, hc0, hc1]
      push_cast
      rfl
    · rw [hc0]
      exact hyclass
  · rw [hzero] at hhigh
    exact absurd hhigh.symm (by simp; omega)
  · rw [hzero] at hlow
    exact absurd hlow.symm (by simp; omega)

theorem fletcherChecksum_sound_lsa : ∃ value, fletcherChecksum [0x02, 0x01, 0, 0, 0xff] 2 =
    .ok value ∧
    runningSums (storeBe [0x02, 0x01, 0, 0, 0xff] 2 value) = (0, 0) ∧
    (value >>> 8).setWidth 8 ≠ (0 : Byte) ∧ value.setWidth 8 ≠ (0 : Byte) :=
  fletcherChecksum_sound [0x02, 0x01, 0, 0, 0xff] 2 (by decide) (by decide) rfl rfl

end Inet.Checksum
