import Inet.Checksum.CrcTables
import Inet.Lib.ShiftRegister
import Mathlib.Tactic.IntervalCases

/-! # Cyclic redundancy checks

The checks that are read from a table, byte by byte, and the generic ones that
shift bit by bit. They agree on every string whose bytes the `unsigned int` of
the generic loop can count.
-/

namespace Inet.Checksum

open ShiftRegister

variable {w : ℕ} {α : Type}

/-! The functions that read a table. -/

/-- The entry for the low byte of a word. -/
def entry (tab : Vector (BitVec w) 256) (x : BitVec w) : BitVec w := tab.get (x.setWidth 8).toFin

/-- The turn of a check that shifts to the right. -/
def reflectedTurn (tab : Vector (BitVec w) 256) (crc : BitVec w) (byte : Byte) : BitVec w :=
  entry tab (crc ^^^ byte.setWidth w) ^^^ crc >>> 8

def crc32IsoHdlc (buf : List Byte) (crc : BitVec 32) : BitVec 32 :=
  buf.foldl (reflectedTurn crc32Tab) (crc ^^^ BitVec.allOnes 32) ^^^ BitVec.allOnes 32

/-- The turn of a check of 32 bits that shifts to the left. -/
def forwardTurn (tab : Vector (BitVec 32) 256) (crc : BitVec 32) (byte : Byte) : BitVec 32 :=
  entry tab (crc >>> 24 ^^^ byte.setWidth 32) ^^^ crc <<< 8

def crc32Mpeg2 (buf : List Byte) (crc : BitVec 32) : BitVec 32 :=
  buf.foldl (forwardTurn crc32Mpeg2Tab) crc

def crc32c (buf : List Byte) (crc : BitVec 32) : BitVec 32 :=
  buf.foldl (reflectedTurn crc32cTab) (crc ^^^ BitVec.allOnes 32) ^^^ BitVec.allOnes 32

def crc16Ibm (buf : List Byte) (crc : BitVec 16) : BitVec 16 :=
  buf.foldl (reflectedTurn crc16IbmTab) crc

def crc16Ccitt (buf : List Byte) (crc : BitVec 16) : BitVec 16 :=
  buf.foldl (reflectedTurn crc16CcittTab) crc

def swapBytes (crc : BitVec 32) : BitVec 32 :=
  crc >>> 24 ||| (crc >>> 8 &&& 0x0000FF00) ||| (crc <<< 8 &&& 0x00FF0000) ||| crc <<< 24

def ethernetFcs (buf : List Byte) (crc : BitVec 32) : BitVec 32 :=
  swapBytes (crc32IsoHdlc buf (swapBytes crc))

/-! The generic functions. -/

def reverse32 (x : BitVec 32) : BitVec 32 :=
  let x := (x &&& 0x55555555) <<< 1 ||| (x &&& 0xAAAAAAAA) >>> 1
  let x := (x &&& 0x33333333) <<< 2 ||| (x &&& 0xCCCCCCCC) >>> 2
  let x := (x &&& 0x0F0F0F0F) <<< 4 ||| (x &&& 0xF0F0F0F0) >>> 4
  let x := (x &&& 0x00FF00FF) <<< 8 ||| (x &&& 0xFF00FF00) >>> 8
  (x &&& 0x0000FFFF) <<< 16 ||| (x &&& 0xFFFF0000) >>> 16

def reverse16 (x : BitVec 16) : BitVec 16 := (reverse32 (x.setWidth 32) >>> 16).setWidth 16

def reverse8 (x : BitVec 8) : BitVec 8 := (reverse32 (x.setWidth 32) >>> 24).setWidth 8

/-- The loop over the bytes, from index `i`, for at most the given number of rounds. The index is
an `unsigned int`, the size of the buffer is not. -/
def forBytes (buf : List Byte) (turn : α → Byte → α) : ℕ → UInt32 → α → Option α
  | 0, _, _ => none
  | rounds + 1, i, crc =>
    match buf[i.toNat]? with
    | some byte => forBytes buf turn rounds (i + 1) (turn crc byte)
    | none => some crc

/-- A byte in reflected mode, as it is. -/
def reflectedBits (rpoly crc : BitVec w) (byte : Byte) : BitVec w :=
  (shiftRight rpoly)^[8] (crc ^^^ byte.setWidth w)

/-- A byte in non-reflected mode, in the high bits. -/
def forwardBits (poly crc : BitVec w) (byte : Byte) : BitVec w :=
  (shiftLeft poly)^[8] (crc ^^^ byte.setWidth w <<< (w - 8))

/-- `generic_crc32`, `generic_crc16` and `generic_crc8`, for at most the given number of rounds. -/
def genericCrc (reverse : BitVec w → BitVec w) (buf : List Byte) (poly init : BitVec w)
    (reflectIn reflectOut : Bool) (xorOut : BitVec w) (rounds : ℕ) : Option (BitVec w) :=
  if reflectIn then
    (forBytes buf (reflectedBits (reverse poly)) rounds 0 init).map fun crc =>
      (if !reflectOut then reverse crc else crc) ^^^ xorOut
  else
    (forBytes buf (forwardBits poly) rounds 0 init).map fun crc =>
      (if reflectOut then reverse crc else crc) ^^^ xorOut

def genericCrc32 := genericCrc reverse32

def genericCrc16 := genericCrc reverse16

def genericCrc8 := genericCrc reverse8

def crc32IsoHdlcBitwise (buf : List Byte) : ℕ → Option (BitVec 32) :=
  genericCrc32 buf 0x04c11db7 0xffffffff true true 0xffffffff

def crc32Mpeg2Bitwise (buf : List Byte) : ℕ → Option (BitVec 32) :=
  genericCrc32 buf 0x04c11db7 0xffffffff false false 0x00000000

def crc32cBitwise (buf : List Byte) : ℕ → Option (BitVec 32) :=
  genericCrc32 buf 0x1edc6f41 0xffffffff true true 0xffffffff

def crc16IbmBitwise (buf : List Byte) : ℕ → Option (BitVec 16) :=
  genericCrc16 buf 0x8005 0x0000 true true 0x0000

def crc16CcittBitwise (buf : List Byte) : ℕ → Option (BitVec 16) :=
  genericCrc16 buf 0x1021 0x0000 true true 0x0000

/-- The call returns the check after some number of rounds. -/
def ReturnsCheck (call : ℕ → Option (BitVec w)) (crc : BitVec w) : Prop :=
  ∃ rounds, call rounds = some crc

/-- On the string the checks from the tables are those of the generic functions. -/
structure MatchesBitwise (s : List Byte) : Prop where
  isoHdlc : ReturnsCheck (crc32IsoHdlcBitwise s) (crc32IsoHdlc s 0)
  mpeg2 : ReturnsCheck (crc32Mpeg2Bitwise s) (crc32Mpeg2 s 0xffffffff)
  castagnoli : ReturnsCheck (crc32cBitwise s) (crc32c s 0)
  ibm : ReturnsCheck (crc16IbmBitwise s) (crc16Ibm s 0)
  ccitt : ReturnsCheck (crc16CcittBitwise s) (crc16Ccitt s 0)

/-- The check of a concatenation goes on from the check of its first part. -/
def Chains (f : List Byte → BitVec w → BitVec w) (start : BitVec w) : Prop :=
  ∀ a b, f (a ++ b) start = f b (f a start)

/-! The tables hold what eight shifts make of a byte. -/

/-- The table for a step to the right with the polynomial. -/
def TabulatesRight (tab : Vector (BitVec w) 256) (poly : BitVec w) : Prop :=
  ∀ byte : Byte, tab.get byte.toFin = (shiftRight poly)^[8] (byte.setWidth w)

/-- The table for a step to the left with the polynomial. -/
def TabulatesLeft (tab : Vector (BitVec w) 256) (poly : BitVec w) : Prop :=
  ∀ byte : Byte, tab.get byte.toFin = (shiftLeft poly)^[8] (byte.setWidth w <<< (w - 8))

/-- A table is what a function makes of the bytes if its list of entries is. -/
theorem get_of_toList_eq {tab : Vector (BitVec w) 256} {f : Byte → BitVec w}
    (h : tab.toList = (List.finRange 256).map fun i => f (.ofFin i)) (byte : Byte) :
    tab.get byte.toFin = f byte := by
  have hlt : byte.toNat < (List.finRange 256).length := by
    rw [List.length_finRange]
    exact byte.isLt
  have hget := congrArg (fun values => values[byte.toNat]?) h
  simp only [List.getElem?_map, List.getElem?_eq_getElem hlt, List.getElem_finRange] at hget
  have htab : tab.toList[byte.toNat]? = some (tab.get byte.toFin) := by
    simp [Vector.get, Vector.toList]
  exact Option.some.inj (htab.symm.trans hget)

/-- Each table holds what eight shifts with its polynomial make of a byte. -/
theorem tabulates_tables : TabulatesRight crc32Tab (reverse32 0x04c11db7) ∧
    TabulatesLeft crc32Mpeg2Tab 0x04c11db7 ∧ TabulatesRight crc32cTab (reverse32 0x1edc6f41) ∧
    TabulatesRight crc16IbmTab (reverse16 0x8005) ∧
    TabulatesRight crc16CcittTab (reverse16 0x1021) := by
  refine ⟨get_of_toList_eq ?_, get_of_toList_eq ?_, get_of_toList_eq ?_, get_of_toList_eq ?_,
    get_of_toList_eq ?_⟩
  · decide +kernel
  · decide +kernel
  · decide +kernel
  · decide +kernel
  · decide +kernel

theorem TabulatesRight.turn {tab : Vector (BitVec w) 256} {poly : BitVec w}
    (h : TabulatesRight tab poly) (crc : BitVec w) (byte : Byte) :
    reflectedTurn tab crc byte = reflectedBits poly crc byte := by
  have hmoved : (crc ^^^ byte.setWidth w) >>> 8 = crc >>> 8 := by
    apply BitVec.eq_of_getLsbD_eq
    intro i _
    simp [BitVec.getLsbD_ushiftRight, BitVec.getLsbD_xor]
  rw [reflectedBits, iterate_shiftRight, hmoved, reflectedTurn, entry, h, low]

theorem TabulatesLeft.turn {tab : Vector (BitVec 32) 256} {poly : BitVec 32}
    (h : TabulatesLeft tab poly) (crc : BitVec 32) (byte : Byte) :
    forwardTurn tab crc byte = forwardBits poly crc byte := by
  have hmoved : (crc ^^^ byte.setWidth 32 <<< 24) <<< 8 = crc <<< 8 := by
    apply BitVec.eq_of_getLsbD_eq
    intro i hi
    simp only [BitVec.getLsbD_shiftLeft, BitVec.getLsbD_xor]
    by_cases h8 : i < 8
    · simp [h8]
    · simp [show i - 8 < 24 by omega]
  have hindex : ((crc >>> 24 ^^^ byte.setWidth 32).setWidth 8).setWidth 32 <<< 24 =
      high 8 (crc ^^^ byte.setWidth 32 <<< 24) := by
    apply BitVec.eq_of_getLsbD_eq
    intro i hi
    rw [getLsbD_high]
    simp only [BitVec.getLsbD_shiftLeft, BitVec.getLsbD_xor, BitVec.getLsbD_setWidth,
      BitVec.getLsbD_ushiftRight]
    by_cases h24 : i < 24
    · simp [h24, show ¬ 24 ≤ i by omega]
    · simp [hi, h24, show i - 24 < 8 by omega, show i - 24 < 32 by omega,
        show 24 + (i - 24) = i by omega, show 24 ≤ i by omega]
  rw [forwardBits, iterate_shiftLeft, hmoved, forwardTurn, entry, h, hindex]

/-! The generic loop ends when its index can count the bytes. -/

theorem forBytes_of_lt (turn : α → Byte → α) (crc : α) :
    ∀ (rest buf : List Byte) (i : UInt32), buf.length < 2 ^ 32 → buf.drop i.toNat = rest →
      i.toNat ≤ buf.length → forBytes buf turn (rest.length + 1) i crc =
        some (rest.foldl turn crc) := by
  intro rest
  induction rest generalizing crc with
  | nil =>
    intro buf i hlt hdrop hle
    have hnone : buf[i.toNat]? = none := by
      rw [List.getElem?_eq_none_iff]
      exact List.drop_eq_nil_iff.mp hdrop
    simp only [forBytes, hnone, List.foldl_nil]
  | cons byte rest ih =>
    intro buf i hlt hdrop hle
    have hsome : buf[i.toNat]? = some byte := by
      rw [← List.head?_drop, hdrop]
      rfl
    have hi : i.toNat < buf.length := (List.getElem?_eq_some_iff.mp hsome).1
    have hnext : (i + 1).toNat = i.toNat + 1 := by
      rw [UInt32.toNat_add]
      exact Nat.mod_eq_of_lt (by simp; omega)
    have hdrop' : buf.drop (i + 1).toNat = rest := by
      rw [hnext, ← List.drop_drop, hdrop]
      rfl
    rw [List.length_cons, forBytes, hsome]
    exact ih (turn crc byte) buf (i + 1) hlt hdrop' (by omega)

theorem forBytes_of_ge {buf : List Byte} (turn : α → Byte → α) (h : 2 ^ 32 ≤ buf.length)
    (rounds : ℕ) (i : UInt32) (crc : α) : forBytes buf turn rounds i crc = none := by
  induction rounds generalizing i crc with
  | zero => rfl
  | succ rounds ih =>
    have hi : i.toNat < buf.length := lt_of_lt_of_le i.toNat_lt h
    rw [forBytes, List.getElem?_eq_getElem hi]
    exact ih (i + 1) _

theorem returnsCheck_forBytes_iff (buf : List Byte) (turn : α → Byte → α) (init : α)
    (result : α → BitVec w) :
    ReturnsCheck (fun rounds => (forBytes buf turn rounds 0 init).map result)
      (result (buf.foldl turn init)) ↔ buf.length < 2 ^ 32 := by
  constructor
  · rintro ⟨rounds, h⟩
    by_contra hge
    simp only [forBytes_of_ge turn (not_lt.mp hge), Option.map_none, reduceCtorEq] at h
  · intro hlt
    refine ⟨buf.length + 1, ?_⟩
    dsimp only
    rw [forBytes_of_lt turn init buf buf 0 hlt rfl (Nat.zero_le _)]
    rfl

theorem returnsCheck_reflected_iff {reverse : BitVec w → BitVec w} {tab : Vector (BitVec w) 256}
    {poly : BitVec w} (h : TabulatesRight tab (reverse poly)) (buf : List Byte)
    (init xorOut : BitVec w) :
    ReturnsCheck (genericCrc reverse buf poly init true true xorOut)
      (buf.foldl (reflectedTurn tab) init ^^^ xorOut) ↔ buf.length < 2 ^ 32 := by
  have hturn : reflectedTurn tab = reflectedBits (reverse poly) :=
    funext fun crc => funext (h.turn crc)
  rw [hturn]
  exact returnsCheck_forBytes_iff buf (reflectedBits (reverse poly)) init (· ^^^ xorOut)

theorem returnsCheck_crc16_iff {tab : Vector (BitVec 16) 256} {poly : BitVec 16}
    (h : TabulatesRight tab (reverse16 poly)) (buf : List Byte) :
    ReturnsCheck (genericCrc16 buf poly 0x0000 true true 0x0000) (buf.foldl (reflectedTurn tab) 0) ↔
      buf.length < 2 ^ 32 := by
  have hiff := returnsCheck_reflected_iff h buf 0 0
  have hzero : ∀ crc : BitVec 16, crc ^^^ 0 = crc := fun _ => BitVec.xor_zero
  rwa [hzero] at hiff

theorem returnsCheck_mpeg2_iff (buf : List Byte) :
    ReturnsCheck (crc32Mpeg2Bitwise buf) (crc32Mpeg2 buf 0xffffffff) ↔ buf.length < 2 ^ 32 := by
  have hturn : forwardTurn crc32Mpeg2Tab = forwardBits 0x04c11db7 :=
    funext fun crc => funext (tabulates_tables.2.1.turn crc)
  have hcall : crc32Mpeg2Bitwise buf = fun rounds =>
      (forBytes buf (forwardBits 0x04c11db7) rounds 0 0xffffffff).map id := by
    funext rounds
    simp [crc32Mpeg2Bitwise, genericCrc32, genericCrc]
  have hiff := returnsCheck_forBytes_iff buf (forwardBits 0x04c11db7) (0xffffffff : BitVec 32) id
  rw [hcall, crc32Mpeg2, hturn]
  exact hiff

theorem matchesBitwise_iff (s : List Byte) : MatchesBitwise s ↔ s.length < 2 ^ 32 := by
  have hiso := returnsCheck_reflected_iff tabulates_tables.1 s 0xffffffff 0xffffffff
  have hcastagnoli := returnsCheck_reflected_iff tabulates_tables.2.2.1 s 0xffffffff 0xffffffff
  have hibm := returnsCheck_crc16_iff tabulates_tables.2.2.2.1 s
  have hccitt := returnsCheck_crc16_iff tabulates_tables.2.2.2.2 s
  constructor
  · intro h
    exact hiso.mp h.isoHdlc
  · intro h
    exact ⟨hiso.mpr h, (returnsCheck_mpeg2_iff s).mpr h, hcastagnoli.mpr h, hibm.mpr h,
      hccitt.mpr h⟩

/-! Checks of concatenations. -/

theorem chains_foldl (turn : BitVec w → Byte → BitVec w) (start : BitVec w) :
    Chains (fun buf crc => buf.foldl turn crc) start := fun _ _ => List.foldl_append

theorem Chains.conjugate {f f' : List Byte → BitVec w → BitVec w} {g : BitVec w → BitVec w}
    (hg : ∀ x, g (g x) = x) (h : ∀ start, Chains f start)
    (hf' : ∀ buf crc, f' buf crc = g (f buf (g crc))) (start : BitVec w) : Chains f' start := by
  intro a b
  rw [hf', hf' b, hf' a, hg, h]

theorem xor_xor_allOnes (x : BitVec 32) : (x ^^^ BitVec.allOnes 32) ^^^ BitVec.allOnes 32 = x := by
  rw [BitVec.xor_assoc, BitVec.xor_self, BitVec.xor_zero]

theorem swapBytes_swapBytes (x : BitVec 32) : swapBytes (swapBytes x) = x := by
  apply BitVec.eq_of_getLsbD_eq
  intro i hi
  simp only [swapBytes, BitVec.getLsbD_or, BitVec.getLsbD_and, BitVec.getLsbD_ushiftRight,
    BitVec.getLsbD_shiftLeft]
  interval_cases i <;> simp [BitVec.getLsbD_of_ge]

theorem chains_crc32IsoHdlc (start : BitVec 32) : Chains crc32IsoHdlc start :=
  .conjugate (g := (· ^^^ BitVec.allOnes 32)) xor_xor_allOnes
    (chains_foldl (reflectedTurn crc32Tab))
    (fun _ _ => rfl) start

theorem chains_crc32c (start : BitVec 32) : Chains crc32c start :=
  .conjugate (g := (· ^^^ BitVec.allOnes 32)) xor_xor_allOnes
    (chains_foldl (reflectedTurn crc32cTab))
    (fun _ _ => rfl) start

theorem chains_ethernetFcs (start : BitVec 32) : Chains ethernetFcs start :=
  .conjugate swapBytes_swapBytes chains_crc32IsoHdlc (fun _ _ => rfl) start

/-- The checks of concatenations with their default start values. -/
structure AllChain : Prop where
  isoHdlc : Chains crc32IsoHdlc 0
  mpeg2 : Chains crc32Mpeg2 0xffffffff
  castagnoli : Chains crc32c 0
  ibm : Chains crc16Ibm 0
  ccitt : Chains crc16Ccitt 0
  ethernet : Chains ethernetFcs 0

/-- The checks from the tables are the bitwise ones on every string whose bytes an `unsigned int`
can count, and all of them chain. -/
theorem checks_match_and_chain (s : List Byte) :
    (MatchesBitwise s ↔ s.length < 2 ^ 32) ∧ AllChain :=
  ⟨matchesBitwise_iff s, chains_crc32IsoHdlc 0, chains_foldl _ _, chains_crc32c 0, chains_foldl _ 0,
    chains_foldl _ 0, chains_ethernetFcs 0⟩

/-- The generic loop never ends on `2^32` bytes. -/
theorem not_matchesBitwise_of_overflow : ¬ MatchesBitwise (List.replicate (2 ^ 32) 0) := by
  rintro ⟨⟨rounds, h⟩, -, -, -, -⟩
  have hlength : 2 ^ 32 ≤ (List.replicate (2 ^ 32) (0 : Byte)).length := by
    rw [List.length_replicate]
  have hnone := forBytes_of_ge (reflectedBits (reverse32 0x04c11db7)) hlength rounds 0
    (0xffffffff : BitVec 32)
  simp only [crc32IsoHdlcBitwise, genericCrc32, genericCrc, if_true, hnone, Option.map_none,
    reduceCtorEq] at h

end Inet.Checksum
