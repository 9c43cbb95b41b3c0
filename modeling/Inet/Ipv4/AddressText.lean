import Inet.Ipv4.InterfaceData
import Inet.Lib.Strtoul
import Mathlib.Tactic.IntervalCases
import Mathlib.Tactic.SplitIfs

/-! # The text of an IPv4 address

The parser accepts four numbers with dots between them, and the word for the
unspecified address. An `int` counts the value of a number, so that the result
is undefined where it overflows, which never happens in an address.
-/

namespace Inet.Ipv4

open Strtoul

def unspec : List Char := "<unspec>".toList

namespace Ipv4Address

def isUnspecified (address : Ipv4Address) : Bool := address == 0

/-- `(addr >> shift) & 255` -/
def byteAt (address : Ipv4Address) (shift : ℕ) : UInt8 :=
  UInt8.ofBitVec (((address >>> shift) &&& 255).setWidth 8)

/-- The bytes of an address, the first on top. -/
def bytes (address : Ipv4Address) : List UInt8 :=
  [address.byteAt 24, address.byteAt 16, address.byteAt 8, address.byteAt 0]

/-- `set(i0, i1, i2, i3)` -/
def ofBytes (i0 i1 i2 i3 : UInt8) : Ipv4Address :=
  i0.toBitVec.setWidth 32 <<< 24 ||| i1.toBitVec.setWidth 32 <<< 16 |||
    i2.toBitVec.setWidth 32 <<< 8 ||| i3.toBitVec.setWidth 32

def str (address : Ipv4Address) (printUnspec : Bool) : List Char :=
  if printUnspec && address.isUnspecified then unspec
  else join '.' (address.bytes.map fun byte => Nat.toDigits 10 byte.toNat)

end Ipv4Address

/-- The loop that reads a number. -/
def readNumber (num : ℕ) : List Char → Except Error (ℕ × List Char)
  | [] => pure (num, [])
  | c :: s =>
    if '0' ≤ c ∧ c ≤ '9' then
      if 10 * num + (c.toNat - 48) < 2 ^ 31 then readNumber (10 * num + (c.toNat - 48)) s
      else throw (.undefinedBehavior "overflow of int")
    else pure (num, c :: s)

/-- A number at the start of a text, if there is one of a byte. -/
def readOctet (s : List Char) : Except Error (Option (UInt8 × List Char)) := do
  if ¬ s.head?.any (fun c => '0' ≤ c ∧ c ≤ '9') then pure none
  else
    let (num, rest) ← readNumber 0 s
    if num > 255 then pure none else pure (some (UInt8.ofNat num, rest))

/-- The loop that reads the numbers, with the places that are left behind the next one. -/
def parseNumbers : ℕ → List Char → Except Error (Option (List UInt8))
  | 0, s => do
    match ← readOctet s with
    | some (byte, []) => pure (some [byte])
    | _ => pure none
  | places + 1, s => do
    match ← readOctet s with
    | some (byte, []) => pure (some [byte])
    | some (byte, '.' :: s) => pure ((← parseNumbers places s).map (byte :: ·))
    | _ => pure none

def parseIPAddress (text : List Char) : Except Error (Option (List UInt8)) := do
  if text = unspec then pure (some [0, 0, 0, 0])
  else pure ((← parseNumbers 3 text).filter fun tobytes => tobytes.length = 4)

/-! ## The texts of addresses -/

/-- The decimal digits of a byte. -/
structure DecimalByte where
  digits : List Char
  digits_ne_nil : digits ≠ []
  digits_all : ∀ c ∈ digits, isDigit 10 c = true
  le : accumulate 10 0 digits ≤ 255

def DecimalByte.value (number : DecimalByte) : UInt8 := UInt8.ofNat (accumulate 10 0 number.digits)

/-- A text and the bytes that it denotes. -/
inductive DenotesBytes : List Char → List UInt8 → Prop
  | unspec : DenotesBytes unspec [0, 0, 0, 0]
  | dotted (numbers : List DecimalByte) (h : numbers.length = 4) :
      DenotesBytes (join '.' (numbers.map (·.digits))) (numbers.map (·.value))

/-! ## Reading a number -/

section ReadNumber

variable {c : Char} {num : ℕ} {digits rest s : List Char}

theorem isDigit_ten_iff : isDigit 10 c = true ↔ '0' ≤ c ∧ c ≤ '9' := by
  rw [isDigit, digitValue]
  split_ifs with hdecimal hlower hupper
  · have hle := UInt32.le_iff_toNat_le.1 (Char.le_def.1 hdecimal.2)
    refine iff_of_true (decide_eq_true ?_) hdecimal
    change c.val.toNat - 48 < 10
    have : ('9' : Char).val.toNat = 57 := rfl
    omega
  · have hge := UInt32.le_iff_toNat_le.1 (Char.le_def.1 hlower.1)
    refine iff_of_false (fun h => ?_) hdecimal
    have hlt : c.val.toNat - 87 < 10 := of_decide_eq_true h
    have : ('a' : Char).val.toNat = 97 := rfl
    omega
  · have hge := UInt32.le_iff_toNat_le.1 (Char.le_def.1 hupper.1)
    refine iff_of_false (fun h => ?_) hdecimal
    have hlt : c.val.toNat - 55 < 10 := of_decide_eq_true h
    have : ('A' : Char).val.toNat = 65 := rfl
    omega
  · exact iff_of_false (fun h => by cases h) hdecimal

theorem accumulate_cons_decimal (h : '0' ≤ c ∧ c ≤ '9') :
    accumulate 10 num (c :: digits) = accumulate 10 (10 * num + (c.toNat - 48)) digits := by
  change accumulate 10 (num * 10 + (digitValue c).getD 0) digits = _
  rw [digitValue, if_pos h, Nat.mul_comm]
  rfl

theorem le_accumulate (num : ℕ) (digits : List Char) : num ≤ accumulate 10 num digits := by
  induction digits generalizing num with
  | nil => exact le_rfl
  | cons c digits ih =>
    refine le_trans ?_ (ih (num * 10 + (digitValue c).getD 0))
    omega

theorem readNumber_append (h : ∀ c ∈ digits, isDigit 10 c = true)
    (hrest : ∀ c ∈ rest.head?, isDigit 10 c = false) (hmax : accumulate 10 num digits < 2 ^ 31) :
    readNumber num (digits ++ rest) = .ok (accumulate 10 num digits, rest) := by
  induction digits generalizing num with
  | nil =>
    cases rest with
    | nil => rfl
    | cons c rest =>
      rw [List.nil_append, readNumber, if_neg]
      · rfl
      · rw [← isDigit_ten_iff, hrest c rfl]
        decide
  | cons c digits ih =>
    obtain ⟨hc, hdigits⟩ := List.forall_mem_cons.1 h
    rw [isDigit_ten_iff] at hc
    rw [accumulate_cons_decimal hc] at hmax ⊢
    rw [List.cons_append, readNumber, if_pos hc, if_pos ((le_accumulate _ _).trans_lt hmax),
      ih hdigits hmax]

theorem exists_digits {r : ℕ × List Char} (h : readNumber num s = .ok r) :
    ∃ digits, (∀ c ∈ digits, isDigit 10 c = true) ∧ s = digits ++ r.2 ∧
      r.1 = accumulate 10 num digits ∧ ∀ c ∈ r.2.head?, isDigit 10 c = false := by
  induction s generalizing num with
  | nil =>
    cases h
    exact ⟨[], List.forall_mem_nil _, rfl, rfl, nofun⟩
  | cons c s ih =>
    rw [readNumber] at h
    split_ifs at h with hc hmax
    · obtain ⟨digits, hdigits, hs, hr, hrest⟩ := ih h
      refine ⟨c :: digits, List.forall_mem_cons.2 ⟨isDigit_ten_iff.2 hc, hdigits⟩, ?_, ?_, hrest⟩
      · rw [hs, List.cons_append]
      · rw [hr, accumulate_cons_decimal hc]
    · cases h
      refine ⟨[], List.forall_mem_nil _, rfl, rfl, ?_⟩
      rintro d ⟨⟩
      rw [← Bool.not_eq_true, isDigit_ten_iff]
      exact hc

end ReadNumber

/-! ## Reading the numbers -/

theorem DecimalByte.readOctet_append (number : DecimalByte) {rest : List Char}
    (hrest : ∀ c ∈ rest.head?, isDigit 10 c = false) :
    readOctet (number.digits ++ rest) = .ok (some (number.value, rest)) := by
  have hhead : (number.digits ++ rest).head?.any (fun c => '0' ≤ c ∧ c ≤ '9') = true := by
    have hall := number.digits_all
    cases hdigits : number.digits with
    | nil => exact absurd hdigits number.digits_ne_nil
    | cons c digits =>
      rw [hdigits] at hall
      exact decide_eq_true (isDigit_ten_iff.1 (hall c List.mem_cons_self))
  rw [readOctet, if_neg (not_not.2 hhead),
    readNumber_append number.digits_all hrest (number.le.trans_lt (by decide)), Error.ok_bind]
  dsimp only
  rw [if_neg (not_lt.2 number.le)]
  rfl

theorem exists_number {s rest : List Char} {byte : UInt8}
    (h : readOctet s = .ok (some (byte, rest))) :
    ∃ number : DecimalByte, s = number.digits ++ rest ∧ byte = number.value := by
  rw [readOctet] at h
  split_ifs at h with hhead
  · obtain ⟨⟨num, rest'⟩, hread, h⟩ := Error.exists_of_bind_eq_ok h
    obtain ⟨digits, hall, hs, rfl, hrest⟩ := exists_digits hread
    have hne : digits ≠ [] := by
      rintro rfl
      cases rest' with
      | nil =>
        rw [hs] at hhead
        cases hhead
      | cons c rest' =>
        rw [hs] at hhead
        have hdigit := isDigit_ten_iff.2 (of_decide_eq_true hhead)
        rw [hrest c rfl] at hdigit
        cases hdigit
    dsimp only at h
    by_cases hle : accumulate 10 0 digits > 255
    · rw [if_pos hle] at h
      cases h
    · rw [if_neg hle] at h
      cases h
      exact ⟨⟨digits, hne, hall, not_lt.1 hle⟩, hs, rfl⟩
  · cases h

theorem parseNumbers_join {places : ℕ} {numbers : List DecimalByte} (hne : numbers ≠ [])
    (h : numbers.length ≤ places + 1) :
    parseNumbers places (join '.' (numbers.map (·.digits))) =
      .ok (some (numbers.map (·.value))) := by
  induction numbers generalizing places with
  | nil => exact absurd rfl hne
  | cons number numbers ih =>
    cases numbers with
    | nil =>
      have hread := @DecimalByte.readOctet_append number [] nofun
      rw [List.append_nil] at hread
      cases places with
      | zero => exact Error.bind_of_eq_ok hread rfl
      | succ places => exact Error.bind_of_eq_ok hread rfl
    | cons number' numbers =>
      cases places with
      | zero => exact absurd h (by simp)
      | succ places =>
        have hrest := ih (List.cons_ne_nil _ _) (Nat.le_of_succ_le_succ h)
        have hread := @DecimalByte.readOctet_append number
          ('.' :: join '.' ((number' :: numbers).map (·.digits)))
          (by rintro c ⟨⟩; rfl)
        exact Error.bind_of_eq_ok hread (Error.bind_of_eq_ok hrest rfl)

theorem exists_numbers {places : ℕ} {s : List Char} {tobytes : List UInt8}
    (h : parseNumbers places s = .ok (some tobytes)) :
    ∃ numbers : List DecimalByte, numbers ≠ [] ∧ s = join '.' (numbers.map (·.digits)) ∧
      tobytes = numbers.map (·.value) := by
  induction places generalizing s tobytes with
  | zero =>
    obtain ⟨result, hread, h⟩ := Error.exists_of_bind_eq_ok h
    split at h
    · cases h
      obtain ⟨number, rfl, rfl⟩ := exists_number hread
      exact ⟨[number], List.cons_ne_nil _ _, List.append_nil _, rfl⟩
    · cases h
  | succ places ih =>
    obtain ⟨result, hread, h⟩ := Error.exists_of_bind_eq_ok h
    split at h
    · cases h
      obtain ⟨number, rfl, rfl⟩ := exists_number hread
      exact ⟨[number], List.cons_ne_nil _ _, List.append_nil _, rfl⟩
    · obtain ⟨number, rfl, rfl⟩ := exists_number hread
      obtain ⟨rest, hrest, h⟩ := Error.exists_of_bind_eq_ok h
      cases rest with
      | none => cases h
      | some rest =>
        cases h
        obtain ⟨numbers, hne, rfl, rfl⟩ := ih hrest
        refine ⟨number :: numbers, List.cons_ne_nil _ _, ?_, rfl⟩
        rw [List.map_cons, join_cons_of_ne_nil fun hnil => hne (List.map_eq_nil_iff.1 hnil)]
    · cases h

theorem unspec_ne_join {numbers : List DecimalByte} :
    join '.' (numbers.map (·.digits)) ≠ unspec := by
  intro h
  have hmem : '<' ∈ join '.' (numbers.map (·.digits)) := h ▸ List.mem_cons_self
  rcases mem_join hmem with heq | ⟨text, htext, hc⟩
  · cases heq
  · obtain ⟨number, -, rfl⟩ := List.mem_map.1 htext
    cases number.digits_all _ hc

theorem parseIPAddress_eq_some_iff {text : List Char} {tobytes : List UInt8} :
    parseIPAddress text = .ok (some tobytes) ↔ DenotesBytes text tobytes := by
  rw [parseIPAddress]
  constructor
  · intro h
    split_ifs at h with hunspec
    · cases h
      exact hunspec ▸ .unspec
    · obtain ⟨result, hparse, h⟩ := Error.exists_of_bind_eq_ok h
      obtain ⟨rfl, hlength⟩ := Option.filter_eq_some_iff.1 (Except.ok.inj h)
      obtain ⟨numbers, -, rfl, rfl⟩ := exists_numbers hparse
      have hfour := of_decide_eq_true hlength
      rw [List.length_map] at hfour
      exact .dotted numbers hfour
  · intro h
    cases h with
    | unspec => rfl
    | dotted numbers h =>
      have hne : numbers ≠ [] := by
        rintro rfl
        cases h
      rw [if_neg unspec_ne_join, parseNumbers_join hne (by rw [h]), Error.ok_bind]
      refine congrArg Except.ok (Option.filter_eq_some_iff.2 ⟨rfl, decide_eq_true ?_⟩)
      rw [List.length_map, h]

/-! ## Printing and parsing -/

def DecimalByte.ofByte (byte : UInt8) : DecimalByte where
  digits := Nat.toDigits 10 byte.toNat
  digits_ne_nil := Nat.toDigits_ne_nil
  digits_all := isDigit_toDigits (by decide) (by decide) _
  le := by
    rw [accumulate_toDigits (by decide) (by decide)]
    exact Nat.le_of_lt_succ byte.toNat_lt

theorem DecimalByte.value_ofByte (byte : UInt8) : (DecimalByte.ofByte byte).value = byte := by
  rw [DecimalByte.value, DecimalByte.ofByte, accumulate_toDigits (by decide) (by decide)]
  exact UInt8.ofNat_toNat

theorem denotesBytes_str (address : Ipv4Address) (printUnspec : Bool) :
    DenotesBytes (address.str printUnspec) address.bytes := by
  rw [Ipv4Address.str]
  split_ifs with h
  · obtain ⟨-, hzero⟩ := Bool.and_eq_true_iff.1 h
    rw [eq_of_beq hzero]
    exact .unspec
  · have hdotted := DenotesBytes.dotted (address.bytes.map DecimalByte.ofByte) rfl
    rw [List.map_map, List.map_map] at hdotted
    have hvalue : DecimalByte.value ∘ DecimalByte.ofByte = id := funext DecimalByte.value_ofByte
    rwa [hvalue, List.map_id] at hdotted

theorem ofBytes_byteAt (address : Ipv4Address) :
    Ipv4Address.ofBytes (address.byteAt 24) (address.byteAt 16) (address.byteAt 8)
      (address.byteAt 0) = address := by
  refine BitVec.eq_of_getLsbD_eq fun i hi => ?_
  interval_cases i
  all_goals simp [Ipv4Address.ofBytes, Ipv4Address.byteAt]

end Inet.Ipv4
