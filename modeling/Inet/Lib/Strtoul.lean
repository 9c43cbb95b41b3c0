import Mathlib.Algebra.Ring.Nat
import Mathlib.Data.List.Basic
import Mathlib.Data.List.TakeWhile
import Mathlib.Data.Nat.Basic
import Mathlib.Order.Basic
import Mathlib.Tactic.SplitIfs

/-! # Numbers in strings

The function `strtoul` of the C library, with 64 bits, on the characters of a
string before its NUL. What it converts is white space, a sign, for the base 16
a prefix `0x`, and digits. Conversely it converts such a text when nothing
behind the text could be a part of it.
-/

namespace Inet.Strtoul

/-- `isspace` in the C locale -/
def isSpace (c : Char) : Bool := c.toNat == 32 || (decide (9 ≤ c.toNat) && decide (c.toNat ≤ 13))

/-- The value of a digit or a letter. -/
def digitValue (c : Char) : Option ℕ :=
  if '0' ≤ c ∧ c ≤ '9' then some (c.toNat - 48)
  else if 'a' ≤ c ∧ c ≤ 'z' then some (c.toNat - 87)
  else if 'A' ≤ c ∧ c ≤ 'Z' then some (c.toNat - 55)
  else none

def isDigit (base : ℕ) (c : Char) : Bool := (digitValue c).any (· < base)

/-- The number that digits denote, from a number before them on. -/
def accumulate (base : ℕ) (n : ℕ) (digits : List Char) : ℕ :=
  digits.foldl (fun n c => n * base + (digitValue c).getD 0) n

def skipSign : List Char → Bool × List Char
  | '-' :: s => (true, s)
  | '+' :: s => (false, s)
  | s => (false, s)

/-- A prefix `0x` counts only before a digit. -/
def skipHexPrefix : List Char → List Char
  | '0' :: x :: c :: s =>
    if (x = 'x' ∨ x = 'X') ∧ isDigit 16 c = true then c :: s else '0' :: x :: c :: s
  | s => s

/-- `ULONG_MAX` -/
def ulongMax : ℕ := 2 ^ 64 - 1

/-- The value of a number in 64 bits: too large ones give the maximum, and a sign negates. -/
def wrapped (negative : Bool) (n : ℕ) : ℕ :=
  if n > ulongMax then ulongMax else if negative then (2 ^ 64 - n) % 2 ^ 64 else n

/-- The value and the rest of the string. Without a conversion the rest is the string. -/
def strtoul (s : List Char) (base : ℕ) : ℕ × List Char :=
  let (negative, unsigned) := skipSign (s.dropWhile isSpace)
  let body := if base = 16 then skipHexPrefix unsigned else unsigned
  if body.takeWhile (isDigit base) = [] then (0, s)
  else (wrapped negative (accumulate base 0 (body.takeWhile (isDigit base))),
    body.dropWhile (isDigit base))

/-! ## What is converted -/

/-- The text that a conversion takes. -/
structure Numeral (base : ℕ) where
  spaces : List Char
  sign : Option Char
  hexPrefix : List Char
  digits : List Char
  spaces_all : ∀ c ∈ spaces, isSpace c = true
  sign_mem : ∀ c ∈ sign, c = '-' ∨ c = '+'
  hexPrefix_eq : hexPrefix = [] ∨ base = 16 ∧ (hexPrefix = ['0', 'x'] ∨ hexPrefix = ['0', 'X'])
  digits_ne_nil : digits ≠ []
  digits_all : ∀ c ∈ digits, isDigit base c = true

namespace Numeral

variable {base : ℕ} (num : Numeral base)

def text : List Char := num.spaces ++ (num.sign.toList ++ (num.hexPrefix ++ num.digits))

def value : ℕ := wrapped (num.sign = some '-') (accumulate base 0 num.digits)

/-- The numeral is made of digits only. -/
def Plain : Prop := num.spaces = [] ∧ num.sign = none ∧ num.hexPrefix = []

end Numeral

/-- A text that is not continued by a numeral before it. -/
def Stops (base : ℕ) (rest : List Char) : Prop :=
  ∀ c ∈ rest.head?, isDigit base c = false ∧ c ≠ 'x' ∧ c ≠ 'X'

section Digits

variable {base : ℕ} {c : Char} {digits rest s : List Char}

theorem takeWhile_digits (h : ∀ c ∈ digits, isDigit base c = true)
    (hrest : ∀ c ∈ rest.head?, isDigit base c = false) :
    (digits ++ rest).takeWhile (isDigit base) = digits := by
  rw [List.takeWhile_append_of_pos h]
  cases rest with
  | nil => exact List.append_nil _
  | cons c rest =>
    rw [List.takeWhile_cons_of_neg (by rw [hrest c rfl]; decide), List.append_nil]

theorem dropWhile_digits (h : ∀ c ∈ digits, isDigit base c = true)
    (hrest : ∀ c ∈ rest.head?, isDigit base c = false) :
    (digits ++ rest).dropWhile (isDigit base) = rest := by
  rw [List.dropWhile_append_of_pos h]
  cases rest with
  | nil => rfl
  | cons c rest => exact List.dropWhile_cons_of_neg (by rw [hrest c rfl]; decide)

theorem isDigit_ne {d : Char} (h : isDigit base c = true) (hd : isDigit base d = false) :
    c ≠ d := by
  rintro rfl
  rw [h] at hd
  cases hd

/-- White space comes before the digits among the characters. -/
theorem isDigit_of_isSpace (h : isSpace c = true) : isDigit base c = false := by
  have hle : c.toNat ≤ 32 := by
    simp only [isSpace, Bool.or_eq_true, Bool.and_eq_true, beq_iff_eq, decide_eq_true_eq] at h
    omega
  have hlt {d : Char} (hd : 32 < d.toNat) : ¬ d ≤ c := fun hdc =>
    absurd (UInt32.le_iff_toNat_le.1 (Char.le_def.1 hdc)) (not_le.2 (hle.trans_lt hd))
  have hvalue : digitValue c = none := by
    rw [digitValue, if_neg fun h => hlt (by decide) h.1, if_neg fun h => hlt (by decide) h.1,
      if_neg fun h => hlt (by decide) h.1]
  rw [isDigit, hvalue]
  rfl

theorem isSpace_of_isDigit (h : isDigit base c = true) : isSpace c = false := by
  by_contra hspace
  rw [Bool.not_eq_false] at hspace
  rw [isDigit_of_isSpace hspace] at h
  cases h

theorem skipSign_of_isDigit (h : ∀ c ∈ s.head?, isDigit base c = true) :
    skipSign s = (false, s) := by
  cases s with
  | nil => rfl
  | cons c s =>
    have hminus : c ≠ '-' := isDigit_ne (h c rfl) rfl
    have hplus : c ≠ '+' := isDigit_ne (h c rfl) rfl
    rw [skipSign]
    · intro _ heq
      exact hminus (List.cons.inj heq).1
    · intro _ heq
      exact hplus (List.cons.inj heq).1

theorem skipHexPrefix_cons {x : Char} (hx : x = 'x' ∨ x = 'X') (hc : isDigit 16 c = true) :
    skipHexPrefix ('0' :: x :: c :: s) = c :: s := by
  rw [skipHexPrefix, if_pos ⟨hx, hc⟩]

theorem skipHexPrefix_eq_self (h : ∀ c ∈ (s.drop 1).head?, c ≠ 'x' ∧ c ≠ 'X') :
    skipHexPrefix s = s := by
  unfold skipHexPrefix
  split
  · rename_i x c s
    rw [if_neg]
    rintro ⟨hx, -⟩
    obtain ⟨hne, hne'⟩ := h x rfl
    exact hx.elim hne hne'
  · rfl

end Digits

section Numeral

variable {base : ℕ} (num : Numeral base) {rest : List Char}

theorem Numeral.head?_digits (rest : List Char) :
    ∀ c ∈ (num.digits ++ rest).head?, isDigit base c = true := by
  intro c hc
  have hdigits := num.digits_all
  cases hnum : num.digits with
  | nil => exact absurd hnum num.digits_ne_nil
  | cons d ds =>
    rw [hnum] at hc hdigits
    cases hc
    exact hdigits c List.mem_cons_self

/-- What follows the sign starts with a digit. -/
theorem Numeral.head?_unsigned (rest : List Char) :
    ∀ c ∈ (num.hexPrefix ++ num.digits ++ rest).head?, isDigit base c = true := by
  rcases num.hexPrefix_eq with h | ⟨rfl, h | h⟩
  · rw [h]
    exact num.head?_digits rest
  · rw [h]
    rintro c ⟨⟩
    rfl
  · rw [h]
    rintro c ⟨⟩
    rfl

theorem Numeral.dropWhile_isSpace (rest : List Char) :
    (num.text ++ rest).dropWhile isSpace =
      num.sign.toList ++ (num.hexPrefix ++ num.digits ++ rest) := by
  rw [Numeral.text, List.append_assoc, List.append_assoc,
    List.dropWhile_append_of_pos num.spaces_all]
  cases hsign : num.sign with
  | none =>
    have hhead := num.head?_unsigned rest
    rw [Option.toList_none, List.nil_append]
    cases hunsigned : num.hexPrefix ++ num.digits ++ rest with
    | nil => rfl
    | cons c s =>
      rw [hunsigned] at hhead
      exact List.dropWhile_cons_of_neg (by rw [isSpace_of_isDigit (hhead c rfl)]; decide)
  | some c =>
    refine List.dropWhile_cons_of_neg ?_
    rcases num.sign_mem c hsign with rfl | rfl
    · decide
    · decide

theorem Numeral.skipSign_unsigned (rest : List Char) :
    skipSign (num.sign.toList ++ (num.hexPrefix ++ num.digits ++ rest)) =
      (decide (num.sign = some '-'), num.hexPrefix ++ num.digits ++ rest) := by
  cases hsign : num.sign with
  | none => exact skipSign_of_isDigit (num.head?_unsigned rest)
  | some c =>
    rcases num.sign_mem c hsign with rfl | rfl
    · rfl
    · rfl

theorem Numeral.skipHexPrefix_unsigned {num : Numeral 16} (hrest : Stops 16 rest) :
    skipHexPrefix (num.hexPrefix ++ num.digits ++ rest) = num.digits ++ rest := by
  have hdigits := num.digits_all
  cases hnum : num.digits with
  | nil => exact absurd hnum num.digits_ne_nil
  | cons d ds =>
    rw [hnum] at hdigits
    have hd := hdigits d List.mem_cons_self
    rcases num.hexPrefix_eq with h | ⟨-, h | h⟩
    · rw [h]
      refine skipHexPrefix_eq_self fun c hc => ?_
      cases ds with
      | nil => exact (hrest c hc).2
      | cons d' ds =>
        cases hc
        have hd' := hdigits c (List.mem_cons_of_mem d List.mem_cons_self)
        exact ⟨isDigit_ne hd' rfl, isDigit_ne hd' rfl⟩
    · rw [h]
      exact skipHexPrefix_cons (.inl rfl) hd
    · rw [h]
      exact skipHexPrefix_cons (.inr rfl) hd

/-- A numeral is converted as a whole. -/
theorem strtoul_text (hrest : Stops base rest) :
    strtoul (num.text ++ rest) base = (num.value, rest) := by
  have hbody : (if base = 16 then skipHexPrefix (num.hexPrefix ++ num.digits ++ rest)
      else num.hexPrefix ++ num.digits ++ rest) = num.digits ++ rest := by
    split_ifs with h
    · subst h
      exact num.skipHexPrefix_unsigned hrest
    · rw [num.hexPrefix_eq.resolve_right fun h' => h h'.1, List.nil_append]
  rw [strtoul, num.dropWhile_isSpace, num.skipSign_unsigned]
  dsimp only
  rw [hbody, takeWhile_digits num.digits_all fun c hc => (hrest c hc).1,
    dropWhile_digits num.digits_all fun c hc => (hrest c hc).1, if_neg num.digits_ne_nil]
  rfl

/-- The characters that a numeral can start with. -/
def IsStart (base : ℕ) (c : Char) : Prop :=
  isSpace c = true ∨ c = '-' ∨ c = '+' ∨ isDigit base c = true

/-- The characters that a numeral can hold. -/
def IsNumeralChar (base : ℕ) (c : Char) : Prop :=
  IsStart base c ∨ base = 16 ∧ (c = '0' ∨ c = 'x' ∨ c = 'X')

theorem Numeral.exists_head : ∃ c t, num.text = c :: t ∧ IsStart base c := by
  rw [Numeral.text]
  cases hspaces : num.spaces with
  | cons c t => exact ⟨c, _, rfl, .inl (num.spaces_all c (hspaces ▸ List.mem_cons_self))⟩
  | nil =>
    cases hsign : num.sign with
    | some c =>
      rcases num.sign_mem c hsign with rfl | rfl
      · exact ⟨_, _, rfl, .inr (.inl rfl)⟩
      · exact ⟨_, _, rfl, .inr (.inr (.inl rfl))⟩
    | none =>
      have hhead := num.head?_unsigned []
      rw [List.append_nil] at hhead
      cases hunsigned : num.hexPrefix ++ num.digits with
      | nil => exact absurd (List.append_eq_nil_iff.1 hunsigned).2 num.digits_ne_nil
      | cons c t =>
        rw [hunsigned] at hhead
        exact ⟨c, t, rfl, .inr (.inr (.inr (hhead c rfl)))⟩

theorem Numeral.isNumeralChar : ∀ c ∈ num.text, IsNumeralChar base c := by
  intro c hc
  rw [Numeral.text, List.mem_append, List.mem_append, List.mem_append, Option.mem_toList] at hc
  rcases hc with hc | hc | hc | hc
  · exact .inl (.inl (num.spaces_all c hc))
  · rcases num.sign_mem c hc with h | h
    · exact .inl (.inr (.inl h))
    · exact .inl (.inr (.inr (.inl h)))
  · rcases num.hexPrefix_eq with h | ⟨hbase, h | h⟩
    · rw [h] at hc
      cases hc
    · rw [h] at hc
      exact .inr ⟨hbase, (List.mem_pair.1 hc).imp_right .inl⟩
    · rw [h] at hc
      exact .inr ⟨hbase, (List.mem_pair.1 hc).imp_right .inr⟩
  · exact .inl (.inr (.inr (.inr (num.digits_all c hc))))

/-- A plain numeral holds digits only. -/
theorem Numeral.Plain.text_eq {num : Numeral base} (h : num.Plain) : num.text = num.digits := by
  rw [Numeral.text, h.1, h.2.1, h.2.2]
  rfl

/-- A numeral of digits only is plain. -/
theorem Numeral.plain_of_forall (h : ∀ c ∈ num.text, isDigit base c = true) (hbase : base ≤ 16) :
    num.Plain := by
  have hx : isDigit base 'x' = false ∧ isDigit base 'X' = false := by
    have hle : ¬ 33 < base := by omega
    exact ⟨decide_eq_false hle, decide_eq_false hle⟩
  refine ⟨List.eq_nil_iff_forall_not_mem.2 fun c hc => ?_, ?_, ?_⟩
  · have hdigit := h c (List.mem_append_left _ hc)
    rw [isDigit_of_isSpace (num.spaces_all c hc)] at hdigit
    cases hdigit
  · cases hsign : num.sign with
    | none => rfl
    | some c =>
      have hdigit := h c (by simp [Numeral.text, hsign])
      rcases num.sign_mem c hsign with rfl | rfl
      · cases hdigit
      · cases hdigit
  · rcases num.hexPrefix_eq with heq | ⟨-, heq | heq⟩
    · exact heq
    · have hdigit := h 'x' (by simp [Numeral.text, heq])
      rw [hx.1] at hdigit
      cases hdigit
    · have hdigit := h 'X' (by simp [Numeral.text, heq])
      rw [hx.2] at hdigit
      cases hdigit

/-- The sign that is skipped. -/
theorem exists_sign (s : List Char) : ∃ sign : Option Char, (∀ c ∈ sign, c = '-' ∨ c = '+') ∧
    s = sign.toList ++ (skipSign s).2 ∧ (skipSign s).1 = decide (sign = some '-') := by
  unfold skipSign
  split
  · refine ⟨some '-', ?_, rfl, rfl⟩
    rintro c ⟨⟩
    exact .inl rfl
  · refine ⟨some '+', ?_, rfl, rfl⟩
    rintro c ⟨⟩
    exact .inr rfl
  · exact ⟨none, nofun, rfl, rfl⟩

/-- The prefix that is skipped. -/
theorem exists_hexPrefix {s : List Char} : ∃ hexPrefix : List Char,
    (hexPrefix = [] ∨ base = 16 ∧ (hexPrefix = ['0', 'x'] ∨ hexPrefix = ['0', 'X'])) ∧
      s = hexPrefix ++ if base = 16 then skipHexPrefix s else s := by
  by_cases hbase : base = 16
  · rw [if_pos hbase]
    unfold skipHexPrefix
    split
    · rename_i x c s
      split_ifs with h
      · rcases h with ⟨rfl | rfl, -⟩
        · exact ⟨['0', 'x'], .inr ⟨hbase, .inl rfl⟩, rfl⟩
        · exact ⟨['0', 'X'], .inr ⟨hbase, .inr rfl⟩, rfl⟩
      · exact ⟨[], .inl rfl, rfl⟩
    · exact ⟨[], .inl rfl, rfl⟩
  · rw [if_neg hbase]
    exact ⟨[], .inl rfl, rfl⟩

/-- The numeral that a conversion has taken. -/
theorem exists_numeral {s : List Char} (h : (strtoul s base).2 ≠ s) :
    ∃ num : Numeral base, s = num.text ++ (strtoul s base).2 ∧ (strtoul s base).1 = num.value := by
  obtain ⟨sign, hsign, hunsigned, hnegative⟩ := exists_sign (s.dropWhile isSpace)
  obtain ⟨hexPrefix, hhex, hbody⟩ := @exists_hexPrefix base (skipSign (s.dropWhile isSpace)).2
  rw [strtoul] at h ⊢
  dsimp only at h ⊢
  generalize (skipSign (s.dropWhile isSpace)).1 = negative at hnegative h ⊢
  generalize (skipSign (s.dropWhile isSpace)).2 = unsigned at hunsigned hbody h ⊢
  generalize (if base = 16 then skipHexPrefix unsigned else unsigned) = body at hbody h ⊢
  by_cases hdigits : body.takeWhile (isDigit base) = []
  · rw [if_pos hdigits] at h
    exact absurd rfl h
  · rw [if_neg hdigits]
    refine ⟨⟨s.takeWhile isSpace, sign, hexPrefix, body.takeWhile (isDigit base),
      fun c hc => List.mem_takeWhile_imp hc, hsign, hhex, hdigits,
      fun c hc => List.mem_takeWhile_imp hc⟩, ?_, by rw [hnegative]; rfl⟩
    calc s = s.takeWhile isSpace ++ s.dropWhile isSpace := List.takeWhile_append_dropWhile.symm
      _ = s.takeWhile isSpace ++ (sign.toList ++ (hexPrefix ++ (body.takeWhile (isDigit base) ++
          body.dropWhile (isDigit base)))) := by
        rw [@List.takeWhile_append_dropWhile _ (isDigit base), ← hbody, ← hunsigned]
      _ = _ := by simp only [Numeral.text, List.append_assoc]

theorem strtoul_of_not_start {s : List Char} (h : ∀ c ∈ s.head?, ¬ IsStart base c) :
    (strtoul s base).2 = s := by
  by_contra hne
  obtain ⟨num, hs, -⟩ := exists_numeral hne
  obtain ⟨c, t, htext, hstart⟩ := num.exists_head
  rw [htext] at hs
  exact h c (hs ▸ rfl) hstart

end Numeral

/-! ## Printed numbers -/

section Printed

variable {base : ℕ}

theorem digitValue_digitChar : ∀ d < 16, digitValue (Nat.digitChar d) = some d := by decide

theorem isDigit_digitChar (hbase : base ≤ 16) {d : ℕ} (h : d < base) :
    isDigit base (Nat.digitChar d) = true := by
  rw [isDigit, digitValue_digitChar d (h.trans_le hbase)]
  exact decide_eq_true h

theorem isDigit_toDigits (hpos : 1 < base) (hbase : base ≤ 16) (n : ℕ) :
    ∀ c ∈ Nat.toDigits base n, isDigit base c = true := by
  induction n using Nat.strong_induction_on with
  | _ n ih =>
    intro c hc
    rw [Nat.toDigits_eq_if hpos] at hc
    split_ifs at hc with hlt
    · rw [List.mem_singleton.1 hc]
      exact isDigit_digitChar hbase hlt
    · rcases List.mem_append.1 hc with hc | hc
      · exact ih (n / base) (Nat.div_lt_self (by omega) hpos) c hc
      · rw [List.mem_singleton.1 hc]
        exact isDigit_digitChar hbase (Nat.mod_lt n (by omega))

theorem accumulate_append (n : ℕ) (l l' : List Char) :
    accumulate base n (l ++ l') = accumulate base (accumulate base n l) l' := List.foldl_append

theorem accumulate_digitChar (hbase : base ≤ 16) {d : ℕ} (h : d < base) (n : ℕ) :
    accumulate base n [Nat.digitChar d] = n * base + d := by
  change n * base + (digitValue (Nat.digitChar d)).getD 0 = n * base + d
  rw [digitValue_digitChar d (h.trans_le hbase)]
  rfl

theorem accumulate_toDigits (hpos : 1 < base) (hbase : base ≤ 16) (n : ℕ) :
    accumulate base 0 (Nat.toDigits base n) = n := by
  induction n using Nat.strong_induction_on with
  | _ n ih =>
    rw [Nat.toDigits_eq_if hpos]
    split_ifs with hlt
    · rw [accumulate_digitChar hbase hlt, Nat.zero_mul, Nat.zero_add]
    · rw [accumulate_append, ih (n / base) (Nat.div_lt_self (by omega) hpos),
        accumulate_digitChar hbase (Nat.mod_lt n (by omega)), Nat.mul_comm]
      exact Nat.div_add_mod n base

/-- The digits of a number, as `printf` and streams print them. -/
def Numeral.ofNat (base : ℕ) (hpos : 1 < base) (hbase : base ≤ 16) (n : ℕ) : Numeral base where
  spaces := []
  sign := none
  hexPrefix := []
  digits := Nat.toDigits base n
  spaces_all := List.forall_mem_nil _
  sign_mem := nofun
  hexPrefix_eq := .inl rfl
  digits_ne_nil := Nat.toDigits_ne_nil
  digits_all := isDigit_toDigits hpos hbase n

theorem Numeral.value_ofNat (hpos : 1 < base) (hbase : base ≤ 16) {n : ℕ} (h : n ≤ ulongMax) :
    (Numeral.ofNat base hpos hbase n).value = n := by
  change wrapped false (accumulate base 0 (Nat.toDigits base n)) = n
  rw [accumulate_toDigits hpos hbase, wrapped, if_neg (not_lt.2 h)]
  rfl

end Printed

/-- Texts with a character between them. -/
def join (separator : Char) : List (List Char) → List Char
  | [] => []
  | [text] => text
  | text :: text' :: texts => text ++ separator :: join separator (text' :: texts)

theorem join_cons_of_ne_nil {separator : Char} {texts : List (List Char)} (h : texts ≠ [])
    (text : List Char) :
      join separator (text :: texts) = text ++ separator :: join separator texts := by
  cases texts with
  | nil => exact absurd rfl h
  | cons text' texts => rfl

theorem mem_join {separator c : Char} {texts : List (List Char)} (h : c ∈ join separator texts) :
    c = separator ∨ ∃ text ∈ texts, c ∈ text := by
  induction texts with
  | nil => cases h
  | cons text texts ih =>
    cases texts with
    | nil => exact .inr ⟨text, List.mem_cons_self, h⟩
    | cons text' texts =>
      rw [join_cons_of_ne_nil (List.cons_ne_nil _ _), List.mem_append, List.mem_cons] at h
      rcases h with h | h | h
      · exact .inr ⟨text, List.mem_cons_self, h⟩
      · exact .inl h
      · exact (ih h).imp_right fun ⟨t, ht, hc⟩ => ⟨t, List.mem_cons_of_mem text ht, hc⟩

end Inet.Strtoul
