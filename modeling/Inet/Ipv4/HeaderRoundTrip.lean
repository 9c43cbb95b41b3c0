import Inet.Tcp.HeaderRoundTrip
import Inet.Ipv4.Header
import Mathlib.Algebra.BigOperators.Ring.Finset

/-! # The IPv4 header round trip

Both halves meet at the bytes of an option, as for the TCP header. The padding
is read as End-of-options, one for each byte. Options without records, and raw
options that no class takes, are read a second time as raw options.
-/

namespace Inet.Ipv4

open BitString MemoryInputStream MemoryOutputStream Tcp Ipv4HeaderSerializer

namespace Ipv4Option

/-- The bytes of the records of a timestamp option. -/
def recordBytes (bytes : ℕ) : List (BitVec 32) → List SimTime → List Byte
  | _, [] => []
  | [], t :: recordTimestamp =>
    shiftedBytes [24, 16, 8, 0] (wireTimestamp t) ++ recordBytes bytes [] recordTimestamp
  | address :: recordAddress, t :: recordTimestamp =>
    if bytes = 8 then
      shiftedBytes [24, 16, 8, 0] address.toNat ++ shiftedBytes [24, 16, 8, 0] (wireTimestamp t) ++
        recordBytes bytes recordAddress recordTimestamp
    else
      shiftedBytes [24, 16, 8, 0] (wireTimestamp t) ++
        recordBytes bytes (address :: recordAddress) recordTimestamp

def addressBytes (address : BitVec 32) : List Byte := shiftedBytes [24, 16, 8, 0] address.toNat

/-- The flag byte of a timestamp option. -/
def flagbyte (flag : TimestampFlag) (overflow : ℤ) : Byte :=
  BitVec.ofInt 8 overflow <<< 4 ||| BitVec.ofNat 8 flag.value

/-- The bytes behind the type and the length. -/
def bodyBytes : OptionBody → List Byte
  | .optionEnd | .nop | .unknown _ => []
  | .streamId streamId => shiftedBytes [8, 0] streamId.toNat
  | .timestamp flag overflow nextIdx recordAddress recordTimestamp =>
    BitVec.ofInt 8 (5 + nextIdx * flag.bytes) :: flagbyte flag overflow ::
      recordBytes flag.bytes recordAddress recordTimestamp
  | .recordRoute nextAddressIdx recordAddress =>
    BitVec.ofInt 8 (4 + nextAddressIdx * 4) :: recordAddress.flatMap addressBytes
  | .routerAlert routerAlert => shiftedBytes [8, 0] routerAlert.toNat
  | .raw bytes => bytes

def bytes (option : Ipv4Option) : List Byte :=
  option.type.setWidth 8 :: (if option.length.toNat > 1 then [option.length.setWidth 8] else []) ++
    bodyBytes option.body

/-- The type and the length belong to the class of the option and to its contents, and the contents
fit their fields. -/
def Consistent (option : Ipv4Option) : Prop :=
  match option.body with
  | .optionEnd => option.type.toNat = 0 ∧ option.length.toNat = 1
  | .nop => option.type.toNat = 1 ∧ option.length.toNat = 1
  | .streamId _ => option.type.toNat = 136 ∧ option.length.toNat = 4
  | .timestamp flag overflow nextIdx recordAddress recordTimestamp =>
    (option.type.toNat = 68 ∧ option.length.toNat = 4 + flag.bytes * recordTimestamp.length) ∧
      5 + nextIdx * flag.bytes ≤ 255 ∧ 0 ≤ overflow ∧ overflow ≤ 15 ∧
      (flag.bytes = 8 → recordTimestamp.length ≤ recordAddress.length)
  | .recordRoute nextAddressIdx recordAddress =>
    option.type.toNat ∈ routeTypes ∧ option.length.toNat = 3 + 4 * recordAddress.length ∧
      4 + nextAddressIdx * 4 ≤ 255
  | .routerAlert _ => option.type.toNat = 148 ∧ option.length.toNat = 4
  | .raw bytes => option.length.toNat = 2 + bytes.length
  | .unknown _ => False

/-- Raw bytes that the reader does not take for an option of another class: it looks at the length,
the pointer and the flag byte. -/
def RawForm (type : ℕ) (bytes : List Byte) : Prop :=
  type ≠ 0 ∧ type ≠ 1 ∧ (type = 136 ∨ type = 148 → bytes.length ≠ 2) ∧
    (type ∈ routeTypes → ∃ pointer rest, bytes = pointer :: rest ∧
      ¬ AcceptsRoute (2 + bytes.length) pointer.toNat) ∧
    (type = 68 → ∃ pointer flagbyte rest, bytes = pointer :: flagbyte :: rest ∧
      ∀ flag, timestampFlag flagbyte = some flag →
        ¬ AcceptsTimestamp flag (2 + bytes.length) pointer.toNat)

/-- Whole milliseconds that fit the field. -/
def IsWireTimestamp (t : SimTime) : Prop := ∃ ms : ℕ, ms < 2 ^ 32 ∧ t = SimTime.ofMs ms

/-- The contents of the option are those of its bytes. -/
def Canonical (option : Ipv4Option) : Prop :=
  match option.body with
  | .timestamp flag _ nextIdx recordAddress recordTimestamp =>
    0 ≤ nextIdx ∧
      recordAddress.length = (if flag.bytes = 8 then recordTimestamp.length else 0) ∧
      ∀ t ∈ recordTimestamp, IsWireTimestamp t
  | .recordRoute nextAddressIdx _ => 0 ≤ nextAddressIdx
  | .raw bytes => option.type.toNat < 256 ∧ RawForm option.type.toNat bytes
  | _ => True

/-- How an option is read back: without records it is a raw option. -/
def wireForm (option : Ipv4Option) : Ipv4Option :=
  match option.body with
  | .timestamp _ _ _ _ [] => { option with body := .raw (bodyBytes option.body) }
  | .recordRoute _ [] => { option with body := .raw (bodyBytes option.body) }
  | _ => option

/-- The option has records, if it is of a class with records. -/
def HasRecords (option : Ipv4Option) : Prop :=
  match option.body with
  | .timestamp _ _ _ _ recordTimestamp => recordTimestamp ≠ []
  | .recordRoute _ recordAddress => recordAddress ≠ []
  | _ => True

theorem HasRecords.wireForm_eq {option : Ipv4Option} (h : option.HasRecords) :
    option.wireForm = option := by
  obtain ⟨type, length, body⟩ := option
  cases body with
  | timestamp flag overflow nextIdx recordAddress recordTimestamp =>
    cases recordTimestamp with
    | nil => exact absurd rfl h
    | cons t recordTimestamp => rfl
  | recordRoute nextAddressIdx recordAddress =>
    cases recordAddress with
    | nil => exact absurd rfl h
    | cons address recordAddress => rfl
  | optionEnd | nop | streamId | routerAlert | raw | unknown => rfl

end Ipv4Option

namespace Ipv4HeaderSerializer

open Ipv4Option TcpHeaderSerializer

section Serialize

variable {s s' : MemoryOutputStream} {bits : List Bool}

theorem cast_bind_eq_ok {α : Type} {type : ℕ} {types : List ℕ} {x : Except Error α} {r : α}
    (h : (do Ipv4HeaderSerializer.checkCast type types; x) = .ok r) : type ∈ types ∧ x = .ok r := by
  unfold Ipv4HeaderSerializer.checkCast at h
  split at h
  next htype => exact ⟨htype, h⟩
  next => split at h <;> cases h

theorem checks_eq_ok {α : Type} {type t : ℕ} {p : Prop} [Decidable p] {text : String}
    {x : Except Error α} {r : α}
    (h : (do Ipv4HeaderSerializer.checkCast type [t]; assert p text; x) = .ok r) :
    (type = t ∧ p) ∧ x = .ok r := by
  obtain ⟨htype, h⟩ := cast_bind_eq_ok h
  obtain ⟨hp, h⟩ := ok_of_assert_bind h
  exact ⟨⟨List.mem_singleton.1 htype, hp⟩, h⟩

theorem packs_writeRecords (bytes : ℕ) {recordAddress : List (BitVec 32)}
    {recordTimestamp : List SimTime} (hs : Packs s bits)
    (h : writeRecords s bytes recordAddress recordTimestamp = .ok s') :
    (bytes = 8 → recordTimestamp.length ≤ recordAddress.length) ∧
      Packs s' (bits ++ concat (recordBytes bytes recordAddress recordTimestamp)) := by
  induction recordTimestamp generalizing s bits recordAddress with
  | nil =>
    unfold writeRecords at h
    cases h
    refine ⟨fun _ => Nat.zero_le _, ?_⟩
    simpa [recordBytes] using hs
  | cons t recordTimestamp ih =>
    cases recordAddress with
    | nil =>
      rw [writeRecords] at h
      split at h
      · cases h
      next hbytes =>
        obtain ⟨-, hp⟩ := ih (hs.writeShifted _ _) h
        refine ⟨fun h => absurd h hbytes, ?_⟩
        rwa [recordBytes, concat_append, ← List.append_assoc]
    | cons address recordAddress =>
      rw [writeRecords] at h
      rw [recordBytes]
      split at h
      next hbytes =>
        obtain ⟨hle, hp⟩ := ih ((hs.writeShifted _ _).writeShifted _ _) h
        refine ⟨fun h => Nat.succ_le_succ (hle h), ?_⟩
        rwa [if_pos hbytes, concat_append, concat_append, ← List.append_assoc,
          ← List.append_assoc]
      next hbytes =>
        obtain ⟨-, hp⟩ := ih (hs.writeShifted _ _) h
        refine ⟨fun h => absurd h hbytes, ?_⟩
        rwa [if_neg hbytes, concat_append, ← List.append_assoc]

theorem packs_writeAddresses (hs : Packs s bits) (recordAddress : List (BitVec 32)) :
    Packs (writeAddresses s recordAddress)
      (bits ++ concat (recordAddress.flatMap addressBytes)) := by
  rw [concat_flatMap]
  exact hs.foldl (fun _ _ address hs => hs.writeShifted _ address.toNat) recordAddress

theorem packs_timestamp {type length : ℕ} {flag : TimestampFlag} {overflow nextIdx : ℤ}
    {recordAddress : List (BitVec 32)} {recordTimestamp : List SimTime} (hs : Packs s bits)
    (h : serializeBody s type length
      (.timestamp flag overflow nextIdx recordAddress recordTimestamp) = .ok s') :
    ((type = 68 ∧ length = 4 + flag.bytes * recordTimestamp.length) ∧
      5 + nextIdx * flag.bytes ≤ 255 ∧ 0 ≤ overflow ∧ overflow ≤ 15 ∧
      (flag.bytes = 8 → recordTimestamp.length ≤ recordAddress.length)) ∧
    Packs s' (bits ++ concat
      (bodyBytes (.timestamp flag overflow nextIdx recordAddress recordTimestamp))) := by
  obtain ⟨hl, h⟩ := checks_eq_ok h
  simp only at h
  split at h
  · cases h
  next hpointer =>
    split at h
    · cases h
    next hoverflow =>
      obtain ⟨hle, hp⟩ := packs_writeRecords flag.bytes ((hs.writeByte _).writeByte _) h
      refine ⟨⟨hl, by omega, by omega, by omega, hle⟩, ?_⟩
      rw [bodyBytes, concat_cons, concat_cons, flagbyte]
      simpa only [List.append_assoc] using hp

theorem packs_serializeBody {option : Ipv4Option} (hs : Packs s bits)
    (h : serializeBody s option.type.toNat option.length.toNat option.body = .ok s') :
    option.Consistent ∧ Packs s' (bits ++ concat (bodyBytes option.body)) := by
  obtain ⟨type, length, body⟩ := option
  cases body with
  | raw bytes =>
    obtain ⟨hl, h⟩ := ok_of_assert_bind h
    cases h
    exact ⟨hl.2, hs.writeByte_foldl bytes⟩
  | optionEnd | nop =>
    obtain ⟨hl, h⟩ := checks_eq_ok h
    cases h
    exact ⟨hl, by simpa [bodyBytes] using hs⟩
  | streamId | routerAlert =>
    obtain ⟨hl, h⟩ := checks_eq_ok h
    cases h
    exact ⟨hl, hs.writeShifted _ _⟩
  | timestamp flag overflow nextIdx recordAddress recordTimestamp => exact packs_timestamp hs h
  | recordRoute nextAddressIdx recordAddress =>
    obtain ⟨htype, h⟩ := cast_bind_eq_ok h
    obtain ⟨hl, h⟩ := ok_of_assert_bind h
    simp only at h
    split at h
    · cases h
    next hpointer =>
      cases h
      refine ⟨⟨htype, hl, by omega⟩, ?_⟩
      have := packs_writeAddresses (hs.writeByte (BitVec.ofInt 8 (4 + nextAddressIdx * 4)))
        recordAddress
      rwa [bodyBytes, concat_cons, ← List.append_assoc]
  | unknown =>
    obtain ⟨htype, -⟩ := cast_bind_eq_ok h
    cases htype

theorem packs_serializeOption {option : Ipv4Option} (hs : Packs s bits)
    (h : serializeOption s option = .ok s') :
    option.Consistent ∧ Packs s' (bits ++ concat option.bytes) := by
  have ht := hs.writeByte (option.type.setWidth 8)
  unfold serializeOption at h
  rw [Ipv4Option.bytes]
  split at h
  next hl =>
    obtain ⟨hc, hp⟩ := packs_serializeBody (ht.writeByte (option.length.setWidth 8)) h
    exact ⟨hc, by simpa [hl] using hp⟩
  next hl =>
    obtain ⟨hc, hp⟩ := packs_serializeBody ht h
    exact ⟨hc, by simpa [hl] using hp⟩

end Serialize

section Deserialize

theorem consumes_get_bind {α : Type} {f : MemoryInputStream → Reader α} {bits : List Bool} {a : α}
    (h : ∀ s, Consumes (f s) bits a) : Consumes (do let s ← get; f s) bits a := by
  intro s rest hs
  rw [StateT.run_bind, StateT.run_get, pure_bind]
  exact h s s rest hs

theorem Holds.advance_byte {v : Byte} {s : MemoryInputStream} {rest : List Bool}
    (h : Holds s (msb v ++ rest)) : Holds { s with position := s.position + 8 } rest := by
  have := h.advance
  rwa [length_msb] at this

theorem deserializeRaw_run {type : Byte} {bytes : List Byte} (hl : 2 + bytes.length < 256)
    {s : MemoryInputStream} {rest : List Bool}
    (hs : Holds s (concat (type :: BitVec.ofNat 8 (2 + bytes.length) :: bytes) ++ rest))
    (position : ℕ) :
    ∃ s', (deserializeRaw s.position).run { s with position := position } =
        .ok (some ⟨type.setWidth 16, BitVec.ofNat 16 (2 + bytes.length), .raw bytes⟩, s') ∧
      Holds s' rest := by
  have hlen : (BitVec.ofNat 8 (2 + bytes.length)).toNat = 2 + bytes.length :=
    toNat_ofNat_length hl
  have hwide : (BitVec.ofNat 8 (2 + bytes.length)).setWidth 16 =
      BitVec.ofNat 16 (2 + bytes.length) := by
    apply BitVec.eq_of_toNat_eq
    rw [BitVec.toNat_setWidth, hlen, BitVec.toNat_ofNat]
  have hconsumes : Consumes (do
      let type ← readByte
      let length ← readByte
      if length.toNat < 2 then return none
      else
        let bytes ← readByteLoop (length.toNat - 2)
        return some ⟨type.setWidth 16, length.setWidth 16, .raw bytes⟩ : Reader (Option Ipv4Option))
      (concat (type :: BitVec.ofNat 8 (2 + bytes.length) :: bytes))
      (some ⟨type.setWidth 16, BitVec.ofNat 16 (2 + bytes.length), .raw bytes⟩) := by
    rw [concat_cons, concat_cons]
    refine (consumes_readByte type).bind ((consumes_readByte _).bind ?_)
    rw [hlen, if_neg (by omega), Nat.add_sub_cancel_left, hwide]
    exact (consumes_readByteLoop bytes).map fun bytes' =>
      some (⟨type.setWidth 16, BitVec.ofNat 16 (2 + bytes.length), .raw bytes'⟩ : Ipv4Option)
  obtain ⟨s', hrun, hrest⟩ := hconsumes s rest hs
  refine ⟨s', ?_, hrest⟩
  rw [deserializeRaw, StateT.run_bind]
  have hseek : (seek s.position).run { s with position := position } = .ok ((), s) := by
    rw [seek, StateT.run_bind, StateT.run_get, pure_bind]
    simp only [assert, hs.position_le, if_true]
    rfl
  rw [hseek, Error.ok_bind]
  exact hrun

variable {type : Byte} {bytes : List Byte} {s : MemoryInputStream} {rest : List Bool}

theorem deserializeTimestamp_raw (hl : 2 + bytes.length < 256)
    (hs : Holds s (concat (type :: BitVec.ofNat 8 (2 + bytes.length) :: bytes) ++ rest))
    {pointer flagbyte : Byte} {tail : List Byte} (hbytes : bytes = pointer :: flagbyte :: tail)
    (hrefused : ∀ flag, timestampFlag flagbyte = some flag →
      ¬ AcceptsTimestamp flag (2 + bytes.length) pointer.toNat) :
    ∃ s', (deserializeTimestamp s.position).run { s with position := s.position + 8 } =
        .ok (some ⟨type.setWidth 16, BitVec.ofNat 16 (2 + bytes.length), .raw bytes⟩, s') ∧
      Holds s' rest := by
  have hlen := toNat_ofNat_length hl
  have hread := hs
  rw [hbytes, concat_cons, concat_cons, concat_cons, concat_cons, List.append_assoc,
    List.append_assoc, List.append_assoc, List.append_assoc, ← hbytes] at hread
  have h₁ := Holds.advance_byte hread
  have h₂ := Holds.advance_byte h₁
  have h₃ := Holds.advance_byte h₂
  rw [deserializeTimestamp, StateT.run_bind, readByte_run h₁, Error.ok_bind, StateT.run_bind,
    readByte_run h₂, Error.ok_bind, StateT.run_bind, readByte_run h₃, Error.ok_bind]
  cases hflag : timestampFlag flagbyte with
  | none => exact deserializeRaw_run hl hs _
  | some flag =>
    have hnot := hrefused flag hflag
    simp only [hlen, hnot, if_false]
    exact deserializeRaw_run hl hs _

theorem deserializeRoute_raw (hl : 2 + bytes.length < 256)
    (hs : Holds s (concat (type :: BitVec.ofNat 8 (2 + bytes.length) :: bytes) ++ rest))
    {pointer : Byte} {tail : List Byte} (hbytes : bytes = pointer :: tail)
    (hrefused : ¬ AcceptsRoute (2 + bytes.length) pointer.toNat) :
    ∃ s', (deserializeRoute s.position type).run { s with position := s.position + 8 } =
        .ok (some ⟨type.setWidth 16, BitVec.ofNat 16 (2 + bytes.length), .raw bytes⟩, s') ∧
      Holds s' rest := by
  have hlen := toNat_ofNat_length hl
  have hread := hs
  rw [hbytes, concat_cons, concat_cons, concat_cons, List.append_assoc, List.append_assoc,
    List.append_assoc, ← hbytes] at hread
  have h₁ := Holds.advance_byte hread
  have h₂ := Holds.advance_byte h₁
  rw [deserializeRoute, StateT.run_bind, readByte_run h₁, Error.ok_bind, StateT.run_bind,
    readByte_run h₂, Error.ok_bind]
  simp only [hlen, hrefused, if_false]
  exact deserializeRaw_run hl hs _

theorem consumes_raw (h : RawForm type.toNat bytes) (hl : 2 + bytes.length < 256) :
    Consumes deserializeOption (concat (type :: BitVec.ofNat 8 (2 + bytes.length) :: bytes))
      (some ⟨type.setWidth 16, BitVec.ofNat 16 (2 + bytes.length), .raw bytes⟩) := by
  obtain ⟨h0, h1, hfixed, hroute, htimestamp⟩ := h
  intro s rest hs
  have hread := hs
  rw [concat_cons, concat_cons, List.append_assoc, List.append_assoc] at hread
  have hlength := Holds.advance_byte hread
  have hfour : type.toNat = 136 ∨ type.toNat = 148 →
      ¬ BitVec.ofNat 8 (2 + bytes.length) = (4 : Byte) := by
    intro htype heq
    have hlen := congrArg BitVec.toNat heq
    rw [toNat_ofNat_length hl] at hlen
    simp only [BitVec.reduceToNat] at hlen
    exact hfixed htype (by omega)
  have hne0 : ¬ type = 0 := fun h => h0 (by rw [h]; rfl)
  have hne1 : ¬ type = 1 := fun h => h1 (by rw [h]; rfl)
  rw [deserializeOption, StateT.run_bind, StateT.run_get, pure_bind]
  simp only
  rw [StateT.run_bind, readByte_run hread, Error.ok_bind]
  simp only [hne0, hne1, if_false]
  by_cases h136 : type = 136
  · have hnot := hfour (.inl (by rw [h136]; rfl))
    rw [if_pos h136, StateT.run_bind, readByte_run hlength, Error.ok_bind]
    simp only [hnot, if_false]
    exact deserializeRaw_run hl hs _
  rw [if_neg h136]
  by_cases h68 : type = 68
  · obtain ⟨pointer, flagbyte, tail, hbytes, hrefused⟩ := htimestamp (by rw [h68]; rfl)
    rw [if_pos h68]
    exact deserializeTimestamp_raw hl hs hbytes hrefused
  rw [if_neg h68]
  by_cases hr : type.toNat ∈ routeTypes
  · obtain ⟨pointer, tail, hbytes, hrefused⟩ := hroute hr
    rw [if_pos hr]
    exact deserializeRoute_raw hl hs hbytes hrefused
  rw [if_neg hr]
  by_cases h148 : type = 148
  · have hnot := hfour (.inr (by rw [h148]; rfl))
    rw [if_pos h148, StateT.run_bind, readByte_run hlength, Error.ok_bind]
    simp only [hnot, if_false]
    exact deserializeRaw_run hl hs _
  rw [if_neg h148, StateT.run_bind, readByte_run hlength, Error.ok_bind]
  exact deserializeRaw_run hl hs _

theorem toNat_setWidth_of_lt {v : BitVec 16} (h : v.toNat < 256) :
    (v.setWidth 8).toNat = v.toNat := by
  rw [BitVec.toNat_setWidth]
  exact Nat.mod_eq_of_lt h

theorem setWidth_setWidth_of_lt {v : BitVec 16} (h : v.toNat < 256) :
    (v.setWidth 8).setWidth 16 = v := by
  apply BitVec.eq_of_toNat_eq
  rw [BitVec.toNat_setWidth, toNat_setWidth_of_lt h]
  exact Nat.mod_eq_of_lt v.isLt

theorem eq_of_toNat_eq_ofNat {v : BitVec 16} {n : ℕ} (h : v.toNat = n) : v = BitVec.ofNat 16 n := by
  rw [← h, BitVec.ofNat_toNat, BitVec.setWidth_eq]

section Records

theorem consumes_readAddresses (recordAddress : List (BitVec 32)) :
    Consumes (readAddresses recordAddress.length) (concat (recordAddress.flatMap addressBytes))
      recordAddress := by
  induction recordAddress with
  | nil => exact Consumes.pure []
  | cons address recordAddress ih =>
    rw [List.flatMap_cons, concat_append]
    apply (consumes_readUint32Be address).bind
    simpa only [BitVec.ofNat_toNat, BitVec.setWidth_eq] using ih.map (address :: ·)

theorem wireTimestamp_ofMs {ms : ℕ} (h : ms < 2 ^ 32) : wireTimestamp (SimTime.ofMs ms) = ms := by
  rw [wireTimestamp, SimTime.inMs, SimTime.ofMs, Int.mul_tdiv_cancel _ (by decide)]
  omega

theorem consumes_wireTimestamp {t : SimTime} (h : IsWireTimestamp t) :
    ∃ ms : ℕ, t = SimTime.ofMs ms ∧
      Consumes readUint32Be (concat (shiftedBytes [24, 16, 8, 0] (wireTimestamp t))) ms := by
  obtain ⟨ms, hms, rfl⟩ := h
  refine ⟨ms, rfl, ?_⟩
  rw [wireTimestamp_ofMs hms]
  exact consumes_readShifted _ hms (by simp; omega)

theorem consumes_readRecords {bytes : ℕ} {recordAddress : List (BitVec 32)}
    {recordTimestamp : List SimTime}
    (haddress : recordAddress.length = if bytes = 8 then recordTimestamp.length else 0)
    (ht : ∀ t ∈ recordTimestamp, IsWireTimestamp t) :
    Consumes (readRecords bytes recordTimestamp.length)
      (concat (recordBytes bytes recordAddress recordTimestamp))
        (recordAddress, recordTimestamp) := by
  induction recordTimestamp generalizing recordAddress with
  | nil =>
    have hnil : recordAddress = [] := by
      rw [← List.length_eq_zero_iff, haddress]
      split <;> rfl
    subst hnil
    exact Consumes.pure ([], [])
  | cons t recordTimestamp ih =>
    obtain ⟨ht, hts⟩ := List.forall_mem_cons.1 ht
    obtain ⟨ms, hms, hread⟩ := consumes_wireTimestamp ht
    rw [List.length_cons, readRecords]
    by_cases hbytes : bytes = 8
    · rw [if_pos hbytes] at haddress
      cases recordAddress with
      | nil => cases haddress
      | cons address recordAddress =>
        have hrest := @ih recordAddress (by
          rw [if_pos hbytes]
          exact Nat.succ.inj haddress) hts
        have haddr := (consumes_readUint32Be address).map fun value => [BitVec.ofNat 32 value]
        simp only [BitVec.ofNat_toNat, BitVec.setWidth_eq] at haddr
        rw [recordBytes, if_pos hbytes, if_pos hbytes, concat_append, concat_append,
          List.append_assoc]
        refine haddr.bind (hread.bind ?_)
        rw [← hms]
        exact hrest.map fun records => ([address] ++ records.1, t :: records.2)
    · rw [if_neg hbytes] at haddress
      obtain rfl := List.length_eq_zero_iff.1 haddress
      have hrest := @ih [] (by rw [if_neg hbytes]; rfl) hts
      rw [recordBytes, if_neg hbytes, concat_append, ← List.nil_append (concat _ ++ _)]
      refine (Consumes.pure ([] : List (BitVec 32))).bind (hread.bind ?_)
      rw [← hms]
      exact hrest.map fun records => ([] ++ records.1, t :: records.2)

end Records

section Options

variable {bits : List Bool} {out : Option Ipv4Option}

theorem consumes_timestampType (h : ∀ position, Consumes (deserializeTimestamp position) bits out) :
    Consumes deserializeOption (msb (68 : Byte) ++ bits) out := by
  apply consumes_get_bind
  intro s
  exact (consumes_readByte 68).bind (h s.position)

theorem consumes_routeType {type : Byte} (htype : type.toNat ∈ routeTypes)
    (h : ∀ position, Consumes (deserializeRoute position type) bits out) :
    Consumes deserializeOption (msb type ++ bits) out := by
  have hne : ∀ n : Byte, n.toNat ∉ routeTypes → ¬ type = n := by
    rintro n hn rfl
    exact hn htype
  apply consumes_get_bind
  intro s
  apply (consumes_readByte type).bind
  rw [if_neg (hne 0 (by decide)), if_neg (hne 1 (by decide)), if_neg (hne 136 (by decide)),
    if_neg (hne 68 (by decide)), if_pos htype]
  exact h s.position

theorem consumes_streamId (streamId : BitVec 16) :
    Consumes deserializeOption (concat (136 :: 4 :: shiftedBytes [8, 0] streamId.toNat))
      (some ⟨136, 4, .streamId streamId⟩) := by
  have h := (consumes_readUint16Be streamId).map fun value =>
    some (⟨136, 4, .streamId (BitVec.ofNat 16 value)⟩ : Ipv4Option)
  simp only [BitVec.ofNat_toNat, BitVec.setWidth_eq] at h
  rw [concat_cons, concat_cons]
  apply consumes_get_bind
  intro s
  exact (consumes_readByte 136).bind ((consumes_readByte 4).bind h)

theorem consumes_routerAlert (routerAlert : BitVec 16) :
    Consumes deserializeOption (concat (148 :: 4 :: shiftedBytes [8, 0] routerAlert.toNat))
      (some ⟨148, 4, .routerAlert routerAlert⟩) := by
  have h := (consumes_readUint16Be routerAlert).map fun value =>
    some (⟨148, 4, .routerAlert (BitVec.ofNat 16 value)⟩ : Ipv4Option)
  simp only [BitVec.ofNat_toNat, BitVec.setWidth_eq] at h
  rw [concat_cons, concat_cons]
  apply consumes_get_bind
  intro s
  exact (consumes_readByte 148).bind ((consumes_readByte 4).bind h)

theorem flagbyte_spec (flag : TimestampFlag) {overflow : ℤ} (h0 : 0 ≤ overflow)
    (h15 : overflow ≤ 15) :
    timestampFlag (flagbyte flag overflow) = some flag ∧
      ((flagbyte flag overflow >>> 4).toNat : ℤ) = overflow := by
  obtain ⟨n, rfl⟩ := Int.eq_ofNat_of_zero_le h0
  have hall : ∀ n : ℕ, n < 16 → timestampFlag (flagbyte flag (n : ℤ)) = some flag ∧
      (flagbyte flag (n : ℤ) >>> 4).toNat = n := by
    cases flag <;> decide
  obtain ⟨hflag, hoverflow⟩ := hall n (by omega)
  exact ⟨hflag, by rw [hoverflow]⟩

theorem TimestampFlag.bytes_cases (flag : TimestampFlag) : flag.bytes = 4 ∨ flag.bytes = 8 := by
  cases flag <;> decide

theorem toNat_pointer {base size k : ℕ} (h : base + k * size ≤ 255) :
    (BitVec.ofInt 8 ((base : ℤ) + k * size)).toNat = base + k * size := by
  rw [BitVec.toNat_ofInt]
  omega

theorem consumes_timestamp {length : BitVec 16} (hl : length.toNat < 256) {flag : TimestampFlag}
    {overflow nextIdx : ℤ} {recordAddress : List (BitVec 32)} {recordTimestamp : List SimTime}
    (hlength : length.toNat = 4 + flag.bytes * recordTimestamp.length)
    (hpointer : 5 + nextIdx * flag.bytes ≤ 255) (h0 : 0 ≤ overflow) (h15 : overflow ≤ 15)
    (hidx : 0 ≤ nextIdx)
    (haddress : recordAddress.length = if flag.bytes = 8 then recordTimestamp.length else 0)
    (ht : ∀ t ∈ recordTimestamp, IsWireTimestamp t) (hne : recordTimestamp ≠ []) (position : ℕ) :
    Consumes (deserializeTimestamp position)
      (concat (length.setWidth 8 ::
        bodyBytes (.timestamp flag overflow nextIdx recordAddress recordTimestamp)))
      (some ⟨68, length, .timestamp flag overflow nextIdx recordAddress recordTimestamp⟩) := by
  obtain ⟨k, rfl⟩ := Int.eq_ofNat_of_zero_le hidx
  obtain ⟨hflag, hoverflow⟩ := flagbyte_spec flag h0 h15
  have hp : (BitVec.ofInt 8 (5 + (k : ℤ) * flag.bytes)).toNat = 5 + k * flag.bytes :=
    @toNat_pointer 5 flag.bytes k (by omega)
  have hn : 0 < recordTimestamp.length := List.length_pos_iff.2 hne
  have hbytes : 0 < flag.bytes := by
    rcases TimestampFlag.bytes_cases flag with h | h <;> omega
  have hlen := toNat_setWidth_of_lt hl
  have haccepts : AcceptsTimestamp flag (length.setWidth 8).toNat
      (BitVec.ofInt 8 (5 + (k : ℤ) * flag.bytes)).toNat := by
    have := Nat.mul_pos hbytes hn
    refine ⟨by omega, ?_, by omega, ?_⟩
    · rw [hlen, hlength, Nat.add_sub_cancel_left, Nat.mul_mod_right]
    · rw [hp, Nat.add_sub_cancel_left, Nat.mul_mod_left]
  have hcount : ((length.setWidth 8).toNat - 4) / flag.bytes = recordTimestamp.length := by
    rw [hlen, hlength, Nat.add_sub_cancel_left, Nat.mul_div_cancel_left _ hbytes]
  have hk : ((BitVec.ofInt 8 (5 + (k : ℤ) * flag.bytes)).toNat - 5) / flag.bytes = k := by
    rw [hp, Nat.add_sub_cancel_left, Nat.mul_div_cancel _ hbytes]
  rw [bodyBytes, concat_cons, concat_cons, concat_cons]
  refine (consumes_readByte _).bind ((consumes_readByte _).bind ((consumes_readByte _).bind ?_))
  rw [hflag]
  simp only
  rw [if_pos haccepts, hcount, hk, hoverflow, setWidth_setWidth_of_lt hl]
  exact (consumes_readRecords haddress ht).map fun records =>
    some (⟨68, length, .timestamp flag overflow k records.1 records.2⟩ : Ipv4Option)

theorem consumes_route {type : Byte} {length : BitVec 16} (hl : length.toNat < 256)
    {nextAddressIdx : ℤ} {recordAddress : List (BitVec 32)}
    (hlength : length.toNat = 3 + 4 * recordAddress.length)
    (hpointer : 4 + nextAddressIdx * 4 ≤ 255) (hidx : 0 ≤ nextAddressIdx)
    (hne : recordAddress ≠ []) (position : ℕ) :
    Consumes (deserializeRoute position type)
      (concat (length.setWidth 8 :: bodyBytes (.recordRoute nextAddressIdx recordAddress)))
      (some ⟨type.setWidth 16, length, .recordRoute nextAddressIdx recordAddress⟩) := by
  obtain ⟨k, rfl⟩ := Int.eq_ofNat_of_zero_le hidx
  have hp : (BitVec.ofInt 8 (4 + (k : ℤ) * 4)).toNat = 4 + k * 4 :=
    @toNat_pointer 4 4 k (by omega)
  have hn : 0 < recordAddress.length := List.length_pos_iff.2 hne
  have hlen := toNat_setWidth_of_lt hl
  have haccepts : AcceptsRoute (length.setWidth 8).toNat
      (BitVec.ofInt 8 (4 + (k : ℤ) * 4)).toNat := by
    refine ⟨by omega, by omega, by omega, by omega⟩
  have hcount : ((length.setWidth 8).toNat - 3) / 4 = recordAddress.length := by omega
  have hk : ((BitVec.ofInt 8 (4 + (k : ℤ) * 4)).toNat - 4) / 4 = k := by omega
  rw [bodyBytes, concat_cons, concat_cons]
  refine (consumes_readByte _).bind ((consumes_readByte _).bind ?_)
  rw [if_pos haccepts, hcount, hk, setWidth_setWidth_of_lt hl]
  exact (consumes_readAddresses recordAddress).map fun recordAddress =>
    some (⟨type.setWidth 16, length, .recordRoute k recordAddress⟩ : Ipv4Option)

theorem consumes_wireForm_raw {option : Ipv4Option} (htype : option.type.toNat < 256)
    (hl : option.length.toNat < 256)
    (hlength : option.length.toNat = 2 + (bodyBytes option.body).length)
    (hraw : RawForm option.type.toNat (bodyBytes option.body)) :
    Consumes deserializeOption (concat option.bytes)
      (some { option with body := .raw (bodyBytes option.body) }) := by
  have hbyte : option.length.setWidth 8 = BitVec.ofNat 8 (2 + (bodyBytes option.body).length) := by
    apply BitVec.eq_of_toNat_eq
    rw [toNat_setWidth_of_lt hl, toNat_ofNat_length (by omega), hlength]
  have h := @consumes_raw (option.type.setWidth 8) (bodyBytes option.body)
    (by rwa [toNat_setWidth_of_lt htype]) (by omega)
  rw [setWidth_setWidth_of_lt htype, ← eq_of_toNat_eq_ofNat hlength, ← hbyte] at h
  rw [Ipv4Option.bytes, if_pos (by omega)]
  exact h

theorem routeTypes_lt {type : ℕ} (h : type ∈ routeTypes) : type < 256 ∧ type ≠ 0 ∧ type ≠ 1 ∧
    type ≠ 136 ∧ type ≠ 148 ∧ type ≠ 68 := by
  simp only [routeTypes, List.mem_cons, List.not_mem_nil, or_false] at h
  omega

theorem consumes_option {option : Ipv4Option} (hc : option.Consistent) (hcan : option.Canonical)
    (hl : option.length.toNat < 256) :
    Consumes deserializeOption (concat option.bytes) (some option.wireForm) := by
  obtain ⟨type, length, body⟩ := option
  cases body with
  | optionEnd =>
    obtain ⟨htype, hlength⟩ := hc
    obtain rfl := eq_of_toNat_eq_ofNat htype
    obtain rfl := eq_of_toNat_eq_ofNat hlength
    apply consumes_get_bind
    intro s
    exact (consumes_readByte 0).bind (Consumes.pure _)
  | nop =>
    obtain ⟨htype, hlength⟩ := hc
    obtain rfl := eq_of_toNat_eq_ofNat htype
    obtain rfl := eq_of_toNat_eq_ofNat hlength
    apply consumes_get_bind
    intro s
    exact (consumes_readByte 1).bind (Consumes.pure _)
  | streamId streamId =>
    obtain ⟨htype, hlength⟩ := hc
    obtain rfl := eq_of_toNat_eq_ofNat htype
    obtain rfl := eq_of_toNat_eq_ofNat hlength
    exact consumes_streamId streamId
  | routerAlert routerAlert =>
    obtain ⟨htype, hlength⟩ := hc
    obtain rfl := eq_of_toNat_eq_ofNat htype
    obtain rfl := eq_of_toNat_eq_ofNat hlength
    exact consumes_routerAlert routerAlert
  | timestamp flag overflow nextIdx recordAddress recordTimestamp =>
    obtain ⟨⟨htype, hlength⟩, hpointer, h0, h15, -⟩ := hc
    obtain ⟨hidx, haddress, ht⟩ := hcan
    simp only at htype hlength
    cases recordTimestamp with
    | nil =>
      apply consumes_wireForm_raw (by simp only; omega) hl
      · rw [hlength]
        rfl
      · refine ⟨by simp only; omega, by simp only; omega, ?_, ?_, ?_⟩
        · simp only
          omega
        · intro hroute
          exact absurd htype (routeTypes_lt hroute).2.2.2.2.2
        · intro _
          exact ⟨_, _, [], rfl, fun flag _ haccepts => absurd haccepts.1 (lt_irrefl 4)⟩
    | cons t recordTimestamp =>
      obtain rfl := eq_of_toNat_eq_ofNat htype
      rw [Ipv4Option.bytes, if_pos (by simp only; omega)]
      exact consumes_timestampType (consumes_timestamp hl hlength hpointer h0 h15 hidx haddress ht
        (List.cons_ne_nil _ _))
  | recordRoute nextAddressIdx recordAddress =>
    obtain ⟨htype, hlength, hpointer⟩ := hc
    obtain ⟨hlt, hne0, hne1, hne136, hne148, hne68⟩ := routeTypes_lt htype
    simp only at htype hlength hlt
    cases recordAddress with
    | nil =>
      apply consumes_wireForm_raw (by simp only; omega) hl
      · rw [hlength]
        rfl
      · refine ⟨hne0, hne1, ?_, ?_, ?_⟩
        · rintro (h | h)
          · exact absurd h hne136
          · exact absurd h hne148
        · intro _
          exact ⟨_, [], rfl, fun haccepts => absurd haccepts.1 (lt_irrefl 3)⟩
        · intro h
          exact absurd h hne68
    | cons address recordAddress =>
      have hroute := @consumes_routeType _ _ (type.setWidth 8)
        (by rwa [toNat_setWidth_of_lt hlt])
        (consumes_route hl hlength hpointer hcan (List.cons_ne_nil _ _))
      rw [setWidth_setWidth_of_lt hlt] at hroute
      rw [Ipv4Option.bytes, if_pos (by simp only; omega)]
      exact hroute
  | raw bytes => exact consumes_wireForm_raw hcan.1 hl hc hcan.2
  | unknown => exact hc.elim

end Options

section Length

theorem keepsLength_get_bind {α : Type} {f : MemoryInputStream → Reader α}
    (h : ∀ s, KeepsLength (f s)) : KeepsLength (do let s ← get; f s) := by
  intro s a s' hrun
  rw [StateT.run_bind, StateT.run_get, pure_bind] at hrun
  exact h s s a s' hrun

theorem keepsLength_deserializeRaw (position : ℕ) : KeepsLength (deserializeRaw position) := by
  have hseek : KeepsLength (seek position) := by
    intro s a s' hrun
    rw [seek, StateT.run_bind, StateT.run_get, pure_bind] at hrun
    unfold assert at hrun
    split at hrun
    · cases hrun
      rfl
    · cases hrun
  refine hseek.bind fun _ => keepsLength_readByte.bind fun _ => keepsLength_readByte.bind ?_
  intro length
  split
  · exact KeepsLength.pure _
  · exact (keepsLength_readByteLoop _).bind fun _ => KeepsLength.pure _

theorem keepsLength_readRecords (bytes n : ℕ) : KeepsLength (readRecords bytes n) := by
  induction n with
  | zero => exact KeepsLength.pure _
  | succ n ih =>
    apply KeepsLength.bind
    · split
      · exact (keepsLength_readShifted _).bind fun _ => KeepsLength.pure _
      · exact KeepsLength.pure _
    · exact fun _ => (keepsLength_readShifted _).bind fun _ => ih.bind fun _ => KeepsLength.pure _

theorem keepsLength_readAddresses (n : ℕ) : KeepsLength (readAddresses n) := by
  induction n with
  | zero => exact KeepsLength.pure _
  | succ n ih =>
    exact (keepsLength_readShifted _).bind fun _ => ih.bind fun _ => KeepsLength.pure _

theorem keepsLength_deserializeTimestamp (position : ℕ) :
    KeepsLength (deserializeTimestamp position) := by
  refine keepsLength_readByte.bind fun length => keepsLength_readByte.bind fun pointer =>
    keepsLength_readByte.bind fun flagbyte => ?_
  split
  · split
    · exact (keepsLength_readRecords _ _).bind fun _ => KeepsLength.pure _
    · exact keepsLength_deserializeRaw position
  · exact keepsLength_deserializeRaw position

theorem keepsLength_deserializeRoute (position : ℕ) (type : Byte) :
    KeepsLength (deserializeRoute position type) := by
  refine keepsLength_readByte.bind fun length => keepsLength_readByte.bind fun pointer => ?_
  split
  · exact (keepsLength_readAddresses _).bind fun _ => KeepsLength.pure _
  · exact keepsLength_deserializeRaw position

theorem keepsLength_fixed (position : ℕ) (f : ℕ → Ipv4Option) : KeepsLength (do
    let length ← readByte
    if length = 4 then
      let value ← readUint16Be
      return some (f value)
    else deserializeRaw position : Reader (Option Ipv4Option)) := by
  apply keepsLength_readByte.bind
  intro length
  split
  · exact (keepsLength_readShifted _).bind fun _ => KeepsLength.pure _
  · exact keepsLength_deserializeRaw position

theorem keepsLength_deserializeOption : KeepsLength Ipv4HeaderSerializer.deserializeOption := by
  apply keepsLength_get_bind
  intro s
  apply keepsLength_readByte.bind
  intro type
  split
  · exact KeepsLength.pure _
  split
  · exact KeepsLength.pure _
  split
  · exact keepsLength_fixed s.position fun value => ⟨136, 4, .streamId (BitVec.ofNat 16 value)⟩
  split
  · exact keepsLength_deserializeTimestamp s.position
  split
  · exact keepsLength_deserializeRoute s.position type
  split
  · exact keepsLength_fixed s.position fun value => ⟨148, 4, .routerAlert (BitVec.ofNat 16 value)⟩
  · exact keepsLength_readByte.bind fun _ => keepsLength_deserializeRaw s.position

end Length

theorem deserializeOptions_run {position headerLength : ℕ} {options : List Ipv4Option}
    (h : ∀ option ∈ options, option.Consistent ∧ option.Canonical ∧ option.length.toNat < 256)
    {s : MemoryInputStream} {rest : List Bool}
    (hs : Holds s (concat (options.flatMap Ipv4Option.bytes) ++ rest)) (hp : position ≤ s.position)
    (hend : s.position + 8 * (options.flatMap Ipv4Option.bytes).length =
      position + 8 * headerLength)
    {fuel : ℕ} (hf : options.length < fuel) :
    ∃ s', (Ipv4HeaderSerializer.deserializeOptions position headerLength fuel).run s =
      .ok ((options.map Ipv4Option.wireForm, false), s') ∧ Holds s' rest := by
  induction options generalizing s fuel with
  | nil =>
    obtain ⟨fuel, rfl⟩ := Nat.exists_eq_succ_of_ne_zero (show fuel ≠ 0 by omega)
    simp only [List.flatMap_nil, List.length_nil] at hend
    have hstop : ¬ (s.getRemainingLength > 0 ∧ s.position - position < 8 * headerLength) := by
      omega
    refine ⟨s, ?_, by simpa using hs⟩
    rw [Ipv4HeaderSerializer.deserializeOptions, StateT.run_bind, StateT.run_get, pure_bind]
    simp only [hstop, if_false]
    rfl
  | cons option options ih =>
    obtain ⟨fuel, rfl⟩ := Nat.exists_eq_succ_of_ne_zero (show fuel ≠ 0 by omega)
    obtain ⟨⟨hc, hcan, hl⟩, h⟩ := List.forall_mem_cons.1 h
    rw [List.flatMap_cons, concat_append, List.append_assoc] at hs
    rw [List.flatMap_cons, List.length_append] at hend
    have hpos : 0 < option.bytes.length := by simp [Ipv4Option.bytes]
    have hadd := hs.position_add_length
    rw [List.length_append, length_concat] at hadd
    have hgo : s.getRemainingLength > 0 ∧ s.position - position < 8 * headerLength := by
      rw [getRemainingLength]
      omega
    obtain ⟨s₁, h₁, hs₁⟩ := consumes_option hc hcan hl s _ hs
    have hlen := keepsLength_deserializeOption _ _ _ h₁
    have hadd₁ := hs₁.position_add_length
    obtain ⟨s₂, h₂, hs₂⟩ := ih h hs₁ (by omega) (by omega) (show options.length < fuel by
      rw [List.length_cons] at hf
      omega)
    refine ⟨s₂, ?_, hs₂⟩
    rw [Ipv4HeaderSerializer.deserializeOptions, StateT.run_bind, StateT.run_get, pure_bind]
    simp only [hgo, and_self, if_true]
    rw [StateT.run_bind, h₁, Error.ok_bind]
    simp only
    rw [StateT.run_bind, h₂]
    rfl

end Deserialize

section FixedFields

variable (header : Ipv4Header)

theorem ipOff_flags : (ipOff header &&& 0x8000 != 0) = header.reservedBit ∧
    (ipOff header &&& 0x2000 != 0) = header.moreFragments ∧
    (ipOff header &&& 0x4000 != 0) = header.dontFragment ∧
    ipOff header &&& 0x1fff = header.fragmentOffset / 8 &&& 0x1fff := by
  have hmask : ∀ mask : BitVec 16, header.fragmentOffset / 8 &&& 0x1fff &&& mask =
      header.fragmentOffset / 8 &&& (0x1fff &&& mask) := fun mask => BitVec.and_assoc _ _ _
  simp only [ipOff, BitVec.and_or_distrib_right, hmask]
  generalize header.reservedBit = r, header.moreFragments = m, header.dontFragment = d
  cases r <;> cases m <;> cases d <;> simp

theorem fragmentOffset_eq (h : header.fragmentOffset &&& 7 = 0) :
    (header.fragmentOffset / 8 &&& 0x1fff) * 8 = header.fragmentOffset := by
  have hmod : header.fragmentOffset.toNat % 8 = 0 := by
    have := congrArg BitVec.toNat h
    rw [BitVec.toNat_and] at this
    exact (Nat.and_two_pow_sub_one_eq_mod _ 3).symm.trans this
  have hlt := header.fragmentOffset.isLt
  have hdiv : (header.fragmentOffset / 8 &&& 0x1fff).toNat = header.fragmentOffset.toNat / 8 := by
    rw [BitVec.toNat_and, BitVec.toNat_udiv]
    have := Nat.and_two_pow_sub_one_eq_mod (header.fragmentOffset.toNat / 8) 13
    rw [Nat.mod_eq_of_lt (by omega)] at this
    exact this
  apply BitVec.eq_of_toNat_eq
  rw [BitVec.toNat_mul, hdiv]
  simp only [BitVec.reduceToNat]
  omega

/-- The nibbles of the first byte. -/
theorem version_headerLength {version : ℤ} {headerLength : ℕ} (h0 : 0 ≤ version)
    (h15 : version ≤ 15) (hm : headerLength % 4 = 0) (hl : headerLength ≤ 60) :
    (((BitVec.ofInt 4 version ++ BitVec.ofNat 4 (headerLength / 4)).extractLsb' 4 4).toNat : ℤ) =
      version ∧
    ((BitVec.ofInt 4 version ++ BitVec.ofNat 4 (headerLength / 4)).extractLsb' 0 4).toNat * 4 =
      headerLength := by
  rw [BitVec.extractLsb'_append_eq_left, BitVec.extractLsb'_append_eq_right, BitVec.toNat_ofNat,
    BitVec.toNat_ofInt]
  omega

theorem toNat_ofInt_byte {value : ℤ} (h0 : 0 ≤ value) (h255 : value ≤ 255) :
    ((BitVec.ofInt 8 value).toNat : ℤ) = value := by
  rw [BitVec.toNat_ofInt]
  omega

/-- The fields fit the octets of the header. -/
structure FieldsFit (header : Ipv4Header) : Prop where
  typeOfService : 0 ≤ header.typeOfService ∧ header.typeOfService ≤ 255
  timeToLive : 0 ≤ header.timeToLive ∧ header.timeToLive ≤ 255
  totalLengthField : header.totalLengthField < 65536

variable {header}

theorem ofIphdr_iphdr (hm : header.headerLength % 4 = 0) (hl : header.headerLength ≤ 60)
    (hv : 0 ≤ header.version ∧ header.version ≤ 15) (ho : header.fragmentOffset &&& 7 = 0)
    (hc : header.checksumMode = .computed) (hf : FieldsFit header) :
    ofIphdr (iphdr header) = .ok { header with options := [] } := by
  obtain ⟨hversion, hlength⟩ := version_headerLength hv.1 hv.2 hm hl
  obtain ⟨hreserved, hmore, hdont, hoff⟩ := ipOff_flags header
  have htos := toNat_ofInt_byte hf.typeOfService.1 hf.typeOfService.2
  have httl := toNat_ofInt_byte hf.timeToLive.1 hf.timeToLive.2
  have htotal : (BitVec.ofNat 16 header.totalLengthField).toNat = header.totalLengthField := by
    rw [BitVec.toNat_ofNat]
    exact Nat.mod_eq_of_lt hf.totalLengthField
  simp only [iphdr, htons, htonl, ofIphdr, List.cons_append, List.nil_append, ntohs_htons,
    ntohl_htonl, hversion, hlength, hreserved, hmore, hdont, hoff, fragmentOffset_eq header ho,
      htos,
    httl, htotal]
  rw [← hc]
  rfl

end FixedFields

section Lengths

theorem length_recordBytes {bytes : ℕ} (hb : bytes = 4 ∨ bytes = 8)
    {recordAddress : List (BitVec 32)} {recordTimestamp : List SimTime}
    (hle : bytes = 8 → recordTimestamp.length ≤ recordAddress.length) :
    (recordBytes bytes recordAddress recordTimestamp).length = bytes * recordTimestamp.length := by
  have hword : ∀ value, (shiftedBytes [24, 16, 8, 0] value).length = 4 := fun _ => rfl
  induction recordTimestamp generalizing recordAddress with
  | nil =>
    unfold recordBytes
    rfl
  | cons t recordTimestamp ih =>
    cases recordAddress with
    | nil =>
      have h4 : bytes = 4 := by
        rcases hb with h | h
        · exact h
        · exact absurd (hle h) (by simp)
      have hrest := @ih [] (by omega)
      rw [recordBytes, List.length_append, hword, hrest, List.length_cons, h4]
      omega
    | cons address recordAddress =>
      rw [recordBytes, List.length_cons]
      rcases hb with h | h
      · have hrest := @ih (address :: recordAddress) (by omega)
        rw [if_neg (by omega), List.length_append, hword, hrest, h]
        omega
      · have hrest := @ih recordAddress (fun _ => Nat.le_of_succ_le_succ (hle h))
        rw [if_pos h, List.length_append, List.length_append, hword, hword, hrest, h]
        omega

theorem length_bytes_body {option : Ipv4Option} (h : 1 < option.length.toNat) :
    option.bytes.length = 2 + (bodyBytes option.body).length := by
  simp only [Ipv4Option.bytes, if_pos h, List.cons_append, List.length_cons, List.nil_append]
  omega

theorem length_optionBytes {option : Ipv4Option} (h : option.Consistent) :
    option.bytes.length = option.length.toNat := by
  obtain ⟨type, length, body⟩ := option
  cases body with
  | optionEnd | nop =>
    obtain ⟨-, hl⟩ := h
    simp only at hl
    simp [Ipv4Option.bytes, bodyBytes, hl]
  | streamId | routerAlert =>
    obtain ⟨-, hl⟩ := h
    simp only at hl
    rw [length_bytes_body (by simp only; omega), hl]
    rfl
  | timestamp flag overflow nextIdx recordAddress recordTimestamp =>
    obtain ⟨⟨-, hl⟩, -, -, -, hle⟩ := h
    simp only at hl
    rw [length_bytes_body (by simp only; omega), bodyBytes, List.length_cons, List.length_cons,
      length_recordBytes (TimestampFlag.bytes_cases flag) hle, hl]
    omega
  | recordRoute nextAddressIdx recordAddress =>
    obtain ⟨-, hl, -⟩ := h
    simp only at hl
    have hsum : (recordAddress.flatMap addressBytes).length = recordAddress.length * 4 := by
      rw [List.length_flatMap]
      simp [addressBytes, shiftedBytes]
    rw [length_bytes_body (by simp only; omega), bodyBytes, List.length_cons, hsum, hl]
    omega
  | raw bytes =>
    have hl : length.toNat = 2 + bytes.length := h
    rw [length_bytes_body (by simp only; omega), hl]
    rfl
  | unknown => exact h.elim

theorem length_flatMap_optionBytes {options : List Ipv4Option}
    (h : ∀ option ∈ options, option.Consistent) :
    (options.flatMap Ipv4Option.bytes).length =
      (options.map fun option => option.length.toNat).sum := by
  rw [List.length_flatMap]
  congr 1
  exact List.map_congr_left fun option hmem => length_optionBytes (h option hmem)

end Lengths

/-- The header is long enough for its options. -/
structure Covers (header : Ipv4Header) : Prop where
  length_pos : ∀ option ∈ header.options, 0 < option.length.toInt
  sum_length_le :
    (minHeaderLength : ℤ) + (header.options.map fun option => option.length.toInt).sum ≤
    header.headerLength

def endOption : Ipv4Option := ⟨0, 1, .optionEnd⟩

/-- The bytes behind the options. -/
def paddingLength (header : Ipv4Header) : ℕ :=
  header.headerLength - minHeaderLength - (header.options.map fun option => option.length.toNat).sum

/-- The options and the padding. -/
def paddedOptions (header : Ipv4Header) : List Ipv4Option :=
  header.options ++ List.replicate (paddingLength header) endOption

section Header

variable {header : Ipv4Header}

theorem toInt_eq_toNat {v : BitVec 16} (h : 0 < v.toInt) : v.toInt = v.toNat := by
  have hlt := v.isLt
  rw [BitVec.toInt_eq_toNat_cond] at h ⊢
  split at h
  next hsmall => rw [if_pos hsmall]
  next hlarge => omega

theorem Covers.sum_eq (h : Covers header) :
    (header.options.map fun option => option.length.toInt).sum =
      ((header.options.map fun option => option.length.toNat).sum : ℕ) := by
  have hmap : header.options.map (fun option => option.length.toInt) =
      header.options.map fun option => (option.length.toNat : ℤ) :=
    List.map_congr_left fun option hmem => toInt_eq_toNat (h.length_pos option hmem)
  rw [hmap, Nat.cast_list_sum, List.map_map]
  rfl

theorem Covers.length_le (h : Covers header) :
    header.options.length ≤ (header.options.map fun option => option.length.toNat).sum := by
  have hpos := h.length_pos
  generalize header.options = options at hpos
  induction options with
  | nil => exact le_rfl
  | cons option options ih =>
    obtain ⟨hfirst, hrest⟩ := List.forall_mem_cons.1 hpos
    have := ih hrest
    have := toInt_eq_toNat hfirst
    simp only [List.length_cons, List.map_cons, List.sum_cons]
    omega

theorem Covers.writtenOptions_eq (h : Covers header) (hl : header.headerLength ≤ 60) :
    Ipv4HeaderSerializer.writtenOptions header = header.options := by
  have hle := h.length_le
  have hsum := h.sum_length_le
  rw [h.sum_eq] at hsum
  rw [Ipv4HeaderSerializer.writtenOptions, Nat.mod_eq_of_lt (by omega), List.take_length]

theorem length_iphdr (header : Ipv4Header) : (iphdr header).length = minHeaderLength := rfl

theorem flatMap_paddedOptions (header : Ipv4Header) :
    (paddedOptions header).flatMap Ipv4Option.bytes =
      header.options.flatMap Ipv4Option.bytes ++ List.replicate (paddingLength header) 0 := by
  rw [paddedOptions, List.flatMap_append, List.flatMap_replicate]
  congr 1
  generalize paddingLength header = n
  induction n with
  | zero => rfl
  | succ n ih =>
    rw [List.replicate_succ, List.replicate_succ, List.flatten_cons, ih]
    rfl

theorem packs_serializeOptions (hcovers : Covers header) (hl : header.headerLength ≤ 60)
    {s s' : MemoryOutputStream} {bits : List Bool} (hs : Packs s bits)
    (hbits : bits.length = 8 * minHeaderLength)
    (h : serializeOptions 0 s header = .ok s') :
    (∀ option ∈ header.options, option.Consistent) ∧
      Packs s' (bits ++ concat ((paddedOptions header).flatMap Ipv4Option.bytes)) := by
  unfold serializeOptions at h
  obtain ⟨s₁, hs₁, h⟩ := Error.exists_of_bind_eq_ok h
  obtain ⟨hcons, hp⟩ := hs.foldlM (fun _ _ _ _ hs h => packs_serializeOption hs h) hs₁
  rw [hcovers.writtenOptions_eq hl] at hcons hp
  rw [← concat_flatMap] at hp
  refine ⟨hcons, ?_⟩
  split at h
  · cases h
  next =>
    have hlength := length_flatMap_optionBytes hcons
    have hsum := hcovers.sum_length_le
    rw [hcovers.sum_eq] at hsum
    have hwritten : (s₁.getLength - 0) / 8 = minHeaderLength +
        (header.options.map fun option => option.length.toNat).sum := by
      rw [MemoryOutputStream.getLength, hp.length_eq, List.length_append, length_concat, hbits,
        hlength]
      omega
    have hpadding : header.headerLength - (minHeaderLength +
        (header.options.map fun option => option.length.toNat).sum) = paddingLength header := by
      rw [paddingLength]
      omega
    rw [flatMap_paddedOptions, concat_append, ← List.append_assoc]
    cases h
    simp only [hwritten]
    split
    next hless =>
      rw [hpadding]
      exact hp.writeByte_foldl _
    next hfull =>
      have hzero : paddingLength header = 0 := by
        rw [paddingLength]
        omega
      rw [hzero, List.replicate_zero, concat_nil, List.append_nil]
      exact hp

/-- What the serializer checks in a header. -/
structure Accepted (header : Ipv4Header) : Prop where
  headerLength_mod : header.headerLength % 4 = 0
  headerLength_ge : minHeaderLength ≤ header.headerLength
  headerLength_le : header.headerLength ≤ 60
  headerLength_le_total : header.headerLength ≤ header.totalLengthField
  version : 0 ≤ header.version ∧ header.version ≤ 15
  fragmentOffset : header.fragmentOffset &&& 7 = 0
  checksumMode : header.checksumMode = .computed

theorem packs_serialize (hcovers : Covers header) {stream : MemoryOutputStream}
    (h : serialize empty header = .ok stream) :
    Accepted header ∧ (∀ option ∈ header.options, option.Consistent) ∧
      Packs stream (concat (iphdr header) ++
        concat ((paddedOptions header).flatMap Ipv4Option.bytes)) := by
  unfold serialize at h
  simp only at h
  split at h
  · cases h
  rename_i hlength
  split at h
  · cases h
  rename_i htotal
  split at h
  · cases h
  rename_i hversion
  split at h
  · cases h
  rename_i hoffset
  split at h
  · cases h
  rename_i hmode
  rw [maxHeaderLength] at hlength
  have haccepted : Accepted header :=
    ⟨by omega, by omega, by omega, by omega, by omega, not_not.1 hoffset, not_not.1 hmode⟩
  obtain ⟨s₁, hw, hp⟩ := packs_empty.writeBuffer (length_iphdr header).ge
  rw [hw, Error.ok_bind] at h
  rw [List.nil_append, ← length_iphdr header, List.take_length] at hp
  refine ⟨haccepted, ?_⟩
  split at h
  next hmore =>
    exact packs_serializeOptions hcovers haccepted.headerLength_le hp
      (by rw [length_concat, length_iphdr]) h
  next hnone =>
    cases h
    have hsum := hcovers.sum_length_le
    have hcount := hcovers.length_le
    have hge := haccepted.headerLength_ge
    rw [hcovers.sum_eq] at hsum
    have hnil : header.options = [] := by
      rw [← List.length_eq_zero_iff]
      omega
    have hpadding : paddingLength header = 0 := by
      rw [paddingLength]
      omega
    rw [paddedOptions, hnil, hpadding]
    constructor
    · intro option hmem
      cases hmem
    · simpa using hp

end Header

/-- `header` is written without an error, and reading it consumes exactly the written bytes and
returns `header'`, correct and complete. -/
def ReadsBack (header header' : Ipv4Header) : Prop :=
  ∃ output input final, serialize empty header = .ok output ∧
    MemoryInputStream.ofData output.getData output.getLength = .ok input ∧
    deserializeFields.run input =
      .ok ({ header := header', isIncorrect := false, isIncomplete := false }, final) ∧
    final.getRemainingLength = 0 ∧ final.isReadBeyondEnd = false

section RoundTrip

variable {header : Ipv4Header}

theorem ReadsBack.unique {header' header'' : Ipv4Header} (h : ReadsBack header header')
    (h' : ReadsBack header header'') : header' = header'' := by
  obtain ⟨output, input, final, hw, hi, hread, -, -⟩ := h
  obtain ⟨output', input', final', hw', hi', hread', -, -⟩ := h'
  rw [hw, Except.ok.injEq] at hw'
  rw [← hw', hi, Except.ok.injEq] at hi'
  rw [← hi', hread, Except.ok.injEq, Prod.mk.injEq, Deserialized.mk.injEq] at hread'
  exact hread'.1.1

theorem consistent_endOption : endOption.Consistent ∧ endOption.Canonical ∧
    endOption.length.toNat < 256 :=
  ⟨⟨rfl, rfl⟩, trivial, by decide⟩

theorem wireForm_endOption : endOption.wireForm = endOption := rfl

theorem sum_length_paddedOptions (hcovers : Covers header)
    (hcons : ∀ option ∈ header.options, option.Consistent) :
    minHeaderLength + ((paddedOptions header).flatMap Ipv4Option.bytes).length =
      header.headerLength := by
  have hsum := hcovers.sum_length_le
  rw [hcovers.sum_eq] at hsum
  rw [flatMap_paddedOptions, List.length_append, List.length_replicate,
    length_flatMap_optionBytes hcons, paddingLength]
  omega

theorem readable_paddedOptions (hcovers : Covers header) (haccepted : Accepted header)
    (hcons : ∀ option ∈ header.options, option.Consistent)
    (hcan : ∀ option ∈ header.options, option.Canonical) :
    ∀ option ∈ paddedOptions header,
      option.Consistent ∧ option.Canonical ∧ option.length.toNat < 256 := by
  intro option hmem
  rcases List.mem_append.1 hmem with hmem | hmem
  · have hle : option.length.toNat ≤ (header.options.map fun option => option.length.toNat).sum :=
      List.le_sum_of_mem (List.mem_map_of_mem hmem)
    have hsum := hcovers.sum_length_le
    have h60 := haccepted.headerLength_le
    rw [hcovers.sum_eq] at hsum
    exact ⟨hcons option hmem, hcan option hmem, by omega⟩
  · rw [(List.mem_replicate.1 hmem).2]
    exact consistent_endOption

theorem deserializeFields_run (hcovers : Covers header) (haccepted : Accepted header)
    (hfit : FieldsFit header) (hversion : header.version = 4)
    (hcons : ∀ option ∈ header.options, option.Consistent)
    (hcan : ∀ option ∈ header.options, option.Canonical) {s : MemoryInputStream}
    (h : Holds s (concat (iphdr header) ++
      concat ((paddedOptions header).flatMap Ipv4Option.bytes))) :
    ∃ s', deserializeFields.run s =
      .ok (⟨{ header with options := (paddedOptions header).map Ipv4Option.wireForm }, false,
        false⟩, s') ∧ Holds s' [] := by
  have hbytes := sum_length_paddedOptions hcovers hcons
  have hadd := h.position_add_length
  rw [List.length_append, length_concat, length_concat, length_iphdr] at hadd
  have hremaining : (s.getRemainingLength : ℤ) % 8 = 0 ∧
      (s.getRemainingLength : ℤ) / 8 = header.headerLength := by
    rw [getRemainingLength]
    omega
  have htoBytes : (toBytes (s.getRemainingLength : ℤ) : Reader ℤ).run s =
      .ok ((header.headerLength : ℤ), s) := by
    rw [toBytes, if_pos hremaining.1, hremaining.2]
    rfl
  obtain ⟨s₁, h₁, hs₁⟩ := consumes_readBytes (iphdr header) s _ h
  rw [length_iphdr] at h₁
  have hread : (liftM (ofIphdr (iphdr header)) : Reader Ipv4Header).run s₁ =
      .ok ({ header with options := [] }, s₁) := by
    rw [ofIphdr_iphdr haccepted.headerLength_mod haccepted.headerLength_le haccepted.version
      haccepted.fragmentOffset haccepted.checksumMode hfit]
    rfl
  have hlen := keepsLength_readBytes _ _ _ _ h₁
  have hadd₁ := hs₁.position_add_length
  rw [length_concat] at hadd₁
  have hge := haccepted.headerLength_ge
  have hmax : max header.headerLength minHeaderLength = header.headerLength := by omega
  have hcorrect : ¬ (header.version ≠ 4 ∨ header.headerLength < minHeaderLength ∨
      header.totalLengthField < header.headerLength) := by
    have := haccepted.headerLength_le_total
    omega
  have hloop : ∃ s', (if header.headerLength > minHeaderLength then
      Ipv4HeaderSerializer.deserializeOptions s.position header.headerLength
        (header.headerLength + 1)
      else pure ([], false) : Reader (List Ipv4Option × Bool)).run s₁ =
        .ok (((paddedOptions header).map Ipv4Option.wireForm, false), s') ∧ Holds s' [] := by
    split
    next hmore =>
      rw [← List.append_nil (concat _)] at hs₁
      apply deserializeOptions_run (readable_paddedOptions hcovers haccepted hcons hcan) hs₁
      · omega
      · omega
      · have hcount := hcovers.length_le
        have hsum := hcovers.sum_length_le
        rw [hcovers.sum_eq] at hsum
        rw [paddedOptions, List.length_append, List.length_replicate, paddingLength]
        omega
    next hnone =>
      have hnil : paddedOptions header = [] := by
        have hlast : (paddedOptions header).flatMap Ipv4Option.bytes = [] := by
          rw [← List.length_eq_zero_iff]
          omega
        rw [List.flatMap_eq_nil_iff] at hlast
        rw [List.eq_nil_iff_forall_not_mem]
        intro option hmem
        exact absurd (hlast option hmem) (by simp [Ipv4Option.bytes])
      rw [hnil] at hs₁ ⊢
      exact ⟨s₁, rfl, hs₁⟩
  obtain ⟨s₂, h₂, hs₂⟩ := hloop
  refine ⟨s₂, ?_, hs₂⟩
  rw [deserializeFields, StateT.run_bind, StateT.run_get, pure_bind]
  simp only
  rw [StateT.run_bind, htoBytes, Error.ok_bind, StateT.run_bind, h₁, Error.ok_bind,
    StateT.run_bind, hread, Error.ok_bind]
  simp only [hmax, hcorrect, decide_false]
  rw [StateT.run_bind, h₂, Error.ok_bind]
  simp only [Bool.or_self, gt_iff_lt, lt_self_iff_false, decide_false]
  rfl

theorem readsBack_wireForm_padded (hcovers : Covers header) (hfit : FieldsFit header)
    (hversion : header.version = 4) (hcan : ∀ option ∈ header.options, option.Canonical)
    {output : MemoryOutputStream} (hw : serialize empty header = .ok output) :
    ReadsBack header { header with
      options :=
        header.options.map wireForm ++ List.replicate (paddingLength header) endOption } := by
  obtain ⟨haccepted, hcons, hp⟩ := packs_serialize hcovers hw
  obtain ⟨input, hi, hin⟩ := holds_ofData hp
  obtain ⟨final, hread, hfin⟩ :=
    deserializeFields_run hcovers haccepted hfit hversion hcons hcan hin
  have hend := hfin.position_add_length
  have hrem : final.getRemainingLength = 0 := by
    rw [getRemainingLength, ← hend]
    simp
  rw [paddedOptions, List.map_append, List.map_replicate, wireForm_endOption] at hread
  exact ⟨output, input, final, hw, hi, hread, hrem, hfin.not_beyond⟩

/-- Options without records come back as raw options, and all others as they were, with one
End-of-options for each byte of padding. -/
theorem readsBack_padded (hcovers : Covers header) (hfit : FieldsFit header)
    (hversion : header.version = 4) (hcan : ∀ option ∈ header.options, option.Canonical)
    {output : MemoryOutputStream} (hw : serialize empty header = .ok output) :
    ReadsBack header { header with
      options := header.options.map wireForm ++ List.replicate (paddingLength header) endOption } ∧
    ((∀ option ∈ header.options, option.HasRecords) → ReadsBack header { header with
      options := header.options ++ List.replicate (paddingLength header) endOption }) := by
  have hback := readsBack_wireForm_padded hcovers hfit hversion hcan hw
  refine ⟨hback, ?_⟩
  intro hrecords
  have hmap : header.options.map Ipv4Option.wireForm = header.options :=
    (List.map_congr_left fun option hmem => (hrecords option hmem).wireForm_eq).trans
      (List.map_id _)
  rwa [hmap] at hback

end RoundTrip

/-- The header of a datagram with the given options. -/
def datagramHeader (headerLength : ℕ) (options : List Ipv4Option) : Ipv4Header where
  version := 4
  headerLength := headerLength
  typeOfService := 0x2e
  totalLengthField := 1500
  identification := 0x1234
  reservedBit := false
  moreFragments := true
  dontFragment := false
  fragmentOffset := 1480
  timeToLive := 64
  protocolId := 17
  checksum := 0xABCD
  checksumMode := .computed
  srcAddress := 0x0A000001
  destAddress := 0x0A000002
  options := options

/-- One option of each class, and a raw option. -/
def someOptions : List Ipv4Option :=
  [⟨1, 1, .nop⟩, ⟨136, 4, .streamId 7⟩,
    ⟨68, 12, .timestamp .withAddress 2 1 [0x0A000003] [SimTime.ofMs 5]⟩,
    ⟨7, 7, .recordRoute 0 [0x0A000004]⟩, ⟨148, 4, .routerAlert 1⟩, ⟨30, 3, .raw [9]⟩]

theorem readsBack_someOptions : ReadsBack (datagramHeader 52 someOptions)
    (datagramHeader 52 (someOptions ++ [endOption])) := by
  have hcovers : Covers (datagramHeader 52 someOptions) := by
    constructor
    · decide
    · decide
  have hfit : FieldsFit (datagramHeader 52 someOptions) := by
    constructor <;> decide
  have hcan : ∀ option ∈ (datagramHeader 52 someOptions).options, option.Canonical := by
    simp only [datagramHeader, someOptions, List.forall_mem_cons, List.not_mem_nil, false_imp_iff,
      implies_true, Ipv4Option.Canonical, true_and, and_true]
    refine ⟨⟨by decide, by decide, ⟨5, by decide, rfl⟩⟩, by decide, by decide, ?_⟩
    refine ⟨by decide, by decide, by decide, ?_, ?_⟩
    · exact fun h => absurd h (by decide)
    · exact fun h => absurd h (by decide)
  have hrecords : ∀ option ∈ (datagramHeader 52 someOptions).options, option.HasRecords := by
    simp [datagramHeader, someOptions, Ipv4Option.HasRecords]
  cases h : serialize empty (datagramHeader 52 someOptions) with
  | error e => cases h
  | ok output => exact (readsBack_padded hcovers hfit rfl hcan h).2 hrecords

/-- A route option without records comes back as a raw option. -/
theorem exists_not_readsBack_padded : ∃ header, Covers header ∧ FieldsFit header ∧
    header.version = 4 ∧ (∀ option ∈ header.options, option.Canonical) ∧
    (∃ output, serialize empty header = .ok output) ∧
    ¬ ReadsBack header { header with
      options := header.options ++ List.replicate (paddingLength header) endOption } := by
  have hcovers : Covers (datagramHeader 24 [⟨7, 3, .recordRoute 0 []⟩]) := by
    constructor <;> decide
  have hfit : FieldsFit (datagramHeader 24 [⟨7, 3, .recordRoute 0 []⟩]) := by
    constructor <;> decide
  have hcan : ∀ option ∈ (datagramHeader 24 [⟨7, 3, .recordRoute 0 []⟩]).options,
      option.Canonical := by
    simp [datagramHeader, Ipv4Option.Canonical]
  refine ⟨datagramHeader 24 [⟨7, 3, .recordRoute 0 []⟩], hcovers, hfit, rfl, hcan, ⟨_, rfl⟩, ?_⟩
  intro hback
  obtain ⟨output, hw⟩ : ∃ output,
      serialize empty (datagramHeader 24 [⟨7, 3, .recordRoute 0 []⟩]) = .ok output := ⟨_, rfl⟩
  have hraw := readsBack_wireForm_padded hcovers hfit rfl hcan hw
  have hoptions := congrArg Ipv4Header.options (hback.unique hraw)
  revert hoptions
  decide

end Ipv4HeaderSerializer

end Inet.Ipv4
