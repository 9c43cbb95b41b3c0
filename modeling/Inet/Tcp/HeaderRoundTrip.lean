import Mathlib.Algebra.Order.BigOperators.Group.List
import Inet.Stream.RoundTrip
import Inet.Tcp.Header

/-! # The TCP header round trip

Both halves meet at the bytes of an option. Serializing appends them and shows
that the option has the length of its contents; deserializing consumes them and
returns the wire form of the option, which is the option itself in all but a
few cases.
-/

namespace Inet.Tcp

open BitString MemoryInputStream MemoryOutputStream

/-- The bytes of a value, written by the given shifts. -/
def shiftedBytes (shifts : List ℕ) (value : ℕ) : List Byte :=
  shifts.map fun shift => BitVec.ofNat 8 (value >>> shift)

def SackItem.bytes (si : SackItem) : List Byte :=
  shiftedBytes [24, 16, 8, 0] si.start.toNat ++ shiftedBytes [24, 16, 8, 0] si.stop.toNat

namespace TcpOption

open TcpHeaderSerializer

/-- The fields that an AccECN option has room for. -/
def presentFields (kind : ℤ) (length : ℕ) (ect0Bytes ect1Bytes ceBytes : BitVec 32) :
    List (BitVec 32) :=
  (accEcnFields kind ect0Bytes ect1Bytes ceBytes).take (numFields length)

/-- The bytes behind the kind and the length. -/
def bodyBytes (kind : ℤ) (length : ℕ) : OptionBody → List Byte
  | .optionEnd | .nop | .sackPermitted => []
  | .maxSegmentSize maxSegmentSize => shiftedBytes [8, 0] maxSegmentSize.toNat
  | .windowScale windowScale => [windowScale.setWidth 8]
  | .sack sackItem => sackItem.flatMap SackItem.bytes
  | .timestamp senderTimestamp echoedTimestamp =>
    shiftedBytes [24, 16, 8, 0] senderTimestamp.toNat ++
      shiftedBytes [24, 16, 8, 0] echoedTimestamp.toNat
  | .tcpFastOpen cookie => cookie
  | .tcpFastOpenExp expId cookie => shiftedBytes [8, 0] expId.toNat ++ cookie
  | .accEcn ect0Bytes ect1Bytes ceBytes =>
    (presentFields kind length ect0Bytes ect1Bytes ceBytes).flatMap
      (fun field => shiftedBytes [16, 8, 0] field.toNat) ++
      List.replicate (length - (2 + 3 * numFields length)) 0
  | .unknown bytes => bytes

def bytes (option : TcpOption) : List Byte :=
  BitVec.ofInt 8 option.kind ::
    (if option.length > 1 then [BitVec.ofNat 8 option.length] else []) ++
    bodyBytes option.kind option.length option.body

/-- The kind and the length belong to the class of the option and to its contents. -/
def Consistent (option : TcpOption) : Prop :=
  match option.body with
  | .optionEnd => option.kind = 0 ∧ option.length = 1
  | .nop => option.kind = 1 ∧ option.length = 1
  | .maxSegmentSize _ => option.kind = 2 ∧ option.length = 4
  | .windowScale _ => option.kind = 3 ∧ option.length = 3
  | .sackPermitted => option.kind = 4 ∧ option.length = 2
  | .sack sackItem => option.kind = 5 ∧ option.length = 2 + sackItem.length * 8
  | .timestamp _ _ => option.kind = 8 ∧ option.length = 10
  | .tcpFastOpen cookie => option.kind = 34 ∧ option.length = 2 + cookie.length
  | .tcpFastOpenExp _ cookie => option.kind = 254 ∧ option.length = 4 + cookie.length
  | .accEcn ect0Bytes ect1Bytes ceBytes => (option.kind = 172 ∨ option.kind = 174) ∧
    2 ≤ option.length ∧
    ∀ field ∈ presentFields option.kind option.length ect0Bytes ect1Bytes ceBytes,
      field.toNat < 2 ^ 24
  | .unknown bytes => option.length = 2 + bytes.length

/-- A raw option has the kind of no class of its own. -/
def RawKind (option : TcpOption) : Prop :=
  match option.body with
  | .unknown _ => 0 ≤ option.kind ∧ option.kind < 2 ^ 8 ∧ option.kind ∉ typedKinds
  | _ => True

/-- The lengths of a cookie with which the reader accepts a fast open option. -/
def CookieLength (cookie : List Byte) : Prop :=
  cookie.length = 0 ∨ 4 ≤ cookie.length ∧ cookie.length ≤ 16

instance (cookie : List Byte) : Decidable (CookieLength cookie) :=
  inferInstanceAs (Decidable (_ ∨ _))

/-- The option that the bytes of an option are read as. -/
def wireForm (option : TcpOption) : TcpOption :=
  { option with body := match option.body with
    | .windowScale windowScale => .windowScale ((windowScale.setWidth 8).setWidth 16)
    | .sack [] => .unknown []
    | .tcpFastOpen cookie => if CookieLength cookie then .tcpFastOpen cookie else .unknown cookie
    | .tcpFastOpenExp expId cookie =>
      if expId = 0xF989 ∧ CookieLength cookie then .tcpFastOpenExp expId cookie
      else .unknown (shiftedBytes [8, 0] expId.toNat ++ cookie)
    | .accEcn ect0Bytes ect1Bytes ceBytes =>
      let fields := presentFields option.kind option.length ect0Bytes ect1Bytes ceBytes
      .accEcn (fields.getD (if option.kind = 172 then 0 else 2) 0)
        (fields.getD (if option.kind = 172 then 2 else 0) 0) (fields.getD 1 0)
    | body => body }

/-- The options with which nothing is lost on the wire: the window scale fits in its byte, there is
a SACK item, a fast open cookie has an accepted length behind the accepted magic, and the AccECN
fields without room are zero. -/
def Canonical (option : TcpOption) : Prop :=
  match option.body with
  | .windowScale windowScale => windowScale.toNat < 2 ^ 8
  | .sack sackItem => sackItem ≠ []
  | .tcpFastOpen cookie => CookieLength cookie
  | .tcpFastOpenExp expId cookie => expId = 0xF989 ∧ CookieLength cookie
  | .accEcn ect0Bytes ect1Bytes ceBytes =>
    ∀ field ∈ (accEcnFields option.kind ect0Bytes ect1Bytes ceBytes).drop (numFields option.length),
      field = 0
  | _ => True

theorem getD_take_of_drop {α : Type*} {xs : List α} {n : ℕ} {d : α} (h : ∀ x ∈ xs.drop n, x = d)
    (i : ℕ) : (xs.take n).getD i d = xs.getD i d := by
  rcases Nat.lt_or_ge i n with hi | hi
  · simp [List.getD_eq_getElem?_getD, hi]
  · rw [List.getD_eq_default _ _ (by simp; omega)]
    rcases Nat.lt_or_ge i xs.length with hx | hx
    · rw [List.getD_eq_getElem _ _ hx]
      exact (h _ (List.mem_drop_iff_getElem.2 ⟨i - n, by omega, by congr; omega⟩)).symm
    · rw [List.getD_eq_default _ _ hx]

theorem Canonical.wireForm_eq {option : TcpOption} (h : option.Canonical) :
    option.wireForm = option := by
  obtain ⟨kind, length, body⟩ := option
  cases body with
  | windowScale windowScale =>
    simp only [Canonical] at h
    have hw : (windowScale.setWidth 8).setWidth 16 = windowScale := by
      apply BitVec.eq_of_toNat_eq
      simp only [BitVec.toNat_setWidth]
      omega
    simp [wireForm, hw]
  | sack sackItem =>
    cases sackItem with
    | nil => exact absurd rfl h
    | cons => rfl
  | tcpFastOpen cookie => simp [wireForm, show CookieLength cookie from h]
  | tcpFastOpenExp expId cookie =>
    obtain ⟨rfl, hc⟩ := h
    simp [wireForm, hc]
  | accEcn ect0Bytes ect1Bytes ceBytes =>
    have hg :=
      getD_take_of_drop (show ∀ field ∈ (accEcnFields kind ect0Bytes ect1Bytes ceBytes).drop
      (numFields length), field = 0 from h)
    simp only [wireForm, presentFields, hg]
    unfold accEcnFields
    split <;> rfl
  | _ => rfl

end TcpOption

namespace TcpHeaderSerializer

theorem ok_of_assert_bind {α : Type} {p : Prop} [Decidable p] {text : String}
    {x : Except Error α} {r : α} (h : (do assert p text; x) = .ok r) : p ∧ x = .ok r := by
  unfold assert at h
  split at h
  next hp => exact ⟨hp, h⟩
  next => cases h

theorem packs_writeUint24Be {s s' : MemoryOutputStream} {bits : List Bool} (hs : Packs s bits)
    {value : ℕ} (h : s.writeUint24Be value = .ok s') :
    value < 2 ^ 24 ∧ Packs s' (bits ++ concat (shiftedBytes [16, 8, 0] value)) := by
  obtain ⟨hv, h⟩ := ok_of_assert_bind h
  cases h
  rw [Nat.shiftRight_eq_div_pow] at hv
  exact ⟨by omega, hs.writeShifted _ _⟩

theorem packs_writeSackItem {s : MemoryOutputStream} {bits : List Bool} (si : SackItem)
    (hs : Packs s bits) :
    Packs ((s.writeUint32Be si.start.toNat).writeUint32Be si.stop.toNat)
      (bits ++ concat si.bytes) := by
  rw [SackItem.bytes, concat_append, ← List.append_assoc]
  exact (hs.writeShifted _ _).writeShifted _ _

theorem ok_of_checkCast_bind {α : Type} {kind : ℤ} {kinds : List ℤ} {x : Except Error α} {r : α}
    (h : (do checkCast kind kinds; x) = .ok r) : kind ∈ kinds ∧ x = .ok r := by
  unfold checkCast at h
  split at h
  next hk => exact ⟨hk, h⟩
  next =>
    split at h <;> cases h

theorem ok_of_checks {α : Type} {kind k : ℤ} {p : Prop} [Decidable p] {text : String}
    {x : Except Error α} {r : α} (h : (do checkCast kind [k]; assert p text; x) = .ok r) :
    (kind = k ∧ p) ∧ x = .ok r := by
  obtain ⟨hk, h⟩ := ok_of_checkCast_bind h
  obtain ⟨hp, h⟩ := ok_of_assert_bind h
  exact ⟨⟨List.mem_singleton.1 hk, hp⟩, h⟩

theorem packs_serializeBody {s s' : MemoryOutputStream} {bits : List Bool} {option : TcpOption}
    (hs : Packs s bits) (h : serializeBody s option.kind option.length option.body = .ok s') :
    option.Consistent ∧
      Packs s' (bits ++ concat (TcpOption.bodyBytes option.kind option.length option.body)) := by
  obtain ⟨kind, length, body⟩ := option
  cases body with
  | unknown bytes =>
    obtain ⟨hl, h⟩ := ok_of_assert_bind h
    cases h
    exact ⟨hl, hs.writeByte_foldl bytes⟩
  | optionEnd | nop | sackPermitted =>
    obtain ⟨hl, h⟩ := ok_of_checks h
    cases h
    exact ⟨hl, by simpa [TcpOption.bodyBytes] using hs⟩
  | maxSegmentSize =>
    obtain ⟨hl, h⟩ := ok_of_checks h
    cases h
    exact ⟨hl, hs.writeShifted _ _⟩
  | windowScale windowScale =>
    obtain ⟨hl, h⟩ := ok_of_checks h
    cases h
    exact ⟨hl, hs.writeByte_foldl [windowScale.setWidth 8]⟩
  | sack sackItem =>
    obtain ⟨hl, h⟩ := ok_of_checks h
    cases h
    have := hs.foldl (fun _ _ si => packs_writeSackItem si) sackItem
    exact ⟨hl, by rwa [TcpOption.bodyBytes, concat_flatMap]⟩
  | timestamp =>
    obtain ⟨hl, h⟩ := ok_of_checks h
    cases h
    exact ⟨hl, packs_writeSackItem ⟨_, _⟩ hs⟩
  | tcpFastOpen cookie =>
    obtain ⟨hl, h⟩ := ok_of_checks h
    cases h
    exact ⟨hl, hs.writeByte_foldl cookie⟩
  | tcpFastOpenExp expId cookie =>
    obtain ⟨hl, h⟩ := ok_of_checks h
    cases h
    have := (hs.writeShifted [8, 0] expId.toNat).writeByte_foldl cookie
    exact ⟨hl, by rwa [TcpOption.bodyBytes, concat_append, ← List.append_assoc]⟩
  | accEcn ect0Bytes ect1Bytes ceBytes =>
    obtain ⟨hk, h⟩ := ok_of_checkCast_bind h
    obtain ⟨hl, h⟩ := ok_of_assert_bind h
    obtain ⟨s₁, hf, h⟩ := Error.exists_of_bind_eq_ok h
    cases h
    obtain ⟨hfit, h₁⟩ := hs.foldlM (fun _ _ _ _ hs h => packs_writeUint24Be hs h) hf
    have := h₁.writeByte_foldl (List.replicate (length - (2 + 3 * numFields length)) 0)
    refine ⟨⟨by simpa using hk, hl, hfit⟩, ?_⟩
    rwa [TcpOption.bodyBytes, concat_append, concat_flatMap, ← List.append_assoc]

theorem packs_serializeOption {s s' : MemoryOutputStream} {bits : List Bool} {option : TcpOption}
    (hs : Packs s bits) (h : serializeOption s option = .ok s') :
    option.Consistent ∧ Packs s' (bits ++ concat option.bytes) := by
  have hk := hs.writeByte (BitVec.ofInt 8 option.kind)
  unfold serializeOption at h
  rw [TcpOption.bytes]
  split at h
  next hl =>
    obtain ⟨hc, hp⟩ := packs_serializeBody (hk.writeByte (BitVec.ofNat 8 option.length)) h
    exact ⟨hc, by simpa [hl] using hp⟩
  next hl =>
    obtain ⟨hc, hp⟩ := packs_serializeBody hk h
    exact ⟨hc, by simpa [hl] using hp⟩

theorem consumes_readUint16Be (value : BitVec 16) :
    Consumes readUint16Be (concat (shiftedBytes [8, 0] value.toNat)) value.toNat :=
  consumes_readShifted _ value.isLt (by simp; omega)

theorem consumes_readUint24Be {value : ℕ} (h : value < 2 ^ 24) :
    Consumes readUint24Be (concat (shiftedBytes [16, 8, 0] value)) value :=
  consumes_readShifted _ h (by simp; omega)

theorem consumes_readUint32Be (value : BitVec 32) :
    Consumes readUint32Be (concat (shiftedBytes [24, 16, 8, 0] value.toNat)) value.toNat :=
  consumes_readShifted _ value.isLt (by simp; omega)

theorem consumes_readSackItem (si : SackItem) : Consumes readSackItem (concat si.bytes) si := by
  rw [SackItem.bytes, concat_append]
  apply (consumes_readUint32Be si.start).bind
  have h := (consumes_readUint32Be si.stop).map fun stop =>
    (⟨BitVec.ofNat 32 si.start.toNat, BitVec.ofNat 32 stop⟩ : SackItem)
  simpa only [BitVec.ofNat_toNat, BitVec.setWidth_eq] using h

theorem consumes_readSackItems (sackItem : List SackItem) :
    Consumes (readSackItems sackItem.length) (concat (sackItem.flatMap SackItem.bytes))
      sackItem := by
  induction sackItem with
  | nil => exact Consumes.pure []
  | cons si sackItem ih =>
    rw [List.flatMap_cons, concat_append]
    exact (consumes_readSackItem si).bind (ih.map (si :: ·))

theorem consumes_readFields {fields : List (BitVec 32)}
    (h : ∀ field ∈ fields, field.toNat < 2 ^ 24) :
    Consumes (readFields fields.length)
      (concat (fields.flatMap fun field => shiftedBytes [16, 8, 0] field.toNat)) fields := by
  induction fields with
  | nil => exact Consumes.pure []
  | cons field fields ih =>
    obtain ⟨hf, h⟩ := List.forall_mem_cons.1 h
    rw [List.flatMap_cons, concat_append]
    apply (consumes_readUint24Be hf).bind
    simpa only [BitVec.ofNat_toNat, BitVec.setWidth_eq] using (ih h).map (field :: ·)

theorem consumes_deserializeOption {kind length : Byte} (h₀ : kind ≠ 0) (h₁ : kind ≠ 1)
    {bytes : List Byte} {option : TcpOption}
    (h : Consumes (deserializeTyped kind length) (concat bytes) option) :
    Consumes deserializeOption (concat (kind :: length :: bytes)) option := by
  rw [concat_cons, concat_cons]
  apply (consumes_readByte kind).bind
  simp only [h₀, h₁, if_false]
  exact (consumes_readByte length).bind h

theorem toNat_ofNat_length {length : ℕ} (h : length < 256) :
    (BitVec.ofNat 8 length).toNat = length := by
  rw [BitVec.toNat_ofNat]
  omega

theorem ofNat_length_eq_iff {length n : ℕ} (h : length < 256) (hn : n < 256) :
    BitVec.ofNat 8 length = BitVec.ofNat 8 n ↔ length = n := by
  rw [← BitVec.toNat_inj, toNat_ofNat_length h, toNat_ofNat_length hn]

/-- An option is read as unknown when no branch takes it. -/
theorem consumes_deserializeUnknown (kind : Byte) {bytes : List Byte} (h : 2 + bytes.length < 256) :
    Consumes (deserializeUnknown kind (BitVec.ofNat 8 (2 + bytes.length))) (concat bytes)
      ⟨kind.toNat, 2 + bytes.length, .unknown bytes⟩ := by
  have hl := toNat_ofNat_length h
  have := (consumes_readByteLoop bytes).map fun bytes' =>
    (⟨kind.toNat, 2 + bytes.length, .unknown bytes'⟩ : TcpOption)
  rw [deserializeUnknown, hl, Nat.add_sub_cancel_left]
  exact this

theorem consumes_maxSegmentSize (maxSegmentSize : BitVec 16) :
    Consumes (deserializeTyped 2 4) (concat (shiftedBytes [8, 0] maxSegmentSize.toNat))
      ⟨2, 4, .maxSegmentSize maxSegmentSize⟩ := by
  have h := (consumes_readUint16Be maxSegmentSize).map fun value =>
    (⟨2, 4, .maxSegmentSize (BitVec.ofNat 16 value)⟩ : TcpOption)
  simp only [BitVec.ofNat_toNat, BitVec.setWidth_eq] at h
  exact h

theorem consumes_timestamp (senderTimestamp echoedTimestamp : BitVec 32) :
    Consumes (deserializeTyped 8 10) (concat (shiftedBytes [24, 16, 8, 0] senderTimestamp.toNat ++
      shiftedBytes [24, 16, 8, 0] echoedTimestamp.toNat))
      ⟨8, 10, .timestamp senderTimestamp echoedTimestamp⟩ := by
  rw [concat_append]
  apply (consumes_readUint32Be senderTimestamp).bind
  have h := (consumes_readUint32Be echoedTimestamp).map fun value =>
    (⟨8, 10, .timestamp (BitVec.ofNat 32 senderTimestamp.toNat) (BitVec.ofNat 32 value)⟩ :
      TcpOption)
  simpa only [BitVec.ofNat_toNat, BitVec.setWidth_eq] using h

theorem deserializeTyped_sack (length : Byte) :
    deserializeTyped 5 length = if length.toNat > 2 ∧ length.toNat % 8 = 2 then do
      let sackItem ← readSackItems (length.toNat / 8)
      return ⟨5, length.toNat, .sack sackItem⟩
    else deserializeUnknown 5 length := by
  simp [deserializeTyped]

theorem consumes_sack {sackItem : List SackItem} (h : 2 + sackItem.length * 8 < 256) :
    Consumes (deserializeTyped 5 (BitVec.ofNat 8 (2 + sackItem.length * 8)))
      (concat (sackItem.flatMap SackItem.bytes))
      (TcpOption.wireForm ⟨5, 2 + sackItem.length * 8, .sack sackItem⟩) := by
  have hl := toNat_ofNat_length h
  cases sackItem with
  | nil => exact Consumes.pure _
  | cons si sackItem =>
    have hd : (2 + (si :: sackItem).length * 8) / 8 = (si :: sackItem).length := by omega
    rw [deserializeTyped_sack, hl, if_pos (by simp), hd]
    exact (consumes_readSackItems (si :: sackItem)).map fun sackItem' =>
      (⟨5, _, .sack sackItem'⟩ : TcpOption)

theorem deserializeTyped_tcpFastOpen (length : Byte) :
    deserializeTyped 34 length =
      if length = 2 ∨ length.toNat ≥ 6 ∧ length.toNat ≤ 18 then do
        let cookie ← readByteLoop (length.toNat - 2)
        return ⟨34, length.toNat, .tcpFastOpen cookie⟩
      else deserializeUnknown 34 length := by
  simp [deserializeTyped]

theorem consumes_tcpFastOpen {cookie : List Byte} (h : 2 + cookie.length < 256) :
    Consumes (deserializeTyped 34 (BitVec.ofNat 8 (2 + cookie.length))) (concat cookie)
      (TcpOption.wireForm ⟨34, 2 + cookie.length, .tcpFastOpen cookie⟩) := by
  have hl := toNat_ofNat_length h
  have hc : (BitVec.ofNat 8 (2 + cookie.length) = 2 ∨
      2 + cookie.length ≥ 6 ∧ 2 + cookie.length ≤ 18) ↔ TcpOption.CookieLength cookie := by
    have h2 : BitVec.ofNat 8 (2 + cookie.length) = 2 ↔ 2 + cookie.length = 2 :=
      ofNat_length_eq_iff h (by decide)
    rw [h2, TcpOption.CookieLength]
    omega
  rw [deserializeTyped_tcpFastOpen, hl]
  simp only [hc, TcpOption.wireForm]
  split
  · rw [Nat.add_sub_cancel_left]
    exact (consumes_readByteLoop cookie).map fun cookie' =>
      (⟨34, _, .tcpFastOpen cookie'⟩ : TcpOption)
  · exact consumes_deserializeUnknown _ h

theorem deserializeTyped_tcpFastOpenExp {length : Byte} (h : 4 ≤ length.toNat) :
    deserializeTyped 254 length = (do
      let expId ← readUint16Be
      if expId = 0xF989 ∧ (length = 4 ∨ length.toNat ≥ 8 ∧ length.toNat ≤ 20) then
        let cookie ← readByteLoop (length.toNat - 4)
        return ⟨254, length.toNat, .tcpFastOpenExp (BitVec.ofNat 16 expId) cookie⟩
      else
        let bytes ← readByteLoop (length.toNat - 4)
        return ⟨254, length.toNat, .unknown (BitVec.ofNat 8 (expId >>> 8) ::
          BitVec.ofNat 8 expId :: bytes)⟩) := by
  simp [deserializeTyped, h]

theorem consumes_tcpFastOpenExp {expId : BitVec 16} {cookie : List Byte}
    (h : 4 + cookie.length < 256) :
    Consumes (deserializeTyped 254 (BitVec.ofNat 8 (4 + cookie.length)))
      (concat (shiftedBytes [8, 0] expId.toNat ++ cookie))
      (TcpOption.wireForm ⟨254, 4 + cookie.length, .tcpFastOpenExp expId cookie⟩) := by
  have hl := toNat_ofNat_length h
  have hc : (expId.toNat = 0xF989 ∧ (BitVec.ofNat 8 (4 + cookie.length) = 4 ∨
      4 + cookie.length ≥ 8 ∧ 4 + cookie.length ≤ 20)) ↔
      expId = 0xF989 ∧ TcpOption.CookieLength cookie := by
    have h4 : BitVec.ofNat 8 (4 + cookie.length) = 4 ↔ 4 + cookie.length = 4 :=
      ofNat_length_eq_iff h (by decide)
    have hx : expId.toNat = 0xF989 ↔ expId = 0xF989 := @BitVec.toNat_inj 16 expId 0xF989
    rw [h4, hx, TcpOption.CookieLength]
    apply and_congr_right
    omega
  rw [deserializeTyped_tcpFastOpenExp (by omega), concat_append]
  apply (consumes_readUint16Be expId).bind
  rw [hl, Nat.add_sub_cancel_left]
  simp only [hc, TcpOption.wireForm]
  split
  · have := (consumes_readByteLoop cookie).map fun cookie' =>
      (⟨254, 4 + cookie.length, .tcpFastOpenExp (BitVec.ofNat 16 expId.toNat) cookie'⟩ : TcpOption)
    simpa only [BitVec.ofNat_toNat, BitVec.setWidth_eq] using this
  · exact (consumes_readByteLoop cookie).map fun cookie' =>
      (⟨254, 4 + cookie.length, .unknown (_ :: _ :: cookie')⟩ : TcpOption)

theorem deserializeTyped_accEcn {kind length : Byte} (hk : kind = 172 ∨ kind = 174)
    (hl : 2 ≤ length.toNat) :
    deserializeTyped kind length = (do
      let fields ← readFields (numFields length.toNat)
      let _ ← readByteLoop (length.toNat - (2 + 3 * numFields length.toNat))
      let first := fields.getD 0 0
      let last := fields.getD 2 0
      return ⟨kind.toNat, length.toNat, .accEcn (if kind = 172 then first else last)
        (if kind = 172 then last else first) (fields.getD 1 0)⟩) := by
  rcases hk with rfl | rfl <;> simp [deserializeTyped, hl]

theorem length_presentFields (kind : ℤ) (length : ℕ) (ect0Bytes ect1Bytes ceBytes : BitVec 32) :
    (TcpOption.presentFields kind length ect0Bytes ect1Bytes ceBytes).length =
      numFields length := by
  rw [TcpOption.presentFields, List.length_take, Nat.min_eq_left]
  unfold accEcnFields
  split <;> exact Nat.min_le_left _ _

theorem consumes_accEcn {kind length : ℕ} (hk : kind = 172 ∨ kind = 174) (hl : 2 ≤ length)
    (hlt : length < 256) {ect0Bytes ect1Bytes ceBytes : BitVec 32}
    (hf : ∀ field ∈ TcpOption.presentFields kind length ect0Bytes ect1Bytes ceBytes,
      field.toNat < 2 ^ 24) :
    Consumes (deserializeTyped (BitVec.ofNat 8 kind) (BitVec.ofNat 8 length))
      (concat (TcpOption.bodyBytes kind length (.accEcn ect0Bytes ect1Bytes ceBytes)))
      (TcpOption.wireForm ⟨kind, length, .accEcn ect0Bytes ect1Bytes ceBytes⟩) := by
  have hlen := toNat_ofNat_length hlt
  have hpad := consumes_readByteLoop (List.replicate (length - (2 + 3 * numFields length)) 0)
  rw [List.length_replicate] at hpad
  have hbyte : BitVec.ofNat 8 kind = 172 ∨ BitVec.ofNat 8 kind = 174 := by
    rcases hk with rfl | rfl
    · exact Or.inl rfl
    · exact Or.inr rfl
  rw [deserializeTyped_accEcn hbyte (by omega), hlen, TcpOption.bodyBytes, concat_append]
  have hfields := consumes_readFields hf
  rw [length_presentFields] at hfields
  apply hfields.bind
  have := hpad.map fun _ => TcpOption.wireForm ⟨kind, length, .accEcn ect0Bytes ect1Bytes ceBytes⟩
  rcases hk with rfl | rfl <;> exact this

theorem deserializeTyped_unknown {kind length : Byte} (h : (kind.toNat : ℤ) ∉ typedKinds) :
    deserializeTyped kind length = deserializeUnknown kind length := by
  have hne : ∀ k : Byte, (k.toNat : ℤ) ∈ typedKinds → kind ≠ k := by
    rintro k hk rfl
    exact h hk
  have hacc : ¬ (kind = 172 ∨ kind = 174) := by
    rintro (hk | hk)
    · exact hne 172 (by decide) hk
    · exact hne 174 (by decide) hk
  unfold deserializeTyped
  rw [if_neg fun hk => hne 2 (by decide) hk.1, if_neg fun hk => hne 3 (by decide) hk.1,
    if_neg fun hk => hne 4 (by decide) hk.1, if_neg fun hk => hne 5 (by decide) hk.1,
    if_neg fun hk => hne 8 (by decide) hk.1, if_neg fun hk => hne 34 (by decide) hk.1,
    if_neg fun hk => hacc hk.1, if_neg fun hk => hne 254 (by decide) hk.1]

theorem consumes_option_of_typed (kind : ℕ) {length : ℕ} {body : OptionBody} {option : TcpOption}
    (hk : 1 < kind) (hk' : kind < 256) (hl : 1 < length)
    (h : Consumes (deserializeTyped (BitVec.ofNat 8 kind) (BitVec.ofNat 8 length))
      (concat (TcpOption.bodyBytes kind length body)) option) :
    Consumes deserializeOption (concat (TcpOption.bytes ⟨kind, length, body⟩)) option := by
  have hne : ∀ n ≤ 1, BitVec.ofNat 8 kind ≠ BitVec.ofNat 8 n := by
    intro n hn he
    rw [ofNat_length_eq_iff hk' (by omega)] at he
    omega
  rw [TcpOption.bytes, if_pos hl, BitVec.ofInt_natCast]
  exact consumes_deserializeOption (hne 0 (by decide)) (hne 1 (by decide)) h

theorem consumes_unknown {kind : ℕ} (hk : kind < 256) (ht : (kind : ℤ) ∉ typedKinds)
    {bytes : List Byte} (h : 2 + bytes.length < 256) :
    Consumes deserializeOption (concat (TcpOption.bytes ⟨kind, 2 + bytes.length, .unknown bytes⟩))
      ⟨kind, 2 + bytes.length, .unknown bytes⟩ := by
  have hkind := toNat_ofNat_length hk
  have hu := consumes_deserializeUnknown (BitVec.ofNat 8 kind) h
  rw [← deserializeTyped_unknown (by rwa [hkind]), hkind] at hu
  have h1 : 1 < kind := by
    simp only [typedKinds, List.mem_cons, not_or] at ht
    omega
  exact consumes_option_of_typed kind h1 hk (by omega) hu

theorem consumes_option {option : TcpOption} (hc : option.Consistent) (hraw : option.RawKind)
    (hl : option.length < 256) :
    Consumes deserializeOption (concat option.bytes) option.wireForm := by
  obtain ⟨kind, length, body⟩ := option
  cases body with
  | optionEnd =>
    obtain ⟨rfl, rfl⟩ := hc
    exact (consumes_readByte 0).bind (Consumes.pure _)
  | nop =>
    obtain ⟨rfl, rfl⟩ := hc
    exact (consumes_readByte 1).bind (Consumes.pure _)
  | maxSegmentSize maxSegmentSize =>
    obtain ⟨rfl, rfl⟩ := hc
    exact consumes_option_of_typed 2 (by decide) (by decide) (by decide)
      (consumes_maxSegmentSize maxSegmentSize)
  | windowScale windowScale =>
    obtain ⟨rfl, rfl⟩ := hc
    have h := (consumes_readByte (windowScale.setWidth 8)).map fun value =>
      (⟨3, 3, .windowScale (value.setWidth 16)⟩ : TcpOption)
    rw [← List.append_nil (msb _)] at h
    exact consumes_option_of_typed 3 (by decide) (by decide) (by decide) h
  | sackPermitted =>
    obtain ⟨rfl, rfl⟩ := hc
    exact consumes_option_of_typed 4 (by decide) (by decide) (by decide)
      (Consumes.pure _)
  | sack sackItem =>
    obtain ⟨rfl, rfl⟩ := hc
    exact consumes_option_of_typed 5 (by decide) (by decide) (by omega)
      (consumes_sack hl)
  | timestamp senderTimestamp echoedTimestamp =>
    obtain ⟨rfl, rfl⟩ := hc
    exact consumes_option_of_typed 8 (by decide) (by decide) (by decide)
      (consumes_timestamp senderTimestamp echoedTimestamp)
  | tcpFastOpen cookie =>
    obtain ⟨rfl, rfl⟩ := hc
    exact consumes_option_of_typed 34 (by decide) (by decide) (by omega)
      (consumes_tcpFastOpen hl)
  | tcpFastOpenExp expId cookie =>
    obtain ⟨rfl, rfl⟩ := hc
    exact consumes_option_of_typed 254 (by decide) (by decide) (by omega)
      (consumes_tcpFastOpenExp hl)
  | accEcn ect0Bytes ect1Bytes ceBytes =>
    obtain ⟨hk | hk, h2, hf⟩ := hc
    · obtain rfl : kind = (172 : ℕ) := hk
      exact consumes_option_of_typed _ (by decide) (by decide) h2
        (consumes_accEcn (Or.inl rfl) h2 hl hf)
    · obtain rfl : kind = (174 : ℕ) := hk
      exact consumes_option_of_typed _ (by decide) (by decide) h2
        (consumes_accEcn (Or.inr rfl) h2 hl hf)
  | unknown bytes =>
    obtain ⟨h0, h8, ht⟩ := hraw
    obtain rfl : length = 2 + bytes.length := hc
    obtain ⟨kind, rfl⟩ := Int.eq_ofNat_of_zero_le h0
    exact consumes_unknown (by simp only at h8; omega) ht hl

theorem keepsLength_readSackItems (n : ℕ) : KeepsLength (readSackItems n) := by
  induction n with
  | zero => exact KeepsLength.pure _
  | succ n ih =>
    apply KeepsLength.bind
    · exact (keepsLength_readShifted _).bind fun _ => (keepsLength_readShifted _).bind fun _ =>
        KeepsLength.pure _
    · exact fun _ => ih.bind fun _ => KeepsLength.pure _

theorem keepsLength_readFields (n : ℕ) : KeepsLength (readFields n) := by
  induction n with
  | zero => exact KeepsLength.pure _
  | succ n ih =>
    exact (keepsLength_readShifted _).bind fun _ => ih.bind fun _ => KeepsLength.pure _

theorem keepsLength_deserializeTyped (kind length : Byte) :
    KeepsLength (deserializeTyped kind length) := by
  unfold deserializeTyped
  split
  · exact (keepsLength_readShifted _).bind fun _ => KeepsLength.pure _
  split
  · exact keepsLength_readByte.bind fun _ => KeepsLength.pure _
  split
  · exact KeepsLength.pure _
  split
  · exact (keepsLength_readSackItems _).bind fun _ => KeepsLength.pure _
  split
  · exact (keepsLength_readShifted _).bind fun _ => (keepsLength_readShifted _).bind fun _ =>
      KeepsLength.pure _
  split
  · exact (keepsLength_readByteLoop _).bind fun _ => KeepsLength.pure _
  split
  · exact (keepsLength_readFields _).bind fun _ => (keepsLength_readByteLoop _).bind fun _ =>
      KeepsLength.pure _
  split
  · apply (keepsLength_readShifted _).bind
    intro expId
    split <;> exact (keepsLength_readByteLoop _).bind fun _ => KeepsLength.pure _
  · exact (keepsLength_readByteLoop _).bind fun _ => KeepsLength.pure _

theorem keepsLength_deserializeOption : KeepsLength deserializeOption := by
  apply keepsLength_readByte.bind
  intro kind
  split
  · exact KeepsLength.pure _
  split
  · exact KeepsLength.pure _
  · exact keepsLength_readByte.bind fun length => keepsLength_deserializeTyped kind length

theorem bytes_ne_nil (option : TcpOption) : option.bytes ≠ [] := by
  simp [TcpOption.bytes]

theorem deserializeOptions_run {position headerLength : ℕ} {options : List TcpOption}
    (h : ∀ option ∈ options, option.Consistent ∧ option.RawKind ∧ option.length < 256)
    {s : MemoryInputStream} {rest : List Bool}
    (hs : Holds s (concat (options.flatMap TcpOption.bytes) ++ rest)) (hp : position ≤ s.position)
    (hend : s.position + 8 * (options.flatMap TcpOption.bytes).length = position + 8 * headerLength)
    {fuel : ℕ} (hf : options.length < fuel) :
    ∃ s', (deserializeOptions position headerLength fuel).run s =
      .ok (options.map TcpOption.wireForm, s') ∧ Holds s' rest := by
  induction options generalizing s fuel with
  | nil =>
    obtain ⟨fuel, rfl⟩ := Nat.exists_eq_succ_of_ne_zero (show fuel ≠ 0 by omega)
    simp only [List.flatMap_nil, List.length_nil] at hend
    have hstop : ¬ (s.position - position < 8 * headerLength ∧ s.isReadBeyondEnd = false) := by
      omega
    refine ⟨s, ?_, by simpa using hs⟩
    rw [deserializeOptions, StateT.run_bind, StateT.run_get, pure_bind]
    simp only [hstop, if_false]
    rfl
  | cons option options ih =>
    obtain ⟨fuel, rfl⟩ := Nat.exists_eq_succ_of_ne_zero (show fuel ≠ 0 by omega)
    obtain ⟨⟨hc, hraw, hl⟩, h⟩ := List.forall_mem_cons.1 h
    rw [List.flatMap_cons, concat_append, List.append_assoc] at hs
    rw [List.flatMap_cons, List.length_append] at hend
    have hpos := List.length_pos_iff.2 (bytes_ne_nil option)
    have hgo : s.position - position < 8 * headerLength ∧ s.isReadBeyondEnd = false :=
      ⟨by omega, hs.not_beyond⟩
    obtain ⟨s₁, h₁, hs₁⟩ := consumes_option hc hraw hl s _ hs
    have hlen := keepsLength_deserializeOption _ _ _ h₁
    have hadd := hs.position_add_length
    have hadd₁ := hs₁.position_add_length
    rw [List.length_append, length_concat] at hadd
    obtain ⟨s₂, h₂, hs₂⟩ := ih h hs₁ (by omega) (by omega) (show options.length < fuel by
      simp at hf; omega)
    refine ⟨s₂, ?_, hs₂⟩
    rw [deserializeOptions, StateT.run_bind, StateT.run_get, pure_bind]
    simp only [hgo, and_self, if_true]
    rw [StateT.run_bind, h₁, Error.ok_bind, StateT.run_bind, h₂]
    rfl

theorem ntohs_htons (value : BitVec 16) :
    ntohs (value.extractLsb' 8 8) (value.extractLsb' 0 8) = value := by
  rw [ntohs, BitVec.extractLsb'_append_extractLsb'_eq_extractLsb' (show 8 = 0 + 8 from rfl)]
  exact BitVec.extractLsb'_eq_self

theorem ntohl_htonl (value : BitVec 32) :
    ntohl (value.extractLsb' 24 8) (value.extractLsb' 16 8) (value.extractLsb' 8 8)
      (value.extractLsb' 0 8) = value := by
  rw [ntohl, BitVec.extractLsb'_append_extractLsb'_eq_extractLsb' (show 24 = 16 + 8 from rfl),
    BitVec.extractLsb'_append_extractLsb'_eq_extractLsb' (show 16 = 8 + 8 from rfl),
    BitVec.extractLsb'_append_extractLsb'_eq_extractLsb' (show 8 = 0 + 8 from rfl)]
  exact BitVec.extractLsb'_eq_self

theorem flags_bits (header : TcpHeader) :
    (flags header &&& 0x80 == 0x80) = header.cwrBit ∧
      (flags header &&& 0x40 == 0x40) = header.eceBit ∧
    (flags header &&& 0x20 == 0x20) = header.urgBit ∧
      (flags header &&& 0x10 == 0x10) = header.ackBit ∧
    (flags header &&& 0x08 == 0x08) = header.pshBit ∧
      (flags header &&& 0x04 == 0x04) = header.rstBit ∧
    (flags header &&& 0x02 == 0x02) = header.synBit ∧
      (flags header &&& 0x01 == 0x01) = header.finBit := by
  unfold flags
  generalize header.finBit = a, header.synBit = b, header.rstBit = c, header.pshBit = d,
    header.ackBit = e, header.urgBit = f, header.eceBit = g, header.cwrBit = h
  revert a b c d e f g h
  decide

theorem offset_nibble {headerLength : ℕ} (hm : headerLength % 4 = 0) (hl : headerLength ≤ 60)
    (ae : BitVec 4) :
    ((BitVec.ofNat 4 (headerLength / 4) ++ ae).extractLsb' 4 4).toNat * 4 = headerLength := by
  rw [BitVec.extractLsb'_append_eq_left, BitVec.toNat_ofNat]
  omega

theorem ofTcphdr_tcphdr {header : TcpHeader} (hm : header.headerLength % 4 = 0)
    (hl : header.headerLength ≤ 60) (hc : header.checksumMode = .computed) :
    ofTcphdr (tcphdr header) [] = .ok { header with headerOption := [] } := by
  obtain ⟨hcwr, hece, hurg, hack, hpsh, hrst, hsyn, hfin⟩ := flags_bits header
  have hae : ((if header.aeBit then 1 else 0 : BitVec 4) &&& 1 == 1) = header.aeBit := by
    cases header.aeBit <;> rfl
  have hoffs := offset_nibble hm hl (if header.aeBit then 1 else 0)
  have hx : (BitVec.ofNat 4 (header.headerLength / 4) ++
      (if header.aeBit then 1 else 0 : BitVec 4)).extractLsb' 0 4 = if header.aeBit then 1 else 0 :=
    BitVec.extractLsb'_append_eq_right
  simp only [tcphdr, htons, htonl, ofTcphdr, List.cons_append, List.nil_append, ntohs_htons,
    ntohl_htonl, hcwr, hece, hurg, hack, hpsh, hrst, hsyn, hfin, hoffs, hx, hae]
  rw [← hc]
  rfl

theorem length_bytes_of_lt {option : TcpOption} (h : 1 < option.length) :
    option.bytes.length =
      2 + (TcpOption.bodyBytes option.kind option.length option.body).length := by
  simp only [TcpOption.bytes, if_pos h, List.cons_append, List.length_cons, List.nil_append]
  omega

theorem length_bytes {option : TcpOption} (h : option.Consistent) :
    option.bytes.length = option.length := by
  obtain ⟨kind, length, body⟩ := option
  cases body with
  | optionEnd | nop | maxSegmentSize | windowScale | sackPermitted | timestamp =>
    obtain ⟨-, rfl⟩ := h
    rfl
  | sack sackItem =>
    obtain ⟨-, rfl⟩ := h
    have hs : (sackItem.flatMap SackItem.bytes).length = sackItem.length * 8 := by
      rw [List.length_flatMap]
      simp [SackItem.bytes, shiftedBytes]
    rw [length_bytes_of_lt (by simp only; omega), TcpOption.bodyBytes, hs]
  | tcpFastOpen cookie =>
    obtain ⟨-, rfl⟩ := h
    exact length_bytes_of_lt (by simp only; omega)
  | tcpFastOpenExp expId cookie =>
    obtain ⟨-, rfl⟩ := h
    rw [length_bytes_of_lt (by simp only; omega), TcpOption.bodyBytes, List.length_append]
    simp only [shiftedBytes, List.length_map, List.length_cons, List.length_nil]
    omega
  | accEcn ect0Bytes ect1Bytes ceBytes =>
    obtain ⟨-, h2, -⟩ := h
    have hf : ((TcpOption.presentFields kind length ect0Bytes ect1Bytes ceBytes).flatMap
        fun field => shiftedBytes [16, 8, 0] field.toNat).length = 3 * numFields length := by
      rw [List.length_flatMap]
      simp [shiftedBytes, length_presentFields]
      omega
    have hn : 3 * numFields length ≤ length - 2 := by
      unfold numFields
      omega
    rw [length_bytes_of_lt h2, TcpOption.bodyBytes, List.length_append, hf, List.length_replicate]
    simp only at h2 ⊢
    omega
  | unknown bytes =>
    obtain rfl : length = 2 + bytes.length := h
    exact length_bytes_of_lt (by simp only; omega)

theorem length_flatMap_bytes {options : List TcpOption}
    (h : ∀ option ∈ options, option.Consistent) :
    (options.flatMap TcpOption.bytes).length = (options.map TcpOption.length).sum := by
  rw [List.length_flatMap]
  congr 1
  exact List.map_congr_left fun option hmem => length_bytes (h option hmem)

theorem length_tcphdr (header : TcpHeader) : (tcphdr header).length = minHeaderLength := rfl

theorem packs_serializeFields {header : TcpHeader} {stream : MemoryOutputStream}
    (h : serializeFields empty header = .ok stream) :
    header.checksumMode = .computed ∧ header.headerLength % 4 = 0 ∧
      header.headerLength = minHeaderLength + optionsLength header ∧
      (∀ option ∈ writtenOptions header, option.Consistent) ∧
      Packs stream
        (concat (tcphdr header) ++ concat ((writtenOptions header).flatMap TcpOption.bytes)) := by
  unfold serializeFields at h
  split at h
  · cases h
  rename_i hc
  split at h
  · cases h
  rename_i hm
  obtain ⟨s₁, hw, hp₁⟩ := packs_empty.writeBuffer (length_tcphdr header).ge
  rw [hw, Error.ok_bind] at h
  obtain ⟨s₂, hs₂, h⟩ := Error.exists_of_bind_eq_ok h
  obtain ⟨hcons, hp₂⟩ := hp₁.foldlM (fun _ _ _ _ hs h => packs_serializeOption hs h) hs₂
  simp only at h
  split at h
  next => cases h
  next hl =>
    have hlen : header.headerLength = minHeaderLength + optionsLength header := not_not.1 hl
    -- the lengths add up to a multiple of four, so nothing was padded
    have hpad : ¬ optionsLength header % 4 ≠ 0 := by
      rw [minHeaderLength] at hlen
      omega
    rw [if_neg hpad] at h
    cases h
    refine ⟨not_not.1 hc, not_not.1 hm, hlen, hcons, ?_⟩
    rwa [List.nil_append, ← length_tcphdr header, List.take_length, ← concat_flatMap] at hp₂

/-- The headers of a segment: every option has a length, the options fit behind the fixed header,
and the raw options are those without a class. -/
structure Serializable (header : TcpHeader) : Prop where
  length_pos : ∀ option ∈ header.headerOption, 0 < option.length
  sum_length_le : (header.headerOption.map TcpOption.length).sum ≤ 40
  rawKind : ∀ option ∈ header.headerOption, option.RawKind

theorem length_le_sum {options : List TcpOption} (h : ∀ option ∈ options, 0 < option.length) :
    options.length ≤ (options.map TcpOption.length).sum := by
  induction options with
  | nil => exact le_rfl
  | cons option options ih =>
    obtain ⟨hpos, h⟩ := List.forall_mem_cons.1 h
    have := ih h
    simp only [List.length_cons, List.map_cons, List.sum_cons]
    omega

theorem Serializable.writtenOptions_eq {header : TcpHeader} (h : Serializable header) :
    writtenOptions header = header.headerOption := by
  have := length_le_sum h.length_pos
  have := h.sum_length_le
  rw [writtenOptions, Nat.mod_eq_of_lt (by omega), List.take_length]

/-- `header` is written without an error, and reading it consumes exactly the written bytes and
returns `header'`, complete. -/
def ReadsBack (header header' : TcpHeader) : Prop :=
  ∃ output input final, serializeFields empty header = .ok output ∧
    MemoryInputStream.ofData output.getData output.getLength = .ok input ∧
    deserializeFields.run input = .ok (header', final) ∧
    final.getRemainingLength = 0 ∧ final.isReadBeyondEnd = false

theorem deserializeFields_run {header : TcpHeader} (hs : Serializable header)
    (hc : header.checksumMode = .computed) (hm : header.headerLength % 4 = 0)
    (hl : header.headerLength = minHeaderLength + (header.headerOption.map TcpOption.length).sum)
    (hcons : ∀ option ∈ header.headerOption, option.Consistent) {s : MemoryInputStream}
    (h : Holds s (concat (tcphdr header) ++ concat (header.headerOption.flatMap TcpOption.bytes))) :
    ∃ s', deserializeFields.run s =
      .ok ({ header with headerOption := header.headerOption.map TcpOption.wireForm }, s') ∧
      Holds s' [] := by
  have hsum := hs.sum_length_le
  have h60 : header.headerLength ≤ 60 := by rw [hl, minHeaderLength]; omega
  obtain ⟨s₁, h₁, hs₁⟩ := consumes_readBytes (tcphdr header) s _ h
  rw [length_tcphdr] at h₁
  have hread : (liftM (ofTcphdr (tcphdr header) []) : Reader TcpHeader).run s₁ =
      .ok ({ header with headerOption := [] }, s₁) := by
    rw [ofTcphdr_tcphdr hm h60 hc]
    rfl
  have hlen := keepsLength_readBytes _ _ _ _ h₁
  have hadd := h.position_add_length
  have hadd₁ := hs₁.position_add_length
  simp only [List.length_append, length_concat, length_tcphdr, minHeaderLength,
    length_flatMap_bytes hcons] at hadd hadd₁
  rw [deserializeFields, StateT.run_bind, StateT.run_get, pure_bind]
  simp only
  rw [StateT.run_bind, h₁, Error.ok_bind, StateT.run_bind, hread, Error.ok_bind]
  simp only
  split
  next hmore =>
    have hoptions : ∀ option ∈ header.headerOption,
        option.Consistent ∧ option.RawKind ∧ option.length < 256 := by
      intro option hmem
      have : option.length ≤ (header.headerOption.map TcpOption.length).sum :=
        List.le_sum_of_mem (List.mem_map_of_mem hmem)
      exact ⟨hcons option hmem, hs.rawKind option hmem, by omega⟩
    have hfuel := length_le_sum hs.length_pos
    rw [← List.append_nil (concat _)] at hs₁
    obtain ⟨s₂, h₂, hs₂⟩ := deserializeOptions_run hoptions hs₁
      (show s.position ≤ s₁.position by omega)
      (show _ = s.position + 8 * header.headerLength by
        rw [length_flatMap_bytes hcons, hl, minHeaderLength]
        omega)
      (show header.headerOption.length < header.headerLength + 1 by omega)
    refine ⟨s₂, ?_, hs₂⟩
    rw [StateT.run_bind, h₂]
    rfl
  next hnone =>
    have hnil : header.headerOption = [] := by
      have := length_le_sum hs.length_pos
      rw [← List.length_eq_zero_iff]
      omega
    rw [hnil] at hs₁
    refine ⟨s₁, ?_, by simpa using hs₁⟩
    rw [hnil]
    rfl

/-- Whatever is written is read back option by option in its wire form; canonical options are read
back as they were. -/
theorem readsBack_wireForm {header : TcpHeader} (h : Serializable header)
    {output : MemoryOutputStream} (hw : serializeFields empty header = .ok output) :
    ReadsBack header { header with headerOption := header.headerOption.map TcpOption.wireForm } ∧
      ((∀ option ∈ header.headerOption, option.Canonical) → ReadsBack header header) := by
  obtain ⟨hc, hm, hl, hcons, hp⟩ := packs_serializeFields hw
  rw [optionsLength, h.writtenOptions_eq] at hl
  rw [h.writtenOptions_eq] at hcons hp
  obtain ⟨input, hi, hin⟩ := holds_ofData hp
  obtain ⟨final, hread, hfin⟩ := deserializeFields_run h hc hm hl hcons hin
  have hend := hfin.position_add_length
  have hrem : final.getRemainingLength = 0 := by
    rw [getRemainingLength, ← hend]
    simp
  have hback : ReadsBack header
      { header with headerOption := header.headerOption.map TcpOption.wireForm } :=
    ⟨output, input, final, hw, hi, hread, hrem, hfin.not_beyond⟩
  refine ⟨hback, ?_⟩
  intro hcan
  have hmap : header.headerOption.map TcpOption.wireForm = header.headerOption :=
    (List.map_congr_left fun option hmem => (hcan option hmem).wireForm_eq).trans (List.map_id _)
  rw [hmap] at hback
  exact hback

/-- A SYN segment with the given options. -/
def synHeader (headerLength : ℕ) (headerOption : List TcpOption) : TcpHeader where
  srcPort := 1024
  destPort := 80
  sequenceNo := 0x01020304
  ackNo := 0
  headerLength := headerLength
  cwrBit := true
  eceBit := true
  aeBit := true
  urgBit := false
  ackBit := false
  pshBit := false
  rstBit := false
  synBit := true
  finBit := false
  window := 7504
  urgentPointer := 0
  checksum := 0xABCD
  checksumMode := .computed
  headerOption := headerOption

/-- The options of a SYN with a fast open request, an AccECN option and a raw option. -/
def synOptions : List TcpOption :=
  [⟨2, 4, .maxSegmentSize 1460⟩, ⟨3, 3, .windowScale 7⟩, ⟨4, 2, .sackPermitted⟩,
    ⟨8, 10, .timestamp 5 6⟩, ⟨34, 6, .tcpFastOpen [1, 2, 3, 4]⟩, ⟨172, 8, .accEcn 1 0 2⟩,
    ⟨30, 3, .unknown [9]⟩, ⟨1, 1, .nop⟩, ⟨1, 1, .nop⟩, ⟨1, 1, .nop⟩, ⟨0, 1, .optionEnd⟩]

theorem readsBack_synHeader : ReadsBack (synHeader 60 synOptions) (synHeader 60 synOptions) := by
  have hs : Serializable (synHeader 60 synOptions) := by
    constructor <;> simp [synHeader, synOptions, TcpOption.RawKind, typedKinds]
  have hcan : ∀ option ∈ (synHeader 60 synOptions).headerOption, option.Canonical := by
    simp [synHeader, synOptions, TcpOption.Canonical, TcpOption.CookieLength, accEcnFields,
      numFields]
  cases h : serializeFields empty (synHeader 60 synOptions) with
  | error e => cases h
  | ok output => exact (readsBack_wireForm hs h).2 hcan

/-- An experimental option whose magic is not that of fast open comes back as a raw option. -/
theorem exists_not_readsBack : ∃ header, Serializable header ∧
    (∃ output, serializeFields empty header = .ok output) ∧
    (∀ option ∈ header.headerOption, option.Consistent) ∧ ¬ ReadsBack header header := by
  refine ⟨synHeader 24 [⟨254, 4, .tcpFastOpenExp 0x1234 []⟩], ?_, ⟨_, rfl⟩, ?_, ?_⟩
  · constructor <;> simp [synHeader, TcpOption.RawKind]
  · simp [synHeader, TcpOption.Consistent]
  · rintro ⟨output, input, final, hw, hi, hread, -, -⟩
    cases hw
    cases hi
    have hoptions := congrArg (Except.map fun result => result.1.headerOption) hread
    cases hoptions

end TcpHeaderSerializer

end Inet.Tcp
