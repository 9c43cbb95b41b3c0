import Inet.Applications.DhcpMessageSerializer
import Inet.Stream.RoundTrip
import Inet.Tcp.HeaderRoundTrip

/-! # The bytes of a DHCP message

What the serializer appends, written as one list of bits, and the number of
bytes that a message needs.
-/

namespace Inet.Dhcp

open Ipv4 (Ipv4Address)

open BitString MemoryOutputStream Tcp

/-! ## Bytes -/

def addressBytes (address : Ipv4Address) : List Byte := shiftedBytes [24, 16, 8, 0] address.toNat

def macBytes (address : MacAddress) : List Byte :=
  shiftedBytes [40, 32, 24, 16, 8, 0] address.toNat

/-- The bits of the fields before the server host name. -/
def fixedBits (m : DhcpMessage) : List Bool :=
  concat [BitVec.ofInt 8 m.op, BitVec.ofInt 8 m.htype, BitVec.ofInt 8 m.hlen,
      BitVec.ofInt 8 m.hops] ++
    concat (shiftedBytes [24, 16, 8, 0] m.xid.toNat) ++
    concat (shiftedBytes [8, 0] (BitVec.ofInt 16 m.secs).toNat) ++ [m.broadcast] ++
    ((bitMasks 15).map fun mask => decide (m.reserved.toNat &&& mask ≠ 0)) ++
    concat (addressBytes m.ciaddr ++ addressBytes m.yiaddr ++ shiftedBytes [24, 16, 8, 0] 0 ++
      addressBytes m.giaddr ++ macBytes m.chaddr ++ [0, 0] ++
      shiftedBytes [56, 48, 40, 32, 24, 16, 8, 0] 0)

/-- A string in a field of `limit` bytes. -/
def nameBytes (limit : ℕ) (name : CString) : List Byte :=
  name.bytes ++ 0 :: List.replicate (limit - (name.bytes.length + 1)) 0

def optionBytes (code : Byte) (data : List Byte) : List Byte :=
  code :: BitVec.ofNat 8 data.length :: data

def messageTypeBytes (o : DhcpOptions) : List Byte :=
  if o.messageType ≠ -1 then optionBytes DHCP_MSG_TYPE [BitVec.ofInt 8 o.messageType] else []

def hostNameBytes (o : DhcpOptions) : List Byte :=
  if o.hostName.bytes ≠ [] then optionBytes HOSTNAME o.hostName.bytes else []

def parameterRequestListBytes (o : DhcpOptions) : List Byte :=
  if o.parameterRequestList.length > 0 then
    optionBytes PARAM_LIST (o.parameterRequestList.map fun code => BitVec.ofInt 8 code)
  else []

def clientIdentifierBytes (o : DhcpOptions) : List Byte :=
  if !MacAddress.isUnspecified o.clientIdentifier then
    optionBytes CLIENT_ID (1 :: macBytes o.clientIdentifier)
  else []

def addressOptionBytes (code : Byte) (address : Ipv4Address) : List Byte :=
  if !Ipv4Address.isUnspecified address then optionBytes code (addressBytes address) else []

def addressListOptionBytes (code : Byte) (addresses : List Ipv4Address) : List Byte :=
  if addresses.length > 0 then optionBytes code (addresses.flatMap addressBytes) else []

def timeOptionBytes (code : Byte) (time : ℤ) : List Byte :=
  if time ≠ 0 then optionBytes code (shiftedBytes [24, 16, 8, 0] (BitVec.ofInt 32 time).toNat)
  else []

def optionsBytes (o : DhcpOptions) : List Byte :=
  messageTypeBytes o ++ (hostNameBytes o ++ (parameterRequestListBytes o ++
    (clientIdentifierBytes o ++ (addressOptionBytes REQUESTED_IP o.requestedIp ++
    (addressOptionBytes SUBNET_MASK o.subnetMask ++ (addressListOptionBytes ROUTER o.router ++
    (addressListOptionBytes DNS o.dns ++ (addressListOptionBytes NTP_SRV o.ntp ++
    (addressOptionBytes SERVER_ID o.serverIdentifier ++
    (timeOptionBytes RENEWAL_TIME o.renewalTime ++
    (timeOptionBytes REBIND_TIME o.rebindingTime ++
    timeOptionBytes LEASE_TIME o.leaseTime)))))))))))

/-- The number of bytes up to the end option. -/
def bytesNeeded (m : DhcpMessage) : ℕ := 236 + 4 + (optionsBytes m.options).length + 1

/-- All bits of a message, up to the given number of zero bytes at the end. -/
def messageBits (m : DhcpMessage) (padding : ℕ) : List Bool :=
  fixedBits m ++ (concat (nameBytes 64 m.sname) ++ (concat (nameBytes 128 m.file) ++
    (concat ([99, 130, 83, 99] : List Byte) ++
      (concat (optionsBytes m.options) ++ (msb (255 : Byte) ++
      concat (List.replicate padding (0 : Byte)))))))

@[simp] theorem length_shiftedBytes (shifts : List ℕ) (value : ℕ) :
    (shiftedBytes shifts value).length = shifts.length := List.length_map _

@[simp] theorem length_addressBytes (address : Ipv4Address) : (addressBytes address).length = 4 :=
  length_shiftedBytes _ _

@[simp] theorem length_macBytes (address : MacAddress) : (macBytes address).length = 6 :=
  length_shiftedBytes _ _

@[simp] theorem length_flatMap_addressBytes (addresses : List Ipv4Address) :
    (addresses.flatMap addressBytes).length = addresses.length * 4 := by
  induction addresses with
  | nil => rfl
  | cons address addresses ih =>
    rw [List.flatMap_cons, List.length_append, ih, length_addressBytes, List.length_cons]
    omega

theorem length_fixedBits (m : DhcpMessage) : (fixedBits m).length = 8 * 44 := by
  simp [fixedBits, bitMasks]

theorem length_nameBytes {limit : ℕ} {name : CString} (h : name.bytes.length < limit) :
    (nameBytes limit name).length = limit := by
  simp only [nameBytes, List.length_append, List.length_cons, List.length_replicate]
  omega

/-! ## What is written -/

namespace DhcpMessageSerializer

section Packs

variable {s s' : MemoryOutputStream} {bits : List Bool}

theorem packs_writeMacAddress (h : Packs s bits) (address : MacAddress) :
    ∃ s', writeMacAddress s address = .ok s' ∧ Packs s' (bits ++ concat (macBytes address)) := by
  refine ⟨_, Error.bind_of_eq_ok (Error.assert_of_pos ?_) rfl, h.writeShifted _ _⟩
  rw [Nat.shiftRight_eq_div_pow]
  exact Nat.div_eq_of_lt address.isLt

theorem packs_writeFixed (h : Packs s bits) (m : DhcpMessage) :
    ∃ s', writeFixed s m = .ok s' ∧ Packs s' (bits ++ fixedBits m) := by
  have h₁ := ((((((h.writeByte (BitVec.ofInt 8 m.op)).writeByte (BitVec.ofInt 8 m.htype)).writeByte
    (BitVec.ofInt 8 m.hlen)).writeByte (BitVec.ofInt 8 m.hops)).writeShifted [24, 16, 8, 0]
    m.xid.toNat).writeShifted [8, 0] (BitVec.ofInt 16 m.secs).toNat).writeBit m.broadcast
  have h₂ := ((((h₁.writeMasked (bitMasks 15) m.reserved.toNat).writeShifted [24, 16, 8, 0]
    m.ciaddr.toNat).writeShifted [24, 16, 8, 0] m.yiaddr.toNat).writeShifted [24, 16, 8, 0]
    0).writeShifted [24, 16, 8, 0] m.giaddr.toNat
  obtain ⟨s', hmac, h₃⟩ := packs_writeMacAddress h₂ m.chaddr
  have h₄ := ((h₃.writeByte 0).writeByte 0).writeShifted [56, 48, 40, 32, 24, 16, 8, 0] 0
  refine ⟨_, Error.bind_of_eq_ok rfl (Error.bind_of_eq_ok hmac rfl), ?_⟩
  simp only [fixedBits, addressBytes, macBytes, shiftedBytes, concat_append, concat_cons,
    concat_nil,
    List.append_nil, List.append_assoc] at h₄ ⊢
  exact h₄

theorem packs_writeName (h : Packs s bits) {limit : ℕ} {text : String} {name : CString}
    (hlt : name.bytes.length < limit) :
    ∃ s', writeName s limit text name = .ok s' ∧
      Packs s' (bits ++ concat (nameBytes limit name)) := by
  rw [writeName, if_neg (by omega), if_neg (by omega)]
  refine ⟨_, rfl, ?_⟩
  have hp := ((h.writeByte_foldl name.bytes).writeByte 0).writeByte_foldl
    (List.replicate (limit - (name.bytes.length + 1)) 0)
  rw [nameBytes, concat_append, concat_cons, ← List.append_assoc, ← List.append_assoc]
  exact hp

theorem lt_of_writeName_eq_ok {limit : ℕ} {text : String} {name : CString}
    (h : writeName s limit text name = .ok s') : name.bytes.length < limit := by
  rw [writeName] at h
  by_cases hlong : name.bytes.length > limit
  · rw [if_pos hlong] at h
    cases h
  · rw [if_neg hlong] at h
    by_cases hfull : name.bytes.length + 1 > limit
    · rw [if_pos hfull] at h
      cases h
    · omega

/-- A step of the serializer appends some bytes, and counts them. -/
def Appends (step : OptionOutput → Except Error OptionOutput) (bytes : List Byte) : Prop :=
  ∀ out bits, Packs out.stream bits → ∃ out', step out = .ok out' ∧
    Packs out'.stream (bits ++ concat bytes) ∧ out'.length = out.length +
      BitVec.ofNat 16 bytes.length

theorem appends_nil : Appends (fun out => pure out) [] := by
  intro out bits h
  exact ⟨out, rfl, by simpa using h, by simp⟩

theorem Appends.bind {step step' : OptionOutput → Except Error OptionOutput}
    {bytes bytes' : List Byte} (h : Appends step bytes) (h' : Appends step' bytes') :
    Appends (fun out => step out >>= step') (bytes ++ bytes') := by
  intro out bits hs
  obtain ⟨out₁, h₁, hs₁, hl₁⟩ := h out bits hs
  obtain ⟨out₂, h₂, hs₂, hl₂⟩ := h' out₁ _ hs₁
  refine ⟨out₂, Error.bind_of_eq_ok h₁ h₂, ?_, ?_⟩
  · rwa [concat_append, ← List.append_assoc]
  · rw [hl₂, hl₁, BitVec.add_assoc, ← BitVec.ofNat_add, List.length_append]

theorem appends_writeOption {code : Byte} {size : BitVec 16} {data : List Byte}
    {write : MemoryOutputStream → Except Error MemoryOutputStream}
    (hsize : size = BitVec.ofNat 16 data.length)
    (hwrite : ∀ s bits, Packs s bits →
      ∃ s', write s = .ok s' ∧ Packs s' (bits ++ concat data)) :
    Appends (fun out => writeOption out code size write) (optionBytes code data) := by
  subst hsize
  intro out bits hs
  have hbyte : (BitVec.ofNat 16 data.length).setWidth 8 = BitVec.ofNat 8 data.length := by
    rw [BitVec.setWidth_ofNat_of_le (by decide)]
  have h₂ := (hs.writeByte code).writeByte ((BitVec.ofNat 16 data.length).setWidth 8)
  obtain ⟨s', hw, hp⟩ := hwrite _ _ h₂
  refine ⟨_, Error.bind_of_eq_ok hw rfl, ?_, ?_⟩
  · simpa [optionBytes, hbyte] using hp
  · simp only [optionBytes, List.length_cons]
    rw [Nat.add_assoc, Nat.add_comm data.length, BitVec.ofNat_add]
    rfl

theorem appends_ite {p : Prop} [Decidable p] {step : OptionOutput → Except Error OptionOutput}
    {bytes : List Byte} (h : p → Appends step bytes) :
    Appends (fun out => if p then step out else pure out) (if p then bytes else []) := by
  by_cases hp : p
  · simp only [if_pos hp]
    exact h hp
  · simp only [if_neg hp]
    exact appends_nil

theorem packs_writeAddresses (h : Packs s bits) (addresses : List Ipv4Address) :
    Packs (addresses.foldl writeIpv4Address s)
      (bits ++ concat (addresses.flatMap addressBytes)) := by
  rw [concat_flatMap]
  exact h.foldl (fun _ _ address h => h.writeShifted _ address.toNat) addresses

theorem appends_writeMessageType (o : DhcpOptions) :
    Appends (writeMessageType o) (messageTypeBytes o) :=
  appends_ite fun _ => appends_writeOption rfl fun _ _ h =>
    ⟨_, rfl, by simpa using h.writeByte (BitVec.ofInt 8 o.messageType)⟩

theorem appends_writeHostName (o : DhcpOptions) : Appends (writeHostName o) (hostNameBytes o) :=
  appends_ite fun _ => appends_writeOption rfl fun _ _ h =>
    ⟨_, rfl, h.writeByte_foldl o.hostName.bytes⟩

theorem appends_writeParameterRequestList (o : DhcpOptions) :
    Appends (writeParameterRequestList o) (parameterRequestListBytes o) := by
  refine appends_ite fun _ => appends_writeOption (by rw [List.length_map]) fun s bits h =>
    ⟨_, rfl, ?_⟩
  have hp := h.writeByte_foldl (o.parameterRequestList.map fun code => BitVec.ofInt 8 code)
  rwa [List.foldl_map] at hp

theorem appends_writeClientIdentifier (o : DhcpOptions) :
    Appends (writeClientIdentifier o) (clientIdentifierBytes o) := by
  refine appends_ite fun _ => appends_writeOption rfl fun s bits h => ?_
  obtain ⟨s', hw, hp⟩ := packs_writeMacAddress (h.writeByte 1) o.clientIdentifier
  exact ⟨s', hw, by simpa using hp⟩

theorem appends_writeAddressOption (code : Byte) (address : Ipv4Address) :
    Appends (writeAddressOption code address) (addressOptionBytes code address) :=
  appends_ite fun _ => appends_writeOption rfl fun _ _ h =>
    ⟨_, rfl, h.writeShifted _ address.toNat⟩

theorem appends_writeAddressListOption (code : Byte) (addresses : List Ipv4Address) :
    Appends (writeAddressListOption code addresses) (addressListOptionBytes code addresses) :=
  appends_ite fun _ => appends_writeOption (by rw [length_flatMap_addressBytes]) fun _ _ h =>
    ⟨_, rfl, packs_writeAddresses h addresses⟩

theorem appends_writeTimeOption (code : Byte) (time : ℤ) :
    Appends (writeTimeOption code time) (timeOptionBytes code time) :=
  appends_ite fun _ => appends_writeOption rfl fun _ _ h =>
    ⟨_, rfl, h.writeShifted _ (BitVec.ofInt 32 time).toNat⟩

theorem appends_writeOptions (o : DhcpOptions) : Appends (writeOptions o) (optionsBytes o) :=
  (appends_writeMessageType o).bind <| (appends_writeHostName o).bind <|
  (appends_writeParameterRequestList o).bind <| (appends_writeClientIdentifier o).bind <|
  (appends_writeAddressOption _ _).bind <| (appends_writeAddressOption _ _).bind <|
  (appends_writeAddressListOption _ _).bind <| (appends_writeAddressListOption _ _).bind <|
  (appends_writeAddressListOption _ _).bind <| (appends_writeAddressOption _ _).bind <|
  (appends_writeTimeOption _ _).bind <| (appends_writeTimeOption _ _).bind <|
  appends_writeTimeOption _ _

end Packs

theorem toNat_count {n : ℕ} (h : 236 + 4 + n + 1 < 2 ^ 16) :
    (236 + 4 + BitVec.ofNat 16 n + 1 : BitVec 16).toNat = 236 + 4 + n + 1 := by
  have h240 : (236 + 4 : BitVec 16).toNat = 236 + 4 := rfl
  have h1 : (1 : BitVec 16).toNat = 1 := rfl
  rw [BitVec.toNat_add, BitVec.toNat_add, BitVec.toNat_ofNat, h240, h1]
  omega

theorem serializeFields_eq_ok {m : DhcpMessage} {s : MemoryOutputStream}
    (h : serializeFields empty m = .ok s) (hneed : bytesNeeded m ≤ m.chunkLength) :
    m.sname.bytes.length < 64 ∧ m.file.bytes.length < 128 ∧ m.chunkLength < 2 ^ 16 ∧
      Packs s (messageBits m (m.chunkLength - bytesNeeded m)) := by
  rw [serializeFields] at h
  obtain ⟨s₁, h₁, h⟩ := Error.exists_of_bind_eq_ok h
  obtain ⟨s₁', h₁', hp₁⟩ := packs_writeFixed packs_empty m
  obtain rfl := Except.ok.inj (h₁.symm.trans h₁')
  obtain ⟨s₂, h₂, h⟩ := Error.exists_of_bind_eq_ok h
  have hsname := lt_of_writeName_eq_ok h₂
  obtain ⟨s₂', h₂', hp₂⟩ := packs_writeName hp₁ hsname
  obtain rfl := Except.ok.inj (h₂.symm.trans h₂')
  obtain ⟨s₃, h₃, h⟩ := Error.exists_of_bind_eq_ok h
  have hfile := lt_of_writeName_eq_ok h₃
  obtain ⟨s₃', h₃', hp₃⟩ := packs_writeName hp₂ hfile
  obtain rfl := Except.ok.inj (h₃.symm.trans h₃')
  obtain ⟨out, h₄, h⟩ := Error.exists_of_bind_eq_ok h
  obtain ⟨out', h₄', hp₄, hlen⟩ := appends_writeOptions m.options
    ⟨writeMagicCookie s₃, 236 + 4⟩ _ (hp₃.writeByte_foldl _)
  obtain rfl := Except.ok.inj (h₄.symm.trans h₄')
  simp only at h hlen
  by_cases hlength : m.chunkLength ≠
      (out.length + 1 + BitVec.ofInt 16 ((m.chunkLength : ℤ) - (out.length + 1).toNat)).toNat
  · rw [if_pos hlength] at h
    cases h
  rw [if_neg hlength] at h
  have hlt : m.chunkLength < 2 ^ 16 := by
    rw [not_not.1 hlength]
    exact BitVec.isLt _
  have hcount : (out.length + 1).toNat = bytesNeeded m := by
    rw [hlen]
    exact toNat_count (hneed.trans_lt hlt)
  have hpadding : ((m.chunkLength : ℤ) - (out.length + 1).toNat).toNat =
      m.chunkLength - bytesNeeded m := by omega
  cases h
  refine ⟨hsname, hfile, hlt, ?_⟩
  have hp := (hp₄.writeByte 255).writeByte_foldl
    (List.replicate (m.chunkLength - bytesNeeded m) (0 : Byte))
  rw [hpadding]
  simp only [messageBits, List.append_assoc, List.nil_append] at hp ⊢
  exact hp

theorem exists_serializeFields {m : DhcpMessage} (hsname : m.sname.bytes.length < 64)
    (hfile : m.file.bytes.length < 128) (hneed : bytesNeeded m ≤ m.chunkLength)
    (hlt : m.chunkLength < 2 ^ 16) : ∃ s, serializeFields empty m = .ok s := by
  obtain ⟨s₁, h₁, hp₁⟩ := packs_writeFixed packs_empty m
  obtain ⟨s₂, h₂, hp₂⟩ := packs_writeName hp₁ hsname
  obtain ⟨s₃, h₃, hp₃⟩ := packs_writeName hp₂ hfile
  obtain ⟨out, h₄, -, hlen⟩ := appends_writeOptions m.options
    ⟨writeMagicCookie s₃, 236 + 4⟩ _ (hp₃.writeByte_foldl _)
  have hcount : (out.length + 1).toNat = bytesNeeded m := by
    rw [hlen]
    exact toNat_count (hneed.trans_lt hlt)
  have hlength : ¬ m.chunkLength ≠
      (out.length + 1 + BitVec.ofInt 16 ((m.chunkLength : ℤ) - (out.length + 1).toNat)).toNat := by
    rw [not_not, hcount, BitVec.toNat_add, hcount, BitVec.toNat_ofInt]
    omega
  exact ⟨_, Error.bind_of_eq_ok h₁ (Error.bind_of_eq_ok h₂ (Error.bind_of_eq_ok h₃
    (Error.bind_of_eq_ok h₄ (if_neg hlength))))⟩

theorem length_messageBits {m : DhcpMessage} (hsname : m.sname.bytes.length < 64)
    (hfile : m.file.bytes.length < 128) (padding : ℕ) :
    (messageBits m padding).length = 8 * (bytesNeeded m + padding) := by
  simp only [messageBits, List.length_append, length_fixedBits, length_concat, length_msb,
    length_nameBytes hsname, length_nameBytes hfile, List.length_replicate, bytesNeeded,
    List.length_cons, List.length_nil]
  omega

end DhcpMessageSerializer

end Inet.Dhcp
