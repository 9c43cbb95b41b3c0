import Inet.Applications.DhcpWire
import Inet.Stream.Returns

/-! # The DHCP message round trip

A message is read back as it was when its numbers fit their fields and its
host name and its lists fit the one byte of an option length; nothing checks
this when the message is written, and a longer list shifts what follows it.
-/

namespace Inet.Dhcp

open Ipv4 (Ipv4Address)

open BitString MemoryInputStream MemoryOutputStream Tcp TcpHeaderSerializer WriteOp

/-- The integers that a byte stands for. -/
def IsByte (value : ℤ) : Prop := 0 ≤ value ∧ value ≤ 255

instance (value : ℤ) : Decidable (IsByte value) := inferInstanceAs (Decidable (_ ∧ _))

/-- Every option fits its field, and its length fits one byte. -/
structure DhcpOptions.FitsWire (o : DhcpOptions) : Prop where
  messageType : o.messageType = -1 ∨ IsByte o.messageType
  hostName : o.hostName.bytes.length ≤ 255
  parameterRequestList : o.parameterRequestList.length ≤ 255
  parameterRequestList_byte : ∀ code ∈ o.parameterRequestList, IsByte code
  router : o.router.length ≤ 63
  dns : o.dns.length ≤ 63
  ntp : o.ntp.length ≤ 63

/-- Every number fits its field, and every option fits its field and its length. -/
structure DhcpMessage.FitsWire (m : DhcpMessage) : Prop where
  op : m.op = BOOTREQUEST ∨ m.op = BOOTREPLY
  htype : IsByte m.htype
  hlen : IsByte m.hlen
  hops : IsByte m.hops
  secs : 0 ≤ m.secs ∧ m.secs < 2 ^ 16
  reserved : m.reserved.toNat < 2 ^ 15
  options : m.options.FitsWire

/-- The times are times of a `simtime_t`, not negative and below `2 ^ 32` seconds. -/
structure DhcpOptions.TimesInRange (maxSeconds : ℕ) (o : DhcpOptions) : Prop where
  renewalTime : (0 ≤ o.renewalTime ∧ o.renewalTime < 2 ^ 32) ∧ o.renewalTime ≤ maxSeconds
  rebindingTime : (0 ≤ o.rebindingTime ∧ o.rebindingTime < 2 ^ 32) ∧ o.rebindingTime ≤ maxSeconds
  leaseTime : (0 ≤ o.leaseTime ∧ o.leaseTime < 2 ^ 32) ∧ o.leaseTime ≤ maxSeconds

namespace DhcpMessageSerializer

variable {maxSeconds : ℕ}

/-- The deserializer returns the message from the bytes of the stream, and does not mark it
incorrect. -/
def ReadsBack (maxSeconds : ℕ) (s : MemoryOutputStream) (m : DhcpMessage) : Prop :=
  ∃ input rounds final, MemoryInputStream.ofData s.getData s.getLength = .ok input ∧
    (deserializeFields maxSeconds rounds).run input = .ok (some (m, false), final)

section Values

variable {value : ℤ}

theorem toNat_ofInt_of_isByte (h : IsByte value) : ((BitVec.ofInt 8 value).toNat : ℤ) = value := by
  rw [BitVec.toNat_ofInt]
  have := h.1
  have := h.2
  omega

theorem toNat_ofInt_of_lt {w : ℕ} (h : 0 ≤ value ∧ value < 2 ^ w) :
    ((BitVec.ofInt w value).toNat : ℤ) = value := by
  have hpos : ((2 ^ w : ℕ) : ℤ) ≠ 0 := Int.natCast_ne_zero.2 (Nat.two_pow_pos w).ne'
  rw [BitVec.toNat_ofInt, Int.toNat_of_nonneg (Int.emod_nonneg _ hpos)]
  exact Int.emod_eq_of_lt h.1 (by exact_mod_cast h.2)

theorem toNat_length {n : ℕ} (h : n ≤ 255) : (BitVec.ofNat 8 n).toNat = n := by
  rw [BitVec.toNat_ofNat]
  omega

end Values

/-! ## Fields -/

theorem consumes_readIpv4Address (address : Ipv4Address) :
    Consumes readIpv4Address (concat (addressBytes address)) address := by
  have h := (consumes_readUint32Be address).map fun value => BitVec.ofNat 32 value
  rwa [BitVec.ofNat_toNat, BitVec.setWidth_eq] at h

theorem consumes_readMacAddress (address : MacAddress) :
    Consumes readMacAddress (concat (macBytes address)) address := by
  have hread : Consumes readUint48Be (concat (macBytes address)) address.toNat :=
    consumes_readShifted _ address.isLt (by simp; omega)
  have h := hread.map fun value => BitVec.ofNat 48 value
  rwa [BitVec.ofNat_toNat, BitVec.setWidth_eq] at h

theorem consumes_readIpv4Addresses (addresses : List Ipv4Address) :
    Consumes (readIpv4Addresses addresses.length) (concat (addresses.flatMap addressBytes))
      addresses := by
  induction addresses with
  | nil => exact Consumes.pure []
  | cons address addresses ih =>
    rw [List.flatMap_cons, concat_append]
    exact (consumes_readIpv4Address address).bind (ih.map (address :: ·))

theorem consumes_assert {p : Prop} [Decidable p] {text : String} (h : p) :
    Consumes (assert p text) [] () := by
  rw [assert, if_pos h]
  exact Consumes.pure ()

theorem Consumes.assert_bind {α : Type} {p : Prop} [Decidable p] {text : String} {m : Reader α}
    {bits : List Bool} {a : α} (hp : p) (h : Consumes m bits a) :
    Consumes (do assert p text; m) bits a :=
  (consumes_assert hp).bind (f := fun _ => m) h

theorem takeWhile_nameBytes (name : CString) (rest : List Byte) :
    (name.bytes ++ 0 :: rest).takeWhile (· ≠ 0) = name.bytes := by
  rw [List.takeWhile_append_of_pos fun b hb => by simpa using name.ne_zero b hb]
  simp

theorem cString_eq (name : CString) (rest : List Byte) :
    cString (name.bytes ++ 0 :: rest) = pure name := by
  rw [cString, if_pos (by simp)]
  congr 1
  obtain ⟨bytes, hzero⟩ := name
  simp only [CString.mk.injEq]
  exact takeWhile_nameBytes ⟨bytes, hzero⟩ rest

theorem consumes_readName {limit : ℕ} {name : CString} (h : name.bytes.length < limit) :
    Consumes (readName limit) (concat (nameBytes limit name)) name := by
  have hloop := consumes_readByteLoop (nameBytes limit name)
  rw [length_nameBytes h] at hloop
  have hc : Consumes (cString (nameBytes limit name)) [] name := by
    rw [nameBytes, cString_eq]
    exact Consumes.pure name
  have h := hloop.bind (f := cString) hc
  rwa [List.append_nil] at h

/-- The fields before the server host name, and the defaults of the others. -/
def fixedPart (m : DhcpMessage) : DhcpMessage where
  op := m.op
  htype := m.htype
  hlen := m.hlen
  hops := m.hops
  xid := m.xid
  secs := m.secs
  broadcast := m.broadcast
  reserved := m.reserved
  ciaddr := m.ciaddr
  yiaddr := m.yiaddr
  giaddr := m.giaddr
  chaddr := m.chaddr

theorem consumes_readFixed {m : DhcpMessage} (h : m.FitsWire) :
    Consumes readFixed (fixedBits m) (fixedPart m) := by
  have hop : (if BitVec.ofInt 8 m.op = 1 then BOOTREQUEST else BOOTREPLY) = m.op := by
    rcases h.op with hop | hop <;> rw [hop] <;> decide
  have hsecs := toNat_ofInt_of_lt h.secs
  have hreserved : Consumes (readNBitsToUint64Be 15)
      ((bitMasks 15).map fun mask => decide (m.reserved.toNat &&& mask ≠ 0)) m.reserved.toNat :=
    consumes_readMasked_bitMasks h.reserved
  have hzero : Consumes readUint64Be (concat (shiftedBytes [56, 48, 40, 32, 24, 16, 8, 0] 0)) 0 :=
    consumes_readShifted _ (by decide : 0 < 2 ^ 64) (by simp; omega)
  have hresult : fixedPart m =
      { op := if BitVec.ofInt 8 m.op = 1 then BOOTREQUEST else BOOTREPLY
        htype := (BitVec.ofInt 8 m.htype).toNat
        hlen := (BitVec.ofInt 8 m.hlen).toNat
        hops := (BitVec.ofInt 8 m.hops).toNat
        xid := BitVec.ofNat 32 m.xid.toNat
        secs := (BitVec.ofInt 16 m.secs).toNat
        broadcast := m.broadcast
        reserved := BitVec.ofNat 16 m.reserved.toNat
        ciaddr := m.ciaddr
        yiaddr := m.yiaddr
        giaddr := m.giaddr
        chaddr := m.chaddr } := by
    rw [fixedPart, hop, hsecs, toNat_ofInt_of_isByte h.htype, toNat_ofInt_of_isByte h.hlen,
      toNat_ofInt_of_isByte h.hops]
    simp
  rw [hresult, ← List.append_nil (fixedBits m)]
  simp only [fixedBits, concat_append, concat_cons, concat_nil, List.append_assoc]
  apply (consumes_readByte _).bind
  apply (consumes_readByte _).bind
  apply (consumes_readByte _).bind
  apply (consumes_readByte _).bind
  apply (consumes_readUint32Be m.xid).bind
  apply (consumes_readUint16Be (BitVec.ofInt 16 m.secs)).bind
  apply (consumes_readBit m.broadcast).bind
  apply hreserved.bind
  apply (consumes_readIpv4Address m.ciaddr).bind
  apply (consumes_readIpv4Address m.yiaddr).bind
  apply (consumes_readUint32Be 0).bind
  apply (consumes_readIpv4Address m.giaddr).bind
  apply (consumes_readMacAddress m.chaddr).bind
  apply (consumes_readByte 0).bind
  apply (consumes_readByte 0).bind
  apply hzero.bind
  exact Consumes.pure _

/-! ## Options -/

/-- The loop comes from one state to another by reading the bytes. -/
def ReadsTo (maxSeconds : ℕ) (input : OptionInput) (bytes : List Byte) (input' : OptionInput) :
    Prop :=
  ∃ k, ∀ n bits result, Consumes (readOptions maxSeconds n input') bits result →
    Consumes (readOptions maxSeconds (n + k) input) (concat bytes ++ bits) result

theorem ReadsTo.trans {input input' input'' : OptionInput} {bytes bytes' : List Byte}
    (h : ReadsTo maxSeconds input bytes input') (h' : ReadsTo maxSeconds input' bytes' input'') :
    ReadsTo maxSeconds input (bytes ++ bytes') input'' := by
  obtain ⟨k, hk⟩ := h
  obtain ⟨k', hk'⟩ := h'
  refine ⟨k' + k, ?_⟩
  intro n bits result hread
  rw [concat_append, List.append_assoc, ← Nat.add_assoc]
  exact hk _ _ _ (hk' _ _ _ hread)

theorem readsTo_option {input input' : OptionInput} {code : Byte} {data : List Byte}
    (hcode : code ≠ 255)
    (h : Consumes (readOption maxSeconds code input)
      (concat (BitVec.ofNat 8 data.length :: data)) input') :
    ReadsTo maxSeconds input (optionBytes code data) input' := by
  refine ⟨1, ?_⟩
  intro n bits result hread
  rw [optionBytes, concat_cons, List.append_assoc, readOptions]
  apply (consumes_readByte code).bind
  rw [if_neg hcode]
  exact h.bind hread

/-- The state after an option with the given bytes. -/
def OptionInput.after (input : OptionInput) (options : DhcpOptions) (bytes : List Byte) :
    OptionInput :=
  { input with options := options, length := input.length + bytes.length }

theorem readsTo_ite {p : Prop} [Decidable p] {input : OptionInput} {options : DhcpOptions}
    {bytes : List Byte} (h : p → ReadsTo maxSeconds input bytes (input.after options bytes))
    (hdefault : ¬ p → options = input.options) :
    ReadsTo maxSeconds input (if p then bytes else [])
      (input.after options (if p then bytes else [])) := by
  by_cases hp : p
  · rw [if_pos hp]
    exact h hp
  · rw [if_neg hp, hdefault hp]
    refine ⟨0, ?_⟩
    intro n bits result hread
    simpa [OptionInput.after] using hread

theorem set_eq_after {input : OptionInput} {options : DhcpOptions} {code : Byte} {data : List Byte}
    (h : data.length ≤ 255) :
    input.set options (BitVec.ofNat 8 data.length) =
      input.after options (optionBytes code data) := by
  rw [OptionInput.set, OptionInput.after, toNat_length h, optionBytes, List.length_cons,
    List.length_cons]
  congr 1
  omega

theorem CString.eq_empty {s : CString} (h : s.bytes = []) : s = .empty := by
  obtain ⟨bytes, hzero⟩ := s
  obtain rfl : bytes = [] := h
  rfl

section Options

variable {input : OptionInput} {o : DhcpOptions}

theorem readsTo_messageType (h : o.messageType = -1 ∨ IsByte o.messageType)
    (hdefault : input.options.messageType = -1) :
    ReadsTo maxSeconds input (messageTypeBytes o) (input.after
      { input.options with messageType := o.messageType } (messageTypeBytes o)) := by
  apply readsTo_ite
  · intro hp
    apply readsTo_option (by decide)
    rw [← set_eq_after (by simp), ← toNat_ofInt_of_isByte (h.resolve_left hp)]
    have hread : readOption maxSeconds DHCP_MSG_TYPE = readMessageType := rfl
    rw [hread, concat_cons, toNat_ofInt_of_isByte (h.resolve_left hp)]
    apply (consumes_readByte _).bind
    apply Consumes.assert_bind rfl
    have hbyte := (consumes_readByte (BitVec.ofInt 8 o.messageType)).map fun value =>
      input.set { input.options with messageType := value.toNat } 1
    rw [toNat_ofInt_of_isByte (h.resolve_left hp)] at hbyte
    simpa using hbyte
  · intro hp
    rw [not_not.1 hp, ← hdefault]

theorem readsTo_hostName (h : o.hostName.bytes.length ≤ 255)
    (hdefault : input.options.hostName = .empty) :
    ReadsTo maxSeconds input (hostNameBytes o) (input.after
      { input.options with hostName := o.hostName } (hostNameBytes o)) := by
  apply readsTo_ite
  · intro hp
    apply readsTo_option (by decide)
    have hread : readOption maxSeconds HOSTNAME = readHostName := rfl
    rw [hread, ← set_eq_after h, concat_cons]
    apply (consumes_readByte _).bind
    rw [toNat_length h]
    have hset : Consumes (if o.hostName.bytes.length < o.hostName.bytes.length then
          throw (.undefinedBehavior "uninitialized hostName")
        else do
          let hostName ← cString (o.hostName.bytes ++ [0])
          return input.set { input.options with hostName := hostName }
            (BitVec.ofNat 8 o.hostName.bytes.length)) []
        (input.set { input.options with hostName := o.hostName }
          (BitVec.ofNat 8 o.hostName.bytes.length)) := by
      rw [if_neg (Nat.lt_irrefl _), cString_eq, pure_bind]
      exact Consumes.pure _
    have hbytes := (consumes_readBytes o.hostName.bytes).bind
      (f := fun chars => if chars.length < o.hostName.bytes.length then
          throw (.undefinedBehavior "uninitialized hostName")
        else do
          let hostName ← cString (chars ++ [0])
          return input.set { input.options with hostName := hostName }
            (BitVec.ofNat 8 o.hostName.bytes.length)) hset
    rwa [List.append_nil] at hbytes
  · intro hp
    rw [CString.eq_empty (not_not.1 hp), ← hdefault]

theorem readsTo_parameterRequestList (h : o.parameterRequestList.length ≤ 255)
    (hbyte : ∀ code ∈ o.parameterRequestList, IsByte code)
    (hdefault : input.options.parameterRequestList = []) :
    ReadsTo maxSeconds input (parameterRequestListBytes o) (input.after
      { input.options with parameterRequestList := o.parameterRequestList }
      (parameterRequestListBytes o)) := by
  apply readsTo_ite
  · intro hp
    apply readsTo_option (by decide)
    have hread : readOption maxSeconds PARAM_LIST = readParameterRequestList := rfl
    have hlen : (o.parameterRequestList.map fun code => BitVec.ofInt 8 code).length =
        o.parameterRequestList.length := List.length_map _
    rw [hread, ← set_eq_after (by rwa [hlen]), concat_cons, hlen]
    apply (consumes_readByte _).bind
    rw [toNat_length h]
    have hloop := (consumes_readByteLoop (o.parameterRequestList.map fun code =>
      BitVec.ofInt 8 code)).map fun codes => input.set { input.options with
        parameterRequestList := codes.map fun code => (code.toNat : ℤ) }
        (BitVec.ofNat 8 o.parameterRequestList.length)
    have hcodes : (o.parameterRequestList.map fun code => BitVec.ofInt 8 code).map
        (fun code => (code.toNat : ℤ)) = o.parameterRequestList := by
      rw [List.map_map]
      conv_rhs => rw [← List.map_id o.parameterRequestList]
      apply List.map_congr_left
      intro code hcode
      exact toNat_ofInt_of_isByte (hbyte code hcode)
    rw [hlen, hcodes] at hloop
    exact hloop
  · intro hp
    have hempty : o.parameterRequestList = [] :=
      List.length_eq_zero_iff.1 (Nat.eq_zero_of_not_pos hp)
    rw [hempty, ← hdefault]

theorem readsTo_clientIdentifier (hdefault : input.options.clientIdentifier = 0) :
    ReadsTo maxSeconds input (clientIdentifierBytes o) (input.after
      { input.options with clientIdentifier := o.clientIdentifier } (clientIdentifierBytes o)) := by
  apply readsTo_ite
  · intro hp
    apply readsTo_option (by decide)
    have hread : readOption maxSeconds CLIENT_ID = readClientIdentifier := rfl
    have hlen : (1 :: macBytes o.clientIdentifier).length = 7 := by simp
    rw [hread, ← set_eq_after (by omega), hlen, concat_cons, concat_cons]
    apply (consumes_readByte _).bind
    apply (consumes_readByte _).bind
    apply Consumes.assert_bind ⟨rfl, rfl⟩
    exact (consumes_readMacAddress o.clientIdentifier).map _
  · intro hp
    have hzero : o.clientIdentifier = 0 := by simpa [MacAddress.isUnspecified] using hp
    rw [hzero, ← hdefault]

variable {code : Byte}

theorem readsTo_addressOption (set : DhcpOptions → Ipv4Address → DhcpOptions)
    (address : Ipv4Address) (hcode : code ≠ 255)
    (hread : readOption maxSeconds code = readAddressOption set)
    (hdefault : set input.options 0 = input.options) :
    ReadsTo maxSeconds input (addressOptionBytes code address)
      (input.after (set input.options address) (addressOptionBytes code address)) := by
  apply readsTo_ite
  · intro hp
    apply readsTo_option hcode
    rw [hread, ← set_eq_after (by simp), length_addressBytes, concat_cons]
    apply (consumes_readByte _).bind
    apply Consumes.assert_bind rfl
    exact (consumes_readIpv4Address address).map _
  · intro hp
    have hzero : address = 0 := by simpa [Ipv4Address.isUnspecified] using hp
    rw [hzero, hdefault]

theorem readsTo_addressListOption (set : DhcpOptions → List Ipv4Address → DhcpOptions)
    {addresses : List Ipv4Address} (h : addresses.length ≤ 63) (hcode : code ≠ 255)
    (hread : readOption maxSeconds code = readAddressListOption set)
    (hdefault : set input.options [] = input.options) :
    ReadsTo maxSeconds input (addressListOptionBytes code addresses)
      (input.after (set input.options addresses) (addressListOptionBytes code addresses)) := by
  apply readsTo_ite
  · intro hp
    apply readsTo_option hcode
    have hsize : (BitVec.ofNat 8 (addresses.length * 4)).toNat = addresses.length * 4 :=
      toNat_length (by omega)
    rw [hread, ← set_eq_after (by rw [length_flatMap_addressBytes]; omega),
      length_flatMap_addressBytes, concat_cons]
    apply (consumes_readByte _).bind
    apply Consumes.assert_bind (by rw [hsize]; omega)
    rw [hsize, Nat.mul_div_cancel _ (by decide)]
    exact (consumes_readIpv4Addresses addresses).map _
  · intro hp
    have hempty : addresses = [] := List.length_eq_zero_iff.1 (Nat.eq_zero_of_not_pos hp)
    rw [hempty, hdefault]

theorem readsTo_timeOption (set : DhcpOptions → ℤ → DhcpOptions) {time : ℤ}
    (h : (0 ≤ time ∧ time < 2 ^ 32) ∧ time ≤ maxSeconds) (hcode : code ≠ 255)
    (hread : readOption maxSeconds code = readTimeOption maxSeconds set)
    (hdefault : set input.options 0 = input.options) :
    ReadsTo maxSeconds input (timeOptionBytes code time)
      (input.after (set input.options time) (timeOptionBytes code time)) := by
  apply readsTo_ite
  · intro hp
    apply readsTo_option hcode
    rw [hread, ← set_eq_after (by simp), length_shiftedBytes, concat_cons]
    apply (consumes_readByte _).bind
    apply Consumes.assert_bind rfl
    have htime := (consumes_readUint32Be (BitVec.ofInt 32 time)).bind
      (f := fun value : ℕ => if value ≤ maxSeconds then
        pure (input.set (set input.options value) 4) else throw (.runtime
          "simtime_t: out of range"))
      (by
        rw [if_pos (by have hvalue := toNat_ofInt_of_lt h.1; omega), toNat_ofInt_of_lt h.1]
        exact Consumes.pure _)
    rwa [List.append_nil] at htime
  · intro hp
    rw [not_not.1 hp, hdefault]

theorem readsTo_options (h : o.FitsWire) (ht : o.TimesInRange maxSeconds) (length : ℕ) :
    ReadsTo maxSeconds ⟨{}, length, false⟩ (optionsBytes o)
      ⟨o, length + (optionsBytes o).length, false⟩ := by
  simp only [optionsBytes, List.length_append, ← Nat.add_assoc]
  apply (readsTo_messageType h.messageType rfl).trans
  dsimp only [OptionInput.after]
  apply (readsTo_hostName h.hostName rfl).trans
  dsimp only [OptionInput.after]
  apply (readsTo_parameterRequestList h.parameterRequestList h.parameterRequestList_byte rfl).trans
  dsimp only [OptionInput.after]
  apply (readsTo_clientIdentifier rfl).trans
  dsimp only [OptionInput.after]
  apply (readsTo_addressOption (fun o address => { o with requestedIp := address }) o.requestedIp
    (by decide) rfl rfl).trans
  dsimp only [OptionInput.after]
  apply (readsTo_addressOption (fun o address => { o with subnetMask := address }) o.subnetMask
    (by decide) rfl rfl).trans
  dsimp only [OptionInput.after]
  apply (readsTo_addressListOption (fun o addresses => { o with router := addresses }) h.router
    (by decide) rfl rfl).trans
  dsimp only [OptionInput.after]
  apply (readsTo_addressListOption (fun o addresses => { o with dns := addresses }) h.dns
    (by decide) rfl rfl).trans
  dsimp only [OptionInput.after]
  apply (readsTo_addressListOption (fun o addresses => { o with ntp := addresses }) h.ntp
    (by decide) rfl rfl).trans
  dsimp only [OptionInput.after]
  apply (readsTo_addressOption (fun o address => { o with serverIdentifier := address })
    o.serverIdentifier (by decide) rfl rfl).trans
  dsimp only [OptionInput.after]
  apply (readsTo_timeOption (fun o time => { o with renewalTime := time }) ht.renewalTime
    (by decide) rfl rfl).trans
  dsimp only [OptionInput.after]
  apply (readsTo_timeOption (fun o time => { o with rebindingTime := time }) ht.rebindingTime
    (by decide) rfl rfl).trans
  dsimp only [OptionInput.after]
  exact readsTo_timeOption (fun o time => { o with leaseTime := time }) ht.leaseTime
    (by decide) rfl rfl

end Options

theorem run_bind_of_consumes {α β : Type} {m : Reader α} {bits rest : List Bool} {a : α}
    {s : MemoryInputStream} (h : Consumes m bits a) (hs : Holds s (bits ++ rest)) :
    ∃ s', Holds s' rest ∧ ∀ f : α → Reader β, (m >>= f).run s = (f a).run s' := by
  obtain ⟨s', hrun, hs'⟩ := h s rest hs
  refine ⟨s', hs', fun f => ?_⟩
  rw [StateT.run_bind, hrun]
  rfl

theorem consumes_readOptions {o : DhcpOptions} (h : o.FitsWire) (ht : o.TimesInRange maxSeconds) :
    ∃ rounds, Consumes (readOptions maxSeconds rounds ⟨{}, 236 + 4, false⟩)
      (concat (optionsBytes o) ++ msb (255 : Byte))
      (some ⟨o, 236 + 4 + (optionsBytes o).length, false⟩) := by
  obtain ⟨k, hk⟩ := readsTo_options h ht (236 + 4)
  refine ⟨1 + k, hk 1 _ _ ?_⟩
  have hend := (consumes_readByte 255).bind (f := fun code : Byte =>
      if code = 255 then pure (some ⟨o, 236 + 4 + (optionsBytes o).length, false⟩)
      else do
        let input ← readOption maxSeconds code ⟨o, 236 + 4 + (optionsBytes o).length, false⟩
        readOptions maxSeconds 0 input) (Consumes.pure _)
  rwa [List.append_nil] at hend

theorem readsBack_of_fitsWire {m : DhcpMessage} {s : MemoryOutputStream} (h : m.FitsWire)
    (ht : m.options.TimesInRange maxSeconds) (hsname : m.sname.bytes.length < 64)
    (hfile : m.file.bytes.length < 128) (hneed : bytesNeeded m ≤ m.chunkLength)
    (hp : Packs s (messageBits m (m.chunkLength - bytesNeeded m))) : ReadsBack maxSeconds s m := by
  obtain ⟨input, hinput, hs⟩ := holds_ofData hp
  obtain ⟨rounds, hoptions⟩ := consumes_readOptions h.options ht
  rw [messageBits] at hs
  obtain ⟨s₁, hs₁, h₁⟩ := run_bind_of_consumes (β := Option (DhcpMessage × Bool))
    (consumes_readFixed h) hs
  obtain ⟨s₂, hs₂, h₂⟩ := run_bind_of_consumes (β := Option (DhcpMessage × Bool))
    (consumes_readName hsname) hs₁
  obtain ⟨s₃, hs₃, h₃⟩ := run_bind_of_consumes (β := Option (DhcpMessage × Bool))
    (consumes_readName hfile) hs₂
  have hcookie : Consumes (readByteLoop 4) (concat [99, 130, 83, 99]) [99, 130, 83, 99] :=
    consumes_readByteLoop [99, 130, 83, 99]
  obtain ⟨s₄, hs₄, h₄⟩ := run_bind_of_consumes (β := Option (DhcpMessage × Bool)) hcookie hs₃
  rw [← List.append_assoc] at hs₄
  obtain ⟨s₅, hs₅, h₅⟩ := run_bind_of_consumes (β := Option (DhcpMessage × Bool)) hoptions hs₄
  have hpadding : s₅.getRemainingLength = 8 * (m.chunkLength - bytesNeeded m) := by
    have hend := hs₅.position_add_length
    rw [length_concat, List.length_replicate] at hend
    rw [getRemainingLength]
    omega
  have hloop := consumes_readByteLoop (List.replicate (m.chunkLength - bytesNeeded m) 0)
  rw [List.length_replicate] at hloop
  rw [← List.append_nil (concat _)] at hs₅
  obtain ⟨s₆, hs₆, h₆⟩ := run_bind_of_consumes (β := Option (DhcpMessage × Bool)) hloop hs₅
  have hbytes : (toBytes (s₅.getRemainingLength : ℤ) : Reader ℤ) =
      pure ((m.chunkLength - bytesNeeded m : ℕ) : ℤ) := by
    rw [toBytes, hpadding, if_pos (by omega)]
    congr 1
    omega
  have hm : ({ fixedPart m with
      sname := m.sname
      file := m.file
      options := m.options
      chunkLength := 236 + 4 + (optionsBytes m.options).length + 1 +
        (m.chunkLength - bytesNeeded m) } : DhcpMessage) = m := by
    have hlen : 236 + 4 + (optionsBytes m.options).length + 1 + (m.chunkLength - bytesNeeded m) =
        m.chunkLength := by
      rw [bytesNeeded] at hneed ⊢
      omega
    rw [hlen]
    rfl
  refine ⟨input, rounds, s₆, hinput, ?_⟩
  rw [deserializeFields, h₁, h₂, h₃, h₄, assert, if_pos rfl, pure_bind, h₅]
  simp only
  rw [StateT.run_bind, StateT.run_get, pure_bind, hbytes, pure_bind, Int.toNat_natCast, h₆, hm]
  rfl

/-! ## What the deserializer returns -/

theorem isByte_toNat (byte : Byte) : IsByte byte.toNat := by
  have := byte.isLt
  rw [IsByte]
  omega

theorem fitsWire_default : ({} : DhcpOptions).FitsWire := by
  constructor <;> simp [CString.empty]

theorem returns_readIpv4Addresses (n : ℕ) :
    Returns (readIpv4Addresses n) fun addresses => addresses.length = n := by
  induction n with
  | zero => exact Returns.pure rfl
  | succ n ih =>
    apply Returns.bind'
    intro address
    exact ih.bind fun addresses h => Returns.pure (congrArg Nat.succ h)

/-- The reader of an option keeps the options in the ranges of their fields. -/
def KeepsFit (read : OptionInput → Reader OptionInput) : Prop :=
  ∀ input, input.options.FitsWire → Returns (read input) fun input => input.options.FitsWire

theorem keepsFit_readMessageType : KeepsFit readMessageType := by
  intro input h
  apply Returns.bind'
  intro size
  apply Returns.bind'
  intro _
  apply Returns.bind'
  intro value
  exact Returns.pure { h with messageType := .inr (isByte_toNat value) }

theorem keepsFit_readHostName : KeepsFit readHostName := by
  intro input h
  apply Returns.bind'
  intro size
  refine (returns_readBytes size.toNat).bind ?_
  intro chars hchars
  by_cases hshort : chars.length < size.toNat
  · rw [if_pos hshort]
    exact Returns.throw _
  · rw [if_neg hshort, cString]
    have hsize := size.isLt
    rw [if_pos (by simp), pure_bind]
    apply Returns.pure
    refine { h with hostName := ?_ }
    -- The null character that the reader appends does not count.
    have htake : ((chars ++ [0]).takeWhile (· ≠ (0 : Byte))).length ≤ chars.length := by
      rw [List.takeWhile_append]
      split
      · simp
      · exact (List.takeWhile_prefix _).length_le
    exact htake.trans (by omega)

theorem keepsFit_readParameterRequestList : KeepsFit readParameterRequestList := by
  intro input h
  apply Returns.bind'
  intro size
  refine (returns_readByteLoop size.toNat).bind ?_
  intro codes hcodes
  have hsize := size.isLt
  apply Returns.pure
  refine { h with
    parameterRequestList := (List.length_map _).trans_le (by omega)
    parameterRequestList_byte := ?_ }
  rintro code hcode
  obtain ⟨byte, -, rfl⟩ := List.mem_map.1 hcode
  exact isByte_toNat byte

theorem keepsFit_readClientIdentifier : KeepsFit readClientIdentifier := by
  intro input h
  apply Returns.bind'
  intro size
  apply Returns.bind'
  intro type
  apply Returns.bind'
  intro _
  apply Returns.bind'
  intro address
  exact Returns.pure { h with }

theorem keepsFit_readAddressOption {set : DhcpOptions → Ipv4Address → DhcpOptions}
    (hset : ∀ o address, o.FitsWire → (set o address).FitsWire) :
    KeepsFit (readAddressOption set) := by
  intro input h
  apply Returns.bind'
  intro size
  apply Returns.bind'
  intro _
  apply Returns.bind'
  intro address
  exact Returns.pure (hset _ address h)

theorem keepsFit_readAddressListOption {set : DhcpOptions → List Ipv4Address → DhcpOptions}
    (hset : ∀ o addresses, o.FitsWire → addresses.length ≤ 63 → (set o addresses).FitsWire) :
    KeepsFit (readAddressListOption set) := by
  intro input h
  apply Returns.bind'
  intro size
  apply Returns.bind'
  intro _
  refine (returns_readIpv4Addresses (size.toNat / 4)).bind ?_
  intro addresses haddresses
  have hsize := size.isLt
  exact Returns.pure (hset _ addresses h (by omega))

theorem keepsFit_readRequestedIp : KeepsFit readRequestedIp :=
  keepsFit_readAddressOption fun _ _ h => { h with }

theorem keepsFit_readSubnetMask : KeepsFit readSubnetMask :=
  keepsFit_readAddressOption fun _ _ h => { h with }

theorem keepsFit_readServerIdentifier : KeepsFit readServerIdentifier :=
  keepsFit_readAddressOption fun _ _ h => { h with }

theorem keepsFit_readRouter : KeepsFit readRouter :=
  keepsFit_readAddressListOption fun _ _ h hlen => { h with router := hlen }

theorem keepsFit_readDns : KeepsFit readDns :=
  keepsFit_readAddressListOption fun _ _ h hlen => { h with dns := hlen }

theorem keepsFit_readNtp : KeepsFit readNtp :=
  keepsFit_readAddressListOption fun _ _ h hlen => { h with ntp := hlen }

theorem keepsFit_readTimeOption {set : DhcpOptions → ℤ → DhcpOptions}
    (hset : ∀ o time, o.FitsWire → (set o time).FitsWire) :
      KeepsFit (readTimeOption maxSeconds set) := by
  intro input h
  apply Returns.bind'
  intro size
  apply Returns.bind'
  intro _
  apply Returns.bind'
  intro time
  by_cases hle : time ≤ maxSeconds
  · rw [if_pos hle]
    exact Returns.pure (hset _ time h)
  · rw [if_neg hle]
    exact Returns.throw _

theorem keepsFit_readRenewalTime : KeepsFit (readRenewalTime maxSeconds) :=
  keepsFit_readTimeOption fun _ _ h => { h with }

theorem keepsFit_readRebindingTime : KeepsFit (readRebindingTime maxSeconds) :=
  keepsFit_readTimeOption fun _ _ h => { h with }

theorem keepsFit_readLeaseTime : KeepsFit (readLeaseTime maxSeconds) :=
  keepsFit_readTimeOption fun _ _ h => { h with }

theorem keepsFit_readOther : KeepsFit readOther := by
  intro input h
  apply Returns.bind'
  intro size
  apply Returns.bind'
  intro _
  exact Returns.pure h

theorem KeepsFit.ite {p : Prop} [Decidable p] {read read' : OptionInput → Reader OptionInput}
    (h : KeepsFit read) (h' : KeepsFit read') : KeepsFit (if p then read else read') := by
  by_cases hp : p
  · rwa [if_pos hp]
  · rwa [if_neg hp]

theorem keepsFit_readOption (code : Byte) : KeepsFit (readOption maxSeconds code) := by
  rw [readOption]
  apply keepsFit_readMessageType.ite
  apply keepsFit_readHostName.ite
  apply keepsFit_readParameterRequestList.ite
  apply keepsFit_readClientIdentifier.ite
  apply keepsFit_readRequestedIp.ite
  apply keepsFit_readSubnetMask.ite
  apply keepsFit_readRouter.ite
  apply keepsFit_readDns.ite
  apply keepsFit_readNtp.ite
  apply keepsFit_readServerIdentifier.ite
  apply keepsFit_readRenewalTime.ite
  apply keepsFit_readRebindingTime.ite
  exact keepsFit_readLeaseTime.ite keepsFit_readOther

theorem returns_readOptions (rounds : ℕ) {input : OptionInput} (h : input.options.FitsWire) :
    Returns (readOptions maxSeconds rounds input) fun result =>
      ∀ input', result = some input' → input'.options.FitsWire := by
  induction rounds generalizing input with
  | zero => exact Returns.pure fun _ hnone => nomatch hnone
  | succ rounds ih =>
    apply Returns.bind'
    intro code
    by_cases hend : code = 255
    · rw [if_pos hend]
      apply Returns.pure
      rintro input' ⟨⟩
      exact h
    · rw [if_neg hend]
      exact (keepsFit_readOption code input h).bind fun input' h' => ih h'

/-- What the fields before the server host name can be. -/
theorem returns_readFixed : Returns readFixed fun m =>
    ∀ o : DhcpOptions, o.FitsWire → ({ m with options := o } : DhcpMessage).FitsWire := by
  apply Returns.bind'
  intro op
  apply Returns.bind'
  intro htype
  apply Returns.bind'
  intro hlen
  apply Returns.bind'
  intro hops
  apply Returns.bind'
  intro xid
  refine (returns_readShifted (n := 16) (by decide)).bind ?_
  intro secs hsecs
  apply Returns.bind'
  intro broadcast
  have hmasks : ∀ mask ∈ bitMasks 15, mask < 2 ^ 15 := by decide
  refine (returns_readMasked hmasks).bind ?_
  intro reserved hreserved
  iterate 8 apply Returns.bind'; intro _
  apply Returns.pure
  intro o ho
  refine ⟨?_, isByte_toNat _, isByte_toNat _, isByte_toNat _, ⟨Int.natCast_nonneg _, ?_⟩, ?_, ho⟩
  · simp only
    by_cases hone : op = 1
    · exact .inl (if_pos hone)
    · exact .inr (if_neg hone)
  · have hsecs' : (secs : ℤ) < 2 ^ 16 := by exact_mod_cast hsecs
    exact hsecs'
  · have hlt : (BitVec.ofNat 16 reserved).toNat < 2 ^ 15 := by
      rw [BitVec.toNat_ofNat]
      omega
    exact hlt

theorem returns_deserializeFields (rounds : ℕ) :
    Returns (deserializeFields maxSeconds rounds) fun result =>
      ∀ m incorrect, result = some (m, incorrect) → m.FitsWire := by
  refine returns_readFixed.bind ?_
  intro fixed hfixed
  apply Returns.bind'
  intro sname
  apply Returns.bind'
  intro file
  apply Returns.bind'
  intro cookie
  apply Returns.bind'
  intro _
  refine (returns_readOptions rounds fitsWire_default).bind ?_
  rintro (_ | input) hinput
  · exact Returns.pure fun _ _ hnone => nomatch hnone
  · apply Returns.bind'
    intro stream
    apply Returns.bind'
    intro padding
    apply Returns.bind'
    intro _
    apply Returns.pure
    rintro m incorrect ⟨⟩
    have h := hfixed input.options (hinput input rfl)
    exact { h with }

theorem fitsWire_of_readsBack {s : MemoryOutputStream} {m : DhcpMessage}
    (h : ReadsBack maxSeconds s m) :
    m.FitsWire := by
  obtain ⟨input, rounds, final, -, hrun⟩ := h
  exact returns_deserializeFields rounds _ _ _ hrun m false rfl

/-- An accepted message with room for its bytes is written as the bytes that its chunk length
says, and it is read back exactly when it fits. -/
theorem readsBack_iff_fitsWire (m : DhcpMessage) (s : MemoryOutputStream)
    (h : serializeFields .empty m = .ok s) (hneed : bytesNeeded m ≤ m.chunkLength)
    (htimes : m.options.TimesInRange maxSeconds) :
    s.getData.length = m.chunkLength ∧ s.getLength = 8 * m.chunkLength ∧
      (ReadsBack maxSeconds s m ↔ m.FitsWire) := by
  obtain ⟨hsname, hfile, -, hp⟩ := serializeFields_eq_ok h hneed
  have hlength : s.getLength = 8 * m.chunkLength := by
    have hbits := hp.length_eq
    rw [length_messageBits hsname hfile] at hbits
    rw [getLength]
    omega
  have hdata : s.getData.length = m.chunkLength := by
    have hsize := hp.size_eq
    rw [getLength] at hlength
    rw [getData]
    omega
  exact ⟨hdata, hlength, fitsWire_of_readsBack, fun hfits =>
    readsBack_of_fitsWire hfits htimes hsname hfile hneed hp⟩

/-! ## Two messages -/

/-- A discover message with a host name. -/
def discoverMessage (hostName : CString) (chunkLength : ℕ) : DhcpMessage where
  op := BOOTREQUEST
  htype := 1
  hlen := 6
  xid := 0x12345678
  broadcast := true
  chaddr := 0x0AAA00000001
  options :=
    { messageType := DHCPDISCOVER
      hostName := hostName
      parameterRequestList := [1, 3, 6]
      clientIdentifier := 0x0AAA00000001
      leaseTime := 3600 }
  chunkLength := chunkLength

theorem timesInRange_discoverMessage (hostName : CString) (chunkLength : ℕ) :
    (discoverMessage hostName chunkLength).options.TimesInRange 9223372 := by
  constructor <;> exact ⟨by simp [discoverMessage], by simp [discoverMessage]⟩

/-- A host name of the letter `a` only. -/
def letters (n : ℕ) : CString := ⟨List.replicate n 97, by
  intro b hb
  rw [(List.mem_replicate.1 hb).2]
  decide⟩

theorem readsBack_discoverMessage :
    ∃ s, serializeFields .empty (discoverMessage (letters 4) 300) = .ok s ∧
      ReadsBack 9223372 s (discoverMessage (letters 4) 300) := by
  have hneed : bytesNeeded (discoverMessage (letters 4) 300) ≤ 300 := by decide +kernel
  obtain ⟨s, hs⟩ := exists_serializeFields (m := discoverMessage (letters 4) 300) (by decide)
    (by decide) hneed (by decide)
  have hfits : (discoverMessage (letters 4) 300).FitsWire := by
    refine ⟨.inl rfl, by decide, by decide, by decide, by decide, by decide, ?_⟩
    exact ⟨.inr (by decide), by decide, by decide, by decide, by decide, by decide, by decide⟩
  exact ⟨s, hs, (readsBack_iff_fitsWire _ s hs hneed
    (timesInRange_discoverMessage _ _)).2.2.2 hfits⟩

/-- The length of a host name of 256 characters is written as zero. -/
theorem long_hostName_not_readsBack :
    ∃ s, serializeFields .empty (discoverMessage (letters 256) 600) = .ok s ∧
      bytesNeeded (discoverMessage (letters 256) 600) ≤ 600 ∧
      (discoverMessage (letters 256) 600).options.TimesInRange 9223372 ∧
      ¬ ReadsBack 9223372 s (discoverMessage (letters 256) 600) := by
  have hneed : bytesNeeded (discoverMessage (letters 256) 600) ≤ 600 := by decide +kernel
  obtain ⟨s, hs⟩ := exists_serializeFields (m := discoverMessage (letters 256) 600) (by decide)
    (by decide) hneed (by decide)
  refine ⟨s, hs, hneed, timesInRange_discoverMessage _ _, ?_⟩
  intro hreads
  have hlen : (letters 256).bytes.length ≤ 255 := (fitsWire_of_readsBack hreads).options.hostName
  rw [letters, List.length_replicate] at hlen
  omega

end DhcpMessageSerializer

end Inet.Dhcp
