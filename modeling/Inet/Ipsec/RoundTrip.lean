import Inet.Ipsec.Processing
import Mathlib.Data.List.Basic

/-! # What protection adds is taken off

The lengths of the padding, of the initialization vector and of the integrity
check value are chosen on one side and derived from the headers on the other.
The round trip succeeds exactly when the ESP mode agrees with the algorithms,
the protocol number is not taken for a dummy packet or for another ESP header,
and the protected packet is shorter than 4 GiB.
-/

namespace Inet.Ipsec

/-! ## Packet data -/

section

variable {header : Header} {rest data : List Cell} {n : ℕ}

theorem peekFront_cells (h : 0 < header.length) :
    peekFront (header.cells ++ rest) = some header := by
  obtain ⟨n, hn⟩ : ∃ n, header.length = n + 1 := ⟨header.length - 1, by omega⟩
  rw [Header.cells, hn, List.range_succ_eq_map]
  rfl

theorem removeFront_cells (rest : List Cell) (h : 0 < header.length) :
    removeFront (header.cells ++ rest) = .ok (header, rest) := by
  simp [removeFront, peekFront_cells h, List.drop_left']

theorem removeAtFront_append (h : data.length = n) :
    removeAtFront n (data ++ rest) = .ok rest := by
  subst h
  simp [removeAtFront]

theorem removeAtBack_append (h : rest.length = n) :
    removeAtBack n (data ++ rest) = .ok data := by
  subst h
  simp [removeAtBack]

theorem removeEspTrailer_append (padLength nextHeader : BitVec 8) :
    removeEspTrailer (data ++ (Header.espTrailer padLength nextHeader).cells) =
      .ok (padLength, nextHeader, data) := by
  have hlength : (data ++ (Header.espTrailer padLength nextHeader).cells).length -
      espFixedPayloadTrailerBytes = data.length := by simp [Header.length]
  have hfront : removeFront ((Header.espTrailer padLength nextHeader).cells ++ []) = _ :=
    removeFront_cells [] Nat.two_pos
  rw [List.append_nil] at hfront
  simp only [removeEspTrailer, hlength, List.drop_left, List.take_left, hfront, Error.ok_bind,
    Error.pure_eq_ok]

end

/-! ## Lengths -/

def roundUp (n m : ℕ) : ℕ := (n + m - 1) / m * m

def espIvBytes (rule : IPsecRule) : ℕ :=
  if rule.espMode = .integrity then rule.authenticationAlg.getInitializationVectorBitLength / 8
  else rule.encryptionAlg.getInitializationVectorBitLength / 8

def espIcvBytes (rule : IPsecRule) : ℕ :=
  if rule.espMode = .confidentiality then 0
  else if rule.authenticationAlg ≠ .none then
    rule.authenticationAlg.getIntegrityCheckValueBitLength / 8
  else rule.encryptionAlg.getIntegrityCheckValueBitLength / 8

/-- The bytes of the data with its padding and the ESP trailer. -/
def espPaddedBytes (rule : IPsecRule) (bytes : ℕ) : ℕ :=
  roundUp (roundUp (bytes + espFixedPayloadTrailerBytes) rule.encryptionAlg.getBlockSizeBytes) 4

/-- The bytes of an ESP packet. -/
def espPacketBytes (rule : IPsecRule) (bytes : ℕ) : ℕ :=
  espFixedHeaderBytes + espIvBytes rule + espPaddedBytes rule bytes + espIcvBytes rule

theorem getBlockSizeBytes_cases (alg : EncryptionAlg) :
    alg.getBlockSizeBytes = 1 ∨ alg.getBlockSizeBytes = 4 ∨ alg.getBlockSizeBytes = 8 ∨
      alg.getBlockSizeBytes = 16 := by
  cases alg <;> decide

theorem espPaddedBytes_bounds (rule : IPsecRule) (bytes : ℕ) :
    bytes + 2 ≤ espPaddedBytes rule bytes ∧ espPaddedBytes rule bytes ≤ bytes + 2 + 15 := by
  unfold espPaddedBytes roundUp espFixedPayloadTrailerBytes
  rcases getBlockSizeBytes_cases rule.encryptionAlg with h | h | h | h <;> rw [h] <;> omega

theorem espPaddedLength_eq {rule : IPsecRule} {bytes : ℕ}
    (h : espPaddedBytes rule bytes + 4 < 2 ^ 32) :
    espPaddedLength rule bytes = espPaddedBytes rule bytes := by
  have hle := espPaddedBytes_bounds rule bytes
  unfold espPaddedLength u32 espFixedPayloadTrailerBytes
  unfold espPaddedBytes roundUp espFixedPayloadTrailerBytes at h hle ⊢
  rcases getBlockSizeBytes_cases rule.encryptionAlg with hb | hb | hb | hb <;>
    simp only [hb] at h hle ⊢ <;> omega

theorem espPadLength_eq {rule : IPsecRule} {bytes : ℕ}
    (h : espPaddedBytes rule bytes + 4 < 2 ^ 32) :
    espPadLength rule bytes = espPaddedBytes rule bytes - (bytes + 2) := by
  have hle := espPaddedBytes_bounds rule bytes
  unfold espPadLength
  rw [espPaddedLength_eq h]
  unfold u32 espFixedPayloadTrailerBytes
  omega

/-! ## ESP -/

/-- The ESP mode agrees with the encryption algorithm. -/
structure ModeAgrees (rule : IPsecRule) : Prop where
  mode : rule.espMode ≠ .none
  integrity : rule.espMode = .integrity → rule.encryptionAlg = .none

theorem haveEncryption_iff {rule : IPsecRule} (hc : EspConfigured rule) (h : ModeAgrees rule) :
    rule.espMode = .confidentiality ∨ rule.espMode = .combined ↔ rule.encryptionAlg ≠ .none := by
  constructor
  · exact hc.encryption
  · intro halg
    cases hm : rule.espMode with
    | none => exact absurd hm h.mode
    | integrity => exact absurd (h.integrity hm) halg
    | confidentiality => exact .inl rfl
    | combined => exact .inr rfl

theorem authenticationAlg_bytes {alg : AuthenticationAlg} (h : alg ≠ .none) :
    8 ≤ alg.getIntegrityCheckValueBitLength := by
  cases alg <;> first | exact absurd rfl h | decide

theorem encryptionAlg_bytes {alg : EncryptionAlg} (h : alg.getIntegrityCheckValueBitLength ≠ 0) :
    8 ≤ alg.getIntegrityCheckValueBitLength := by
  cases alg <;> first | exact absurd rfl h | decide

theorem espLengths_eq {rule : IPsecRule} (hc : EspConfigured rule) (h : ModeAgrees rule) :
    espLengths rule = .ok (espIvBytes rule, espIcvBytes rule) := by
  unfold espLengths espIvBytes espIcvBytes
  cases hm : rule.espMode with
  | none => exact absurd hm h.mode
  | integrity =>
    have hauth := hc.authentication hm
    simp [assert, hauth, authenticationAlg_bytes hauth]
  | confidentiality => rfl
  | combined =>
    by_cases hauth : rule.authenticationAlg = .none
    · simp [assert, hauth, encryptionAlg_bytes (hc.combined hm hauth)]
    · simp [assert, hauth, authenticationAlg_bytes hauth]

/-- The data that ESP encrypts. -/
def espData (transport : List Cell) (tfcPadding padLength : ℕ) (transportType : BitVec 8) :
    List Cell :=
  transport ++ List.replicate tfcPadding .count ++ paddingOctets padLength ++
    (Header.espTrailer (BitVec.ofNat 8 padLength) transportType).cells

def espPacket (sa : SecurityAssociation) (data : List Cell) : List Cell :=
  (Header.esp sa.spi sa.seqNum (espIcvBytes sa.rule)).cells ++
    (Header.encrypted data (data.length + espIvBytes sa.rule)).cells ++
    List.replicate (espIcvBytes sa.rule) .count

theorem length_espData (transport : List Cell) (tfcPadding padLength : ℕ)
    (transportType : BitVec 8) :
    (espData transport tfcPadding padLength transportType).length =
      transport.length + tfcPadding + padLength + 2 := by
  simp only [espData, paddingOctets, List.length_append, List.length_replicate, List.length_map,
    List.length_range, Header.length_cells, Header.length, espFixedPayloadTrailerBytes]

theorem length_espPacket (sa : SecurityAssociation) (data : List Cell) :
    (espPacket sa data).length =
      8 + (data.length + espIvBytes sa.rule) + espIcvBytes sa.rule := by
  simp only [espPacket, List.length_append, List.length_replicate, Header.length_cells,
    Header.length, espFixedHeaderBytes]

theorem espIvBytes_block {rule : IPsecRule} (h : ModeAgrees rule) :
    rule.encryptionAlg.getBlockSizeBytes = 1 ∨ 8 ≤ espIvBytes rule := by
  unfold espIvBytes
  split
  · rename_i hm
    rw [h.integrity hm]
    exact .inl rfl
  · cases rule.encryptionAlg <;> decide

theorem espPacketBytes_lt {rule : IPsecRule} (h : ModeAgrees rule) {bytes : ℕ}
    (hlen : 8 + (bytes + espPadLength rule bytes + 2 + espIvBytes rule) + espIcvBytes rule <
      2 ^ 32) : espPacketBytes rule bytes < 2 ^ 32 := by
  have hle := espPaddedBytes_bounds rule bytes
  by_cases hpad : espPaddedBytes rule bytes + 4 < 2 ^ 32
  · rw [espPadLength_eq hpad] at hlen
    unfold espPacketBytes espFixedHeaderBytes
    omega
  · exfalso
    have hiv := espIvBytes_block h
    unfold espPaddedBytes roundUp espFixedPayloadTrailerBytes at hpad
    rcases getBlockSizeBytes_cases rule.encryptionAlg with hb | hb | hb | hb <;>
      simp only [hb] at hpad hiv <;> omega

section

variable {sa : SecurityAssociation} {transportType : BitVec 8} {tfcEnabled : Bool} {draw : ℕ}
  {transport : List Cell}

/-- The packet that `espProtect` makes, the sequence number being counted already. -/
def espResult (sa : SecurityAssociation) (transportType : BitVec 8) (tfcEnabled : Bool) (draw : ℕ)
    (transport : List Cell) : List Cell :=
  espPacket sa.incrementSeqNum (espData transport (tfcPadding sa.rule tfcEnabled draw)
    (espPadLength sa.rule (transport.length + tfcPadding sa.rule tfcEnabled draw)) transportType)

theorem length_espResult (transportType : BitVec 8) (hfits : espPacketBytes sa.rule
      (transport.length + tfcPadding sa.rule tfcEnabled draw) < 2 ^ 32) :
    (espResult sa transportType tfcEnabled draw transport).length =
      espPacketBytes sa.rule (transport.length + tfcPadding sa.rule tfcEnabled draw) := by
  have hle := espPaddedBytes_bounds sa.rule
    (transport.length + tfcPadding sa.rule tfcEnabled draw)
  have hrule : sa.incrementSeqNum.rule = sa.rule := rfl
  unfold espPacketBytes espFixedHeaderBytes at hfits ⊢
  rw [espResult, length_espPacket, length_espData, espPadLength_eq (by omega), hrule]
  omega

theorem espProtect_eq (hc : EspConfigured sa.rule) (h : ModeAgrees sa.rule)
    (hfits : espPacketBytes sa.rule
      (transport.length + tfcPadding sa.rule tfcEnabled draw) < 2 ^ 32) :
    espProtect sa transportType tfcEnabled draw transport =
      .ok (sa.incrementSeqNum, espResult sa transportType tfcEnabled draw transport) := by
  have hlength := length_espResult transportType hfits
  have hle := espPaddedBytes_bounds sa.rule
    (transport.length + tfcPadding sa.rule tfcEnabled draw)
  have hpadded : espPaddedBytes sa.rule
      (transport.length + tfcPadding sa.rule tfcEnabled draw) + 4 < 2 ^ 32 := by
    unfold espPacketBytes espFixedHeaderBytes at hfits
    omega
  have hpad : espPadLength sa.rule
      (transport.length + tfcPadding sa.rule tfcEnabled draw) ≤ 255 := by
    rw [espPadLength_eq hpadded]
    omega
  have hlen : (espResult sa transportType tfcEnabled draw transport).length =
      u32 (espFixedHeaderBytes + espIvBytes sa.rule + espPaddedLength sa.rule
        (transport.length + tfcPadding sa.rule tfcEnabled draw) + espIcvBytes sa.rule) := by
    rw [hlength, espPaddedLength_eq hpadded, u32, ← espPacketBytes, Nat.mod_eq_of_lt hfits]
  exact Error.bind_of_eq_ok (Error.assert_of_pos (haveEncryption_iff hc h))
    (Error.bind_of_eq_ok (Error.assert_of_pos hpad)
      (Error.bind_of_eq_ok (espLengths_eq hc h)
        (Error.bind_of_eq_ok (Error.assert_of_pos hlen) rfl)))

theorem of_espProtect (hc : EspConfigured sa.rule) {r : SecurityAssociation × List Cell}
    (hr : espProtect sa transportType tfcEnabled draw transport = .ok r) :
    ModeAgrees sa.rule ∧ espPacketBytes sa.rule
      (transport.length + tfcPadding sa.rule tfcEnabled draw) < 2 ^ 32 := by
  obtain ⟨_, hencryption, hr⟩ := Error.exists_of_bind_eq_ok hr
  obtain ⟨_, -, hr⟩ := Error.exists_of_bind_eq_ok hr
  obtain ⟨lengths, hlengths, hr⟩ := Error.exists_of_bind_eq_ok hr
  have hagrees : ModeAgrees sa.rule := by
    constructor
    · intro hm
      rw [espLengths, hm] at hlengths
      cases hlengths
    · intro hm
      have hiff := Error.of_assert_eq_ok hencryption
      by_contra halg
      rcases hiff.mpr halg with h | h <;> rw [hm] at h <;> cases h
  rw [espLengths_eq hc hagrees] at hlengths
  cases hlengths
  obtain ⟨_, hlength, -⟩ := Error.exists_of_bind_eq_ok hr
  have hlength : (espResult sa transportType tfcEnabled draw transport).length = u32 _ :=
    Error.of_assert_eq_ok hlength
  have hlt : (espResult sa transportType tfcEnabled draw transport).length < 2 ^ 32 := by
    rw [hlength]
    exact Nat.mod_lt _ (by decide)
  rw [espResult, length_espPacket, length_espData] at hlt
  exact ⟨hagrees, espPacketBytes_lt hagrees hlt⟩

end

/-! ## AH -/

theorem ahLengths_spec (rule : IPsecRule) (isIpv6 : Bool) :
    12 + (ahLengths rule isIpv6).1 = (ahLengths rule isIpv6).2 ∧
      (ahLengths rule isIpv6).2 % 4 = 0 ∧ (ahLengths rule isIpv6).2 ≤ 80 := by
  unfold ahLengths
  cases rule.authenticationAlg <;> cases isIpv6 <;> decide

def ahResult (sa : SecurityAssociation) (isIpv6 : Bool) (transportType : BitVec 8)
    (transport : List Cell) : List Cell :=
  (Header.ah transportType (BitVec.ofNat 8 ((ahLengths sa.rule isIpv6).2 / 4 - 2)) sa.spi
    sa.incrementSeqNum.seqNum (ahLengths sa.rule isIpv6).1).cells ++
    List.replicate (ahLengths sa.rule isIpv6).1 .count ++ transport

theorem length_ahResult (sa : SecurityAssociation) (isIpv6 : Bool) (transportType : BitVec 8)
    (transport : List Cell) : (ahResult sa isIpv6 transportType transport).length =
      (ahLengths sa.rule isIpv6).2 + transport.length := by
  rw [← (ahLengths_spec sa.rule isIpv6).1]
  simp only [ahResult, List.length_append, List.length_replicate, Header.length_cells,
    Header.length, ipAhHeaderBytes]

theorem ahProtect_eq {sa : SecurityAssociation} {isIpv6 : Bool} {transportType : BitVec 8}
    {transport : List Cell} {r : SecurityAssociation × List Cell} :
    ahProtect sa isIpv6 transportType transport = .ok r ↔
      (ahLengths sa.rule isIpv6).2 + transport.length < 2 ^ 32 ∧
        r = (sa.incrementSeqNum, ahResult sa isIpv6 transportType transport) := by
  constructor
  · intro hr
    obtain ⟨_, hlength, hr⟩ := Error.exists_of_bind_eq_ok hr
    have hlength : (ahResult sa isIpv6 transportType transport).length = _ :=
      Error.of_assert_eq_ok hlength
    cases hr
    refine ⟨?_, rfl⟩
    rw [length_ahResult] at hlength
    rw [hlength]
    exact Nat.mod_lt _ (by decide)
  · rintro ⟨hfits, rfl⟩
    have hlength : (ahResult sa isIpv6 transportType transport).length =
        u32 ((ahLengths sa.rule isIpv6).2 + transport.length) := by
      rw [length_ahResult, u32, Nat.mod_eq_of_lt hfits]
    exact Error.bind_of_eq_ok (Error.assert_of_pos hlength) rfl

/-! ## Selectors -/

/-- The selector of the same traffic at the other end. -/
def PacketSelector.mirrored (selector : PacketSelector) : PacketSelector :=
  { selector with
    localAddress := selector.remoteAddress
    remoteAddress := selector.localAddress
    localPort := selector.remotePort
    remotePort := selector.localPort }

/-- The packet as the other end sees it. -/
def PacketInfo.mirrored (packet : PacketInfo) : PacketInfo :=
  { packet with
    localAddress := packet.remoteAddress
    remoteAddress := packet.localAddress
    localPort := packet.remotePort
    remotePort := packet.localPort
    dscp := 0 }

theorem matches_mirrored (selector : PacketSelector) (packet : PacketInfo) :
    selector.mirrored.matches packet.mirrored = selector.matches packet := by
  simp only [PacketSelector.matches, PacketSelector.mirrored, PacketInfo.mirrored]
  rw [Bool.and_comm (selector.remoteAddress.admits _), Bool.and_comm (selector.remotePort.admits _)]
  rfl

theorem peekFront_append_count (data : List Cell) (n : ℕ) :
    peekFront (data ++ List.replicate n .count) = peekFront data := by
  cases data with
  | nil => cases n <;> rfl
  | cons c data =>
    cases c with
    | byte => rfl
    | count => rfl
    | field _ index => cases index <;> rfl

/-- The addresses and the protocol of two headers are the same. -/
def NetworkHeader.SameEnds (header header' : NetworkHeader) : Prop :=
  header'.sourceAddress = header.sourceAddress ∧
    header'.destinationAddress = header.destinationAddress ∧
    header'.protocolId = header.protocolId

theorem extractIngressPacketInfo_eq {header header' : NetworkHeader} {payload : List Cell}
    {packetInfo : PacketInfo} (hends : header.SameEnds header') (n : ℕ)
    (hinfo : Datagram.extractEgressPacketInfo ⟨header, payload⟩ header.sourceAddress =
      .ok packetInfo) :
    Datagram.extractIngressPacketInfo ⟨header', payload ++ List.replicate n .count⟩ =
      .ok packetInfo.mirrored := by
  obtain ⟨hsource, hdestination, hprotocol⟩ := hends
  unfold Datagram.extractEgressPacketInfo at hinfo
  unfold Datagram.extractIngressPacketInfo
  simp only [hsource, hdestination, hprotocol, peekFront_append_count] at hinfo ⊢
  split_ifs at hinfo ⊢ with htcp hudp hicmp
  case neg =>
    cases hinfo
    rfl
  all_goals
    cases hfront : peekFront payload with
    | none => simp [hfront] at hinfo
    | some front =>
      simp only [hfront] at hinfo
      cases front <;> first | (cases hinfo; rfl) | (simp at hinfo)

/-! ## What the peer takes off -/

namespace IPsec

section

variable {peer : IPsec} {now : ℤ} {delay : ℚ} {delays : Delays} {header : NetworkHeader}
  {sa sa' : SecurityAssociation} {j : ℕ} {transportType : BitVec 8} {transport : List Cell}

theorem processEsp_espResult {ahSa : Option SecurityAssociation} {tfcEnabled : Bool} {draw : ℕ}
    (hfits : espPacketBytes sa.rule
      (transport.length + tfcPadding sa.rule tfcEnabled draw) < 2 ^ 32)
    (hpeer : peer.findSa .inbound sa.spi = some (j, sa')) (hesp : sa'.rule.protection = .esp) :
    peer.processEsp now delay delays ahSa
        ⟨header, espResult sa transportType tfcEnabled draw transport⟩ =
      peer.acceptEsp now delay delays ahSa j sa' header transportType
        (transport ++ List.replicate (tfcPadding sa.rule tfcEnabled draw) .count) := by
  have hle := espPaddedBytes_bounds sa.rule
    (transport.length + tfcPadding sa.rule tfcEnabled draw)
  unfold espPacketBytes espFixedHeaderBytes at hfits
  have hpad : espPadLength sa.rule (transport.length + tfcPadding sa.rule tfcEnabled draw) = _ :=
    espPadLength_eq (by omega)
  set padLength := espPadLength sa.rule (transport.length + tfcPadding sa.rule tfcEnabled draw)
  have hoctet : (BitVec.ofNat 8 padLength).toNat = padLength := by
    rw [BitVec.toNat_ofNat]
    exact Nat.mod_eq_of_lt (by omega)
  have hdata : removeEspTrailer
      (espData transport (tfcPadding sa.rule tfcEnabled draw) padLength transportType) =
        .ok (BitVec.ofNat 8 padLength, transportType, transport ++
          List.replicate (tfcPadding sa.rule tfcEnabled draw) .count ++ paddingOctets padLength) :=
    removeEspTrailer_append _ _
  have hpadding : removeAtBack (BitVec.ofNat 8 padLength).toNat (transport ++
      List.replicate (tfcPadding sa.rule tfcEnabled draw) .count ++ paddingOctets padLength) =
        .ok (transport ++ List.replicate (tfcPadding sa.rule tfcEnabled draw) .count) := by
    apply removeAtBack_append
    rw [hoctet, paddingOctets, List.length_map, List.length_range]
  rw [espResult, espPacket, List.append_assoc]
  refine Error.bind_of_eq_ok (removeFront_cells _ (by simp [Header.length, espFixedHeaderBytes])) ?_
  have hspi : sa.incrementSeqNum.spi = sa.spi := rfl
  simp only [hspi, hpeer, hesp, ne_eq, not_true_eq_false, if_false]
  refine Error.bind_of_eq_ok (removeAtBack_append List.length_replicate) ?_
  have hencrypted : removeFront ((Header.encrypted
      (espData transport (tfcPadding sa.rule tfcEnabled draw) padLength transportType)
      ((espData transport (tfcPadding sa.rule tfcEnabled draw) padLength transportType).length +
        espIvBytes sa.incrementSeqNum.rule)).cells ++ []) = _ :=
    removeFront_cells [] (by simp [Header.length, length_espData])
  rw [List.append_nil] at hencrypted
  exact Error.bind_of_eq_ok hencrypted (Error.bind_of_eq_ok (Error.assert_of_pos rfl)
    (Error.bind_of_eq_ok hdata (Error.bind_of_eq_ok hpadding rfl)))

theorem processAh_ahResult {isIpv6 : Bool}
    (hpeer : peer.findSa .inbound sa.spi = some (j, sa')) (hah : sa'.rule.protection = .ah) :
    peer.processAh now delays ⟨header, ahResult sa isIpv6 transportType transport⟩ =
      peer.acceptAh now delays j sa' header transportType transport := by
  obtain ⟨hsum, hmod, hle⟩ := ahLengths_spec sa.rule isIpv6
  have hlength : (List.replicate (ahLengths sa.rule isIpv6).1 Cell.count).length =
      ((BitVec.ofNat 8 ((ahLengths sa.rule isIpv6).2 / 4 - 2)).toNat + 2) * 4 -
        ipAhHeaderBytes := by
    rw [List.length_replicate, BitVec.toNat_ofNat, Nat.mod_eq_of_lt (by omega)]
    unfold ipAhHeaderBytes
    omega
  rw [ahResult, List.append_assoc]
  refine Error.bind_of_eq_ok (removeFront_cells _ (by simp [Header.length, ipAhHeaderBytes])) ?_
  simp only [hpeer, hah, ne_eq, not_true_eq_false, if_false]
  exact Error.bind_of_eq_ok (removeAtFront_append hlength) rfl

end

/-! ## Acceptance -/

theorem delayEspIn_ne_drop (busy : BusyUntil) (now : ℤ) (delay : ℚ) :
    (busy.delayEspIn now delay).1 ≠ .drop := by
  unfold BusyUntil.delayEspIn
  split <;> nofun

theorem delayAhIn_ne_drop (busy : BusyUntil) (now : ℤ) (delay : ℚ) :
    (busy.delayAhIn now delay).1 ≠ .drop := by
  unfold BusyUntil.delayAhIn
  split <;> nofun

theorem delayOut_ne_drop (busy : BusyUntil) (now : ℤ) (delay : ℚ) :
    (busy.delayOut now delay).1 ≠ .drop := by
  unfold BusyUntil.delayOut
  split <;> nofun

/-- The datagram is accepted, with this header and these data. -/
def Accepts (outcome : Except Error (IPsec × HookResult × Datagram)) (restored : Datagram) : Prop :=
  ∃ module result, outcome = .ok (module, result, restored) ∧ result ≠ .drop

section

variable {peer : IPsec} {now : ℤ} {delay : ℚ} {delays : Delays} {header : NetworkHeader}
  {sa : SecurityAssociation} {j : ℕ} {nextHeader : BitVec 8} {packet : List Cell}

theorem matchesSelectorsOfSa_eq {datagram : Datagram} {packetInfo : PacketInfo}
    (hinfo : datagram.extractIngressPacketInfo = .ok packetInfo)
    (hmatch : sa.rule.selector.matches packetInfo = true) :
    matchesSelectorsOfSa datagram sa = .ok true := by
  rw [matchesSelectorsOfSa, hinfo, Error.ok_bind, hmatch]
  rfl

theorem acceptEsp_accepts (delay : ℚ) (delays : Delays) (ahSa : Option SecurityAssociation) (j : ℕ)
    (hnext : nextHeader ≠ protNone)
    (husable : sa.isUsable now packet.length = true)
    (hsa : matchesSelectorsOfSa ⟨peer.restoreHeader header nextHeader packet, packet⟩ sa = .ok true)
    (hahSa : ∀ ah, ahSa = some ah → matchesSelectorsOfSa
      ⟨peer.restoreHeader header nextHeader packet, packet⟩ ah = .ok true) :
    Accepts (peer.acceptEsp now delay delays ahSa j sa header nextHeader packet)
      ⟨peer.restoreHeader header nextHeader packet, packet⟩ := by
  refine ⟨{ peer.setSa j (sa.addBytesProcessed packet.length) with
    busy := (peer.busy.delayEspIn now (delay + delays.espProtectIn)).2 }, _, ?_,
    delayEspIn_ne_drop peer.busy now (delay + delays.espProtectIn)⟩
  unfold acceptEsp
  rw [if_neg hnext, if_neg (not_not.mpr husable)]
  refine Error.bind_of_eq_ok hsa ?_
  cases ahSa with
  | none => rfl
  | some ah => exact Error.bind_of_eq_ok (hahSa ah rfl) rfl

theorem acceptAh_accepts (delays : Delays) (j : ℕ) (hnext : nextHeader ≠ protEsp)
    (husable : sa.isUsable now packet.length = true)
    (hsa : matchesSelectorsOfSa ⟨peer.restoreHeader header nextHeader packet, packet⟩ sa =
      .ok true) :
    Accepts (peer.acceptAh now delays j sa header nextHeader packet)
      ⟨peer.restoreHeader header nextHeader packet, packet⟩ := by
  refine ⟨{ peer.setSa j (sa.addBytesProcessed packet.length) with
    busy := (peer.busy.delayAhIn now delays.ahProtectIn).2 }, _, ?_,
    delayAhIn_ne_drop peer.busy now delays.ahProtectIn⟩
  unfold acceptAh
  rw [if_neg (not_not.mpr husable)]
  simp only [ne_eq, hnext, not_false_eq_true, if_true]
  exact Error.bind_of_eq_ok hsa rfl

theorem acceptAh_esp (hnext : nextHeader = protEsp)
    (husable : sa.isUsable now packet.length = true) :
    peer.acceptAh now delays j sa header nextHeader packet =
      (peer.setSa j (sa.addBytesProcessed packet.length)).processEsp now delays.ahProtectIn delays
        (some sa) ⟨peer.restoreHeader header nextHeader packet, packet⟩ := by
  unfold acceptAh
  rw [if_neg (not_not.mpr husable)]
  simp only [ne_eq, hnext, not_true_eq_false, if_false]
  rfl

theorem of_acceptEsp {ahSa : Option SecurityAssociation} {restored : Datagram}
    (h : Accepts (peer.acceptEsp now delay delays ahSa j sa header nextHeader packet) restored) :
    nextHeader ≠ protNone ∧ restored.data = packet := by
  obtain ⟨module, result, heq, hne⟩ := h
  unfold acceptEsp at heq
  split at heq
  · cases heq
    exact absurd rfl hne
  rename_i hnext
  split at heq
  · cases heq
    exact absurd rfl hne
  obtain ⟨matchesSa, -, heq⟩ := Error.exists_of_bind_eq_ok heq
  obtain ⟨matchesAhSa, -, heq⟩ := Error.exists_of_bind_eq_ok heq
  split at heq
  · cases heq
    exact absurd rfl hne
  · cases heq
    exact ⟨hnext, rfl⟩

theorem mem_of_removeFront {data rest : List Cell} {front : Header}
    (h : removeFront data = .ok (front, rest)) : .field front 0 ∈ data ∧ rest ⊆ data := by
  unfold removeFront at h
  cases hfront : peekFront data with
  | none => simp [hfront] at h
  | some front' =>
    simp only [hfront] at h
    split at h
    · cases h
      refine ⟨?_, List.drop_subset _ _⟩
      unfold peekFront at hfront
      split at hfront
      · cases hfront
        exact List.mem_cons_self
      · cases hfront
    · cases h

theorem subset_of_removeAtBack {data rest : List Cell} {n : ℕ}
    (h : removeAtBack n data = .ok rest) : rest ⊆ data := by
  unfold removeAtBack at h
  split at h
  · cases h
    exact List.take_subset _ _
  · cases h

theorem subset_of_removeEspTrailer {data rest : List Cell} {padLength nextHeader : BitVec 8}
    (h : removeEspTrailer data = .ok (padLength, nextHeader, rest)) : rest ⊆ data := by
  obtain ⟨front, -, h⟩ := Error.exists_of_bind_eq_ok h
  split at h
  · cases h
    exact List.take_subset _ _
  · cases h

theorem not_mem_encrypted (chunk : List Cell) (length index : ℕ) :
    .field (.encrypted chunk length) index ∉ chunk := by
  intro hmem
  have hlt := List.sizeOf_lt_of_mem hmem
  simp only [Cell.field.sizeOf_spec, Header.encrypted.sizeOf_spec] at hlt
  omega

/-- ESP processing never gives back the data it was given. -/
theorem data_ne_of_processEsp {ahSa : Option SecurityAssociation} {datagram restored : Datagram}
    (h : Accepts (peer.processEsp now delay delays ahSa datagram) restored) :
    restored.data ≠ datagram.data := by
  intro hsame
  obtain ⟨module, result, heq, hne⟩ := h
  obtain ⟨front, hfront, heq⟩ := Error.exists_of_bind_eq_ok heq
  split at heq
  · split at heq
    · cases heq
      exact absurd rfl hne
    · split at heq
      · cases heq
        exact absurd rfl hne
      · obtain ⟨packet, hback, heq⟩ := Error.exists_of_bind_eq_ok heq
        obtain ⟨front', hfront', heq⟩ := Error.exists_of_bind_eq_ok heq
        split at heq
        · rename_i chunk _ _
          obtain ⟨_, -, heq⟩ := Error.exists_of_bind_eq_ok heq
          obtain ⟨trailer, htrailer, heq⟩ := Error.exists_of_bind_eq_ok heq
          obtain ⟨packet', hback', heq⟩ := Error.exists_of_bind_eq_ok heq
          have hdata := (of_acceptEsp ⟨module, result, heq, hne⟩).2
          have hencrypted : .field (.encrypted chunk _) 0 ∈ datagram.data :=
            (mem_of_removeFront hfront).2
              (subset_of_removeAtBack hback (mem_of_removeFront hfront').1)
          rw [← hsame, hdata] at hencrypted
          exact not_mem_encrypted chunk _ 0
            (subset_of_removeEspTrailer htrailer (subset_of_removeAtBack hback' hencrypted))
        · cases heq
  · cases heq

/-! ## The associations -/

theorem getElem?_of_findSa {direction : Direction} {spi : BitVec 32}
    (h : peer.findSa direction spi = some (j, sa)) : peer.sad[j]? = some sa := by
  obtain ⟨i, -, h⟩ := Option.bind_eq_some_iff.mp h
  obtain ⟨sa', hsa', h⟩ := Option.bind_eq_some_iff.mp h
  cases h
  exact hsa'

theorem findIdx?_set {α : Type} {p : α → Bool} {l : List α} {i : ℕ} {a b : α}
    (h : l[i]? = some a) (hp : p b = p a) : (l.set i b).findIdx? p = l.findIdx? p := by
  induction l generalizing i with
  | nil => rfl
  | cons c l ih =>
    cases i with
    | zero =>
      cases h
      simp [List.findIdx?_cons, hp]
    | succ i =>
      rw [List.set_cons_succ, List.findIdx?_cons, List.findIdx?_cons, ih h]

theorem findSa_setSa {direction : Direction} {spi : BitVec 32} {i : ℕ} {sa' : SecurityAssociation}
    (hi : peer.sad[i]? = some sa') (bytes : ℕ)
    (h : peer.findSa direction spi = some (j, sa)) (hne : i ≠ j) :
    (peer.setSa i (sa'.addBytesProcessed bytes)).findSa direction spi = some (j, sa) := by
  obtain ⟨k, hfind, h⟩ := Option.bind_eq_some_iff.mp h
  obtain ⟨sa₁, hk, h⟩ := Option.bind_eq_some_iff.mp h
  cases h
  have hmap : (peer.sad.set i (sa'.addBytesProcessed bytes)).findIdx?
      (fun sa => sa.rule.direction = direction ∧ sa.spi = spi) = some j :=
    (findIdx?_set (b := sa'.addBytesProcessed bytes) hi rfl).trans hfind
  have hget : (peer.sad.set i (sa'.addBytesProcessed bytes))[j]? = some sa := by
    rw [List.getElem?_set_ne hne, hk]
  simp only [findSa, setSa, hmap, hget, Option.bind_some, Option.bind_eq_bind, Option.pure_def]

end

/-- The associations that are selected cover the packet and have the protection asked for. -/
structure Selects (module : IPsec) (packetInfo : PacketInfo) (selected : Selected) : Prop where
  espSa : ∀ i, selected.espSa = some i → ∃ sa, module.sad[i]? = some sa ∧
    sa.rule.protection = .esp ∧ sa.rule.selector.matches packetInfo = true
  ahSa : ∀ i, selected.ahSa = some i → ∃ sa, module.sad[i]? = some sa ∧
    sa.rule.protection = .ah ∧ sa.rule.selector.matches packetInfo = true

theorem Selects.selectNext {module : IPsec} {packetInfo : PacketInfo} {selected : Selected}
    (h : Selects module packetInfo selected) (now : ℤ) (bytes : ℕ) (i : ℕ) :
    Selects module packetInfo (module.selectNext now bytes packetInfo selected i) := by
  unfold IPsec.selectNext
  cases hi : module.sad[i]? with
  | none => exact h
  | some sa =>
    simp only
    by_cases hmatch : sa.rule.selector.matches packetInfo = true
    · rw [if_neg (not_not.mpr hmatch)]
      split
      · exact h
      split
      · exact h
      split
      · rename_i hesp
        refine ⟨?_, h.ahSa⟩
        rintro _ ⟨⟩
        exact ⟨sa, hi, hesp.1, hmatch⟩
      split
      · rename_i hah
        refine ⟨h.espSa, ?_⟩
        rintro _ ⟨⟩
        exact ⟨sa, hi, hah.1, hmatch⟩
      · exact h
    · rw [if_pos hmatch]
      exact h

theorem selects_select (module : IPsec) (now : ℤ) (bytes : ℕ) (packetInfo : PacketInfo)
    (entries : List ℕ) :
      Selects module packetInfo (module.select now bytes packetInfo entries) := by
  have hinit : Selects module packetInfo {} := ⟨nofun, nofun⟩
  unfold select
  generalize ({} : Selected) = selected at hinit
  induction entries generalizing selected with
  | nil => exact hinit
  | cons i entries ih => exact ih _ (hinit.selectNext now bytes i)

/-! ## The round trip -/

/-- The peer has an inbound association for what an outbound one protects, and its lifetime
covers the packet. -/
def Mirrors (peer : IPsec) (now : ℤ) (bytes : ℕ) (sa : SecurityAssociation) : Prop :=
  ∃ j sa', peer.findSa .inbound sa.spi = some (j, sa') ∧
    sa'.rule.protection = sa.rule.protection ∧
    sa'.rule.selector = sa.rule.selector.mirrored ∧ sa'.isUsable now bytes = true

/-- The bytes of TFC padding that the ESP association adds. -/
def tfcBytes (espSa : Option SecurityAssociation) (packetInfo : PacketInfo) (draw : ℕ) : ℕ :=
  match espSa with
  | some sa => tfcPadding sa.rule packetInfo.tfcSupported draw
  | none => 0

/-- The bytes of what AH covers, or of the protected packet without AH. -/
def espBytes (espSa : Option SecurityAssociation) (bytes : ℕ) : ℕ :=
  match espSa with
  | some sa => espPacketBytes sa.rule bytes
  | none => bytes

/-- The bytes of the protected packet. -/
def protectedBytes (espSa ahSa : Option SecurityAssociation) (isIpv6 : Bool) (bytes : ℕ) : ℕ :=
  match ahSa with
  | some sa => (ahLengths sa.rule isIpv6).2 + espBytes espSa bytes
  | none => espBytes espSa bytes

/-- A transport packet in a datagram, the associations that a policy selects for it, and a peer
that mirrors them. -/
structure Setting (sender peer : IPsec) (now now' : ℤ) (draw : ℕ) (datagram : Datagram)
    (packetInfo : PacketInfo) (entries : List ℕ) (payload : List Cell)
    (espSa ahSa : Option SecurityAssociation) : Prop where
  family : peer.isIpv6 = sender.isIpv6
  unicast : sender.isMulticast datagram.header.destinationAddress = false
  removal : removeAtBack (datagram.header.trailingPaddingLength sender.isIpv6 datagram.data)
    datagram.data = .ok payload
  info : Datagram.extractEgressPacketInfo ⟨datagram.header, payload⟩
    datagram.header.sourceAddress = .ok packetInfo
  espSelected : (sender.select now payload.length packetInfo entries).espSa.bind (sender.sad[·]?) =
    espSa
  ahSelected : (sender.select now payload.length packetInfo entries).ahSa.bind (sender.sad[·]?) =
    ahSa
  selected : espSa ≠ none ∨ ahSa ≠ none
  configured : ∀ sa, espSa = some sa ∨ ahSa = some sa → Configured sa.rule
  espPeer : ∀ sa, espSa = some sa →
    Mirrors peer now' (payload.length + tfcBytes espSa packetInfo draw) sa
  ahPeer : ∀ sa, ahSa = some sa →
    Mirrors peer now' (espBytes espSa (payload.length + tfcBytes espSa packetInfo draw)) sa

/-- The datagram is protected, and the peer accepts it and restores the header, with the length
that matches, and the payload with the TFC padding. -/
def RoundTrips (sender peer : IPsec) (now now' : ℤ) (delays delays' : Delays) (draw : ℕ)
    (datagram : Datagram) (packetInfo : PacketInfo) (entries : List ℕ) (restored : List Cell) :
    Prop :=
  ∃ protectedDatagram,
    Accepts (sender.protectDatagram now delays draw datagram packetInfo entries)
      protectedDatagram ∧
    Accepts (peer.processIngressPacket now' delays' protectedDatagram)
      ⟨datagram.header.updateLength sender.isIpv6 restored, restored⟩

/-- What the round trip asks of the associations and the packet. -/
structure Restorable (isIpv6 : Bool) (protocol : BitVec 8) (bytes : ℕ)
    (espSa ahSa : Option SecurityAssociation) : Prop where
  modeAgrees : ∀ sa, espSa = some sa → ModeAgrees sa.rule
  notDummy : espSa ≠ none → protocol ≠ protNone
  notEsp : espSa = none → protocol ≠ protEsp
  fits : protectedBytes espSa ahSa isIpv6 bytes < 2 ^ 32

theorem protectEsp_eq_ok_iff {work : Work} {bytes : ℕ} {tfcEnabled : Bool} {draw : ℕ}
    {delays : Delays} {i : ℕ} {sa : SecurityAssociation} {r : Work}
    (hi : work.module.sad[i]? = some sa) (hc : EspConfigured sa.rule) :
    work.protectEsp bytes tfcEnabled draw delays (some i) = .ok r ↔
      ModeAgrees sa.rule ∧
      espPacketBytes sa.rule (work.packet.length + tfcPadding sa.rule tfcEnabled draw) < 2 ^ 32 ∧
      r = { module := work.module.setSa i (sa.addBytesProcessed bytes).incrementSeqNum
            header := { work.header with protocolId := protEsp }
            packet := espResult sa work.header.protocolId tfcEnabled draw
              work.packet
            delay := work.delay + delays.espProtectOut } := by
  have hc' : EspConfigured (sa.addBytesProcessed bytes).rule := hc
  simp only [Work.protectEsp, hi]
  constructor
  · intro hr
    obtain ⟨p, hp, hr⟩ := Error.exists_of_bind_eq_ok hr
    obtain ⟨hagrees, hfits⟩ := of_espProtect hc' hp
    rw [espProtect_eq hc' hagrees hfits] at hp
    cases hp
    cases hr
    exact ⟨hagrees, hfits, rfl⟩
  · rintro ⟨hagrees, hfits, rfl⟩
    exact Error.bind_of_eq_ok (espProtect_eq hc' hagrees hfits) rfl

theorem protectAh_eq_ok_iff {work : Work} {bytes : ℕ} {delays : Delays} {i : ℕ}
    {sa : SecurityAssociation} {r : Work} (hi : work.module.sad[i]? = some sa) :
    work.protectAh bytes delays (some i) = .ok r ↔
      (ahLengths sa.rule work.module.isIpv6).2 + work.packet.length < 2 ^ 32 ∧
      r = { module := work.module.setSa i (sa.addBytesProcessed bytes).incrementSeqNum
            header := { work.header with protocolId := protAh }
            packet := ahResult sa work.module.isIpv6
              work.header.protocolId work.packet
            delay := work.delay + delays.ahProtectOut } := by
  simp only [Work.protectAh, hi]
  constructor
  · intro hr
    obtain ⟨p, hp, hr⟩ := Error.exists_of_bind_eq_ok hr
    obtain ⟨hfits, rfl⟩ := ahProtect_eq.mp hp
    cases hr
    exact ⟨hfits, rfl⟩
  · rintro ⟨hfits, rfl⟩
    exact Error.bind_of_eq_ok (ahProtect_eq.mpr ⟨hfits, rfl⟩) rfl

section

variable {sender peer : IPsec} {now now' : ℤ} {delays delays' : Delays} {draw : ℕ}
  {datagram : Datagram} {packetInfo : PacketInfo} {entries : List ℕ} {payload : List Cell}
  {espSa ahSa : Option SecurityAssociation}

/-- The data with the protection of ESP. -/
def espWrapped (espSa : Option SecurityAssociation) (packetInfo : PacketInfo) (draw : ℕ)
    (protocol : BitVec 8) (payload : List Cell) : List Cell :=
  match espSa with
  | some sa => espResult sa protocol packetInfo.tfcSupported draw
    payload
  | none => payload

def espProtocol (espSa : Option SecurityAssociation) (protocol : BitVec 8) : BitVec 8 :=
  if espSa.isSome then protEsp else protocol

/-- The data with the protection of ESP and AH. -/
def wrapped (espSa ahSa : Option SecurityAssociation) (isIpv6 : Bool) (packetInfo : PacketInfo)
    (draw : ℕ) (protocol : BitVec 8) (payload : List Cell) : List Cell :=
  match ahSa with
  | some sa => ahResult sa isIpv6 (espProtocol espSa protocol)
    (espWrapped espSa packetInfo draw protocol payload)
  | none => espWrapped espSa packetInfo draw protocol payload

def wrappedProtocol (espSa ahSa : Option SecurityAssociation) (protocol : BitVec 8) : BitVec 8 :=
  if ahSa.isSome then protAh else espProtocol espSa protocol

namespace Setting

variable (h : Setting sender peer now now' draw datagram packetInfo entries payload espSa ahSa)
include h

theorem espSa_cases :
    (espSa = none ∧ (sender.select now payload.length packetInfo entries).espSa = none) ∨
    ∃ i sa, espSa = some sa ∧
      (sender.select now payload.length packetInfo entries).espSa = some i ∧
      sender.sad[i]? = some sa ∧ sa.rule.protection = .esp ∧
      sa.rule.selector.matches packetInfo = true := by
  have hbind := h.espSelected
  cases hsel : (sender.select now payload.length packetInfo entries).espSa with
  | none =>
    rw [hsel] at hbind
    exact .inl ⟨hbind.symm, rfl⟩
  | some i =>
    obtain ⟨sa, hi, hesp, hmatch⟩ := (selects_select ..).espSa i hsel
    rw [hsel, Option.bind_some, hi] at hbind
    exact .inr ⟨i, sa, hbind.symm, rfl, hi, hesp, hmatch⟩

theorem ahSa_cases :
    (ahSa = none ∧ (sender.select now payload.length packetInfo entries).ahSa = none) ∨
    ∃ i sa, ahSa = some sa ∧
      (sender.select now payload.length packetInfo entries).ahSa = some i ∧
      sender.sad[i]? = some sa ∧ sa.rule.protection = .ah ∧
      sa.rule.selector.matches packetInfo = true := by
  have hbind := h.ahSelected
  cases hsel : (sender.select now payload.length packetInfo entries).ahSa with
  | none =>
    rw [hsel] at hbind
    exact .inl ⟨hbind.symm, rfl⟩
  | some i =>
    obtain ⟨sa, hi, hah, hmatch⟩ := (selects_select ..).ahSa i hsel
    rw [hsel, Option.bind_some, hi] at hbind
    exact .inr ⟨i, sa, hbind.symm, rfl, hi, hah, hmatch⟩

theorem selected_ne : ¬ ((sender.select now payload.length packetInfo entries).espSa = none ∧
    (sender.select now payload.length packetInfo entries).ahSa = none) := by
  rintro ⟨hesp, hah⟩
  have hespSa := h.espSelected
  have hahSa := h.ahSelected
  rw [hesp] at hespSa
  rw [hah] at hahSa
  exact h.selected.elim (fun hne => hne hespSa.symm) fun hne => hne hahSa.symm

/-- The two stages of `protectDatagram`. -/
theorem accepts_protectDatagram_iff {d : Datagram} :
    Accepts (sender.protectDatagram now delays draw datagram packetInfo entries) d ↔
      ∃ work work' : Work,
        Work.protectEsp ⟨sender, datagram.header, payload, 0⟩ payload.length
          packetInfo.tfcSupported draw delays
          (sender.select now payload.length packetInfo entries).espSa = .ok work ∧
        work.protectAh payload.length delays
          (sender.select now payload.length packetInfo entries).ahSa = .ok work' ∧
        d = ⟨work'.header.updateLength sender.isIpv6 work'.packet, work'.packet⟩ := by
  have hne := h.selected_ne
  constructor
  · rintro ⟨module, result, heq, -⟩
    obtain ⟨packet, hpacket, heq⟩ := Error.exists_of_bind_eq_ok heq
    cases h.removal.symm.trans hpacket
    obtain ⟨work, hwork, heq⟩ := Error.exists_of_bind_eq_ok heq
    obtain ⟨work', hwork', heq⟩ := Error.exists_of_bind_eq_ok heq
    rw [if_neg hne] at heq
    cases heq
    exact ⟨work, work', hwork, hwork', rfl⟩
  · rintro ⟨work, work', hwork, hwork', rfl⟩
    refine ⟨{ work'.module with busy := (sender.busy.delayOut now work'.delay).2 }, _, ?_,
      delayOut_ne_drop sender.busy now work'.delay⟩
    exact Error.bind_of_eq_ok h.removal (Error.bind_of_eq_ok hwork
      (Error.bind_of_eq_ok hwork' (if_neg hne)))

/-- What `protectDatagram` sends, and when. -/
theorem protects_iff {d : Datagram} :
    Accepts (sender.protectDatagram now delays draw datagram packetInfo entries) d ↔
      (∀ sa, espSa = some sa → ModeAgrees sa.rule) ∧
      protectedBytes espSa ahSa sender.isIpv6
        (payload.length + tfcBytes espSa packetInfo draw) < 2 ^ 32 ∧
      d = ⟨{ datagram.header with
          protocolId := wrappedProtocol espSa ahSa datagram.header.protocolId }.updateLength
            sender.isIpv6 (wrapped espSa ahSa sender.isIpv6 packetInfo draw
              datagram.header.protocolId payload),
        wrapped espSa ahSa sender.isIpv6 packetInfo draw datagram.header.protocolId payload⟩ := by
  rw [h.accepts_protectDatagram_iff]
  rcases h.espSa_cases with ⟨hesp, hsel⟩ | ⟨i, sa, hesp, hsel, hi, hprot, -⟩
  · rcases h.ahSa_cases with ⟨hah, -⟩ | ⟨j, sa', hah, hsel', hj, -, -⟩
    · exact absurd hah (h.selected.resolve_left (absurd hesp))
    · subst hesp hah
      rw [hsel, hsel']
      simp only [protectedBytes, espBytes, tfcBytes, wrapped, espWrapped, Nat.add_zero]
      constructor
      · rintro ⟨_, work', ⟨⟩, hwork', rfl⟩
        obtain ⟨hfits, rfl⟩ := (protectAh_eq_ok_iff hj).mp hwork'
        refine ⟨?_, hfits, rfl⟩
        intro sa hsa
        cases hsa
      · rintro ⟨-, hfits, rfl⟩
        exact ⟨_, _, rfl, (protectAh_eq_ok_iff hj).mpr ⟨hfits, rfl⟩, rfl⟩
  · have hc : EspConfigured sa.rule := (h.configured sa (.inl hesp)).esp hprot
    rcases h.ahSa_cases with ⟨hah, hsel'⟩ | ⟨j, sa', hah, hsel', hj, hprot', -⟩
    · subst hesp hah
      rw [hsel, hsel']
      simp only [protectedBytes, espBytes, tfcBytes, wrapped, espWrapped]
      constructor
      · rintro ⟨work, _, hwork, ⟨⟩, rfl⟩
        obtain ⟨hagrees, hfits, rfl⟩ := (protectEsp_eq_ok_iff hi hc).mp hwork
        exact ⟨fun _ hsa => Option.some.inj hsa ▸ hagrees, hfits, rfl⟩
      · rintro ⟨hagrees, hfits, rfl⟩
        exact ⟨_, _, (protectEsp_eq_ok_iff hi hc).mpr ⟨hagrees sa rfl, hfits, rfl⟩, rfl, rfl⟩
    · have hne : i ≠ j := by
        rintro rfl
        cases hi.symm.trans hj
        rw [hprot] at hprot'
        cases hprot'
      have hj' : (sender.setSa i (sa.addBytesProcessed payload.length).incrementSeqNum).sad[j]? =
          some sa' := (List.getElem?_set_ne hne).trans hj
      subst hesp hah
      rw [hsel, hsel']
      simp only [protectedBytes, espBytes, tfcBytes, wrapped, espWrapped]
      constructor
      · rintro ⟨work, work', hwork, hwork', rfl⟩
        obtain ⟨hagrees, hfits, rfl⟩ := (protectEsp_eq_ok_iff hi hc).mp hwork
        obtain ⟨hfits', rfl⟩ := (protectAh_eq_ok_iff hj').mp hwork'
        have hlength := length_espResult datagram.header.protocolId hfits
        refine ⟨fun _ hsa => Option.some.inj hsa ▸ hagrees, ?_, rfl⟩
        exact lt_of_eq_of_lt (congrArg ((ahLengths sa'.rule sender.isIpv6).2 + ·) hlength.symm)
          hfits'
      · rintro ⟨hagrees, hfits, rfl⟩
        have hesp : espPacketBytes sa.rule
            (payload.length + tfcPadding sa.rule packetInfo.tfcSupported draw) < 2 ^ 32 :=
          lt_of_le_of_lt (Nat.le_add_left _ _) hfits
        have hlength := length_espResult datagram.header.protocolId hesp
        refine ⟨_, _, (protectEsp_eq_ok_iff hi hc).mpr ⟨hagrees sa rfl, hesp, rfl⟩,
          (protectAh_eq_ok_iff hj').mpr ⟨?_, rfl⟩, rfl⟩
        exact lt_of_eq_of_lt (congrArg ((ahLengths sa'.rule sender.isIpv6).2 + ·) hlength) hfits

theorem matches_restored (protocol : BitVec 8) (length n : ℕ) {sa sa' : SecurityAssociation}
    (hselector : sa'.rule.selector = sa.rule.selector.mirrored)
    (hmatch : sa.rule.selector.matches packetInfo = true) :
    matchesSelectorsOfSa ⟨peer.restoreHeader { datagram.header with
        protocolId := protocol, lengthField := length } datagram.header.protocolId
      (payload ++ List.replicate n .count), payload ++ List.replicate n .count⟩ sa' = .ok true := by
  have hends : datagram.header.SameEnds (peer.restoreHeader { datagram.header with
      protocolId := protocol, lengthField := length } datagram.header.protocolId
      (payload ++ List.replicate n .count)) := ⟨rfl, rfl, rfl⟩
  apply matchesSelectorsOfSa_eq (extractIngressPacketInfo_eq hends n h.info)
  rw [hselector, matches_mirrored, hmatch]

theorem restoreHeader_eq (protocol : BitVec 8) (length : ℕ) (packet : List Cell) :
    peer.restoreHeader { datagram.header with protocolId := protocol, lengthField := length }
      datagram.header.protocolId packet = datagram.header.updateLength sender.isIpv6 packet := by
  unfold restoreHeader NetworkHeader.updateLength NetworkHeader.lengthOf
  rw [h.family]

end Setting

theorem processIngressPacket_ah {d : Datagram} (hprotocol : d.header.protocolId = protAh)
    (hunicast : peer.isMulticast d.header.destinationAddress = false) :
    peer.processIngressPacket now delays d = peer.processAh now delays d := by
  unfold processIngressPacket Datagram.extractIngressPacketInfo
  rw [hprotocol]
  simp [protAh, protTcp, protUdp, protIcmp, hunicast]

theorem processIngressPacket_esp {d : Datagram} (hprotocol : d.header.protocolId = protEsp)
    (hunicast : peer.isMulticast d.header.destinationAddress = false) :
    peer.processIngressPacket now delays d = peer.processEsp now 0 delays none d := by
  unfold processIngressPacket Datagram.extractIngressPacketInfo
  rw [hprotocol]
  simp [protEsp, protAh, protTcp, protUdp, protIcmp, hunicast]

namespace Setting

variable (h : Setting sender peer now now' draw datagram packetInfo entries payload espSa ahSa)
include h

theorem unicast_peer : peer.isMulticast datagram.header.destinationAddress = false := by
  rw [isMulticast, h.family]
  exact h.unicast

/-- Without ESP. -/
theorem accepts_ah (delays' : Delays) (length : ℕ) {sa sa' : SecurityAssociation} {j : ℕ}
    (hmatch : sa.rule.selector.matches packetInfo = true)
    (hpeer : peer.findSa .inbound sa.spi = some (j, sa')) (hah : sa'.rule.protection = .ah)
    (hselector : sa'.rule.selector = sa.rule.selector.mirrored)
    (husable : sa'.isUsable now' payload.length = true) :
    Accepts (peer.processIngressPacket now' delays' ⟨{ datagram.header with
        protocolId := protAh, lengthField := length },
        ahResult sa sender.isIpv6 datagram.header.protocolId
          payload⟩) ⟨datagram.header.updateLength sender.isIpv6 payload, payload⟩ ↔
      datagram.header.protocolId ≠ protEsp := by
  rw [processIngressPacket_ah ?_ ?_,
    processAh_ahResult hpeer hah]
  rotate_left
  · rfl
  · exact h.unicast_peer
  constructor
  · intro haccepts hprotocol
    rw [acceptAh_esp hprotocol husable] at haccepts
    exact data_ne_of_processEsp haccepts rfl
  · intro hprotocol
    have hsa := h.matches_restored protAh length 0 hselector hmatch
    rw [List.replicate_zero, List.append_nil] at hsa
    have haccepts := acceptAh_accepts delays' j hprotocol husable hsa
    rw [h.restoreHeader_eq] at haccepts
    exact haccepts

theorem accepts_esp (delay : ℚ) (delays' : Delays) (protocol : BitVec 8) (length : ℕ)
    {module : IPsec} {sa sa' : SecurityAssociation} {ahSa' : Option SecurityAssociation} {j : ℕ}
    (hmodule : module.isIpv6 = peer.isIpv6)
    (hmatch : sa.rule.selector.matches packetInfo = true)
    (hfits : espPacketBytes sa.rule
      (payload.length + tfcPadding sa.rule packetInfo.tfcSupported draw) < 2 ^ 32)
    (hpeer : module.findSa .inbound sa.spi = some (j, sa')) (hesp : sa'.rule.protection = .esp)
    (hselector : sa'.rule.selector = sa.rule.selector.mirrored)
    (husable : sa'.isUsable now'
      (payload.length + tfcPadding sa.rule packetInfo.tfcSupported draw) = true)
    (hahSa : ∀ ah, ahSa' = some ah → ∃ sa : SecurityAssociation,
      ah.rule.selector = sa.rule.selector.mirrored ∧
        sa.rule.selector.matches packetInfo = true) :
    Accepts (module.processEsp now' delay delays' ahSa' ⟨{ datagram.header with
        protocolId := protocol, lengthField := length },
        espResult sa datagram.header.protocolId
          packetInfo.tfcSupported draw payload⟩)
        ⟨datagram.header.updateLength sender.isIpv6 (payload ++
          List.replicate (tfcPadding sa.rule packetInfo.tfcSupported draw) .count),
        payload ++ List.replicate (tfcPadding sa.rule packetInfo.tfcSupported draw) .count⟩ ↔
      datagram.header.protocolId ≠ protNone := by
  rw [processEsp_espResult hfits hpeer hesp]
  constructor
  · intro haccepts
    exact (of_acceptEsp haccepts).1
  · intro hprotocol
    have hlength : (payload ++ List.replicate
        (tfcPadding sa.rule packetInfo.tfcSupported draw) Cell.count).length =
        payload.length + tfcPadding sa.rule packetInfo.tfcSupported draw := by simp
    rw [← hlength] at husable
    have hheader : ∀ packet, module.restoreHeader { datagram.header with
        protocolId := protocol, lengthField := length } datagram.header.protocolId packet =
        datagram.header.updateLength sender.isIpv6 packet := by
      intro packet
      rw [← h.restoreHeader_eq protocol length packet, restoreHeader, hmodule]
      rfl
    have hsa := h.matches_restored protocol length
      (tfcPadding sa.rule packetInfo.tfcSupported draw) hselector hmatch
    rw [h.restoreHeader_eq, ← hheader] at hsa
    have haccepts := acceptEsp_accepts delay delays' ahSa' j hprotocol husable hsa
    rw [hheader] at haccepts
    apply haccepts
    intro ah hah
    obtain ⟨sa₁, hselector₁, hmatch₁⟩ := hahSa ah hah
    have hmatches := h.matches_restored protocol length
      (tfcPadding sa.rule packetInfo.tfcSupported draw) hselector₁ hmatch₁
    rw [h.restoreHeader_eq] at hmatches
    exact hmatches

theorem accepts_iff {length : ℕ}
    (hfits : protectedBytes espSa ahSa sender.isIpv6
      (payload.length + tfcBytes espSa packetInfo draw) < 2 ^ 32) :
    Accepts (peer.processIngressPacket now' delays' ⟨{ datagram.header with
        protocolId := wrappedProtocol espSa ahSa datagram.header.protocolId
        lengthField := length },
        wrapped espSa ahSa sender.isIpv6 packetInfo draw datagram.header.protocolId payload⟩)
      ⟨datagram.header.updateLength sender.isIpv6
        (payload ++ List.replicate (tfcBytes espSa packetInfo draw) .count),
        payload ++ List.replicate (tfcBytes espSa packetInfo draw) .count⟩ ↔
    (espSa ≠ none → datagram.header.protocolId ≠ protNone) ∧
      (espSa = none → datagram.header.protocolId ≠ protEsp) := by
  rcases h.espSa_cases with ⟨hesp, hsel⟩ | ⟨i, sa, hesp, hsel, hi, hprot, hmatch⟩
  · rcases h.ahSa_cases with ⟨hah, -⟩ | ⟨j, sa', hah, hsel', hj, hprot', hmatch'⟩
    · exact absurd hah (h.selected.resolve_left (absurd hesp))
    · obtain ⟨k, peerSa, hfind, hpeerProt, hselector, husable⟩ := h.ahPeer sa' hah
      subst hesp hah
      have haccepts := h.accepts_ah delays' length hmatch' hfind
        (hpeerProt.trans hprot') hselector husable
      simp only [tfcBytes, List.replicate_zero, List.append_nil, ne_eq, not_true_eq_false,
        false_implies, true_implies, true_and]
      exact haccepts
  · obtain ⟨k, peerSa, hfind, hpeerProt, hselector, husable⟩ := h.espPeer sa hesp
    rcases h.ahSa_cases with ⟨hah, hsel'⟩ | ⟨j, sa', hah, hsel', hj, hprot', hmatch'⟩
    · subst hesp hah
      have hnone : ∀ ah, (none : Option SecurityAssociation) = some ah →
          ∃ sa : SecurityAssociation, ah.rule.selector = sa.rule.selector.mirrored ∧
            sa.rule.selector.matches packetInfo = true := by
        rintro _ ⟨⟩
      have haccepts := h.accepts_esp 0 delays' protEsp length rfl hmatch hfits hfind
        (hpeerProt.trans hprot) hselector husable hnone
      simp only [tfcBytes, wrapped, espWrapped, ne_eq, reduceCtorEq, not_false_eq_true,
        true_implies, false_implies, and_true]
      rw [processIngressPacket_esp ?_ ?_]
      · exact haccepts
      · rfl
      · exact h.unicast_peer
    · obtain ⟨k', peerSa', hfind', hpeerProt', hselector', husable'⟩ := h.ahPeer sa' hah
      have hne : k' ≠ k := by
        rintro rfl
        cases (getElem?_of_findSa hfind).symm.trans (getElem?_of_findSa hfind')
        have := (hpeerProt.trans hprot).symm.trans (hpeerProt'.trans hprot')
        cases this
      have hespFits : espPacketBytes sa.rule
          (payload.length + tfcPadding sa.rule packetInfo.tfcSupported draw) < 2 ^ 32 := by
        subst hesp hah
        exact lt_of_le_of_lt (Nat.le_add_left _ _) hfits
      have hlength := length_espResult datagram.header.protocolId hespFits
      subst hesp hah
      have hsome : ∀ ah, some peerSa' = some ah →
          ∃ sa : SecurityAssociation, ah.rule.selector = sa.rule.selector.mirrored ∧
            sa.rule.selector.matches packetInfo = true := by
        rintro _ ⟨⟩
        exact ⟨sa', hselector', hmatch'⟩
      have hfind'' := findSa_setSa (getElem?_of_findSa hfind') (espResult sa
        datagram.header.protocolId packetInfo.tfcSupported draw payload).length hfind hne
      have hmodule : (peer.setSa k' (peerSa'.addBytesProcessed (espResult sa
        datagram.header.protocolId packetInfo.tfcSupported draw payload).length)).isIpv6 =
          peer.isIpv6 := rfl
      have haccepts := h.accepts_esp delays'.ahProtectIn delays' protEsp
        (datagram.header.lengthOf peer.isIpv6 (espResult sa datagram.header.protocolId
          packetInfo.tfcSupported draw payload)) hmodule hmatch hespFits hfind''
        (hpeerProt.trans hprot) hselector husable hsome
      have hprotocol : espProtocol (some sa) datagram.header.protocolId = protEsp := rfl
      simp only [tfcBytes, wrapped, espWrapped, ne_eq, reduceCtorEq, not_false_eq_true,
        true_implies, false_implies, and_true]
      rw [processIngressPacket_ah ?_ ?_,
        processAh_ahResult hfind'
          (hpeerProt'.trans hprot'), acceptAh_esp hprotocol ?_]
      · exact haccepts
      · rw [hlength]
        exact husable'
      · rfl
      · exact h.unicast_peer

/-- A transport packet that a policy protects reaches the peer as it was sent, with the TFC
padding behind it, exactly when it is restorable. -/
theorem round_trip (delays delays' : Delays) :
    RoundTrips sender peer now now' delays delays' draw datagram packetInfo entries
        (payload ++ List.replicate (tfcBytes espSa packetInfo draw) .count) ↔
      Restorable sender.isIpv6 datagram.header.protocolId
        (payload.length + tfcBytes espSa packetInfo draw) espSa ahSa := by
  constructor
  · rintro ⟨d, hprotects, haccepts⟩
    obtain ⟨hagrees, hfits, rfl⟩ := h.protects_iff.mp hprotects
    obtain ⟨hdummy, hnot⟩ := (h.accepts_iff hfits).mp haccepts
    exact ⟨hagrees, hdummy, hnot, hfits⟩
  · intro hr
    exact ⟨_, h.protects_iff.mpr ⟨hr.modeAgrees, hr.fits, rfl⟩,
      (h.accepts_iff hr.fits).mpr ⟨hr.notDummy, hr.notEsp⟩⟩

end Setting

end

/-! ## A UDP packet -/

/-- One byte over UDP from 10.0.0.1 to 10.0.0.2. -/
def udpDatagram : Datagram :=
  ⟨⟨0x0a000001, 0x0a000002, protUdp, 20, 29, 0⟩, (Header.udp 1000 2000).cells ++ [.byte 7]⟩

def udpPacketInfo : PacketInfo :=
  { localAddress := 0x0a000001
    remoteAddress := 0x0a000002
    nextProtocol := protUdp
    localPort := 1000
    remotePort := 2000
    tfcSupported := true }

def udpRule (direction : Direction) (protection : Protection) (espMode : EspMode) : IPsecRule :=
  { direction
    selector := {}
    action := .protect
    protection
    espMode
    encryptionAlg := .aesCbc128
    authenticationAlg := .hmacSha1
    maxTfcPadLength := 16 }

/-- An ESP association, and an AH association that may come with it. -/
def udpModule (direction : Direction) (espMode : EspMode) (withAh : Bool) : IPsec :=
  { isIpv6 := false
    sad := { rule := udpRule direction .esp espMode, spi := 1 } ::
      if withAh then [{ rule := udpRule direction .ah espMode, spi := 2 }] else [] }

theorem configured_udpRule {protection : Protection} {espMode : EspMode}
    (hprotection : protection = .esp ∨ protection = .ah)
    (hmode : espMode = .integrity ∨ espMode = .combined) :
    Configured (udpRule .outbound protection espMode) := by
  refine ⟨udpRule .outbound .esp espMode, udpRule .outbound .esp espMode, some protection, {}, rfl,
    ?_, ?_⟩ <;> rcases hmode with rfl | rfl <;> rcases hprotection with rfl | rfl <;> rfl

theorem setting_udp_integrity :
    Setting (udpModule .outbound .integrity false) (udpModule .inbound .integrity false) 0 0 5
      udpDatagram udpPacketInfo [0] udpDatagram.data
      (some { rule := udpRule .outbound .esp .integrity, spi := 1 }) none where
  family := rfl
  unicast := by decide
  removal := rfl
  info := rfl
  espSelected := by decide
  ahSelected := by decide
  selected := .inl nofun
  configured := by
    rintro sa (hsa | hsa)
    · cases hsa
      exact configured_udpRule (.inl rfl) (.inl rfl)
    · cases hsa
  espPeer := by
    rintro _ ⟨⟩
    exact ⟨0,
      { rule := udpRule .inbound .esp .integrity, spi := 1 }, by decide, rfl, rfl, by decide⟩
  ahPeer := by rintro _ ⟨⟩

theorem setting_udp_combined :
    Setting (udpModule .outbound .combined true) (udpModule .inbound .combined true) 0 0 5
      udpDatagram udpPacketInfo [0, 1] udpDatagram.data
      (some { rule := udpRule .outbound .esp .combined, spi := 1 })
      (some { rule := udpRule .outbound .ah .combined, spi := 2 }) where
  family := rfl
  unicast := by decide
  removal := rfl
  info := rfl
  espSelected := by decide
  ahSelected := by decide
  selected := .inl nofun
  configured := by
    rintro sa (hsa | hsa)
    · cases hsa
      exact configured_udpRule (.inl rfl) (.inr rfl)
    · cases hsa
      exact configured_udpRule (.inr rfl) (.inr rfl)
  espPeer := by
    rintro _ ⟨⟩
    exact ⟨0, { rule := udpRule .inbound .esp .combined, spi := 1 }, by decide, rfl, rfl, by decide⟩
  ahPeer := by
    rintro _ ⟨⟩
    exact ⟨1, { rule := udpRule .inbound .ah .combined, spi := 2 }, by decide, rfl, rfl, by decide⟩

/-- With AH over ESP and five bytes of TFC padding the packet comes back. -/
theorem round_trip_of_udp :
    RoundTrips (udpModule .outbound .combined true) (udpModule .inbound .combined true) 0 0 {} {} 5
      udpDatagram udpPacketInfo [0, 1] (udpDatagram.data ++ List.replicate 5 .count) :=
  (setting_udp_combined.round_trip {} {}).mpr
    ⟨by rintro _ ⟨⟩; exact ⟨nofun, nofun⟩, by decide, nofun, by decide⟩

/-- An association with the mode INTEGRITY and a cipher passes the configuration check, and
nothing can be sent through it. -/
theorem no_round_trip_of_integrity :
    ∃ (sender peer : IPsec) (datagram : Datagram) (packetInfo : PacketInfo) (entries : List ℕ)
      (payload : List Cell) (espSa ahSa : Option SecurityAssociation),
      Setting sender peer 0 0 5 datagram packetInfo entries payload espSa ahSa ∧
      ∀ delays delays' restored,
        ¬ RoundTrips sender peer 0 0 delays delays' 5 datagram packetInfo entries restored := by
  refine ⟨_, _, _, _, _, _, _, _, setting_udp_integrity, ?_⟩
  rintro delays delays' restored ⟨d, hprotects, -⟩
  have hagrees := (setting_udp_integrity.protects_iff.mp hprotects).1 _ rfl
  exact absurd (hagrees.integrity rfl) nofun

end IPsec

end Inet.Ipsec
