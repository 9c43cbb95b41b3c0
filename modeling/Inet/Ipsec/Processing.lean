import Inet.Ipsec.Delay

/-! # Protection and its removal

A datagram is a network header and the cells of its data, one for each byte.
`protectDatagram` wraps the data into ESP, AH or both, and `processIngressPacket`
takes the wrapping off.
-/

namespace Inet.Ipsec

mutual

/-- A byte of packet data: a known one, one of a `ByteCountChunk`, or one of a header. -/
inductive Cell where
  | byte (value : BitVec 8)
  | count
  | field (header : Header) (index : ℕ)

inductive Header where
  | tcp (sourcePort destinationPort length : ℕ)
  | udp (sourcePort destinationPort : ℕ)
  | icmp (type code : ℕ)
  | esp (spi sequenceNumber : BitVec 32) (icvBytes : ℕ)
  | espTrailer (padLength nextHeader : BitVec 8)
  | ah (nextHeader payloadLength : BitVec 8) (spi sequenceNumber : BitVec 32) (icvBytes : ℕ)
  | encrypted (chunk : List Cell) (length : ℕ)
  | other (kind length : ℕ)

end

def espFixedHeaderBytes : ℕ := 8

def espFixedPayloadTrailerBytes : ℕ := 2

def ipAhHeaderBytes : ℕ := 12

namespace Header

/-- `getChunkLength` -/
def length : Header → ℕ
  | tcp _ _ length => length
  | udp .. => 8
  | icmp .. => 8
  | esp .. => espFixedHeaderBytes
  | espTrailer .. => espFixedPayloadTrailerBytes
  | ah .. => ipAhHeaderBytes
  | encrypted _ length => length
  | other _ length => length

def cells (header : Header) : List Cell := (List.range header.length).map (.field header)

@[simp] theorem length_cells (header : Header) : header.cells.length = header.length := by
  simp [cells]

end Header

/-! ## Packet data -/

def conversionError : Error := .runtime "Cannot convert chunk from type %s to type %s. "

/-- `peekAtFront` of a header. -/
def peekFront : List Cell → Option Header
  | .field header 0 :: _ => some header
  | _ => none

/-- `removeAtFront` of a header. -/
def removeFront (data : List Cell) : Except Error (Header × List Cell) :=
  match peekFront data with
  | some header =>
    if header.length ≤ data.length then pure (header, data.drop header.length)
    else throw conversionError
  | none => throw conversionError

/-- `removeAtFront(length)` -/
def removeAtFront (length : ℕ) (data : List Cell) : Except Error (List Cell) :=
  if length ≤ data.length then pure (data.drop length)
  else throw (.runtime "Error: length is invalid")

/-- `removeAtBack(length)` -/
def removeAtBack (length : ℕ) (data : List Cell) : Except Error (List Cell) :=
  if length ≤ data.length then pure (data.take (data.length - length))
  else throw (.runtime "Error: length is invalid")

/-- `removeAtBack<IPsecEspTrailer>` -/
def removeEspTrailer (data : List Cell) : Except Error (BitVec 8 × BitVec 8 × List Cell) := do
  let length := data.length - espFixedPayloadTrailerBytes
  match ← removeFront (data.drop length) with
  | (.espTrailer padLength nextHeader, _) => pure (padLength, nextHeader, data.take length)
  | _ => throw conversionError

/-! ## Datagrams -/

/-- `lengthField` counts the header and the data in IPv4, the data alone in IPv6. -/
structure NetworkHeader where
  sourceAddress : L3Address
  destinationAddress : L3Address
  protocolId : BitVec 8
  chunkLength : ℕ
  lengthField : ℕ
  dscp : ℕ
  deriving DecidableEq, Repr

structure Datagram where
  header : NetworkHeader
  data : List Cell

namespace NetworkHeader

/-- The length that the data has according to the header, plus the header in IPv4. -/
def lengthOf (header : NetworkHeader) (isIpv6 : Bool) (data : List Cell) : ℕ :=
  if isIpv6 then data.length else header.chunkLength + data.length

def trailingPaddingLength (header : NetworkHeader) (isIpv6 : Bool) (data : List Cell) : ℕ :=
  header.lengthOf isIpv6 data - header.lengthField

def updateLength (header : NetworkHeader) (isIpv6 : Bool) (data : List Cell) : NetworkHeader :=
  { header with lengthField := header.lengthOf isIpv6 data }

end NetworkHeader

namespace Datagram

def extractEgressPacketInfo (datagram : Datagram) (localAddress : L3Address) :
    Except Error PacketInfo :=
  let packetInfo : PacketInfo :=
    { localAddress
      remoteAddress := datagram.header.destinationAddress
      nextProtocol := datagram.header.protocolId
      dscp := datagram.header.dscp }
  if datagram.header.protocolId = protTcp then
    match peekFront datagram.data with
    | some (.tcp source destination _) =>
      pure { packetInfo with localPort := source, remotePort := destination }
    | _ => throw conversionError
  else if datagram.header.protocolId = protUdp then
    match peekFront datagram.data with
    | some (.udp source destination) =>
      pure { packetInfo with localPort := source, remotePort := destination, tfcSupported := true }
    | _ => throw conversionError
  else if datagram.header.protocolId = protIcmp then
    match peekFront datagram.data with
    | some (.icmp type code) => pure { packetInfo with icmpType := type, icmpCode := code }
    | _ => throw conversionError
  else pure packetInfo

def extractIngressPacketInfo (datagram : Datagram) : Except Error PacketInfo :=
  let packetInfo : PacketInfo :=
    { localAddress := datagram.header.destinationAddress
      remoteAddress := datagram.header.sourceAddress
      nextProtocol := datagram.header.protocolId }
  if datagram.header.protocolId = protTcp then
    match peekFront datagram.data with
    | some (.tcp source destination _) =>
      pure { packetInfo with localPort := destination, remotePort := source }
    | _ => throw conversionError
  else if datagram.header.protocolId = protUdp then
    match peekFront datagram.data with
    | some (.udp source destination) =>
      pure { packetInfo with localPort := destination, remotePort := source, tfcSupported := true }
    | _ => throw conversionError
  else if datagram.header.protocolId = protIcmp then
    match peekFront datagram.data with
    | some (.icmp type code) => pure { packetInfo with icmpType := type, icmpCode := code }
    | _ => throw conversionError
  else pure packetInfo

end Datagram

/-! ## ESP -/

/-- The conversion to `unsigned int`. -/
def u32 (n : ℕ) : ℕ := n % 2 ^ 32

/-- `intuniform(0, b)`, as a function of a number that the generator draws. -/
def intuniform (draw b : ℕ) : ℕ := draw % (b + 1)

/-- The lengths of the initialization vector and of the integrity check value in bytes. -/
def espLengths (rule : IPsecRule) : Except Error (ℕ × ℕ) :=
  match rule.espMode with
  | .none => throw (.assertion "false")
  | .integrity => do
    let ivBytes := rule.authenticationAlg.getInitializationVectorBitLength / 8
    let icvBytes := rule.authenticationAlg.getIntegrityCheckValueBitLength / 8
    assert (icvBytes ≠ 0) "icvBytes != 0"
    pure (ivBytes, icvBytes)
  | .confidentiality => pure (rule.encryptionAlg.getInitializationVectorBitLength / 8, 0)
  | .combined => do
    let ivBytes := rule.encryptionAlg.getInitializationVectorBitLength / 8
    let icvBytes :=
      if rule.authenticationAlg ≠ .none then
        rule.authenticationAlg.getIntegrityCheckValueBitLength / 8
      else rule.encryptionAlg.getIntegrityCheckValueBitLength / 8
    assert (icvBytes ≠ 0) "icvBytes != 0"
    pure (ivBytes, icvBytes)

/-- The bytes of traffic flow confidentiality padding. -/
def tfcPadding (rule : IPsecRule) (tfcEnabled : Bool) (draw : ℕ) : ℕ :=
  if tfcEnabled then u32 (intuniform draw rule.maxTfcPadLength) else 0

/-- `paddedLength`, from the length of the data with the TFC padding. -/
def espPaddedLength (rule : IPsecRule) (bytes : ℕ) : ℕ :=
  let blockSize := rule.encryptionAlg.getBlockSizeBytes
  let paddableLength := u32 (bytes + espFixedPayloadTrailerBytes)
  let paddedLength := u32 (blockSize * (u32 (paddableLength + blockSize - 1) / blockSize))
  u32 (paddedLength + 3) / 4 * 4

def espPadLength (rule : IPsecRule) (bytes : ℕ) : ℕ :=
  u32 (espPaddedLength rule bytes + 2 ^ 32 - u32 (bytes + espFixedPayloadTrailerBytes))

/-- The padding octets are 1, 2, 3, … -/
def paddingOctets (padLength : ℕ) : List Cell :=
  (List.range padLength).map fun i => .byte (BitVec.ofNat 8 (i + 1))

def espProtect (sa : SecurityAssociation) (transportType : BitVec 8) (tfcEnabled : Bool)
    (draw : ℕ) (transport : List Cell) : Except Error (SecurityAssociation × List Cell) := do
  let haveEncryption := sa.rule.espMode = .confidentiality ∨ sa.rule.espMode = .combined
  assert (haveEncryption ↔ sa.rule.encryptionAlg ≠ .none)
    "haveEncryption == (sadEntry->getEnryptionAlg() != EncryptionAlg::NONE)"
  let tfcPadding := tfcPadding sa.rule tfcEnabled draw
  let bytes := transport.length + tfcPadding
  let padLength := espPadLength sa.rule bytes
  assert (padLength ≤ 255) "padLength <= 255"
  let (ivBytes, icvBytes) ← espLengths sa.rule
  let len := u32 (espFixedHeaderBytes + ivBytes + espPaddedLength sa.rule bytes + icvBytes)
  let data := transport ++ List.replicate tfcPadding .count ++ paddingOctets padLength ++
    (Header.espTrailer (BitVec.ofNat 8 padLength) transportType).cells
  let sa := sa.incrementSeqNum
  let packet := (Header.esp sa.spi sa.seqNum icvBytes).cells ++
    (Header.encrypted data (data.length + ivBytes)).cells ++ List.replicate icvBytes .count
  assert (packet.length = len) "transport->getByteLength() == len"
  pure (sa, packet)

/-! ## AH -/

/-- The bytes of the integrity check value field, and of the header with it. -/
def ahLengths (rule : IPsecRule) (isIpv6 : Bool) : ℕ × ℕ :=
  let icvBytes := rule.authenticationAlg.getIntegrityCheckValueBitLength / 8
  let ivBytes := rule.authenticationAlg.getInitializationVectorBitLength / 8
  let alignmentBytes := if isIpv6 then 8 else 4
  let icvFieldBytes := ivBytes + icvBytes
  let headerBytes := ipAhHeaderBytes + icvFieldBytes
  let paddingBytes := (alignmentBytes - headerBytes % alignmentBytes) % alignmentBytes
  (icvFieldBytes + paddingBytes, headerBytes + paddingBytes)

def ahProtect (sa : SecurityAssociation) (isIpv6 : Bool) (transportType : BitVec 8)
    (transport : List Cell) : Except Error (SecurityAssociation × List Cell) := do
  let (icvFieldBytes, headerBytes) := ahLengths sa.rule isIpv6
  let len := u32 (headerBytes + transport.length)
  let sa := sa.incrementSeqNum
  let packet := (Header.ah transportType (BitVec.ofNat 8 (headerBytes / 4 - 2)) sa.spi sa.seqNum
    icvFieldBytes).cells ++ List.replicate icvFieldBytes .count ++ transport
  assert (packet.length = len) "transport->getByteLength() == len"
  pure (sa, packet)

/-! ## The module -/

/-- The values that the delay parameters give for a packet. -/
structure Delays where
  ahProtectOut : ℚ := 0
  ahProtectIn : ℚ := 0
  espProtectOut : ℚ := 0
  espProtectIn : ℚ := 0
  deriving DecidableEq, Repr

/-- `sad` holds the associations, `spd` the policies. -/
structure IPsec where
  isIpv6 : Bool
  sad : List SecurityAssociation
  spd : List SecurityPolicy := []
  busy : BusyUntil := {}
  deriving DecidableEq, Repr

/-- The associations that a policy protects a packet with, by their places. -/
structure Selected where
  espSa : Option ℕ := none
  ahSa : Option ℕ := none
  deriving DecidableEq, Repr

/-- A datagram on its way through the module; the header is off. -/
structure Work where
  module : IPsec
  header : NetworkHeader
  packet : List Cell
  delay : ℚ := 0

namespace IPsec

/-- The address is in 224.0.0.0/4 or in ff00::/8. -/
def isMulticast (module : IPsec) (address : L3Address) : Bool :=
  if module.isIpv6 then address / 2 ^ 120 = 255 else address / 2 ^ 28 = 14

/-- `SecurityAssociationDatabase::findEntry`: an association with its place. -/
def findSa (module : IPsec) (direction : Direction) (spi : BitVec 32) :
    Option (ℕ × SecurityAssociation) := do
  let i ← module.sad.findIdx? fun sa => sa.rule.direction = direction ∧ sa.spi = spi
  let sa ← module.sad[i]?
  pure (i, sa)

/-- `SecurityPolicyDatabase::findEntry` -/
def findPolicy (module : IPsec) (direction : Direction) (packet : PacketInfo) :
    Option SecurityPolicy :=
  module.spd.find? fun policy => policy.rule.direction = direction ∧
    policy.rule.selector.matches packet

def setSa (module : IPsec) (i : ℕ) (sa : SecurityAssociation) : IPsec :=
  { module with sad := module.sad.set i sa }

/-- One round of the loop of `protectDatagram` over the associations of the policy. -/
def selectNext (module : IPsec) (now : ℤ) (bytes : ℕ) (packetInfo : PacketInfo)
    (selected : Selected) (i : ℕ) : Selected :=
  match module.sad[i]? with
  | none => selected
  | some sa =>
    if ¬ sa.rule.selector.matches packetInfo then selected
    else if ¬ sa.matchesDscp packetInfo.dscp then selected
    else if ¬ sa.isUsable now bytes then selected
    else if sa.rule.protection = .esp ∧ selected.espSa = none then { selected with espSa := some i }
    else if sa.rule.protection = .ah ∧ selected.ahSa = none then { selected with ahSa := some i }
    else selected

def select (module : IPsec) (now : ℤ) (bytes : ℕ) (packetInfo : PacketInfo)
    (entries : List ℕ) : Selected :=
  entries.foldl (module.selectNext now bytes packetInfo) {}

end IPsec

namespace Work

/-- The part of `protectDatagram` for the ESP association. -/
def protectEsp (work : Work) (protectedBytes : ℕ) (tfcEnabled : Bool) (draw : ℕ)
    (delays : Delays) : Option ℕ → Except Error Work
  | none => pure work
  | some i =>
    match work.module.sad[i]? with
    | none => throw (.undefinedBehavior "dangling pointer")
    | some sa => do
      let (sa, packet) ← espProtect (sa.addBytesProcessed protectedBytes) work.header.protocolId
        tfcEnabled draw work.packet
      pure
        { module := work.module.setSa i sa
          header := { work.header with protocolId := protEsp }
          packet
          delay := work.delay + delays.espProtectOut }

/-- The part of `protectDatagram` for the AH association. -/
def protectAh (work : Work) (protectedBytes : ℕ) (delays : Delays) :
    Option ℕ → Except Error Work
  | none => pure work
  | some i =>
    match work.module.sad[i]? with
    | none => throw (.undefinedBehavior "dangling pointer")
    | some sa => do
      let (sa, packet) ← ahProtect (sa.addBytesProcessed protectedBytes) work.module.isIpv6
        work.header.protocolId work.packet
      pure
        { module := work.module.setSa i sa
          header := { work.header with protocolId := protAh }
          packet
          delay := work.delay + delays.ahProtectOut }

end Work

/-! ## Outbound -/

namespace IPsec

/-- `protectDatagram`, with the associations of the policy. ESP comes first, so that AH covers
it. -/
def protectDatagram (module : IPsec) (now : ℤ) (delays : Delays) (draw : ℕ) (datagram : Datagram)
    (packetInfo : PacketInfo) (entries : List ℕ) :
    Except Error (IPsec × HookResult × Datagram) := do
  let padding := datagram.header.trailingPaddingLength module.isIpv6 datagram.data
  let packet ← removeAtBack padding datagram.data
  let protectedBytes := packet.length
  let selected := module.select now protectedBytes packetInfo entries
  let work : Work := { module, header := datagram.header, packet }
  let work ← work.protectEsp protectedBytes packetInfo.tfcSupported draw delays selected.espSa
  let work ← work.protectAh protectedBytes delays selected.ahSa
  let datagram : Datagram := ⟨work.header.updateLength module.isIpv6 work.packet, work.packet⟩
  if selected.espSa = none ∧ selected.ahSa = none then
    pure (work.module, .drop, datagram)
  else
    let (result, busy) := module.busy.delayOut now work.delay
    pure ({ work.module with busy }, result, datagram)

/-! ## Inbound -/

/-- The packet is dropped, with the header off. -/
def dropped (module : IPsec) (header : NetworkHeader) (packet : List Cell) :
    Except Error (IPsec × HookResult × Datagram) := pure (module, .drop, ⟨header, packet⟩)

def matchesSelectorsOfSa (datagram : Datagram) (sa : SecurityAssociation) : Except Error Bool := do
  let packetInfo ← datagram.extractIngressPacketInfo
  pure (sa.rule.selector.matches packetInfo)

/-- The test of the association of the AH that covers an ESP packet, if there is one. -/
def matchesSelectorsOfAhSa (datagram : Datagram) : Option SecurityAssociation → Except Error Bool
  | some sa => matchesSelectorsOfSa datagram sa
  | none => pure true

/-- The header of a datagram whose protection has been taken off. -/
def restoreHeader (module : IPsec) (header : NetworkHeader) (protocol : BitVec 8)
    (packet : List Cell) : NetworkHeader :=
  { header with protocolId := protocol }.updateLength module.isIpv6 packet

/-- The end of the part for ESP, with the packet freed of its protection. `ahSa` is the
association of the AH that covers the ESP packet. -/
def acceptEsp (module : IPsec) (now : ℤ) (delay : ℚ) (delays : Delays)
    (ahSa : Option SecurityAssociation) (i : ℕ) (sa : SecurityAssociation) (header : NetworkHeader)
    (nextHeader : BitVec 8) (packet : List Cell) : Except Error (IPsec × HookResult × Datagram) :=
  if nextHeader = protNone then module.dropped header packet
  else if ¬ sa.isUsable now packet.length then module.dropped header packet
  else do
    let module := module.setSa i (sa.addBytesProcessed packet.length)
    let datagram : Datagram := ⟨module.restoreHeader header nextHeader packet, packet⟩
    let matchesSa ← matchesSelectorsOfSa datagram sa
    let matchesAhSa ← matchesSelectorsOfAhSa datagram ahSa
    if ¬ matchesSa ∨ ¬ matchesAhSa then pure (module, .drop, datagram)
    else
      let (result, busy) := module.busy.delayEspIn now (delay + delays.espProtectIn)
      pure ({ module with busy }, result, datagram)

/-- The part of `processIngressPacket` for ESP. -/
def processEsp (module : IPsec) (now : ℤ) (delay : ℚ) (delays : Delays)
    (ahSa : Option SecurityAssociation) (datagram : Datagram) :
    Except Error (IPsec × HookResult × Datagram) := do
  match ← removeFront datagram.data with
  | (.esp spi _ icvBytes, packet) =>
    match module.findSa .inbound spi with
    | none => module.dropped datagram.header packet
    | some (i, sa) =>
      if sa.rule.protection ≠ .esp then module.dropped datagram.header packet
      else
        let packet ← removeAtBack icvBytes packet
        match ← removeFront packet with
        | (.encrypted data _, rest) =>
          assert (rest.length = 0) "packet->getDataLength() == b(0)"
          let (padLength, nextHeader, packet) ← removeEspTrailer data
          let packet ← removeAtBack padLength.toNat packet
          module.acceptEsp now delay delays ahSa i sa datagram.header nextHeader packet
        | _ => throw conversionError
  | _ => throw conversionError

/-- The end of the part for AH, with the AH header and its ICV field removed. -/
def acceptAh (module : IPsec) (now : ℤ) (delays : Delays) (i : ℕ) (sa : SecurityAssociation)
    (header : NetworkHeader) (nextHeader : BitVec 8) (packet : List Cell) :
    Except Error (IPsec × HookResult × Datagram) :=
  if ¬ sa.isUsable now packet.length then module.dropped header packet
  else do
    let module := module.setSa i (sa.addBytesProcessed packet.length)
    let datagram : Datagram := ⟨module.restoreHeader header nextHeader packet, packet⟩
    if nextHeader ≠ protEsp then
      let matchesSa ← matchesSelectorsOfSa datagram sa
      if ¬ matchesSa then pure (module, .drop, datagram)
      else
        let (result, busy) := module.busy.delayAhIn now delays.ahProtectIn
        pure ({ module with busy }, result, datagram)
    else module.processEsp now delays.ahProtectIn delays (some sa) datagram

/-- The part of `processIngressPacket` for AH. -/
def processAh (module : IPsec) (now : ℤ) (delays : Delays) (datagram : Datagram) :
    Except Error (IPsec × HookResult × Datagram) := do
  match ← removeFront datagram.data with
  | (.ah nextHeader payloadLength spi _ _, packet) =>
    match module.findSa .inbound spi with
    | none => module.dropped datagram.header packet
    | some (i, sa) =>
      if sa.rule.protection ≠ .ah then module.dropped datagram.header packet
      else
        let packet ← removeAtFront ((payloadLength.toNat + 2) * 4 - ipAhHeaderBytes) packet
        module.acceptAh now delays i sa datagram.header nextHeader packet
  | _ => throw conversionError

def processIngressPacket (module : IPsec) (now : ℤ) (delays : Delays) (datagram : Datagram) :
    Except Error (IPsec × HookResult × Datagram) := do
  let packetInfo ← datagram.extractIngressPacketInfo
  if module.isMulticast packetInfo.localAddress then pure (module, .accept, datagram)
  else if packetInfo.nextProtocol = protAh then module.processAh now delays datagram
  else if packetInfo.nextProtocol = protEsp then module.processEsp now 0 delays none datagram
  else
    match module.findPolicy .inbound packetInfo with
    | some policy =>
      if policy.rule.action = .bypass then pure (module, .accept, datagram)
      else pure (module, .drop, datagram)
    | none => pure (module, .drop, datagram)

end IPsec

end Inet.Ipsec
