import Inet.Tcp.Header
import Mathlib.Algebra.Ring.Int.Defs

/-! # The IPv4 header and its serializer

A header with its options as the fields of the chunk have them, and the
functions that write it to a stream and read it back. The rest of the header
behind the options is filled with End-of-options. An option whose contents the
reader does not accept is read again as a raw one.
-/

namespace Inet.Ipv4

open MemoryInputStream Tcp

inductive TimestampFlag where
  | timestampOnly
  | withAddress
  | senderInitAddress
  deriving DecidableEq, Repr

/-- The number of the flag in the option. -/
def TimestampFlag.value : TimestampFlag → ℕ
  | timestampOnly => 0
  | withAddress => 1
  | senderInitAddress => 3

/-- The size of a record with the flag. -/
def TimestampFlag.bytes : TimestampFlag → ℕ
  | timestampOnly => 4
  | withAddress => 8
  | senderInitAddress => 8

/-- A simulation time, in picoseconds. -/
abbrev SimTime := ℤ

/-- `inUnit(SIMTIME_MS)`, which rounds toward zero. -/
def SimTime.inMs (t : SimTime) : ℤ := t.tdiv 1000000000

/-- `SimTime(value, SIMTIME_MS)`. -/
def SimTime.ofMs (value : ℤ) : SimTime := value * 1000000000

/-- The classes of options with their own fields. -/
inductive OptionBody where
  | optionEnd
  | nop
  | streamId (streamId : BitVec 16)
  | timestamp (flag : TimestampFlag) (overflow nextIdx : ℤ) (recordAddress : List (BitVec 32))
      (recordTimestamp : List SimTime)
  | recordRoute (nextAddressIdx : ℤ) (recordAddress : List (BitVec 32))
  | routerAlert (routerAlert : BitVec 16)
  | raw (bytes : List Byte)
  | unknown (bytes : List Byte)
  deriving DecidableEq, Repr

/-- The type and the length are of type `short`. -/
structure Ipv4Option where
  type : BitVec 16
  length : BitVec 16
  body : OptionBody
  deriving DecidableEq, Repr

structure Ipv4Header where
  version : ℤ
  headerLength : ℕ
  typeOfService : ℤ
  totalLengthField : ℕ
  identification : BitVec 16
  reservedBit : Bool
  moreFragments : Bool
  dontFragment : Bool
  fragmentOffset : BitVec 16
  timeToLive : ℤ
  protocolId : BitVec 8
  checksum : BitVec 16
  checksumMode : ChecksumMode
  srcAddress : BitVec 32
  destAddress : BitVec 32
  options : List Ipv4Option
  deriving DecidableEq, Repr

/-- `IPv4_MIN_HEADER_LENGTH`, in bytes. -/
def minHeaderLength : ℕ := 20

/-- `IPv4_MAX_HEADER_LENGTH`, in bytes. -/
def maxHeaderLength : ℕ := 60

namespace Ipv4HeaderSerializer

/-- The field `ip_off` of `struct ip`. -/
def ipOff (header : Ipv4Header) : BitVec 16 :=
  (header.fragmentOffset / 8 &&& 0x1fff) ||| (if header.reservedBit then 0x8000 else 0) |||
    (if header.moreFragments then 0x2000 else 0) ||| (if header.dontFragment then 0x4000 else 0)

/-- The bytes of `struct ip`. -/
def iphdr (header : Ipv4Header) : List Byte :=
  let ip_v : BitVec 4 := BitVec.ofInt 4 header.version
  let ip_hl : BitVec 4 := BitVec.ofNat 4 (header.headerLength / 4)
  [ip_v ++ ip_hl, BitVec.ofInt 8 header.typeOfService] ++
    htons (BitVec.ofNat 16 header.totalLengthField) ++ htons header.identification ++
    htons (ipOff header) ++ [BitVec.ofInt 8 header.timeToLive, header.protocolId] ++
    htons header.checksum ++ htonl header.srcAddress ++ htonl header.destAddress

/-- The types of the options that have a class of their own. -/
def typedTypes : List ℕ := [0, 1, 136, 68, 7, 131, 137, 148]

/-- The types of `Ipv4OptionRecordRoute`. -/
def routeTypes : List ℕ := [7, 131, 137]

/-- The branch of the `switch` for an option of the class with the given types. -/
def checkCast (type : ℕ) (types : List ℕ) : Except Error Unit :=
  if type ∈ types then pure ()
  else if type ∈ typedTypes then throw (.runtime "check_and_cast(): Cannot cast")
  else throw (.runtime "Unknown Ipv4Option type=%d (not in an TlvOptionRaw option)")

/-- A time as it is written. -/
def wireTimestamp (t : SimTime) : ℕ := (t.inMs % 2 ^ 32).toNat

/-- The loop over the records of a timestamp option. -/
def writeRecords (stream : MemoryOutputStream) (bytes : ℕ) :
    List (BitVec 32) → List SimTime → Except Error MemoryOutputStream
  | _, [] => pure stream
  | [], t :: recordTimestamp =>
    if bytes = 8 then throw (.runtime "Array of size %lu indexed by %lu")
    else writeRecords (stream.writeUint32Be (wireTimestamp t)) bytes [] recordTimestamp
  | address :: recordAddress, t :: recordTimestamp =>
    if bytes = 8 then
      writeRecords ((stream.writeUint32Be address.toNat).writeUint32Be (wireTimestamp t)) bytes
        recordAddress recordTimestamp
    else
      writeRecords (stream.writeUint32Be (wireTimestamp t)) bytes (address :: recordAddress)
        recordTimestamp

def writeAddresses (stream : MemoryOutputStream) (recordAddress : List (BitVec 32)) :
    MemoryOutputStream :=
  recordAddress.foldl (fun stream address => stream.writeUint32Be address.toNat) stream

/-- The part of an option behind its type and its length. -/
def serializeBody (stream : MemoryOutputStream) (type length : ℕ) :
    OptionBody → Except Error MemoryOutputStream
  | .raw bytes => do
    assert (length > 1 ∧ length = 2 + bytes.length) "length > 1 && length == 2 + datalen"
    return bytes.foldl MemoryOutputStream.writeByte stream
  | .optionEnd => do
    checkCast type [0]
    assert (length = 1) "length == 1"
    return stream
  | .nop => do
    checkCast type [1]
    assert (length = 1) "length == 1"
    return stream
  | .streamId streamId => do
    checkCast type [136]
    assert (length = 4) "length == 4"
    return stream.writeUint16Be streamId.toNat
  | .timestamp flag overflow nextIdx recordAddress recordTimestamp => do
    checkCast type [68]
    assert (length = 4 + flag.bytes * recordTimestamp.length)
      "length == 4 + bytes * opt->getRecordTimestampArraySize()"
    let pointer := 5 + nextIdx * flag.bytes
    if pointer > 255 then
      throw (.runtime
        "Cannot serialize Ipv4 timestamp option: pointer %d does not fit a wire octet")
    else
      let stream := stream.writeByte (BitVec.ofInt 8 pointer)
      if overflow < 0 ∨ overflow > 0xf then
        throw (.runtime
          ("Cannot serialize Ipv4 timestamp option: overflow %d does not fit the high " ++
          "nibble of the flags octet"))
      else
        let flagbyte : Byte := BitVec.ofInt 8 overflow <<< 4 ||| BitVec.ofNat 8 flag.value
        writeRecords (stream.writeByte flagbyte) flag.bytes recordAddress recordTimestamp
  | .recordRoute nextAddressIdx recordAddress => do
    checkCast type routeTypes
    assert (length = 3 + 4 * recordAddress.length)
      "length == 3 + 4 * opt->getRecordAddressArraySize()"
    let pointer := 4 + nextAddressIdx * 4
    if pointer > 255 then
      throw (.runtime
        "Cannot serialize Ipv4 record-route option: pointer %d does not fit a wire octet")
    else
      return writeAddresses (stream.writeByte (BitVec.ofInt 8 pointer)) recordAddress
  | .routerAlert routerAlert => do
    checkCast type [148]
    assert (length = 4) "length == 4"
    return stream.writeUint16Be routerAlert.toNat
  | .unknown _ => do
    checkCast type []
    return stream

def serializeOption (stream : MemoryOutputStream) (option : Ipv4Option) :
    Except Error MemoryOutputStream :=
  let stream := stream.writeByte (option.type.setWidth 8)
  let stream := if option.length.toNat > 1 then stream.writeByte (option.length.setWidth 8)
    else stream
  serializeBody stream option.type.toNat option.length.toNat option.body

/-- The options that the loop writes: their number is kept in an `unsigned short`. -/
def writtenOptions (header : Ipv4Header) : List Ipv4Option :=
  header.options.take (header.options.length % 2 ^ 16)

/-- `optionsLength`, after the loop. -/
def optionsLength (header : Ipv4Header) : ℤ :=
  ((writtenOptions header).map fun option => option.length.toInt).sum

/-- The options, and End-of-options up to the end of the header. -/
def serializeOptions (startPosition : ℕ) (stream : MemoryOutputStream) (header : Ipv4Header) :
    Except Error MemoryOutputStream := do
  let stream ← (writtenOptions header).foldlM serializeOption stream
  if header.headerLength < minHeaderLength + optionsLength header then
    throw (.runtime
      "Serializing an Ipv4 packet with wrong headerLength value: not enough for store options.\n")
  else
    let writtenLength := (stream.getLength - startPosition) / 8
    return if writtenLength < header.headerLength then
      stream.writeByteRepeatedly 0 (header.headerLength - writtenLength) else stream

def serialize (stream : MemoryOutputStream) (header : Ipv4Header) :
    Except Error MemoryOutputStream := do
  let startPosition := stream.getLength
  if header.headerLength % 4 ≠ 0 ∨ header.headerLength < minHeaderLength ∨
      header.headerLength > maxHeaderLength then
    throw (.runtime ("Cannot serialize Ipv4 header: headerLength (%s) must be a multiple of 4 " ++
      "octets between %s and %s"))
  else if header.headerLength > header.totalLengthField then
    throw (.runtime "Cannot serialize Ipv4 header: headerLength (%s) exceeds totalLengthField (%s)")
  else if header.version < 0 ∨ header.version > 15 then
    throw (.runtime "Cannot serialize Ipv4 header: version %d does not fit the 4-bit field")
  else if header.fragmentOffset &&& 7 ≠ 0 then
    throw (.runtime
      "Cannot serialize Ipv4 header: fragmentOffset (%u) must be a multiple of 8 octets")
  else if header.checksumMode ≠ .computed then
    throw (.runtime "Cannot serialize Ipv4 header without a properly computed checksum")
  else
    let stream ← stream.writeBuffer (some (iphdr header)) minHeaderLength
    if header.headerLength > minHeaderLength then
      serializeOptions startPosition stream header
    else
      return stream

/-- `seek`. -/
def seek (position : ℕ) : Reader Unit := do
  let s ← get
  assert (position ≤ s.length) "b(0) <= position && position <= length"
  set { s with position := position }

/-- What becomes of an option that is not accepted: it is read again from its first byte. -/
def deserializeRaw (position : ℕ) : Reader (Option Ipv4Option) := do
  seek position
  let type ← readByte
  let length ← readByte
  if length.toNat < 2 then
    return none
  else
    let bytes ← readByteLoop (length.toNat - 2)
    return some ⟨type.setWidth 16, length.setWidth 16, .raw bytes⟩

/-- The flag of a flag byte. -/
def timestampFlag (flagbyte : Byte) : Option TimestampFlag :=
  match (flagbyte &&& 0x0f).toNat with
  | 0 => some .timestampOnly
  | 1 => some .withAddress
  | 3 => some .senderInitAddress
  | _ => none

/-- The addresses of the records, if they have any, and the times. -/
def readRecords (bytes : ℕ) : ℕ → Reader (List (BitVec 32) × List SimTime)
  | 0 => return ([], [])
  | n + 1 => do
    let address ← (if bytes = 8 then do
        let address ← readUint32Be
        return [BitVec.ofNat 32 address]
      else pure [] : Reader (List (BitVec 32)))
    let t ← readUint32Be
    let (recordAddress, recordTimestamp) ← readRecords bytes n
    return (address ++ recordAddress, SimTime.ofMs t :: recordTimestamp)

def readAddresses : ℕ → Reader (List (BitVec 32))
  | 0 => return []
  | n + 1 => do
    let address ← readUint32Be
    let recordAddress ← readAddresses n
    return BitVec.ofNat 32 address :: recordAddress

/-- The condition under which a timestamp option is accepted. -/
def AcceptsTimestamp (flag : TimestampFlag) (length pointer : ℕ) : Prop :=
  length > 4 ∧ (length - 4) % flag.bytes = 0 ∧ pointer ≥ 5 ∧ (pointer - 5) % flag.bytes = 0

instance (flag : TimestampFlag) (length pointer : ℕ) :
    Decidable (AcceptsTimestamp flag length pointer) :=
  inferInstanceAs (Decidable (_ ∧ _))

/-- The condition under which a route option is accepted. -/
def AcceptsRoute (length pointer : ℕ) : Prop :=
  length > 3 ∧ length % 4 = 3 ∧ pointer ≥ 4 ∧ pointer % 4 = 0

instance (length pointer : ℕ) : Decidable (AcceptsRoute length pointer) :=
  inferInstanceAs (Decidable (_ ∧ _))

def deserializeTimestamp (position : ℕ) : Reader (Option Ipv4Option) := do
  let length ← readByte
  let pointer ← readByte
  let flagbyte ← readByte
  match timestampFlag flagbyte with
  | some flag =>
    if AcceptsTimestamp flag length.toNat pointer.toNat then
      let (recordAddress, recordTimestamp) ←
        readRecords flag.bytes ((length.toNat - 4) / flag.bytes)
      return some ⟨68, length.setWidth 16, .timestamp flag ((flagbyte >>> 4).toNat : ℕ)
        (((pointer.toNat - 5) / flag.bytes : ℕ) : ℤ) recordAddress recordTimestamp⟩
    else deserializeRaw position
  | none => deserializeRaw position

def deserializeRoute (position : ℕ) (type : Byte) : Reader (Option Ipv4Option) := do
  let length ← readByte
  let pointer ← readByte
  if AcceptsRoute length.toNat pointer.toNat then
    let recordAddress ← readAddresses ((length.toNat - 3) / 4)
    return some ⟨type.setWidth 16, length.setWidth 16,
      .recordRoute (((pointer.toNat - 4) / 4 : ℕ) : ℤ) recordAddress⟩
  else deserializeRaw position

def deserializeOption : Reader (Option Ipv4Option) := do
  let position := (← get).position
  let type ← readByte
  if type = 0 then
    return some ⟨0, 1, .optionEnd⟩
  else if type = 1 then
    return some ⟨1, 1, .nop⟩
  else if type = 136 then
    let length ← readByte
    if length = 4 then
      let streamId ← readUint16Be
      return some ⟨136, 4, .streamId (BitVec.ofNat 16 streamId)⟩
    else deserializeRaw position
  else if type = 68 then
    deserializeTimestamp position
  else if type.toNat ∈ routeTypes then
    deserializeRoute position type
  else if type = 148 then
    let length ← readByte
    if length = 4 then
      let routerAlert ← readUint16Be
      return some ⟨148, 4, .routerAlert (BitVec.ofNat 16 routerAlert)⟩
    else deserializeRaw position
  else
    let _ ← readByte
    deserializeRaw position

/-- The loop over the options, for at most the given number of rounds; the flag says that an option
was malformed. Every round reads a byte. -/
def deserializeOptions (position headerLength : ℕ) : ℕ → Reader (List Ipv4Option × Bool)
  | 0 => throw .callDepthExceeded
  | n + 1 => do
    let stream ← get
    if stream.getRemainingLength > 0 ∧ stream.position - position < 8 * headerLength then
      match ← deserializeOption with
      | none => return ([], true)
      | some option =>
        let (options, malformed) ← deserializeOptions position headerLength n
        return (option :: options, malformed)
    else
      return ([], false)

/-- A header that was read, and what it is marked as. -/
structure Deserialized where
  header : Ipv4Header
  isIncorrect : Bool
  isIncomplete : Bool
  deriving DecidableEq, Repr

/-- The header that `struct ip` stands for, without its options; the header length is read as it
is. -/
def ofIphdr (buffer : List Byte) : Except Error Ipv4Header :=
  match buffer with
  | [vhl, tos, l₀, l₁, i₀, i₁, o₀, o₁, ttl, p, c₀, c₁, s₀, s₁, s₂, s₃, d₀, d₁, d₂, d₃] =>
    let ip_off := ntohs o₀ o₁
    return {
      version := (vhl.extractLsb' 4 4).toNat
      headerLength := (vhl.extractLsb' 0 4).toNat * 4
      typeOfService := tos.toNat
      totalLengthField := (ntohs l₀ l₁).toNat
      identification := ntohs i₀ i₁
      reservedBit := ip_off &&& 0x8000 != 0
      moreFragments := ip_off &&& 0x2000 != 0
      dontFragment := ip_off &&& 0x4000 != 0
      fragmentOffset := (ip_off &&& 0x1fff) * 8
      timeToLive := ttl.toNat
      protocolId := p
      checksum := ntohs c₀ c₁
      checksumMode := .computed
      srcAddress := ntohl s₀ s₁ s₂ s₃
      destAddress := ntohl d₀ d₁ d₂ d₃
      options := [] }
  | _ => throw (.undefinedBehavior "read of uninitialized memory")

def deserializeFields : Reader Deserialized := do
  let stream ← get
  let position := stream.position
  let bufsize ← toBytes stream.getRemainingLength
  let buffer ← readBytes minHeaderLength
  let ipv4Header ← ofIphdr buffer
  let headerLength := max ipv4Header.headerLength minHeaderLength
  let isIncorrect := ipv4Header.version ≠ 4 ∨ ipv4Header.headerLength < minHeaderLength ∨
    ipv4Header.totalLengthField < headerLength
  let (options, malformed) ← (if headerLength > minHeaderLength then
      deserializeOptions position headerLength (headerLength + 1)
    else pure ([], false) : Reader (List Ipv4Option × Bool))
  return {
    header := { ipv4Header with headerLength := headerLength, options := options }
    isIncorrect := isIncorrect || malformed
    isIncomplete := (headerLength : ℤ) > bufsize }

end Ipv4HeaderSerializer

end Inet.Ipv4
