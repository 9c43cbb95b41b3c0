import Inet.Stream.Input

/-! # The TCP header and its serializer

A header with its options as the fields of the chunk have them, and the
functions that write it to a stream and read it back. An option is written by
its kind; an option that the reader does not know, or whose length it does not
accept, is read as an unknown one.
-/

namespace Inet.Tcp

open MemoryInputStream

inductive ChecksumMode where
  | undefined
  | disabled
  | declaredCorrect
  | declaredIncorrect
  | computed
  deriving DecidableEq, Repr

structure SackItem where
  start : BitVec 32
  stop : BitVec 32
  deriving DecidableEq, Repr

/-- The classes of options with their own fields. -/
inductive OptionBody where
  | optionEnd
  | nop
  | maxSegmentSize (maxSegmentSize : BitVec 16)
  | windowScale (windowScale : BitVec 16)
  | sackPermitted
  | sack (sackItem : List SackItem)
  | timestamp (senderTimestamp echoedTimestamp : BitVec 32)
  | tcpFastOpen (cookie : List Byte)
  | tcpFastOpenExp (expId : BitVec 16) (cookie : List Byte)
  | accEcn (ect0Bytes ect1Bytes ceBytes : BitVec 32)
  | unknown (bytes : List Byte)
  deriving DecidableEq, Repr

structure TcpOption where
  kind : ℤ
  length : ℕ
  body : OptionBody
  deriving DecidableEq, Repr

structure TcpHeader where
  srcPort : BitVec 16
  destPort : BitVec 16
  sequenceNo : BitVec 32
  ackNo : BitVec 32
  headerLength : ℕ
  cwrBit : Bool
  eceBit : Bool
  aeBit : Bool
  urgBit : Bool
  ackBit : Bool
  pshBit : Bool
  rstBit : Bool
  synBit : Bool
  finBit : Bool
  window : BitVec 16
  urgentPointer : BitVec 16
  checksum : BitVec 16
  checksumMode : ChecksumMode
  headerOption : List TcpOption
  deriving DecidableEq, Repr

/-- `TCP_MIN_HEADER_LENGTH`, in bytes. -/
def minHeaderLength : ℕ := 20

/-- The bytes of `htons(value)` in memory. -/
def htons (value : BitVec 16) : List Byte := [value.extractLsb' 8 8, value.extractLsb' 0 8]

/-- The bytes of `htonl(value)` in memory. -/
def htonl (value : BitVec 32) : List Byte :=
  [value.extractLsb' 24 8, value.extractLsb' 16 8, value.extractLsb' 8 8, value.extractLsb' 0 8]

def ntohs (b₀ b₁ : Byte) : BitVec 16 := b₀ ++ b₁

def ntohl (b₀ b₁ b₂ b₃ : Byte) : BitVec 32 := b₀ ++ b₁ ++ b₂ ++ b₃

namespace TcpHeaderSerializer

/-- A flag of `th_flags`. -/
def flag (bit : Bool) (mask : Byte) : Byte := if bit then mask else 0

def flags (header : TcpHeader) : Byte :=
  flag header.finBit 0x01 ||| flag header.synBit 0x02 ||| flag header.rstBit 0x04 |||
    flag header.pshBit 0x08 ||| flag header.ackBit 0x10 ||| flag header.urgBit 0x20 |||
    flag header.eceBit 0x40 ||| flag header.cwrBit 0x80

/-- The bytes of `struct tcphdr`. -/
def tcphdr (header : TcpHeader) : List Byte :=
  let th_x2 : BitVec 4 := if header.aeBit then 1 else 0
  let th_offs : BitVec 4 := BitVec.ofNat 4 (header.headerLength / 4)
  htons header.srcPort ++ htons header.destPort ++ htonl header.sequenceNo ++
    htonl header.ackNo ++ [th_offs ++ th_x2, flags header] ++ htons header.window ++
    htons header.checksum ++ htons header.urgentPointer

/-- The kinds of the options that have a class of their own. -/
def typedKinds : List ℤ := [0, 1, 2, 3, 4, 5, 8, 34, 172, 174, 254]

/-- The fields of an AccECN option, in the order of its kind. -/
def accEcnFields (kind : ℤ) (ect0Bytes ect1Bytes ceBytes : BitVec 32) : List (BitVec 32) :=
  if kind = 172 then [ect0Bytes, ceBytes, ect1Bytes] else [ect1Bytes, ceBytes, ect0Bytes]

/-- The number of whole fields that the length of an AccECN option has room for. -/
def numFields (length : ℕ) : ℕ := min 3 ((length - 2) / 3)

def writeBytes (stream : MemoryOutputStream) (bytes : List Byte) : MemoryOutputStream :=
  bytes.foldl MemoryOutputStream.writeByte stream

/-- The branch of the `switch` for an option of the class with the given kinds. The branch of
another kind cannot cast the option to its class. -/
def checkCast (kind : ℤ) (kinds : List ℤ) : Except Error Unit :=
  if kind ∈ kinds then pure ()
  else if kind ∈ typedKinds then throw (.runtime "check_and_cast(): Cannot cast")
  else throw (.runtime "Unknown TCPOption kind=%d (not in a TCPOptionUnknown option)")

/-- The part of an option behind its kind and its length. -/
def serializeBody (stream : MemoryOutputStream) (kind : ℤ) (length : ℕ) :
    OptionBody → Except Error MemoryOutputStream
  | .unknown bytes => do
    assert (length = 2 + bytes.length) "length == 2 + datalen"
    return writeBytes stream bytes
  | .optionEnd => do
    checkCast kind [0]
    assert (length = 1) "length == 1"
    return stream
  | .nop => do
    checkCast kind [1]
    assert (length = 1) "length == 1"
    return stream
  | .maxSegmentSize maxSegmentSize => do
    checkCast kind [2]
    assert (length = 4) "length == 4"
    return stream.writeUint16Be maxSegmentSize.toNat
  | .windowScale windowScale => do
    checkCast kind [3]
    assert (length = 3) "length == 3"
    return stream.writeByte (windowScale.setWidth 8)
  | .sackPermitted => do
    checkCast kind [4]
    assert (length = 2) "length == 2"
    return stream
  | .sack sackItem => do
    checkCast kind [5]
    assert (length = 2 + sackItem.length * 8) "length == 2 + opt->getSackItemArraySize() * 8"
    return sackItem.foldl (fun stream si =>
      (stream.writeUint32Be si.start.toNat).writeUint32Be si.stop.toNat) stream
  | .timestamp senderTimestamp echoedTimestamp => do
    checkCast kind [8]
    assert (length = 10) "length == 10"
    return (stream.writeUint32Be senderTimestamp.toNat).writeUint32Be echoedTimestamp.toNat
  | .tcpFastOpen cookie => do
    checkCast kind [34]
    assert (length = 2 + cookie.length) "length == 2 + opt->getCookieArraySize()"
    return writeBytes stream cookie
  | .accEcn ect0Bytes ect1Bytes ceBytes => do
    checkCast kind [172, 174]
    assert (length ≥ 2) "length >= 2"
    let fields := (accEcnFields kind ect0Bytes ect1Bytes ceBytes).take (numFields length)
    let stream ← fields.foldlM (fun stream field => stream.writeUint24Be field.toNat) stream
    return stream.writeByteRepeatedly 0 (length - (2 + 3 * numFields length))
  | .tcpFastOpenExp expId cookie => do
    checkCast kind [254]
    assert (length = 4 + cookie.length) "length == 4 + opt->getCookieArraySize()"
    return writeBytes (stream.writeUint16Be expId.toNat) cookie

def serializeOption (stream : MemoryOutputStream) (option : TcpOption) :
    Except Error MemoryOutputStream :=
  let stream := stream.writeByte (BitVec.ofInt 8 option.kind)
  let stream := if option.length > 1 then stream.writeByte (BitVec.ofNat 8 option.length)
    else stream
  serializeBody stream option.kind option.length option.body

/-- The options that the loop writes: their number is kept in an `unsigned short`. -/
def writtenOptions (header : TcpHeader) : List TcpOption :=
  header.headerOption.take (header.headerOption.length % 2 ^ 16)

/-- `optionsLength`, after the loop. -/
def optionsLength (header : TcpHeader) : ℕ := ((writtenOptions header).map TcpOption.length).sum

def serializeFields (stream : MemoryOutputStream) (header : TcpHeader) :
    Except Error MemoryOutputStream := do
  if header.checksumMode ≠ .computed then
    throw (.runtime "Cannot serialize Tcp header without a properly computed checksum")
  else if header.headerLength % 4 ≠ 0 then
    throw (.runtime "invalid Tcp header length=%s: must be dividable by 4 bytes")
  else
    let stream ← stream.writeBuffer (some (tcphdr header)) minHeaderLength
    let stream ← (writtenOptions header).foldlM serializeOption stream
    let stream := if optionsLength header % 4 ≠ 0 then
      stream.writeByteRepeatedly 0 (4 - optionsLength header % 4) else stream
    if header.headerLength ≠ minHeaderLength + optionsLength header then
      throw (.runtime ("Cannot serialize Tcp header: headerLength (%s) does not match the fixed " ++
        "header plus options length (%s)"))
    else
      return stream

def readSackItem : Reader SackItem := do
  let start ← readUint32Be
  let stop ← readUint32Be
  return ⟨BitVec.ofNat 32 start, BitVec.ofNat 32 stop⟩

def readSackItems : ℕ → Reader (List SackItem)
  | 0 => return []
  | n + 1 => do
    let si ← readSackItem
    let sackItem ← readSackItems n
    return si :: sackItem

def readFields : ℕ → Reader (List (BitVec 32))
  | 0 => return []
  | n + 1 => do
    let field ← readUint24Be
    let fields ← readFields n
    return BitVec.ofNat 32 field :: fields

/-- What becomes of an option whose length is not accepted, or whose kind is not known. -/
def deserializeUnknown (kind length : Byte) : Reader TcpOption := do
  let bytes ← readByteLoop (length.toNat - 2)
  return ⟨kind.toNat, length.toNat, .unknown bytes⟩

/-- The option of a kind that has a class of its own, once its length is read. -/
def deserializeTyped (kind length : Byte) : Reader TcpOption := do
  if kind = 2 ∧ length = 4 then
    let maxSegmentSize ← readUint16Be
    return ⟨2, 4, .maxSegmentSize (BitVec.ofNat 16 maxSegmentSize)⟩
  else if kind = 3 ∧ length = 3 then
    let windowScale ← readByte
    return ⟨3, 3, .windowScale (windowScale.setWidth 16)⟩
  else if kind = 4 ∧ length = 2 then
    return ⟨4, 2, .sackPermitted⟩
  else if kind = 5 ∧ length.toNat > 2 ∧ length.toNat % 8 = 2 then
    let sackItem ← readSackItems (length.toNat / 8)
    return ⟨5, length.toNat, .sack sackItem⟩
  else if kind = 8 ∧ length = 10 then
    let senderTimestamp ← readUint32Be
    let echoedTimestamp ← readUint32Be
    return ⟨8, 10, .timestamp (BitVec.ofNat 32 senderTimestamp) (BitVec.ofNat 32 echoedTimestamp)⟩
  else if kind = 34 ∧ (length = 2 ∨ length.toNat ≥ 6 ∧ length.toNat ≤ 18) then
    let cookie ← readByteLoop (length.toNat - 2)
    return ⟨34, length.toNat, .tcpFastOpen cookie⟩
  else if (kind = 172 ∨ kind = 174) ∧ length.toNat ≥ 2 then
    let fields ← readFields (numFields length.toNat)
    let _ ← readByteLoop (length.toNat - (2 + 3 * numFields length.toNat))
    let first := fields.getD 0 0
    let last := fields.getD 2 0
    return ⟨kind.toNat, length.toNat, .accEcn (if kind = 172 then first else last)
      (if kind = 172 then last else first) (fields.getD 1 0)⟩
  else if kind = 254 ∧ length.toNat ≥ 4 then
    let expId ← readUint16Be
    if expId = 0xF989 ∧ (length = 4 ∨ length.toNat ≥ 8 ∧ length.toNat ≤ 20) then
      let cookie ← readByteLoop (length.toNat - 4)
      return ⟨254, length.toNat, .tcpFastOpenExp (BitVec.ofNat 16 expId) cookie⟩
    else
      let bytes ← readByteLoop (length.toNat - 4)
      return ⟨254, length.toNat, .unknown (BitVec.ofNat 8 (expId >>> 8) :: BitVec.ofNat 8 expId ::
        bytes)⟩
  else
    deserializeUnknown kind length

def deserializeOption : Reader TcpOption := do
  let kind ← readByte
  if kind = 0 then
    return ⟨0, 1, .optionEnd⟩
  else if kind = 1 then
    return ⟨1, 1, .nop⟩
  else
    let length ← readByte
    deserializeTyped kind length

/-- The loop over the options, for at most the given number of rounds. Every round reads a byte, or
sets the flag that ends the loop. -/
def deserializeOptions (position headerLength : ℕ) : ℕ → Reader (List TcpOption)
  | 0 => throw .callDepthExceeded
  | n + 1 => do
    let stream ← get
    if stream.position - position < 8 * headerLength ∧ stream.isReadBeyondEnd = false then
      let option ← deserializeOption
      let options ← deserializeOptions position headerLength n
      return option :: options
    else
      return []

/-- The header that `struct tcphdr` stands for. -/
def ofTcphdr (buffer : List Byte) (headerOption : List TcpOption) : Except Error TcpHeader :=
  match buffer with
  | [s₀, s₁, d₀, d₁, q₀, q₁, q₂, q₃, a₀, a₁, a₂, a₃, x, th_flags, w₀, w₁, c₀, c₁, u₀, u₁] =>
    return {
      srcPort := ntohs s₀ s₁
      destPort := ntohs d₀ d₁
      sequenceNo := ntohl q₀ q₁ q₂ q₃
      ackNo := ntohl a₀ a₁ a₂ a₃
      headerLength := (x.extractLsb' 4 4).toNat * 4
      cwrBit := th_flags &&& 0x80 == 0x80
      eceBit := th_flags &&& 0x40 == 0x40
      aeBit := x.extractLsb' 0 4 &&& 1 == 1
      urgBit := th_flags &&& 0x20 == 0x20
      ackBit := th_flags &&& 0x10 == 0x10
      pshBit := th_flags &&& 0x08 == 0x08
      rstBit := th_flags &&& 0x04 == 0x04
      synBit := th_flags &&& 0x02 == 0x02
      finBit := th_flags &&& 0x01 == 0x01
      window := ntohs w₀ w₁
      urgentPointer := ntohs u₀ u₁
      checksum := ntohs c₀ c₁
      checksumMode := .computed
      headerOption := headerOption }
  | _ => throw (.undefinedBehavior "read of uninitialized memory")

def deserializeFields : Reader TcpHeader := do
  let position := (← get).position
  let buffer ← readBytes minHeaderLength
  let tcpHeader ← ofTcphdr buffer []
  if tcpHeader.headerLength > minHeaderLength then
    let headerOption ← deserializeOptions position tcpHeader.headerLength
      (tcpHeader.headerLength + 1)
    return { tcpHeader with headerOption := headerOption }
  else
    return tcpHeader

end TcpHeaderSerializer

end Inet.Tcp
