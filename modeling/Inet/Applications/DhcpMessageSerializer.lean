import Mathlib.Data.List.TakeWhile
import Inet.Applications.DhcpMessage
import Inet.Stream.Input

/-! # The DHCP message serializer

The serializer writes the fields of fixed width and the options that are
present, each with a length of one byte, and fills up the message with zeros.
The deserializer takes the options in any order.
-/

namespace Inet.Dhcp

open Ipv4 (Ipv4Address)

open MemoryInputStream

def DHCP_MSG_TYPE : Byte := 53

def CLIENT_ID : Byte := 61

def HOSTNAME : Byte := 12

def REQUESTED_IP : Byte := 50

def PARAM_LIST : Byte := 55

def SUBNET_MASK : Byte := 1

def ROUTER : Byte := 3

def DNS : Byte := 6

def NTP_SRV : Byte := 42

def RENEWAL_TIME : Byte := 58

def REBIND_TIME : Byte := 59

def LEASE_TIME : Byte := 51

def SERVER_ID : Byte := 54

namespace DhcpMessageSerializer

/-! ## Serializing -/

def writeIpv4Address (stream : MemoryOutputStream) (address : Ipv4Address) : MemoryOutputStream :=
  stream.writeUint32Be address.toNat

def writeMacAddress (stream : MemoryOutputStream) (address : MacAddress) :
    Except Error MemoryOutputStream :=
  stream.writeUint48Be address.toNat

/-- The fields before the server host name. -/
def writeFixed (stream : MemoryOutputStream) (m : DhcpMessage) :
    Except Error MemoryOutputStream := do
  let stream := stream.writeByte (BitVec.ofInt 8 m.op)
  let stream := stream.writeByte (BitVec.ofInt 8 m.htype)
  let stream := stream.writeByte (BitVec.ofInt 8 m.hlen)
  let stream := stream.writeByte (BitVec.ofInt 8 m.hops)
  let stream := stream.writeUint32Be m.xid.toNat
  let stream := stream.writeUint16Be (BitVec.ofInt 16 m.secs).toNat
  let stream := stream.writeBit m.broadcast
  let stream ← stream.writeNBitsOfUint64Be m.reserved.toNat 15
  let stream := writeIpv4Address stream m.ciaddr
  let stream := writeIpv4Address stream m.yiaddr
  let stream := stream.writeUint32Be 0
  let stream := writeIpv4Address stream m.giaddr
  let stream ← writeMacAddress stream m.chaddr
  let stream := stream.writeByte 0
  let stream := stream.writeByte 0
  pure (stream.writeUint64Be 0)

/-- A string in a field of `limit` bytes. A string of as many characters passes the check; the
number of the zeros that fill in the field is then converted from `-1` to a `size_t`, and no
memory holds as many. -/
def writeName (stream : MemoryOutputStream) (limit : ℕ) (text : String) (name : CString) :
    Except Error MemoryOutputStream :=
  if name.bytes.length > limit then throw (.runtime text)
  else if name.bytes.length + 1 > limit then throw (.runtime "std::bad_alloc")
  else
    let stream := name.bytes.foldl MemoryOutputStream.writeByte stream
    let stream := stream.writeByte 0
    pure (stream.writeByteRepeatedly 0 (limit - (name.bytes.length + 1)))

def writeSname (stream : MemoryOutputStream) (m : DhcpMessage) : Except Error MemoryOutputStream :=
  writeName stream 64 ("Cannot serialize DHCP message: server host name (sname) exceeds the " ++
    "allowed 64 byte limit.") m.sname

def writeFile (stream : MemoryOutputStream) (m : DhcpMessage) : Except Error MemoryOutputStream :=
  writeName stream 128 ("Cannot serialize DHCP message: file name (file) exceeds the allowed " ++
    "128 byte limit.") m.file

/-- The stream with the number of bytes that the serializer counts, a `uint16_t`. -/
structure OptionOutput where
  stream : MemoryOutputStream
  length : BitVec 16

/-- An option with its code, its length and its data. -/
def writeOption (out : OptionOutput) (code : Byte) (size : BitVec 16)
    (write : MemoryOutputStream → Except Error MemoryOutputStream) : Except Error OptionOutput := do
  let stream := out.stream.writeByte code
  let stream := stream.writeByte (size.setWidth 8)
  let stream ← write stream
  pure ⟨stream, out.length + (2 + size)⟩

def writeMessageType (o : DhcpOptions) (out : OptionOutput) : Except Error OptionOutput :=
  if o.messageType ≠ -1 then
    writeOption out DHCP_MSG_TYPE 1 fun stream =>
      pure (stream.writeByte (BitVec.ofInt 8 o.messageType))
  else pure out

def writeHostName (o : DhcpOptions) (out : OptionOutput) : Except Error OptionOutput :=
  if o.hostName.bytes ≠ [] then
    writeOption out HOSTNAME (BitVec.ofNat 16 o.hostName.bytes.length) fun stream =>
      pure (o.hostName.bytes.foldl MemoryOutputStream.writeByte stream)
  else pure out

def writeParameterRequestList (o : DhcpOptions) (out : OptionOutput) : Except Error OptionOutput :=
  if o.parameterRequestList.length > 0 then
    writeOption out PARAM_LIST (BitVec.ofNat 16 o.parameterRequestList.length) fun stream =>
      pure (o.parameterRequestList.foldl
        (fun stream code => stream.writeByte (BitVec.ofInt 8 code)) stream)
  else pure out

def writeClientIdentifier (o : DhcpOptions) (out : OptionOutput) : Except Error OptionOutput :=
  if !MacAddress.isUnspecified o.clientIdentifier then
    writeOption out CLIENT_ID 7 fun stream =>
      writeMacAddress (stream.writeByte 1) o.clientIdentifier
  else pure out

def writeAddressOption (code : Byte) (address : Ipv4Address) (out : OptionOutput) :
    Except Error OptionOutput :=
  if !Ipv4Address.isUnspecified address then
    writeOption out code 4 fun stream => pure (writeIpv4Address stream address)
  else pure out

def writeRequestedIp (o : DhcpOptions) : OptionOutput → Except Error OptionOutput :=
  writeAddressOption REQUESTED_IP o.requestedIp

def writeSubnetMask (o : DhcpOptions) : OptionOutput → Except Error OptionOutput :=
  writeAddressOption SUBNET_MASK o.subnetMask

def writeServerIdentifier (o : DhcpOptions) : OptionOutput → Except Error OptionOutput :=
  writeAddressOption SERVER_ID o.serverIdentifier

def writeAddressListOption (code : Byte) (addresses : List Ipv4Address) (out : OptionOutput) :
    Except Error OptionOutput :=
  if addresses.length > 0 then
    writeOption out code (BitVec.ofNat 16 (addresses.length * 4)) fun stream =>
      pure (addresses.foldl writeIpv4Address stream)
  else pure out

def writeRouter (o : DhcpOptions) : OptionOutput → Except Error OptionOutput :=
  writeAddressListOption ROUTER o.router

def writeDns (o : DhcpOptions) : OptionOutput → Except Error OptionOutput :=
  writeAddressListOption DNS o.dns

def writeNtp (o : DhcpOptions) : OptionOutput → Except Error OptionOutput :=
  writeAddressListOption NTP_SRV o.ntp

def writeTimeOption (code : Byte) (time : ℤ) (out : OptionOutput) : Except Error OptionOutput :=
  if time ≠ 0 then
    writeOption out code 4 fun stream => pure (stream.writeUint32Be (BitVec.ofInt 32 time).toNat)
  else pure out

def writeRenewalTime (o : DhcpOptions) : OptionOutput → Except Error OptionOutput :=
  writeTimeOption RENEWAL_TIME o.renewalTime

def writeRebindingTime (o : DhcpOptions) : OptionOutput → Except Error OptionOutput :=
  writeTimeOption REBIND_TIME o.rebindingTime

def writeLeaseTime (o : DhcpOptions) : OptionOutput → Except Error OptionOutput :=
  writeTimeOption LEASE_TIME o.leaseTime

def writeOptions (o : DhcpOptions) (out : OptionOutput) : Except Error OptionOutput := do
  let out ← writeMessageType o out
  let out ← writeHostName o out
  let out ← writeParameterRequestList o out
  let out ← writeClientIdentifier o out
  let out ← writeRequestedIp o out
  let out ← writeSubnetMask o out
  let out ← writeRouter o out
  let out ← writeDns o out
  let out ← writeNtp o out
  let out ← writeServerIdentifier o out
  let out ← writeRenewalTime o out
  let out ← writeRebindingTime o out
  writeLeaseTime o out

def writeMagicCookie (stream : MemoryOutputStream) : MemoryOutputStream :=
  [99, 130, 83, 99].foldl MemoryOutputStream.writeByte stream

def serializeFields (stream : MemoryOutputStream) (m : DhcpMessage) :
    Except Error MemoryOutputStream := do
  let stream ← writeFixed stream m
  let stream ← writeSname stream m
  let stream ← writeFile stream m
  let out ← writeOptions m.options ⟨writeMagicCookie stream, 236 + 4⟩
  let stream := out.stream.writeByte 255
  let length := out.length + 1
  let padding := (m.chunkLength : ℤ) - length.toNat
  let stream := stream.writeByteRepeatedly 0 padding.toNat
  let length := length + BitVec.ofInt 16 padding
  if m.chunkLength ≠ length.toNat then
    throw (.runtime ("Cannot serialize DHCP message: chunkLength (" ++ toString m.chunkLength ++
      " B) does not match the number of bytes written (" ++ toString length.toNat ++ ")"))
  else pure stream

/-! ## Deserializing -/

def readIpv4Address : Reader Ipv4Address := do
  let value ← readUint32Be
  return BitVec.ofNat 32 value

def readMacAddress : Reader MacAddress := do
  let value ← readUint48Be
  return BitVec.ofNat 48 value

/-- `String(chars)` of the characters of an array: those before the first null character. The end
of an array without one is not found. -/
def cString (chars : List Byte) : Reader CString :=
  if 0 ∈ chars then
    return ⟨chars.takeWhile (· ≠ 0), fun b hb => by simpa using List.mem_takeWhile_imp hb⟩
  else throw (.undefinedBehavior "strlen")

/-- The options that have been read, the number of bytes that the deserializer counts, and
whether the message has been marked incorrect. -/
structure OptionInput where
  options : DhcpOptions
  length : ℕ
  incorrect : Bool

def OptionInput.set (input : OptionInput) (options : DhcpOptions) (size : Byte) : OptionInput :=
  { input with options := options, length := input.length + (2 + size.toNat) }

def readMessageType (input : OptionInput) : Reader OptionInput := do
  let size ← readByte
  assert (size = 1) "size == 1"
  let value ← readByte
  return input.set { input.options with messageType := value.toNat } size

/-- Characters that cannot be read any more are left uninitialized. -/
def readHostName (input : OptionInput) : Reader OptionInput := do
  let size ← readByte
  let chars ← readBytes size.toNat
  if chars.length < size.toNat then throw (.undefinedBehavior "uninitialized hostName")
  else
    let hostName ← cString (chars ++ [0])
    return input.set { input.options with hostName := hostName } size

def readParameterRequestList (input : OptionInput) : Reader OptionInput := do
  let size ← readByte
  let codes ← readByteLoop size.toNat
  return input.set
    { input.options with parameterRequestList := codes.map fun code => (code.toNat : ℤ) } size

def readClientIdentifier (input : OptionInput) : Reader OptionInput := do
  let size ← readByte
  let type ← readByte
  assert (size = 7 ∧ type = 1) "size == 7 && type == 1"
  let address ← readMacAddress
  return input.set { input.options with clientIdentifier := address } size

def readAddressOption (set : DhcpOptions → Ipv4Address → DhcpOptions) (input : OptionInput) :
    Reader OptionInput := do
  let size ← readByte
  assert (size = 4) "size == 4"
  let address ← readIpv4Address
  return input.set (set input.options address) size

def readRequestedIp : OptionInput → Reader OptionInput :=
  readAddressOption fun o address => { o with requestedIp := address }

def readSubnetMask : OptionInput → Reader OptionInput :=
  readAddressOption fun o address => { o with subnetMask := address }

def readServerIdentifier : OptionInput → Reader OptionInput :=
  readAddressOption fun o address => { o with serverIdentifier := address }

def readIpv4Addresses : ℕ → Reader (List Ipv4Address)
  | 0 => pure []
  | n + 1 => do
    let address ← readIpv4Address
    let addresses ← readIpv4Addresses n
    return address :: addresses

def readAddressListOption (set : DhcpOptions → List Ipv4Address → DhcpOptions)
    (input : OptionInput) : Reader OptionInput := do
  let size ← readByte
  assert (size.toNat % 4 = 0) "(size % 4) == 0"
  let addresses ← readIpv4Addresses (size.toNat / 4)
  return input.set (set input.options addresses) size

def readRouter : OptionInput → Reader OptionInput :=
  readAddressListOption fun o addresses => { o with router := addresses }

def readDns : OptionInput → Reader OptionInput :=
  readAddressListOption fun o addresses => { o with dns := addresses }

def readNtp : OptionInput → Reader OptionInput :=
  readAddressListOption fun o addresses => { o with ntp := addresses }

section Times

-- the largest number of seconds that a `simtime_t` can hold; its constructor throws above it
variable (maxSeconds : ℕ)

def readTimeOption (set : DhcpOptions → ℤ → DhcpOptions) (input : OptionInput) :
    Reader OptionInput := do
  let size ← readByte
  assert (size = 4) "size == 4"
  let time ← readUint32Be
  if time ≤ maxSeconds then return input.set (set input.options time) size
  else throw (.runtime "simtime_t: out of range")

def readRenewalTime : OptionInput → Reader OptionInput :=
  readTimeOption maxSeconds fun o time => { o with renewalTime := time }

def readRebindingTime : OptionInput → Reader OptionInput :=
  readTimeOption maxSeconds fun o time => { o with rebindingTime := time }

def readLeaseTime : OptionInput → Reader OptionInput :=
  readTimeOption maxSeconds fun o time => { o with leaseTime := time }

/-- An option that no field stands for. -/
def readOther (input : OptionInput) : Reader OptionInput := do
  let size ← readByte
  let _ ← readBytes size.toNat
  return { input with length := input.length + (2 + size.toNat), incorrect := true }

/-- The `switch` over the code. -/
def readOption (code : Byte) : OptionInput → Reader OptionInput :=
  if code = DHCP_MSG_TYPE then readMessageType
  else if code = HOSTNAME then readHostName
  else if code = PARAM_LIST then readParameterRequestList
  else if code = CLIENT_ID then readClientIdentifier
  else if code = REQUESTED_IP then readRequestedIp
  else if code = SUBNET_MASK then readSubnetMask
  else if code = ROUTER then readRouter
  else if code = DNS then readDns
  else if code = NTP_SRV then readNtp
  else if code = SERVER_ID then readServerIdentifier
  else if code = RENEWAL_TIME then readRenewalTime maxSeconds
  else if code = REBIND_TIME then readRebindingTime maxSeconds
  else if code = LEASE_TIME then readLeaseTime maxSeconds
  else readOther

/-- The `while` loop, for at most the given number of codes. Beyond the end of the stream the
code is zero for ever. -/
def readOptions : ℕ → OptionInput → Reader (Option OptionInput)
  | 0, _ => return none
  | n + 1, input => do
    let code ← readByte
    if code = 255 then return some input
    else
      let input ← readOption maxSeconds code input
      readOptions n input

/-- The fields before the server host name. -/
def readFixed : Reader DhcpMessage := do
  let op ← readByte
  let htype ← readByte
  let hlen ← readByte
  let hops ← readByte
  let xid ← readUint32Be
  let secs ← readUint16Be
  let broadcast ← readBit
  let reserved ← readNBitsToUint64Be 15
  let ciaddr ← readIpv4Address
  let yiaddr ← readIpv4Address
  let _ ← readUint32Be
  let giaddr ← readIpv4Address
  let chaddr ← readMacAddress
  let _ ← readByte
  let _ ← readByte
  let _ ← readUint64Be
  pure
    { op := if op = 1 then BOOTREQUEST else BOOTREPLY
      htype := htype.toNat
      hlen := hlen.toNat
      hops := hops.toNat
      xid := BitVec.ofNat 32 xid
      secs := secs
      broadcast := broadcast
      reserved := BitVec.ofNat 16 reserved
      ciaddr := ciaddr
      yiaddr := yiaddr
      giaddr := giaddr
      chaddr := chaddr }

def readName (limit : ℕ) : Reader CString := do
  let chars ← readByteLoop limit
  cString chars

/-- `deserializeFields`, with a bound on the rounds of the loop: the message, and whether it has
been marked incorrect. -/
def deserializeFields (rounds : ℕ) : Reader (Option (DhcpMessage × Bool)) := do
  let fixed ← readFixed
  let sname ← readName 64
  let file ← readName 128
  let cookie ← readByteLoop 4
  assert (cookie = [99, 130, 83, 99]) "b1 == 99 && b2 == 130 && b3 == 83 && b4 == 99"
  let input ← readOptions maxSeconds rounds ⟨{}, 236 + 4, false⟩
  match input with
  | none => return none
  | some input =>
    let stream ← get
    let padding ← toBytes stream.getRemainingLength
    let _ ← readByteLoop padding.toNat
    return some ({ fixed with
      sname := sname
      file := file
      options := input.options
      chunkLength := input.length + 1 + padding.toNat }, input.incorrect)

end Times

end DhcpMessageSerializer

end Inet.Dhcp
