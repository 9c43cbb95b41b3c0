import Inet.Applications.DhcpMessage
import Inet.Lib.OrderedMap

/-! # The DHCP server

The server keeps a lease for each address that it has offered or that was
declined. A client is offered the address it already has a lease for, else the
address it requests, else the first one of the pool without a lease.
-/

namespace Inet.Dhcp

open Ipv4 (Ipv4Address)

def maskedAddrAreEqual (addr1 addr2 netmask : Ipv4Address) : Bool :=
  (addr1 ^^^ addr2) &&& netmask == 0

structure DhcpLease where
  xid : ℤ := -1
  ip : Ipv4Address := 0
  mac : MacAddress := 0
  gateway : Ipv4Address := 0
  subnetMask : Ipv4Address := 0
  dns : Ipv4Address := 0
  leaseTime : ℤ := 0
  leased : Bool := false
  deriving DecidableEq, Repr

/-- A server that is up, with the interface that it serves. -/
structure DhcpServer where
  leased : Std.ExtTreeMap Ipv4Address DhcpLease
  maxNumOfClients : BitVec 32
  leaseTime : ℕ
  subnetMask : Ipv4Address
  gateway : Ipv4Address
  ipAddressStart : Ipv4Address
  interfaceId : ℤ
  interfaceAddress : Ipv4Address

/-- What the server is configured with when it starts. -/
structure StartParameters where
  interfaceId : ℤ
  interfaceAddress : Ipv4Address
  netmask : Ipv4Address
  maxNumClients : BitVec 32
  leaseTime : ℕ
  /-- The address that a `gateway` parameter other than "" resolves to. -/
  gateway : Option Ipv4Address
  numReservedAddresses : ℤ

def handleStartOperation (p : StartParameters) : Except Error DhcpServer := do
  let networkStartAddress := p.interfaceAddress &&& p.netmask
  let ipAddressStart := networkStartAddress + BitVec.ofInt 32 p.numReservedAddresses
  if !maskedAddrAreEqual p.interfaceAddress ipAddressStart p.netmask then
    throw (.runtime "The numReservedAddresses parameter larger than address range")
  else if !maskedAddrAreEqual p.interfaceAddress (ipAddressStart + p.maxNumClients - 1)
      p.netmask then
    throw (.runtime
      ("Not enough IP addresses in subnet for " ++ toString p.maxNumClients.toInt ++ " clients"))
  else
    pure
      { leased := ∅
        maxNumOfClients := p.maxNumClients
        leaseTime := p.leaseTime
        subnetMask := p.netmask
        gateway := p.gateway.getD p.interfaceAddress
        ipAddressStart := ipAddressStart
        interfaceId := p.interfaceId
        interfaceAddress := p.interfaceAddress }

/-- A message that is sent to port 68 of an address. -/
structure SentMessage where
  message : DhcpMessage
  destAddr : Ipv4Address
  deriving DecidableEq

def ALLONES_ADDRESS : Ipv4Address := 0xFFFFFFFF

/-- Where an offer or an acknowledgement goes. -/
def replyAddress (packet : DhcpMessage) : Ipv4Address :=
  if !Ipv4Address.isUnspecified packet.giaddr then packet.giaddr
  else if !Ipv4Address.isUnspecified packet.ciaddr then packet.ciaddr
  else ALLONES_ADDRESS

namespace DhcpServer

variable (server : DhcpServer)

/-- The lease with the hardware address, with its key. -/
def getLeaseByMac (mac : MacAddress) : Option (Ipv4Address × DhcpLease) :=
  server.leased.toList.find? fun elem => elem.2.mac == mac

/-- A new lease at an address. -/
def newLease (ip : Ipv4Address) : DhcpLease :=
  { ip := ip, gateway := server.gateway, subnetMask := server.subnetMask }

/-- The address at which `getAvailableLease` finds or creates a lease, from an index of the pool
on. -/
def firstAvailable : ℕ → ℕ → Option (Ipv4Address × DhcpLease)
  | 0, _ => none
  | n + 1, i =>
    let ip := server.ipAddressStart + BitVec.ofNat 32 i
    match server.leased[ip]? with
    | some lease => if !lease.leased then some (ip, lease) else firstAvailable n (i + 1)
    | none => some (ip, server.newLease ip)

/-- The lease, with its key. A lease that is created is not in the table yet. -/
def getAvailableLease (requestedAddress : Ipv4Address) : Option (Ipv4Address × DhcpLease) :=
  if !Ipv4Address.isUnspecified requestedAddress then
    match server.leased[requestedAddress]? with
    | some lease =>
      if !lease.leased then some (requestedAddress, lease)
      else some (requestedAddress, server.newLease requestedAddress)
    | none => some (requestedAddress, server.newLease requestedAddress)
  else server.firstAvailable server.maxNumOfClients.toNat 0

/-- Writes through the pointer to a lease. -/
def setLease (key : Ipv4Address) (lease : DhcpLease) : DhcpServer :=
  { server with leased := server.leased.insert key lease }

/-- The options that offers and acknowledgements have in common. -/
def leaseOptions (messageType : DhcpMessageType) (lease : DhcpLease) : DhcpOptions where
  messageType := messageType
  subnetMask := lease.subnetMask
  renewalTime := (server.leaseTime / 2 : ℕ)
  rebindingTime := (server.leaseTime * 7 / 8 : ℕ)
  leaseTime := server.leaseTime
  router := [lease.gateway]
  dns := if !Ipv4Address.isUnspecified lease.dns then [lease.dns] else []
  serverIdentifier := server.interfaceAddress

/-- The length of an offer or an acknowledgement. -/
def leaseLength (lease : DhcpLease) : ℕ :=
  236 + 3 + 6 + 6 + 6 + 6 + (2 + 1 * 4) +
    (if !Ipv4Address.isUnspecified lease.dns then 2 + 1 * 4 else 0) + 6 + 5

def sendOffer (now : ℤ) (key : Ipv4Address) (lease : DhcpLease) (packet : DhcpMessage) :
    DhcpServer × Option SentMessage :=
  let offer : DhcpMessage :=
    { op := BOOTREPLY
      htype := 1
      hlen := 6
      xid := BitVec.ofInt 32 lease.xid
      broadcast := packet.broadcast
      yiaddr := lease.ip
      giaddr := packet.giaddr
      chaddr := lease.mac
      options := server.leaseOptions DHCPOFFER lease
      chunkLength := leaseLength lease }
  (server.setLease key { lease with leaseTime := now }, some ⟨offer, replyAddress packet⟩)

def sendAck (now : ℤ) (key : Ipv4Address) (lease : DhcpLease) (packet : DhcpMessage) :
    DhcpServer × Option SentMessage :=
  let ack : DhcpMessage :=
    { op := BOOTREPLY
      htype := 1
      hlen := 6
      xid := BitVec.ofInt 32 lease.xid
      broadcast := packet.broadcast
      ciaddr := packet.ciaddr
      yiaddr := lease.ip
      chaddr := lease.mac
      options := server.leaseOptions DHCPACK lease
      chunkLength := leaseLength lease }
  (server.setLease key { lease with leaseTime := now }, some ⟨ack, replyAddress packet⟩)

def sendNak (msg : DhcpMessage) : DhcpServer × Option SentMessage :=
  let nak : DhcpMessage :=
    { op := BOOTREPLY
      htype := 1
      hlen := 6
      xid := msg.xid
      broadcast := msg.broadcast
      giaddr := msg.giaddr
      chaddr := msg.chaddr
      options := { messageType := DHCPNAK, serverIdentifier := server.interfaceAddress }
      chunkLength := 236 + 6 + 3 + 5 }
  (server,
    some ⟨nak, if !Ipv4Address.isUnspecified msg.giaddr then msg.giaddr else ALLONES_ADDRESS⟩)

/-- RFC 2131, 4.3.1 -/
def handleDiscover (now : ℤ) (msg : DhcpMessage) : DhcpServer × Option SentMessage :=
  match server.getLeaseByMac msg.chaddr with
  | none =>
    match server.getAvailableLease msg.options.requestedIp with
    | some (key, lease) =>
      server.sendOffer now key
        { lease with mac := msg.chaddr, xid := msg.xid.toNat, leased := true } msg
    | none => (server, none)
  | some (key, lease) => server.sendOffer now key { lease with xid := msg.xid.toNat } msg

/-- Marks a lease as leased now, and acknowledges it. -/
def grant (now : ℤ) (key : Ipv4Address) (lease : DhcpLease) (msg : DhcpMessage) :
    DhcpServer × Option SentMessage :=
  server.sendAck now key
    { lease with xid := msg.xid.toNat, leaseTime := server.leaseTime, leased := true } msg

/-- The request is in response to an offer. -/
def handleSelecting (now : ℤ) (msg : DhcpMessage) : DhcpServer × Option SentMessage :=
  match server.getLeaseByMac msg.chaddr with
  | some (key, lease) =>
    if lease.ip ≠ msg.options.requestedIp then server.sendNak msg
    else server.grant now key lease msg
  | none => server.sendNak msg

def handleInitReboot (now : ℤ) (msg : DhcpMessage) : DhcpServer × Option SentMessage :=
  let requestedAddress := msg.options.requestedIp
  if !maskedAddrAreEqual requestedAddress server.ipAddressStart server.subnetMask then
    server.sendNak msg
  else
    match server.leased[requestedAddress]? with
    | none => (server, none)
    | some lease =>
      if maskedAddrAreEqual requestedAddress lease.ip server.subnetMask then
        server.grant now requestedAddress lease msg
      else server.sendNak msg

/-- Renewing or rebinding. -/
def handleRenewing (now : ℤ) (msg : DhcpMessage) : DhcpServer × Option SentMessage :=
  match server.leased[msg.ciaddr]? with
  | some lease => server.grant now msg.ciaddr lease msg
  | none => server.sendNak msg

/-- RFC 2131, 4.3.3 -/
def handleDecline (msg : DhcpMessage) : DhcpServer × Option SentMessage :=
  let declinedAddress := msg.options.requestedIp
  if !Ipv4Address.isUnspecified declinedAddress then
    let declined := (server.leased[declinedAddress]?).getD {}
    (server.setLease declinedAddress
      { declined with
        ip := declinedAddress
        subnetMask := server.subnetMask
        gateway := server.gateway
        leased := true
        mac := 0 }, none)
  else (server, none)

/-- The request carries the identifier of this server. -/
def isSelecting (msg : DhcpMessage) : Bool :=
  msg.options.serverIdentifier == server.interfaceAddress

def processDhcpMessage (now inputInterfaceId : ℤ) (msg : DhcpMessage) :
    DhcpServer × Option SentMessage :=
  if inputInterfaceId ≠ server.interfaceId then (server, none)
  else if msg.op = BOOTREQUEST then
    if msg.options.messageType = DHCPDISCOVER then server.handleDiscover now msg
    else if msg.options.messageType = DHCPREQUEST then
      if server.isSelecting msg then server.handleSelecting now msg
      else if Ipv4Address.isUnspecified msg.ciaddr then server.handleInitReboot now msg
      else server.handleRenewing now msg
    else if msg.options.messageType = DHCPDECLINE then server.handleDecline msg
    else (server, none)
  else (server, none)

end DhcpServer

end Inet.Dhcp
