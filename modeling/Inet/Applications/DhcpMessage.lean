import Inet.Ipv4.InterfaceData
import Inet.Stream.Output

/-! # DHCP messages -/

namespace Inet.Dhcp

open Ipv4 (Ipv4Address)

abbrev MacAddress := BitVec 48

def Ipv4Address.isUnspecified (address : Ipv4Address) : Bool := address == 0

def MacAddress.isUnspecified (address : MacAddress) : Bool := address == 0

/-- The characters of a string before the terminating null character. -/
structure CString where
  bytes : List Byte
  ne_zero : ∀ b ∈ bytes, b ≠ 0

instance : DecidableEq CString := fun s t =>
  decidable_of_iff (s.bytes = t.bytes) (by cases s; cases t; simp)

def CString.empty : CString := ⟨[], by simp⟩

/-- An enumeration whose values are cast from integers, among them `-1` for an unset value. -/
abbrev DhcpOpcode := ℤ

def BOOTREQUEST : DhcpOpcode := 1

def BOOTREPLY : DhcpOpcode := 2

/-- Values are cast from integers as well. -/
abbrev DhcpMessageType := ℤ

def DHCPDISCOVER : DhcpMessageType := 1

def DHCPOFFER : DhcpMessageType := 2

def DHCPREQUEST : DhcpMessageType := 3

def DHCPDECLINE : DhcpMessageType := 4

def DHCPACK : DhcpMessageType := 5

def DHCPNAK : DhcpMessageType := 6

/-- Values are cast from integers as well. -/
abbrev DhcpOptionCode := ℤ

/-- Absent options have their default values. The times are in seconds. -/
structure DhcpOptions where
  messageType : DhcpMessageType := -1
  hostName : CString := .empty
  parameterRequestList : List DhcpOptionCode := []
  clientIdentifier : MacAddress := 0
  requestedIp : Ipv4Address := 0
  subnetMask : Ipv4Address := 0
  router : List Ipv4Address := []
  dns : List Ipv4Address := []
  ntp : List Ipv4Address := []
  serverIdentifier : Ipv4Address := 0
  renewalTime : ℤ := 0
  rebindingTime : ℤ := 0
  leaseTime : ℤ := 0
  deriving DecidableEq

structure DhcpMessage where
  op : DhcpOpcode := -1
  htype : ℤ := 0
  hlen : ℤ := 0
  hops : ℤ := 0
  xid : BitVec 32 := 0
  secs : ℤ := 0
  broadcast : Bool := false
  reserved : BitVec 16 := 0
  ciaddr : Ipv4Address := 0
  yiaddr : Ipv4Address := 0
  giaddr : Ipv4Address := 0
  chaddr : MacAddress := 0
  sname : CString := .empty
  file : CString := .empty
  options : DhcpOptions := {}
  /-- In bytes. -/
  chunkLength : ℕ := 0
  deriving DecidableEq

end Inet.Dhcp
