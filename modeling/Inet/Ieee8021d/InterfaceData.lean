import Inet.Ethernet.MacForwardingTable
import Mathlib.Data.List.Nodup

/-! # The data of a bridge port

The interface table of a bridge, what it keeps at each port for the spanning
tree protocols, and the messages the bridges exchange.
-/

namespace Inet.Ieee8021d

open Inet.Ethernet

abbrev InterfaceId := UInt32

/-- The interfaces of a bridge, by their ids. -/
structure InterfaceTable where
  first : InterfaceId
  others : List InterfaceId
  nodup : (first :: others).Nodup

namespace InterfaceTable

def ids (ifTable : InterfaceTable) : List InterfaceId := ifTable.first :: ifTable.others

theorem first_mem (ifTable : InterfaceTable) : ifTable.first ∈ ifTable.ids := List.mem_cons_self

theorem nodup_ids (ifTable : InterfaceTable) : ifTable.ids.Nodup := ifTable.nodup

end InterfaceTable

inductive PortRole where
  | alternate
  | notAssigned
  | disabled
  | designated
  | backup
  | root
  deriving DecidableEq, Repr

inductive PortState where
  | discarding
  | learning
  | forwarding
  | blocking
  | listening
  deriving DecidableEq, Repr

structure PortInfo where
  priority : UInt16
  linkCost : UInt32
  edge : Bool
  state : PortState
  role : PortRole
  rootPriority : UInt32
  rootAddress : MacAddress
  rootPathCost : UInt32
  bridgePriority : UInt32
  bridgeAddress : MacAddress
  portPriority : UInt32
  portNum : UInt32
  age : ℤ
  maxAge : ℤ
  fdWhile : ℤ
  fwdDelay : ℤ
  helloTime : ℤ
  tcWhile : ℤ
  lostBpdu : UInt32
  nextUpgrade : ℤ
  earliestBpduSendTime : ℤ
  bpduSendPending : Bool
  agreed : Bool
  synced : Bool
  deriving DecidableEq, Repr

/-- The data of an interface as it is created: without a protocol module every port forwards. -/
def PortInfo.default (priority : UInt16) (linkCost : UInt32) (edge : Bool) : PortInfo where
  priority := priority
  linkCost := linkCost
  edge := edge
  state := .forwarding
  role := .notAssigned
  rootPriority := 0
  rootAddress := 0
  rootPathCost := 0
  bridgePriority := 0
  bridgeAddress := 0
  portPriority := 0
  portNum := -1
  age := 0
  maxAge := 0
  fdWhile := 0
  fwdDelay := 0
  helloTime := 0
  tcWhile := 0
  lostBpdu := 0
  nextUpgrade := 0
  earliestBpduSendTime := 0
  bpduSendPending := false
  agreed := false
  synced := false

/-- A configuration BPDU. -/
structure BpduCfg where
  tcaFlag : Bool
  agreementFlag : Bool
  proposalFlag : Bool
  tcFlag : Bool
  rootPriority : UInt16
  rootAddress : MacAddress
  rootPathCost : UInt32
  bridgePriority : UInt16
  bridgeAddress : MacAddress
  portPriority : UInt32
  portNum : UInt32
  messageAge : ℤ
  maxAge : ℤ
  helloTime : ℤ
  forwardDelay : ℤ
  deriving DecidableEq, Repr

inductive Bpdu where
  | cfg (bpdu : BpduCfg)
  | tcn
  deriving DecidableEq, Repr

/-- What a bridge hands to its relay unit. -/
structure Outgoing where
  packet : Bpdu
  interfaceId : InterfaceId
  srcAddress : MacAddress
  destAddress : MacAddress
  deriving DecidableEq, Repr

/-- `MacAddress::STP_MULTICAST_ADDRESS` -/
def stpMulticastAddress : MacAddress := 0x0180C2000000

/-- `MacAddress::compareTo` -/
def compareTo (address other : MacAddress) : ℤ :=
  if address < other then -1 else if address = other then 0 else 1

theorem compareTo_eq_neg_one_iff {a b : MacAddress} : compareTo a b = -1 ↔ a.toNat < b.toNat := by
  simp only [compareTo, BitVec.lt_def]
  split_ifs <;> simp_all

theorem compareTo_eq_one_iff {a b : MacAddress} : compareTo a b = 1 ↔ b.toNat < a.toNat := by
  simp only [compareTo, BitVec.lt_def, ← BitVec.toNat_inj]
  split_ifs with hlt heq
  · exact ⟨nofun, fun h => absurd h hlt.not_gt⟩
  · exact ⟨nofun, fun h => absurd heq h.ne'⟩
  · exact ⟨fun _ => by omega, fun _ => rfl⟩

end Inet.Ieee8021d
