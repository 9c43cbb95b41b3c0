import Inet.Ieee8021d.InterfaceData
import Inet.Lib.Comparator

/-! # The spanning tree protocol

A bridge keeps at each port the best configuration BPDU received there. From
these it finds out whether it is the root, its root port, and the ports at
which it is the designated bridge. Roles follow every BPDU. The states of the
ports follow the roles at the next tick.
-/

namespace Inet.Ieee8021d

open Inet.Ethernet

/-- What does not change while the bridge is up. -/
structure StpParameters where
  ifTable : InterfaceTable
  /-- The interfaces that are wired, multicast, and not the loopback. -/
  hasStpPort : InterfaceId → Bool
  bridgeAddress : MacAddress
  configuredBridgePriority : UInt16
  configuredMaxAge : ℤ
  configuredForwardDelay : ℤ
  configuredHelloInterval : ℤ
  holdTime : ℤ
  /-- The parameter `agingTime` of the forwarding table. -/
  agingTime : ℤ

structure Stp extends StpParameters where
  data : InterfaceId → PortInfo
  isRoot : Bool
  rootInterfaceId : InterfaceId
  desPorts : List InterfaceId
  rootPathCost : UInt32
  rootPriority : UInt32
  rootAddress : MacAddress
  bridgePriority : UInt16
  maxAge : ℤ
  forwardDelay : ℤ
  helloInterval : ℤ
  timeSinceLastHello : ℤ
  topologyChangeNotification : Bool
  topologyChangeRecvd : Bool
  macTable : MacForwardingTable
  /-- The packets sent, the last one first. -/
  sent : List Outgoing

namespace Stp

def tickInterval : ℤ := simTimeOfSeconds 1

/-- Positive if the first bridge id is superior. -/
def compareBridgeIDs (aPriority : UInt32) (aAddress : MacAddress) (bPriority : UInt32)
    (bAddress : MacAddress) : ℤ :=
  if aPriority < bPriority then 1
  else if aPriority > bPriority then -1
  else if compareTo aAddress bAddress = -1 then 1
  else if compareTo aAddress bAddress = 1 then -1
  else 0

def comparePortIDs (aPriority aNum bPriority bNum : UInt32) : ℤ :=
  if aPriority < bPriority then 1
  else if aPriority > bPriority then -1
  else if aNum < bNum then 1
  else if aNum > bNum then -1
  else 0

/-- Positive if the information of the first port is superior. -/
def comparePorts (portA portB : PortInfo) : ℤ :=
  let result := compareBridgeIDs portA.rootPriority portA.rootAddress portB.rootPriority
    portB.rootAddress
  if result ≠ 0 then result
  else if portA.rootPathCost < portB.rootPathCost then 1
  else if portA.rootPathCost > portB.rootPathCost then -1
  else
    let result := compareBridgeIDs portA.bridgePriority portA.bridgeAddress portB.bridgePriority
      portB.bridgeAddress
    if result ≠ 0 then result
    else comparePortIDs portA.portPriority portA.portNum portB.portPriority portB.portNum

/-- `getPortInterfaceDataForUpdate(interfaceId)` and a change of the data. -/
def update (this : Stp) (interfaceId : InterfaceId) (f : PortInfo → PortInfo) : Stp :=
  { this with data := Function.update this.data interfaceId (f (this.data interfaceId)) }

/-- A loop over the ports. -/
def forPorts (this : Stp) (body : Stp → InterfaceId → Stp) : Stp :=
  this.ifTable.ids.foldl body this

def checkInterface (this : Stp) (interfaceId : InterfaceId) : Except Error Unit :=
  if interfaceId ∈ this.ifTable.ids then pure ()
  else throw (Error.runtime "gate's Interface is nullptr")

def sendOut (this : Stp) (packet : Bpdu) (interfaceId : InterfaceId) (destAddress : MacAddress) :
    Stp :=
  { this with sent := ⟨packet, interfaceId, this.bridgeAddress, destAddress⟩ :: this.sent }

/-- The BPDU that `generateBpdu` fills in. -/
def configurationBpdu (this : Stp) (interfaceId : InterfaceId) (tcFlag tcaFlag : Bool) :
    BpduCfg where
  tcaFlag := this.topologyChangeNotification && !(this.isRoot || tcFlag) && tcaFlag
  agreementFlag := false
  proposalFlag := false
  tcFlag := this.topologyChangeNotification && (this.isRoot || tcFlag)
  rootPriority := this.rootPriority.toUInt16
  rootAddress := this.rootAddress
  rootPathCost := this.rootPathCost
  bridgePriority := this.configuredBridgePriority
  bridgeAddress := this.bridgeAddress
  portPriority := (this.data interfaceId).priority.toUInt32
  portNum := interfaceId
  messageAge := 0
  maxAge := this.maxAge
  helloTime := this.helloInterval
  forwardDelay := this.forwardDelay

/-- Within the hold time of the last BPDU the port only notes that one is due. -/
def generateBpdu (this : Stp) (now : ℤ) (interfaceId : InterfaceId) (address : MacAddress)
    (tcFlag tcaFlag : Bool) : Stp :=
  if now < (this.data interfaceId).earliestBpduSendTime then
    this.update interfaceId fun port => { port with bpduSendPending := true }
  else
    (this.sendOut (.cfg (this.configurationBpdu interfaceId tcFlag tcaFlag)) interfaceId
      address).update interfaceId fun port =>
        { port with earliestBpduSendTime := now + this.holdTime, bpduSendPending := false }

def generateTcn (this : Stp) : Stp :=
  if this.topologyChangeNotification || !this.topologyChangeRecvd then
    if (this.data this.rootInterfaceId).role = .root then
      { this with topologyChangeNotification := false }.sendOut .tcn this.rootInterfaceId
        stpMulticastAddress
    else this
  else this

def generateHelloBpdus (this : Stp) (now : ℤ) : Stp :=
  this.forPorts fun this interfaceId =>
    this.generateBpdu now interfaceId stpMulticastAddress false false

/-- What the port would keep of the BPDU. -/
def xBpdu (bpdu : BpduCfg) (linkCost : UInt32) : PortInfo :=
  { PortInfo.default 0 1 false with
    rootPriority := bpdu.rootPriority.toUInt32
    rootAddress := bpdu.rootAddress
    rootPathCost := bpdu.rootPathCost + linkCost
    bridgePriority := bpdu.bridgePriority.toUInt32
    bridgeAddress := bpdu.bridgeAddress
    portPriority := bpdu.portPriority
    portNum := bpdu.portNum }

def setSuperiorBpdu (this : Stp) (interfaceId : InterfaceId) (bpdu : BpduCfg) : Stp :=
  if bpdu.messageAge ≥ bpdu.maxAge then this
  else
    this.update interfaceId fun port =>
      { port with
        rootPriority := bpdu.rootPriority.toUInt32
        rootAddress := bpdu.rootAddress
        rootPathCost := bpdu.rootPathCost + port.linkCost
        bridgePriority := bpdu.bridgePriority.toUInt32
        bridgeAddress := bpdu.bridgeAddress
        portPriority := bpdu.portPriority
        portNum := bpdu.portNum
        maxAge := bpdu.maxAge
        fwdDelay := bpdu.forwardDelay
        helloTime := bpdu.helloTime
        age := 0 }

/-- A BPDU that is superior to what the port keeps blocks the port. The answer is whether it is
superior or the same. -/
def isSuperiorBpdu (this : Stp) (interfaceId : InterfaceId) (bpdu : BpduCfg) : Bool × Stp :=
  let port := this.data interfaceId
  let result := comparePorts port (xBpdu bpdu port.linkCost)
  if result > 0 then (false, this)
  else if result < 0 then
    (true, (this.update interfaceId fun port =>
      { port with fdWhile := 0, state := .blocking }).setSuperiorBpdu interfaceId bpdu)
  else (true, this.setSuperiorBpdu interfaceId bpdu)

def checkRootEligibility (this : Stp) : Bool :=
  this.ifTable.ids.all fun interfaceId =>
    let port := this.data interfaceId
    decide (¬ compareBridgeIDs port.rootPriority port.rootAddress
      this.configuredBridgePriority.toUInt32 this.bridgeAddress > 0)

def setRole (this : Stp) (interfaceId : InterfaceId) (role : PortRole) : Stp :=
  this.update interfaceId fun port => { port with role := role }

/-- The loop of `selectRootPort` at one port: all ports lose their role, and the best so far is
kept. -/
def selectRootStep (s : Stp × InterfaceId) (interfaceId : InterfaceId) : Stp × InterfaceId :=
  let this := s.1.setRole interfaceId .notAssigned
  let best := s.2
  let result := comparePorts (this.data interfaceId) (this.data best)
  if result > 0 then (this, interfaceId)
  else if result < 0 then (this, best)
  else if (this.data interfaceId).priority < (this.data best).priority then (this, interfaceId)
  else (this, best)

/-- A new root port is a topology change. -/
def noteRootPort (this : Stp) (xRootInterfaceId : InterfaceId) : Stp :=
  if this.rootInterfaceId ≠ xRootInterfaceId then { this with topologyChangeNotification := true }
  else this

/-- The bridge takes over what its root port knows. -/
def adoptRootPort (this : Stp) (xRootInterfaceId : InterfaceId) : Stp :=
  let best := this.data xRootInterfaceId
  { this.setRole xRootInterfaceId .root with
    rootInterfaceId := xRootInterfaceId
    rootPathCost := best.rootPathCost
    rootAddress := best.rootAddress
    rootPriority := best.rootPriority
    maxAge := best.maxAge
    forwardDelay := best.fwdDelay
    helloInterval := best.helloTime }

def selectRootPort (this : Stp) : Stp :=
  let found := this.ifTable.ids.foldl selectRootStep
    ({ this with desPorts := [] }, this.ifTable.first)
  (found.1.noteRootPort found.2).adoptRootPort found.2

/-- What the bridge itself offers at a port: its own root, and its root path cost with the cost of
the link. -/
def bridgeGlobal (this : Stp) (interfaceId : InterfaceId) : PortInfo :=
  { PortInfo.default 0 1 false with
    bridgePriority := this.configuredBridgePriority.toUInt32
    bridgeAddress := this.bridgeAddress
    rootAddress := this.rootAddress
    rootPriority := this.rootPriority
    portPriority := (this.data interfaceId).priority.toUInt32
    portNum := interfaceId
    rootPathCost := this.rootPathCost + (this.data interfaceId).linkCost }

def selectDesignatedStep (this : Stp) (interfaceId : InterfaceId) : Stp :=
  let port := this.data interfaceId
  if port.role = .root ∨ port.role = .disabled then this
  else if comparePorts (this.bridgeGlobal interfaceId) port > 0 then
    { this with desPorts := this.desPorts ++ [interfaceId] }.setRole interfaceId .designated
  else this

def selectDesignatedPorts (this : Stp) : Stp :=
  { this with desPorts := [] }.forPorts selectDesignatedStep

def setDesignated (this : Stp) (interfaceId : InterfaceId) : Stp :=
  if (this.data interfaceId).role = .disabled then this
  else
    { this.setRole interfaceId .designated with desPorts := this.desPorts ++ [interfaceId] }

/-- All ports of the root switch are designated ports. -/
def setAllDesignated (this : Stp) : Stp := { this with desPorts := [] }.forPorts setDesignated

/-- The bridge considers itself root, with its own parameters. -/
def claimRoot (this : Stp) : Stp :=
  { this with
    isRoot := true
    rootPriority := this.configuredBridgePriority.toUInt32
    rootAddress := this.bridgeAddress
    rootPathCost := 0
    helloInterval := this.configuredHelloInterval
    maxAge := this.configuredMaxAge
    forwardDelay := this.configuredForwardDelay }

def tryRoot (this : Stp) : Stp :=
  if this.checkRootEligibility then this.claimRoot.setAllDesignated
  else { this with isRoot := false }.selectRootPort.selectDesignatedPorts

def setAgingTime (this : Stp) (agingTime : ℤ) : Stp :=
  { this with macTable :=
      { this.macTable with agingTime := if agingTime = -1 then this.agingTime else agingTime } }

/-- BPDUs on all designated ports. -/
def sendDesignated (this : Stp) (now : ℤ) (tcFlag : Bool) : Stp :=
  this.desPorts.foldl
    (fun this interfaceId => this.generateBpdu now interfaceId stpMulticastAddress tcFlag false)
      this

/-- A topology change acknowledgment ends the notification. -/
def acknowledge (this : Stp) (bpdu : BpduCfg) : Stp :=
  if bpdu.tcaFlag then
    { this with topologyChangeRecvd := true, topologyChangeNotification := false }
  else this

/-- An inferior BPDU is answered at a designated port, one from the root port is passed on. -/
def respond (this : Stp) (now : ℤ) (arrivalGate : InterfaceId) (bpdu : BpduCfg)
    (superior : Bool) : Stp :=
  if !superior then
    if (this.data arrivalGate).role = .designated then
      this.generateBpdu now arrivalGate stpMulticastAddress false false
    else this
  else if (this.data arrivalGate).role = .root then
    if bpdu.tcFlag then (this.setAgingTime this.forwardDelay).sendDesignated now true
    else (this.setAgingTime (-1)).sendDesignated now false
  else this

def handleBpdu (this : Stp) (now : ℤ) (arrivalGate : InterfaceId) (bpdu : BpduCfg) :
    Except Error Stp := do
  this.checkInterface arrivalGate
  let (superior, this) := (this.acknowledge bpdu).isSuperiorBpdu arrivalGate bpdu
  pure (this.respond now arrivalGate bpdu superior).tryRoot

def handleTcn (this : Stp) (now : ℤ) (arrivalGate : InterfaceId) (srcAddress : MacAddress) :
    Except Error Stp := do
  this.checkInterface arrivalGate
  let this := { this with topologyChangeNotification := true }
  pure (this.generateBpdu now arrivalGate srcAddress false true)

def initInterfacedata (this : Stp) (interfaceId : InterfaceId) : Stp :=
  this.update interfaceId fun ifd =>
    { ifd with
      role := .notAssigned
      state := .blocking
      rootPriority := this.configuredBridgePriority.toUInt32
      rootAddress := this.bridgeAddress
      rootPathCost := 0
      age := 0
      bridgePriority := this.configuredBridgePriority.toUInt32
      bridgeAddress := this.bridgeAddress
      portPriority := -1
      portNum := -1
      lostBpdu := 0 }

def initPort (this : Stp) (interfaceId : InterfaceId) : Stp :=
  if this.hasStpPort interfaceId then this.initInterfacedata interfaceId else this

def initPortTable (this : Stp) : Stp := this.forPorts initPort

def lostRoot (this : Stp) : Stp := { this with topologyChangeNotification := true }.tryRoot

def lostNonDesignated (this : Stp) : Stp :=
  { this.selectDesignatedPorts with topologyChangeNotification := true }

/-- The message age and forward timers of a port at a tick. -/
def incrementTimers (port : PortInfo) : PortInfo :=
  if port.role = .disabled then port
  else
    let port :=
      if port.role ≠ .designated then { port with age := port.age + tickInterval } else port
    if port.role = .root ∨ port.role = .designated then
      { port with fdWhile := port.fdWhile + tickInterval }
    else port

def sendPending (this : Stp) (now : ℤ) : Stp :=
  this.forPorts fun this interfaceId =>
    let port := this.data interfaceId
    if port.bpduSendPending ∧ now ≥ port.earliestBpduSendTime then
      this.generateBpdu now interfaceId stpMulticastAddress false false
    else this

/-- The age check of a port. -/
def checkAge (this : Stp) (interfaceId : InterfaceId) : Stp :=
  let port := this.data interfaceId
  if port.age ≥ this.maxAge then
    if port.role = .root then (this.initInterfacedata interfaceId).lostRoot
    else (this.initInterfacedata interfaceId).lostNonDesignated
  else this

/-- The forward timer check of a port. -/
def checkFdWhile (forwardDelay : ℤ) (port : PortInfo) : PortInfo :=
  if port.role = .root ∨ port.role = .designated then
    if port.state = .blocking then { port with state := .listening, fdWhile := 0 }
    else if port.fdWhile ≥ forwardDelay then
      match port.state with
      | .listening => { port with state := .learning, fdWhile := 0 }
      | .learning => { port with state := .forwarding, fdWhile := 0 }
      | _ => { port with fdWhile := 0 }
    else port
  else { port with fdWhile := 0, state := .blocking }

def checkTimers (this : Stp) (now : ℤ) : Stp :=
  let this :=
    if this.timeSinceLastHello ≥ this.helloInterval then
      { if this.isRoot then this.generateHelloBpdus now else this with timeSinceLastHello := 0 }
    else this
  let this := this.forPorts checkAge
  let forwardDelay := this.forwardDelay
  this.forPorts fun this interfaceId => this.update interfaceId (checkFdWhile forwardDelay)

def reset (this : Stp) : Stp := this.claimRoot.setAllDesignated

def checkParametersChange (this : Stp) : Stp :=
  let this :=
    if this.isRoot then
      { this with
        helloInterval := this.configuredHelloInterval
        maxAge := this.configuredMaxAge
        forwardDelay := this.configuredForwardDelay }
    else this
  if this.bridgePriority ≠ this.configuredBridgePriority then
    { this with bridgePriority := this.configuredBridgePriority }.reset
  else this

def handleTick (this : Stp) (now : ℤ) : Stp :=
  let this :=
    { this with timeSinceLastHello :=
        if this.isRoot then this.timeSinceLastHello + simTimeOfSeconds 1 else 0 }
  let this := this.forPorts fun this interfaceId => this.update interfaceId incrementTimers
  (((this.sendPending now).checkTimers now).checkParametersChange).generateTcn

/-- Upon booting all bridges believe themselves to be the root. -/
def initial (parameters : StpParameters) (data : InterfaceId → PortInfo) : Stp where
  toStpParameters := parameters
  data := data
  isRoot := true
  rootInterfaceId := parameters.ifTable.first
  desPorts := []
  rootPathCost := 0
  rootPriority := parameters.configuredBridgePriority.toUInt32
  rootAddress := parameters.bridgeAddress
  bridgePriority := parameters.configuredBridgePriority
  maxAge := parameters.configuredMaxAge
  forwardDelay := parameters.configuredForwardDelay
  helloInterval := parameters.configuredHelloInterval
  timeSinceLastHello := 0
  topologyChangeNotification := true
  topologyChangeRecvd := true
  macTable := .initial parameters.agingTime
  sent := []

def start (parameters : StpParameters) (data : InterfaceId → PortInfo) : Stp :=
  (initial parameters data).initPortTable.setAllDesignated

/-- What a bridge that is up is given. -/
inductive Event where
  | bpdu (arrivalGate : InterfaceId) (bpdu : BpduCfg)
  | tcn (arrivalGate : InterfaceId) (srcAddress : MacAddress)
  | tick

def handle (this : Stp) (now : ℤ) : Event → Except Error Stp
  | .bpdu arrivalGate bpdu => this.handleBpdu now arrivalGate bpdu
  | .tcn arrivalGate srcAddress => this.handleTcn now arrivalGate srcAddress
  | .tick => pure (this.handleTick now)

end Stp

end Inet.Ieee8021d
