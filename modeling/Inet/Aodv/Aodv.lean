import Inet.Aodv.Routes

/-! # The AODV module

What a node does with route requests and route replies: the entries that it
creates and updates, the replies that it makes, and the packets that it sends.
Times are in picoseconds.
-/

namespace Inet

namespace Aodv

variable {Addr : Type} [DecidableEq Addr]

structure Rreq (Addr : Type) where
  gratuitousRREPFlag : Bool
  destOnlyFlag : Bool
  unknownSeqNumFlag : Bool
  hopCount : BitVec 32
  rreqId : BitVec 32
  destAddr : Addr
  destSeqNum : BitVec 32
  originatorAddr : Addr
  originatorSeqNum : BitVec 32
  deriving DecidableEq

structure Rrep (Addr : Type) where
  ackRequiredFlag : Bool
  hopCount : BitVec 32
  destAddr : Addr
  destSeqNum : BitVec 32
  originatorAddr : Addr
  lifeTime : ℤ
  deriving DecidableEq

inductive AodvControlPacket (Addr : Type) where
  | rreq (rreq : Rreq Addr)
  | rrep (rrep : Rrep Addr)
  | rrepAck
  deriving DecidableEq

/-- The parameters of the module. -/
structure Parameters where
  activeRouteTimeout : ℤ
  deletePeriod : ℤ
  myRouteTimeout : ℤ
  netTraversalTime : ℤ
  nodeTraversalTime : ℤ
  pathDiscoveryTime : ℤ

end Aodv

open Aodv in
/-- A node. -/
structure Aodv (Addr : Type) where
  selfIPAddress : Addr
  interface : ℕ
  sequenceNum : BitVec 32
  /-- The destinations for which a `WaitForRrep` timer is pending. -/
  waitForRREPTimers : List Addr
  rreqsArrivalTime : List ((Addr × BitVec 32) × ℤ)
  blacklist : List Addr
  rebootTime : ℤ
  gatewayAddress : Addr
  defaultGatewayRoute : Option ℕ
  /-- The route objects by their pointers, and the pointers in the routing table. -/
  route : ℕ → Route Addr
  routes : List ℕ
  /-- The pointer of the next route object. -/
  newRoute : ℕ
  /-- The packets sent, with their destination and time to live. -/
  sent : List (AodvControlPacket Addr × Addr × ℕ)

namespace Aodv

variable {Addr : Type} [DecidableEq Addr]

/-- The `trunc(SIMTIME_MS)` of a time. -/
def trunc (time : ℤ) : ℤ := time.tdiv 1000000000 * 1000000000

/-- `SimTime::getMaxTime()`. -/
def maxTime : ℤ := 9223372036854775807

variable (rules : RoutingTableRules Addr) (parameters : Parameters) (this : Aodv Addr)

/-! The routing table. -/

def findBestMatchingRoute (dest : Addr) : Option ℕ :=
  this.routes.find? fun p => rules.matches dest (this.route p)

/-- The best matching route if its source is this module. -/
def findOwnRoute (dest : Addr) : Option ℕ :=
  (this.findBestMatchingRoute rules dest).filter fun p => (this.route p).own

def setRoute (p : ℕ) (route : Route Addr) : Aodv Addr :=
  { this with route := fun q => if q = p then route else this.route q }

def setNextHop (p : ℕ) (nextHop : Addr) : Aodv Addr :=
  this.setRoute p { this.route p with nextHop }

/-- The routing table is told of a new metric, and puts the route at its new place. -/
def setMetric (p : ℕ) (metric : BitVec 32) : Except Error (Aodv Addr) :=
  if (this.route p).metric ≠ metric then do
    let this := this.setRoute p { this.route p with metric }
    assert (p ∈ this.routes) "entry != nullptr"
    let routes ← rules.insert this.route p (this.routes.erase p)
    return { this with routes }
  else return this

/-- `check_and_cast` of the protocol data to `AodvRouteData`. -/
def getRouteData (p : ℕ) : Except Error (AodvRouteData Addr) :=
  match (this.route p).protocolData with
  | some data => return data
  | none => throw (.runtime "check_and_cast(): Cannot cast")

def setRouteData (p : ℕ) (data : AodvRouteData Addr) : Aodv Addr :=
  this.setRoute p { this.route p with protocolData := some data }

def addPrecursor (p : ℕ) (precursorAddr : Addr) : Except Error (Aodv Addr) := do
  let data ← this.getRouteData p
  return this.setRouteData p { data with precursorList := data.precursorList.insert precursorAddr }

def addRoute (newRoute : Route Addr) : Except Error (ℕ × Aodv Addr) := do
  let p := this.newRoute
  let this := this.setRoute p newRoute
  let routes ← rules.insert this.route p this.routes
  return (p, { this with routes, newRoute := p + 1 })

def createRoute (destAddr nextHop : Addr) (hopCount : BitVec 32) (hasValidDestNum : Bool)
    (destSeqNum : BitVec 32) (isActive : Bool) (lifeTime : ℤ) : Except Error (ℕ × Aodv Addr) :=
  this.addRoute rules ⟨destAddr, rules.maxPrefixLength, nextHop, hopCount, 255,
    some this.interface, true, some ⟨[], isActive, hasValidDestNum, destSeqNum, lifeTime⟩⟩

def updateRoutingTable (route : ℕ) (nextHop : Addr) (hopCount : BitVec 32)
    (hasValidDestNum : Bool) (destSeqNum : BitVec 32) (isActive : Bool) (lifeTime : ℤ) :
    Except Error (Aodv Addr) := do
  let this := this.setNextHop route nextHop
  let this ← this.setMetric rules route hopCount
  let routingData ← this.getRouteData route
  return this.setRouteData route
    ⟨routingData.precursorList, isActive, hasValidDestNum, destSeqNum, lifeTime⟩

/-- The first part of both handlers: a route to the previous hop without a valid number. -/
def updatePreviousHop (sourceAddr : Addr) (seqNum : BitVec 32) (simTime : ℤ) :
    Except Error (Aodv Addr) :=
  match this.findOwnRoute rules sourceAddr with
  | some previousHopRoute =>
    this.updateRoutingTable rules previousHopRoute sourceAddr 1 false seqNum true
      (simTime + parameters.activeRouteTimeout)
  | none => do
    return (← this.createRoute rules sourceAddr sourceAddr 1 false seqNum true
      (simTime + parameters.activeRouteTimeout)).2

/-! Packets. -/

def sendAODVPacket (aodvPacket : AodvControlPacket Addr) (destAddr : Addr) (timeToLive : ℕ) :
    Except Error (Aodv Addr) := do
  assert (timeToLive ≠ 0) "timeToLive != 0"
  return { this with sent := this.sent ++ [(aodvPacket, destAddr, timeToLive)] }

def sendRREP (rrep : Rrep Addr) (destAddr : Addr) (timeToLive : ℕ) : Except Error (Aodv Addr) :=
  match this.findBestMatchingRoute rules destAddr with
  | none => throw (.undefinedBehavior "destRoute->getNextHopAsGeneric()")
  | some destRoute => do
    let nextHop := (this.route destRoute).nextHop
    let this ← this.addPrecursor destRoute nextHop
    let rrep := if (this.route destRoute).metric = 1 then { rrep with ackRequiredFlag := true }
      else rrep
    this.sendAODVPacket (.rrep rrep) nextHop timeToLive

def sendGRREP (grrep : Rrep Addr) (destAddr : Addr) (timeToLive : ℕ) : Except Error (Aodv Addr) :=
  match this.findBestMatchingRoute rules destAddr with
  | none => throw (.undefinedBehavior "destRoute->getNextHopAsGeneric()")
  | some destRoute =>
    this.sendAODVPacket (.rrep grrep) (this.route destRoute).nextHop timeToLive

/-- `createRREP` at the destination. -/
def createRREPAtDestination (rreq : Rreq Addr) : Rrep Addr × Aodv Addr :=
  let sequenceNum := if ¬ rreq.unknownSeqNumFlag ∧ this.sequenceNum + 1 = rreq.destSeqNum then
    this.sequenceNum + 1 else this.sequenceNum
  (⟨false, 0, rreq.destAddr, sequenceNum, rreq.originatorAddr, trunc parameters.myRouteTimeout⟩,
    { this with sequenceNum })

/-- `createRREP` at an intermediate node. -/
def createRREPAtIntermediate (rreq : Rreq Addr) (destRoute originatorRoute : ℕ)
    (lastHopAddr : Addr) (simTime : ℤ) : Except Error (Rrep Addr × Aodv Addr) := do
  let destRouteData ← this.getRouteData destRoute
  let _ ← this.getRouteData originatorRoute
  let this ← this.addPrecursor destRoute lastHopAddr
  let this ← this.addPrecursor originatorRoute (this.route destRoute).nextHop
  return (⟨false, (this.route destRoute).metric, rreq.destAddr, destRouteData.destSeqNum,
    rreq.originatorAddr, trunc (destRouteData.lifeTime - simTime)⟩, this)

def createGratuitousRREP (rreq : Rreq Addr) (originatorRoute : Option ℕ) :
    Except Error (Rrep Addr) :=
  match originatorRoute with
  | none => throw (.assertion "originatorRoute != nullptr")
  | some originatorRoute => do
    let routeData ← this.getRouteData originatorRoute
    return ⟨false, (this.route originatorRoute).metric, rreq.originatorAddr, rreq.originatorSeqNum,
      rreq.destAddr, routeData.lifeTime⟩

/-! The default route to the gateway. -/

def createDefaultGatewayRoute : Except Error (Aodv Addr) := do
  let (p, this) ← this.addRoute rules ⟨rules.unspecifiedAddress, 0, rules.unspecifiedAddress, 0,
    255, some this.interface, true, some ⟨[], false, false, 0, maxTime⟩⟩
  return { this with defaultGatewayRoute := some p }

def ensureDefaultGatewayRoute : Except Error (Aodv Addr) :=
  if this.defaultGatewayRoute = none then this.createDefaultGatewayRoute rules else return this

def updateGatewayRoute : Except Error (Aodv Addr) :=
  match this.defaultGatewayRoute with
  | none => throw (.assertion "defaultGatewayRoute != nullptr")
  | some defaultRoute => do
    let defaultRouteData ← this.getRouteData defaultRoute
    match this.findOwnRoute rules this.gatewayAddress with
    | some gatewayRoute =>
      let gatewayRouteData ← this.getRouteData gatewayRoute
      if gatewayRouteData.active then
        let nextHop := (this.route gatewayRoute).nextHop
        let metric := (this.route gatewayRoute).metric
        let this ← (this.setNextHop defaultRoute nextHop).setMetric rules defaultRoute (metric + 1)
        return this.setRouteData defaultRoute
          { defaultRouteData with active := true, lifeTime := gatewayRouteData.lifeTime }
      else return this
    | none =>
      if defaultRouteData.active then
        return (this.setRouteData defaultRoute { defaultRouteData with active := false }).setNextHop
          defaultRoute rules.unspecifiedAddress
      else return this

/-! Route replies. -/

/-- The forward route of a reply, created or updated where the reply is better. -/
def updateForwardRoute (rrep : Rrep Addr) (sourceAddr : Addr) (newHopCount : BitVec 32)
    (simTime : ℤ) : Except Error (ℕ × Aodv Addr) :=
  let destSeqNum := rrep.destSeqNum
  let lifeTime := simTime + rrep.lifeTime
  match this.findOwnRoute rules rrep.destAddr with
  | some destRoute => do
    let destRouteData ← this.getRouteData destRoute
    if ¬ destRouteData.validDestNum ∨ destRouteData.destSeqNum < destSeqNum ∨
        destSeqNum = destRouteData.destSeqNum ∧ ¬ destRouteData.active ∨
        destSeqNum = destRouteData.destSeqNum ∧ newHopCount < (this.route destRoute).metric then
      return (destRoute, ← this.updateRoutingTable rules destRoute sourceAddr newHopCount true
        destSeqNum true lifeTime)
    else return (destRoute, this)
  | none => this.createRoute rules rrep.destAddr sourceAddr newHopCount true destSeqNum true
      lifeTime

def hasOngoingRouteDiscovery (target : Addr) : Bool := this.waitForRREPTimers.contains target

/-- The delayed datagrams are put back to the network layer. -/
def completeRouteDiscovery (target : Addr) : Except Error (Aodv Addr) := do
  assert (this.hasOngoingRouteDiscovery target) "hasOngoingRouteDiscovery(target)"
  return { this with waitForRREPTimers := this.waitForRREPTimers.erase target }

def acknowledge (rrep : Rrep Addr) (sourceAddr : Addr) : Except Error (Aodv Addr) :=
  if rrep.ackRequiredFlag then this.sendAODVPacket .rrepAck sourceAddr 100 else return this

/-- The precursor of the route to the next hop towards the destination. -/
def addPrecursorToNextHop (destRoute : ℕ) (precursorAddr : Addr) : Except Error (Aodv Addr) :=
  match this.findOwnRoute rules (this.route destRoute).nextHop with
  | some nextHopToDestRoute => this.addPrecursor nextHopToDestRoute precursorAddr
  | none => return this

/-- The reply goes on to its originator along the reverse route. -/
def forwardToOriginator (rrep : Rrep Addr) (sourceAddr : Addr) (destRoute originatorRoute : ℕ)
    (simTime : ℤ) : Except Error (Aodv Addr) := do
  let originatorRouteData ← this.getRouteData originatorRoute
  let this := this.setRouteData originatorRoute { originatorRouteData with
    lifeTime := max (simTime + parameters.activeRouteTimeout) originatorRouteData.lifeTime }
  if this.rebootTime + parameters.deletePeriod < simTime ∨ this.rebootTime = 0 then
    let this ← this.acknowledge rrep sourceAddr
    let nextHop := (this.route originatorRoute).nextHop
    let this ← this.addPrecursor destRoute nextHop
    let this ← this.addPrecursorToNextHop rules destRoute nextHop
    this.sendAODVPacket (.rrep { rrep with ackRequiredFlag := false }) nextHop 100
  else return this

/-- The reply has reached the node that asked for the route. -/
def completeDiscovery (rrep : Rrep Addr) (sourceAddr : Addr) (newHopCount : BitVec 32)
    (destRoute : ℕ) (simTime : ℤ) : Except Error (Aodv Addr) := do
  let this ← this.updateRoutingTable rules destRoute sourceAddr newHopCount true rrep.destSeqNum
    true (simTime + rrep.lifeTime)
  let this ← this.completeRouteDiscovery rrep.destAddr
  if this.gatewayAddress ≠ rules.unspecifiedAddress ∧ rrep.destAddr = this.gatewayAddress then
    let this ← this.ensureDefaultGatewayRoute rules
    this.updateGatewayRoute rules
  else return this

/-- `handleRREP` for a reply that is not a Hello message. -/
def handleRREP (rrep : Rrep Addr) (sourceAddr : Addr) (simTime : ℤ) : Except Error (Aodv Addr) := do
  let this ← this.updatePreviousHop rules parameters sourceAddr rrep.destSeqNum simTime
  let newHopCount := rrep.hopCount + 1
  let rrep := { rrep with hopCount := newHopCount }
  let (destRoute, this) ← this.updateForwardRoute rules rrep sourceAddr newHopCount simTime
  if this.selfIPAddress ≠ rrep.originatorAddr then
    match this.findOwnRoute rules rrep.originatorAddr with
    | some originatorRoute =>
      this.forwardToOriginator rules parameters rrep sourceAddr destRoute originatorRoute simTime
    | none => return this
  else if this.hasOngoingRouteDiscovery rrep.destAddr then
    this.completeDiscovery rules rrep sourceAddr newHopCount destRoute simTime
  else return this

/-! Route requests. -/

/-- A request with the identifier has arrived within the path discovery time. -/
def isKnownRREQ (rreq : Rreq Addr) (simTime : ℤ) : Bool :=
  match this.rreqsArrivalTime.lookup (rreq.originatorAddr, rreq.rreqId) with
  | some arrivalTime => simTime - arrivalTime ≤ parameters.pathDiscoveryTime
  | none => false

/-- The reverse route of a request, created or updated where the request is better. -/
def updateReverseRoute (rreq : Rreq Addr) (sourceAddr : Addr) (hopCount : BitVec 32)
    (simTime : ℤ) : Except Error (ℕ × Aodv Addr) :=
  let minimalLifeTime := simTime + 2 * parameters.netTraversalTime -
    (2 * hopCount).toNat * parameters.nodeTraversalTime
  let newLifeTime := max simTime minimalLifeTime
  let rreqSeqNum := rreq.originatorSeqNum
  match this.findOwnRoute rules rreq.originatorAddr with
  | some reverseRoute => do
    let routeData ← this.getRouteData reverseRoute
    let routeSeqNum := routeData.destSeqNum
    let newSeqNum := if routeSeqNum.slt rreqSeqNum then rreqSeqNum else routeSeqNum
    if routeSeqNum.slt rreqSeqNum ∨
        rreqSeqNum = routeSeqNum ∧ hopCount.slt (this.route reverseRoute).metric ∨
        rreq.unknownSeqNumFlag then
      return (reverseRoute, ← this.updateRoutingTable rules reverseRoute sourceAddr hopCount true
        newSeqNum true newLifeTime)
    else return (reverseRoute, this)
  | none => this.createRoute rules rreq.originatorAddr sourceAddr hopCount true rreqSeqNum true
      newLifeTime

/-- An intermediate node answers a request, and tells the destination of the originator. -/
def replyForDestination (rreq : Rreq Addr) (sourceAddr : Addr) (destRoute reverseRoute : ℕ)
    (simTime : ℤ) : Except Error (Aodv Addr) := do
  let (rrep, this) ← this.createRREPAtIntermediate rreq destRoute reverseRoute sourceAddr simTime
  let this ← this.sendRREP rules rrep rreq.originatorAddr 255
  if rreq.gratuitousRREPFlag then
    let originatorRoute := this.findBestMatchingRoute rules rreq.originatorAddr
    let grrep ← this.createGratuitousRREP rreq originatorRoute
    this.sendGRREP rules grrep rreq.destAddr 100
  else return this

/-- A request that the node does not answer goes on to its neighbours. -/
def forwardRREQ (rreq : Rreq Addr) (destRouteData : Option (AodvRouteData Addr)) (timeToLive : ℕ)
    (simTime : ℤ) : Except Error (Aodv Addr) :=
  if 0 < timeToLive ∧
    (this.rebootTime + parameters.deletePeriod < simTime ∨ this.rebootTime = 0) then
    let destSeqNum := match destRouteData with
      | some data => if data.destSeqNum < rreq.destSeqNum then rreq.destSeqNum else data.destSeqNum
      | none => rreq.destSeqNum
    this.sendAODVPacket (.rreq { rreq with destSeqNum, unknownSeqNumFlag := false })
      rules.broadcastAddress timeToLive
  else return this

/-- The second part of `handleRREQ`: the node answers the request or forwards it. -/
def replyOrForward (rreq : Rreq Addr) (sourceAddr : Addr) (reverseRoute timeToLive : ℕ)
    (simTime : ℤ) : Except Error (Aodv Addr) :=
  let destRoute := this.findBestMatchingRoute rules rreq.destAddr
  let destRouteData := destRoute.bind fun p => (this.route p).protocolData
  if rreq.destAddr = this.selfIPAddress then
    let (rrep, this) := this.createRREPAtDestination parameters rreq
    this.sendRREP rules rrep rreq.originatorAddr 255
  else match destRoute, destRouteData with
    | some p, some data =>
      if data.active ∧ data.validDestNum ∧ rreq.destSeqNum ≤ data.destSeqNum then
        if (this.route p).nextHop = sourceAddr then return this
        else if ¬ rreq.destOnlyFlag then
          this.replyForDestination rules rreq sourceAddr p reverseRoute simTime
        else this.forwardRREQ rules parameters rreq destRouteData timeToLive simTime
      else this.forwardRREQ rules parameters rreq destRouteData timeToLive simTime
    | _, _ => this.forwardRREQ rules parameters rreq destRouteData timeToLive simTime

def handleRREQ (rreq : Rreq Addr) (sourceAddr : Addr) (timeToLive : ℕ) (simTime : ℤ) :
    Except Error (Aodv Addr) :=
  if this.blacklist.contains sourceAddr then return this
  else do
    let this ← this.updatePreviousHop rules parameters sourceAddr rreq.originatorSeqNum simTime
    if this.isKnownRREQ parameters rreq simTime then return this
    else
      let this := { this with rreqsArrivalTime :=
        ((rreq.originatorAddr, rreq.rreqId), simTime) :: this.rreqsArrivalTime }
      let hopCount := rreq.hopCount + 1
      let rreq := { rreq with hopCount }
      let (reverseRoute, this) ← this.updateReverseRoute rules parameters rreq sourceAddr hopCount
        simTime
      this.replyOrForward rules parameters rreq sourceAddr reverseRoute timeToLive simTime

end Aodv

end Inet
