import Inet.Common.Error
import Mathlib.Data.List.Basic
import Mathlib.Data.List.Nodup

/-! # The RIP module

A RIP router keeps the routes that it has imported or learned, with the route
of the host routing table that belongs to each. It sends them to its neighbors
in regular and triggered updates, and learns from their responses. Routes that
have not been refreshed are invalidated, then purged, when the next response is
made. Times are in simulation ticks.
-/

namespace Inet

namespace Rip

def infiniteMetric : ℕ := 16

inductive RipMode where
  | noRip
  | passive
  | noSplitHorizon
  | splitHorizon
  | splitHorizonPoisonReverse
  deriving DecidableEq

/-- An interface on which RIP is used, with the state of its `NetworkInterface`. -/
structure RipNetworkInterface where
  id : ℕ
  metric : ℕ
  mode : RipMode
  isUp : Bool
  metric_lt : metric < infiniteMetric

inductive RouteType where
  | rte
  | static
  | default
  | redistribute
  | interface
  deriving DecidableEq

/-- What the module asks about a route that others have made. -/
inductive RouteKind where
  | loopback
  | localInterface (ie : ℕ)
  | default
  | unicast
  | multicastOrLinkLocal

variable {A : Type}

/-- A route of the host routing table. The module is the source of its `own` routes. -/
structure HostRoute (A : Type) where
  id : ℕ
  own : Bool
  kind : RouteKind
  dest : A
  prefixLength : ℕ
  nextHop : A
  ie : Option ℕ
  metric : ℕ

/-- The id stands for the address of the object. -/
structure RipRoute (A : Type) where
  id : ℕ
  route : Option (HostRoute A)
  type : RouteType
  dest : A
  nextHop : A
  prefixLength : ℕ
  metric : ℕ
  ie : Option ℕ
  fromAddr : Option A
  lastUpdateTime : ℕ
  changed : Bool
  tag : ℕ
  lastInvalid : ℕ

namespace RipRoute

/-- The constructor. -/
def ofRoute (id : ℕ) (route : HostRoute A) (type : RouteType) (metric tag : ℕ) : RipRoute A where
  id := id
  route := some route
  type := type
  dest := route.dest
  nextHop := route.nextHop
  prefixLength := route.prefixLength
  metric := metric
  ie := route.ie
  fromAddr := none
  lastUpdateTime := 0
  changed := false
  tag := tag
  lastInvalid := 0

/-- A learned route hands its changes on to the host route. -/
def writeThrough (r : RipRoute A) (write : HostRoute A → HostRoute A) : RipRoute A :=
  { r with route := if r.type = .rte then r.route.map write else r.route }

def setRoute (r : RipRoute A) (route : Option (HostRoute A)) : RipRoute A :=
  { r with route := route }

def setType (r : RipRoute A) (type : RouteType) : RipRoute A := { r with type := type }

def setDestination (r : RipRoute A) (dest : A) : RipRoute A := { r with dest := dest }

def setPrefixLength (r : RipRoute A) (prefixLength : ℕ) : RipRoute A :=
  { r with prefixLength := prefixLength }

def setNextHop (r : RipRoute A) (nextHop : A) : RipRoute A :=
  { r with nextHop := nextHop }.writeThrough fun h => { h with nextHop := nextHop }

def setMetric (r : RipRoute A) (metric : ℕ) : RipRoute A :=
  { r with metric := metric }.writeThrough fun h => { h with metric := metric }

def setInterface (r : RipRoute A) (ie : Option ℕ) : RipRoute A :=
  { r with ie := ie }.writeThrough fun h => { h with ie := ie }

def setFrom (r : RipRoute A) (fromAddr : A) : RipRoute A := { r with fromAddr := some fromAddr }

def setLastUpdateTime (r : RipRoute A) (time : ℕ) : RipRoute A := { r with lastUpdateTime := time }

def setChanged (r : RipRoute A) (changed : Bool) : RipRoute A := { r with changed := changed }

def setRouteTag (r : RipRoute A) (tag : ℕ) : RipRoute A := { r with tag := tag }

def setLastInvalidationTime (r : RipRoute A) (time : ℕ) : RipRoute A :=
  { r with lastInvalid := time }

end RipRoute

structure RipEntry (A : Type) where
  address : A
  prefixLength : ℕ
  nextHop : Option A
  routeTag : ℕ
  metric : ℕ

/-- What one call of `sendRoutes` sends on an interface: an entry of the response, next to the id of
the route that it is for. -/
structure Report (A : Type) where
  interfaceId : ℕ
  changedOnly : Bool
  entries : List (ℕ × RipEntry A)

/-- The parameters. `triggeredUpdateDelay` is volatile: it is drawn anew whenever it is read. -/
structure Parameters where
  updateInterval : ℕ
  routeExpiryTime : ℕ
  routePurgeTime : ℕ
  holdDownTime : ℕ
  triggeredUpdate : Bool
  triggeredUpdateDelay : ℕ → ℕ

end Rip

open Rip in
/-- The module. The timers hold the times at which they are due. -/
structure Rip (A : Type) where
  simTime : ℕ
  ripInterfaces : List RipNetworkInterface
  ripRoutingTable : List (RipRoute A)
  updateTimer : Option ℕ
  triggeredUpdateTimer : Option ℕ
  /-- How often `triggeredUpdateDelay` has been drawn. -/
  draws : ℕ
  /-- The id of the next route that is created. -/
  nextId : ℕ
  sent : List (Report A)

namespace Rip

variable {A : Type} [DecidableEq A]

def findRipInterfaceById (s : Rip A) (interfaceId : ℕ) : Option RipNetworkInterface :=
  s.ripInterfaces.find? (·.id = interfaceId)

/-- The route behind a pointer. -/
def getRipRoute (s : Rip A) (k : ℕ) : Option (RipRoute A) :=
  s.ripRoutingTable.find? (·.id = k)

def findRipRoute (s : Rip A) (destination : A) (prefixLength : ℕ) : Option (RipRoute A) :=
  s.ripRoutingTable.find? fun r => r.dest = destination ∧ r.prefixLength = prefixLength

/-- `getRoute() == route`, where the own routes and those of others have ids of their own. -/
def RipRoute.refersTo (r : RipRoute A) (route : HostRoute A) : Bool :=
  r.route.any fun h => h.id = route.id ∧ h.own = route.own

def findRipRouteOf (s : Rip A) (route : HostRoute A) : Option (RipRoute A) :=
  s.ripRoutingTable.find? (·.refersTo route)

def findInterfaceRoute (s : Rip A) (ie : ℕ) : Option (RipRoute A) :=
  s.ripRoutingTable.find? fun r => r.type = .interface ∧ r.ie = some ie

def modifyRoute (s : Rip A) (k : ℕ) (f : RipRoute A → RipRoute A) : Rip A :=
  { s with ripRoutingTable := s.ripRoutingTable.map fun r => if r.id = k then f r else r }

/-- Sets the update timer to trigger an update, unless it is already scheduled or a regular update
is due before. -/
def triggerUpdate (c : Parameters) (s : Rip A) : Rip A :=
  if c.triggeredUpdate ∧ s.triggeredUpdateTimer = none then
    let delay := c.triggeredUpdateDelay s.draws
    let s := { s with draws := s.draws + 1 }
    if ∀ t ∈ s.updateTimer, t > s.simTime + delay then
      { s with triggeredUpdateTimer := some (s.simTime + delay) }
    else s
  else s

/-- The part of `invalidateRoute` behind the deletion of the host route. -/
def markInvalid (c : Parameters) (k : ℕ) (s : Rip A) : Rip A :=
  triggerUpdate c (s.modifyRoute k fun r =>
    ((r.setMetric infiniteMetric).setChanged true).setLastInvalidationTime s.simTime)

/-- The turn of `routeDeletedSignal` for one route. -/
def forgetHostRoute (c : Parameters) (route : HostRoute A) (s : Rip A) (k : ℕ) : Rip A :=
  if (s.getRipRoute k).any (·.refersTo route) then
    let s := s.modifyRoute k (·.setRoute none)
    -- `invalidateRoute` finds no host route here
    if route.own then s else markInvalid c k s
  else s

/-- `routeDeletedSignal`: also sent when the module itself calls `rt->deleteRoute`. -/
def deleteRoute (c : Parameters) (route : HostRoute A) (s : Rip A) : Rip A :=
  (s.ripRoutingTable.map (·.id)).foldl (forgetHostRoute c route) s

def invalidateRoute (c : Parameters) (k : ℕ) (s : Rip A) : Rip A :=
  match (s.getRipRoute k).bind (·.route) with
  | some route => markInvalid c k (deleteRoute c route (s.modifyRoute k (·.setRoute none)))
  | none => markInvalid c k s

def purgeRoute (c : Parameters) (r : RipRoute A) (s : Rip A) : Rip A :=
  let s :=
    match r.route with
    | some route => deleteRoute c route (s.modifyRoute r.id (·.setRoute none))
    | none => s
  { s with ripRoutingTable := s.ripRoutingTable.filter (·.id ≠ r.id) }

/-- The turn of `checkExpiredRoutes` for one route. -/
def checkExpiredRoute (c : Parameters) (s : Rip A) (k : ℕ) : Rip A :=
  match s.getRipRoute k with
  | some r =>
    if r.type = .rte then
      if s.simTime ≥ r.lastUpdateTime + c.routeExpiryTime + c.routePurgeTime then purgeRoute c r s
      else if s.simTime ≥ r.lastUpdateTime + c.routeExpiryTime then invalidateRoute c r.id s
      else s
    else s
  | none => s

def checkExpiredRoutes (c : Parameters) (s : Rip A) : Rip A :=
  (s.ripRoutingTable.map (·.id)).foldl (checkExpiredRoute c) s

/-- The entry for a route in an update on an interface. -/
def entryFor (ripInterface : RipNetworkInterface) (changedOnly : Bool) (r : RipRoute A) :
    Option (ℕ × RipEntry A) :=
  if changedOnly ∧ r.changed = false then none
  else if r.ie = some ripInterface.id ∧ ripInterface.mode = .splitHorizon then none
  else
    let metric :=
      if r.ie = some ripInterface.id ∧ ripInterface.mode = .splitHorizonPoisonReverse then
        infiniteMetric
      else r.metric
    some (r.id, ⟨r.dest, r.prefixLength, none, r.tag, metric⟩)

/-- The split of the entries into packets is left out. -/
def sendRoutes (c : Parameters) (changedOnly : Bool) (s : Rip A)
    (ripInterface : RipNetworkInterface) : Except Error (Rip A) :=
  match ripInterface.mode with
  | .noRip => pure s
  | .passive => pure (checkExpiredRoutes c s)
  | _ => do
    let s := checkExpiredRoutes c s
    assert (changedOnly ∧ s.ripRoutingTable ≠ [] → c.triggeredUpdate) "triggeredUpdate"
    let entries := s.ripRoutingTable.filterMap (entryFor ripInterface changedOnly)
    if entries = [] then pure s
    else pure { s with sent := s.sent ++ [⟨ripInterface.id, changedOnly, entries⟩] }

/-- The changed or all routes are sent on the interfaces that are up. -/
def processUpdate (c : Parameters) (triggered : Bool) (s : Rip A) : Except Error (Rip A) := do
  let s ← (s.ripInterfaces.filter (·.isUp)).foldlM (sendRoutes c triggered) s
  pure { s with ripRoutingTable := s.ripRoutingTable.map (·.setChanged false) }

inductive RequestEntry (A : Type) where
  | none (metric : ℕ)
  | inet (address : A) (prefixLength : ℕ)
  | other (addressFamilyId : ℕ)

/-- The metrics that are answered to an enumeration of prefixes. -/
def answerRequest (s : Rip A) : List (RequestEntry A) → Except Error (List ℕ)
  | [] => pure []
  | .inet address prefixLength :: entries => do
    let metrics ← answerRequest s entries
    match s.findRipRoute address prefixLength with
    | some r => pure (r.metric :: metrics)
    | none => pure (infiniteMetric :: metrics)
  | .none _ :: _ => throw (.runtime "RIP: invalid request.")
  | .other _ :: _ => throw (.runtime "RIP: request has invalid addressFamilyId.")

def requestsAll : List (RequestEntry A) → Bool
  | [.none metric] => metric = infiniteMetric
  | _ => false

def processRequest (c : Parameters) (interfaceId : ℕ) (entries : List (RequestEntry A))
    (s : Rip A) : Except Error (Rip A) :=
  if requestsAll entries then
    match s.findRipInterfaceById interfaceId with
    | some ripInterface => sendRoutes c false s ripInterface
    | none => pure s
  else do
    let _ ← answerRequest s entries
    pure s

/-- A new route of the host routing table, with the module as its source. -/
def newHostRoute (s : Rip A) (dest : A) (prefixLength ie : ℕ) (nextHop : A) (metric : ℕ) :
    HostRoute A where
  id := s.nextId
  own := true
  kind := .unicast
  dest := dest
  prefixLength := prefixLength
  nextHop := nextHop
  ie := some ie
  metric := metric

/-- `setRoute(createRoute(...))`. -/
def createRouteFor (s : Rip A) (r : RipRoute A) (ie : ℕ) (nextHop : A) (metric : ℕ) : Rip A :=
  let route := s.newHostRoute r.dest r.prefixLength ie nextHop metric
  { s with nextId := s.nextId + 1 }.modifyRoute r.id (·.setRoute (some route))

def addRoute (c : Parameters) (dest : A) (prefixLength ie : ℕ) (nextHop : A) (metric routeTag : ℕ)
    (src : A) (s : Rip A) : Rip A :=
  let route := s.newHostRoute dest prefixLength ie nextHop metric
  let r := RipRoute.ofRoute (s.nextId + 1) route .rte metric routeTag
  let r := ((r.setFrom src).setLastUpdateTime s.simTime).setChanged true
  triggerUpdate c
    { s with ripRoutingTable := s.ripRoutingTable ++ [r], nextId := s.nextId + 2 }

/-- What `updateRoute` does to the host route of a route that was invalid. -/
def reviveRoute (c : Parameters) (r : RipRoute A) (ie : ℕ) (nextHop : A) (metric : ℕ) (s : Rip A) :
    Rip A :=
  let s :=
    match r.route with
    | some route => deleteRoute c route s
    | none => s
  let s := s.modifyRoute r.id fun r => (r.setType .rte).setNextHop nextHop
  s.createRouteFor r ie nextHop metric

/-- What `updateRoute` does to the host route of a route that was valid. -/
def replaceRoute (c : Parameters) (r : RipRoute A) (ie : ℕ) (nextHop : A) (metric : ℕ) (s : Rip A) :
    Except Error (Rip A) :=
  match r.route with
  | none => throw (.assertion "route")
  | some route =>
    let s := deleteRoute c route s
    let s := s.modifyRoute r.id fun r => (r.setRoute none).setNextHop nextHop
    pure (if metric < infiniteMetric then s.createRouteFor r ie nextHop metric else s)

def updateRoute (c : Parameters) (r : RipRoute A) (ie : ℕ) (nextHop : A) (metric routeTag : ℕ)
    (src : A) (s : Rip A) : Except Error (Rip A) := do
  let s := s.modifyRoute r.id fun r =>
    (((r.setInterface (some ie)).setMetric metric).setFrom src).setRouteTag routeTag
  let s :=
    if r.metric = infiniteMetric ∧ metric < infiniteMetric then
      reviveRoute c r ie nextHop metric s
    else s
  let s ← if r.metric ≠ infiniteMetric then replaceRoute c r ie nextHop metric s else pure s
  let s := triggerUpdate c (s.modifyRoute r.id (·.setChanged true))
  if r.metric ≠ infiniteMetric ∧ metric = infiniteMetric then pure (invalidateRoute c r.id s)
  else pure (s.modifyRoute r.id (·.setLastUpdateTime s.simTime))

/-- The metric of a route through the sender of an entry. -/
def RipEntry.metricVia (entry : RipEntry A) (incomingIe : RipNetworkInterface) : ℕ :=
  min (entry.metric + max incomingIe.metric 1) infiniteMetric

/-- Whether the hold-down timer or a better host route keeps an unreachable route from becoming
reachable. -/
def preventRouteUpdate (c : Parameters) (s : Rip A) (r : RipRoute A) (metric : ℕ) : Bool :=
  if r.metric = infiniteMetric ∧ metric < infiniteMetric then
    if c.holdDownTime > 0 ∧ s.simTime < r.lastInvalid + c.holdDownTime then true
    else r.route.any fun route => route.metric ≤ metric
  else false

/-- The turn of `processResponse` for one entry of a valid response. -/
def processEntry (c : Parameters) (srcAddr : A) (incomingIe : RipNetworkInterface)
    (entry : RipEntry A) (s : Rip A) : Except Error (Rip A) :=
  let metric := entry.metricVia incomingIe
  let nextHop := entry.nextHop.getD srcAddr
  match s.findRipRoute entry.address entry.prefixLength with
  | some r =>
    if (r.type = .static ∨ r.type = .default) ∧ r.metric ≠ infiniteMetric then pure s
    else
      let s :=
        if r.fromAddr = some srcAddr then s.modifyRoute r.id (·.setLastUpdateTime s.simTime) else s
      if metric < r.metric ∨ (r.fromAddr = some srcAddr ∧ r.metric ≠ metric) then
        if preventRouteUpdate c s r metric then pure s
        else updateRoute c r incomingIe.id nextHop metric entry.routeTag srcAddr s
      else pure s
  | none =>
    if metric ≠ infiniteMetric then
      pure (addRoute c entry.address entry.prefixLength incomingIe.id nextHop metric entry.routeTag
        srcAddr s)
    else pure s

def importRoute (route : HostRoute A) (type : RouteType) (metric : ℕ) (s : Rip A) :
    Except Error (Rip A) := do
  assert (metric < infiniteMetric) "metric < RIP_INFINITE_METRIC"
  let r := RipRoute.ofRoute s.nextId route type metric 0
  let r :=
    match type, route.kind with
    | .interface, .localInterface ie => r.setInterface (some ie)
    | _, _ => r
  pure { s with ripRoutingTable := s.ripRoutingTable ++ [r], nextId := s.nextId + 1 }

def getInterfaceMetric (s : Rip A) (ie : ℕ) : ℕ :=
  match s.findRipInterfaceById ie with
  | some ripIe => ripIe.metric
  | none => 1

def importInterfaceRoute (ie : ℕ) (route : HostRoute A) (s : Rip A) : Except Error (Rip A) :=
  if ∀ ripIe ∈ s.findRipInterfaceById ie, ripIe.mode ≠ .noRip then
    importRoute route .interface (s.getInterfaceMetric ie) s
  else pure s

/-- The turn of `startRIPRouting` for one route of the host routing table. -/
def importHostRoute (s : Rip A) (route : HostRoute A) : Except Error (Rip A) :=
  match route.kind with
  | .loopback => pure s
  | .localInterface ie => importInterfaceRoute ie route s
  | .default => importRoute route .default 1 s
  | .unicast => importRoute route .static 1 s
  | .multicastOrLinkLocal => pure s

def startRIPRouting (c : Parameters) (ripInterfaces : List RipNetworkInterface)
    (routes : List (HostRoute A)) (s : Rip A) : Except Error (Rip A) := do
  let s ← routes.foldlM importHostRoute { s with ripInterfaces := ripInterfaces }
  pure { s with updateTimer := some (s.simTime + c.updateInterval) }

def stopRIPRouting (s : Rip A) : Rip A :=
  { s with updateTimer := none, triggeredUpdateTimer := none, ripRoutingTable := [],
           ripInterfaces := [] }

def handleStopOperation (c : Parameters) (s : Rip A) : Except Error (Rip A) := do
  let s := (s.ripRoutingTable.map (·.id)).foldl (fun s k => invalidateRoute c k s) s
  let s ← s.ripInterfaces.foldlM (sendRoutes c false) s
  pure s.stopRIPRouting

/-- The state of an interface has changed. -/
def setUp (s : Rip A) (ie : ℕ) (isUp : Bool) : Rip A :=
  { s with ripInterfaces := s.ripInterfaces.map fun i : RipNetworkInterface =>
      if i.id = ie then { i with isUp := isUp } else i }

/-- `interfaceStateChangedSignal` from an interface that is not up or has no carrier. -/
def interfaceDown (c : Parameters) (ie : ℕ) (s : Rip A) : Rip A :=
  let s := s.setUp ie false
  ((s.ripRoutingTable.filter (·.ie = some ie)).map (·.id)).foldl
    (fun s k => invalidateRoute c k s) s

/-- A request is sent, which changes nothing here. -/
def interfaceUp (ie : ℕ) (s : Rip A) : Rip A :=
  s.setUp ie true

def deleteRipInterface (ie : ℕ) (s : Rip A) : Rip A :=
  { s with
    ripInterfaces := s.ripInterfaces.filter (·.id ≠ ie)
    ripRoutingTable := s.ripRoutingTable.filter (·.ie ≠ some ie) }

/-- `routeAddedSignal`. -/
def routeAdded (c : Parameters) (route : HostRoute A) (s : Rip A) : Except Error (Rip A) :=
  if route.own then pure s
  else
    match route.kind with
    | .localInterface ie =>
      match s.findInterfaceRoute ie with
      | some r =>
        let metric := s.getInterfaceMetric ie
        pure (triggerUpdate c (s.modifyRoute r.id fun r =>
          ((r.setRoute (some route)).setMetric metric).setChanged true))
      | none => importInterfaceRoute ie route s
    | _ => pure s

/-- `routeChangedSignal`. The object behind the route is the one that has changed. -/
def routeChanged (c : Parameters) (route : HostRoute A) (s : Rip A) : Rip A :=
  if route.own then s
  else
    match s.findRipRouteOf route with
    | some r =>
      let changed := route.dest ≠ r.dest ∨ route.prefixLength ≠ r.prefixLength ∨
        route.nextHop ≠ r.nextHop ∨ route.ie ≠ r.ie
      let s := s.modifyRoute r.id fun r =>
        ((((r.setRoute (some route)).setDestination route.dest).setPrefixLength
          route.prefixLength).setNextHop route.nextHop).setInterface route.ie
      if changed then triggerUpdate c (s.modifyRoute r.id (·.setChanged true)) else s
    | none => s

/-- What happens to the module. A valid response arrives as its entries, one after another. -/
inductive Event (A : Type) where
  | startup (ripInterfaces : List RipNetworkInterface) (routes : List (HostRoute A))
  | updateTimer
  | triggeredUpdateTimer
  | request (interfaceId : ℕ) (entries : List (RequestEntry A))
  | responseEntry (srcAddr : A) (interfaceId : ℕ) (entry : RipEntry A)
  | interfaceCreated (ripInterface : RipNetworkInterface)
  | interfaceDeleted (ie : ℕ)
  | interfaceDown (ie : ℕ)
  | interfaceUp (ie : ℕ)
  | routeDeleted (route : HostRoute A)
  | routeAdded (route : HostRoute A)
  | routeChanged (route : HostRoute A)
  | stop
  | crash

def handle (c : Parameters) (s : Rip A) : Event A → Except Error (Rip A)
  | .startup ripInterfaces routes => startRIPRouting c ripInterfaces routes s
  | .updateTimer => do
    let s ← processUpdate c false { s with updateTimer := none }
    pure { s with updateTimer := some (s.simTime + c.updateInterval) }
  | .triggeredUpdateTimer => processUpdate c true { s with triggeredUpdateTimer := none }
  | .request interfaceId entries => processRequest c interfaceId entries s
  | .responseEntry srcAddr interfaceId entry =>
    match s.findRipInterfaceById interfaceId with
    | some incomingIe => processEntry c srcAddr incomingIe entry s
    | none => pure s
  | .interfaceCreated ripInterface =>
    pure { s with ripInterfaces := s.ripInterfaces ++ [ripInterface] }
  | .interfaceDeleted ie => pure (deleteRipInterface ie s)
  | .interfaceDown ie => pure (interfaceDown c ie s)
  | .interfaceUp ie => pure (interfaceUp ie s)
  | .routeDeleted route => pure (deleteRoute c route s)
  | .routeAdded route => routeAdded c route s
  | .routeChanged route => pure (routeChanged c route s)
  | .stop => handleStopOperation c s
  | .crash => pure s.stopRIPRouting

def step (c : Parameters) (now : ℕ) (e : Event A) (s : Rip A) : Except Error (Rip A) :=
  handle c { s with simTime := now } e

/-- The simulation kernel delivers the events in the order of their times, and a timer when it is
due. Interfaces have different ids. -/
def Due (s : Rip A) (now : ℕ) (e : Event A) : Prop :=
  s.simTime ≤ now ∧ (∀ t ∈ s.updateTimer, now ≤ t) ∧ (∀ t ∈ s.triggeredUpdateTimer, now ≤ t) ∧
    match e with
    | .startup ripInterfaces _ => s.ripInterfaces = [] ∧ (ripInterfaces.map (·.id)).Nodup
    | .updateTimer => s.updateTimer = some now
    | .triggeredUpdateTimer => s.triggeredUpdateTimer = some now
    | .interfaceCreated ripInterface => ∀ i ∈ s.ripInterfaces, i.id ≠ ripInterface.id
    | _ => True

/-- The module before it is started for the first time. -/
def initial : Rip A where
  simTime := 0
  ripInterfaces := []
  ripRoutingTable := []
  updateTimer := none
  triggeredUpdateTimer := none
  draws := 0
  nextId := 0
  sent := []

/-- The runs from one state to another in which every event comes in a state where it is allowed. -/
inductive Run (c : Parameters) (Allowed : Rip A → ℕ → Event A → Prop) : Rip A → Rip A → Prop
  | refl (s : Rip A) : Run c Allowed s s
  | cons {s t u : Rip A} {now : ℕ} {e : Event A} : s.Due now e → Allowed s now e →
      step c now e s = .ok t → Run c Allowed t u → Run c Allowed s u

end Rip

end Inet
