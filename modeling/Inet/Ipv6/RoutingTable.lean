import Inet.Common.Error
import Mathlib.Data.List.Sort
import Mathlib.Logic.Function.Basic

/-! # The IPv6 routing table

The route list with its order, the destination cache, the mutators of both,
and the resolution of a destination by `Ipv6::determineOutputInterface`.
-/

namespace Inet.Ipv6

/-- The four words of an `Ipv6Address`. -/
structure Ipv6Address where
  d0 : UInt32
  d1 : UInt32
  d2 : UInt32
  d3 : UInt32
  deriving DecidableEq, Repr

namespace Ipv6Address

def unspecified : Ipv6Address := ⟨0, 0, 0, 0⟩

def isUnspecified (a : Ipv6Address) : Bool := (a.d0 ||| a.d1 ||| a.d2 ||| a.d3) == 0

/-- The mask of one word of which the first `n` bits count. -/
def wordMask (n : ℕ) : UInt32 := 0xFFFFFFFF <<< UInt32.ofNat (32 - n)

def constructMask (prefixLength : ℤ) : Except Error Ipv6Address := do
  assert (0 ≤ prefixLength ∧ prefixLength ≤ 128)
    "prefixLength >= 0 && prefixLength <= 128 && mask != nullptr"
  let n := prefixLength.toNat
  pure <|
    if n = 0 then unspecified
    else if n ≤ 32 then ⟨wordMask n, 0, 0, 0⟩
    else if n ≤ 64 then ⟨0xFFFFFFFF, wordMask (n - 32), 0, 0⟩
    else if n ≤ 96 then ⟨0xFFFFFFFF, 0xFFFFFFFF, wordMask (n - 64), 0⟩
    else ⟨0xFFFFFFFF, 0xFFFFFFFF, 0xFFFFFFFF, wordMask (n - 96)⟩

def «matches» (a : Ipv6Address) (destPrefix : Ipv6Address) (prefixLength : ℤ) :
    Except Error Bool := do
  let mask ← constructMask prefixLength
  pure ((((a.d0 ^^^ destPrefix.d0) &&& mask.d0) ||| ((a.d1 ^^^ destPrefix.d1) &&& mask.d1) |||
    ((a.d2 ^^^ destPrefix.d2) &&& mask.d2) ||| ((a.d3 ^^^ destPrefix.d3) &&& mask.d3)) == 0)

end Ipv6Address

/-- `IRoute::SourceType` -/
inductive SourceType where
  | manual | ifaceNetmask | routerAdvertisement | ownAdvPrefix | icmpRedirect | rip | ospf | bgp
  | zebra | manet | manet2 | dymo | aodv | eigrp | lisp | babel | odr | unknown | isis
  deriving DecidableEq, Repr

/-- A route object. `ptr` is its address; `interface` is the id of the interface it points to, if
any. -/
structure Ipv6Route where
  ptr : ℕ
  destPrefix : Ipv6Address
  prefixLength : ℤ
  sourceType : SourceType
  interface : Option ℤ := none
  nextHop : Ipv6Address := .unspecified
  expiryTime : ℤ := 0
  metric : ℤ := 0
  adminDist : ℕ := 255
  deriving DecidableEq, Repr

namespace Ipv6Route

/-- `Ipv6Route::dDirectlyConnected` -/
def dDirectlyConnected : ℕ := 0

/-- Expired routes are skipped; zero means infinity. -/
def expired (now : ℤ) (route : Ipv6Route) : Bool :=
  decide (route.expiryTime ≠ 0 ∧ now > route.expiryTime)

def interfaceId (route : Ipv6Route) : ℤ := route.interface.getD (-1)

/-- The next hop towards `dest`: an unspecified one is the host itself. -/
def nextHopTo (route : Ipv6Route) (dest : Ipv6Address) : Ipv6Address :=
  if route.nextHop.isUnspecified then dest else route.nextHop

end Ipv6Route

structure DestCacheEntry where
  interfaceId : ℤ
  nextHopAddr : Ipv6Address
  expiryTime : ℤ
  deriving DecidableEq, Repr

structure Ipv6RoutingTable where
  useAdminDist : Bool
  isRouter : Bool
  routeList : List Ipv6Route
  destCache : Ipv6Address → Option DestCacheEntry

/-- What becomes of a datagram whose destination is resolved. -/
inductive Resolution where
  | found (nextHop : Ipv6Address) (interfaceId : ℤ)
  | destinationUnreachable
  | neighbourDiscovery (nextHop : Ipv6Address) (interfaceId : ℤ)
  deriving DecidableEq, Repr

namespace Ipv6RoutingTable

/-! ## The destination cache -/

def lookupDestCache (rt : Ipv6RoutingTable) (now : ℤ) (dest : Ipv6Address) :
    (Ipv6Address × ℤ) × Ipv6RoutingTable :=
  match rt.destCache dest with
  | none => ((.unspecified, -1), rt)
  | some entry =>
    if entry.expiryTime > 0 ∧ now > entry.expiryTime then
      ((.unspecified, -1), { rt with destCache := Function.update rt.destCache dest none })
    else ((entry.nextHopAddr, entry.interfaceId), rt)

def updateDestCache (rt : Ipv6RoutingTable) (dest nextHopAddr : Ipv6Address) (interfaceId : ℤ)
    (expiryTime : ℤ) : Ipv6RoutingTable :=
  { rt with destCache :=
      Function.update rt.destCache dest (some ⟨interfaceId, nextHopAddr, expiryTime⟩) }

def purgeDestCache (rt : Ipv6RoutingTable) : Ipv6RoutingTable :=
  { rt with destCache := fun _ => none }

/-! ## Lookup -/

/-- The loop of `doLongestPrefixMatch`: it stops at the first match. -/
def firstMatch (now : ℤ) (dest : Ipv6Address) : List Ipv6Route → Except Error (Option Ipv6Route)
  | [] => pure none
  | route :: routes => do
    if ← dest.matches route.destPrefix route.prefixLength then
      if route.expired now then firstMatch now dest routes else pure (some route)
    else firstMatch now dest routes

def doLongestPrefixMatch (rt : Ipv6RoutingTable) (now : ℤ) (dest : Ipv6Address) :
    Except Error (Option Ipv6Route) :=
  firstMatch now dest rt.routeList

/-- `Ipv6::determineOutputInterface` -/
def determineOutputInterface (rt : Ipv6RoutingTable) (now : ℤ) (dest : Ipv6Address) :
    Except Error (Resolution × Ipv6RoutingTable) := do
  let ((nextHop, interfaceId), rt) := rt.lookupDestCache now dest
  if interfaceId = -1 then
    match ← rt.doLongestPrefixMatch now dest with
    | none =>
      if rt.isRouter then pure (.destinationUnreachable, rt)
      else pure (.neighbourDiscovery nextHop interfaceId, rt)
    | some route =>
      let interfaceId := route.interfaceId
      let nextHop := route.nextHopTo dest
      pure (.found nextHop interfaceId,
        rt.updateDestCache dest nextHop interfaceId route.expiryTime)
  else pure (.found nextHop interfaceId, rt)

/-! ## The route list -/

def routeLessThan (useAdminDist : Bool) (a b : Ipv6Route) : Bool :=
  if a.prefixLength ≠ b.prefixLength then decide (a.prefixLength > b.prefixLength)
  else if useAdminDist ∧ a.adminDist ≠ b.adminDist then decide (a.adminDist < b.adminDist)
  else decide (a.metric < b.metric)

/-- Two routes may stand in this order. -/
def InOrder (useAdminDist : Bool) (a b : Ipv6Route) : Prop := routeLessThan useAdminDist b a = false

instance (useAdminDist : Bool) : DecidableRel (InOrder useAdminDist) := fun _ _ =>
  inferInstanceAs (Decidable (_ = _))

/-- `std::stable_sort` with `RouteLessThan`. -/
def stableSort (useAdminDist : Bool) (routes : List Ipv6Route) : List Ipv6Route :=
  routes.insertionSort (InOrder useAdminDist)

def isRoute (ptr : ℕ) (route : Ipv6Route) : Bool := decide (route.ptr = ptr)

def findRoute (rt : Ipv6RoutingTable) (ptr : ℕ) : Option Ipv6Route :=
  rt.routeList.find? (isRoute ptr)

/-- A route's routing table is set exactly while it is in the list. -/
def internalAddRoute (rt : Ipv6RoutingTable) (route : Ipv6Route) :
    Except Error Ipv6RoutingTable := do
  assert (rt.findRoute route.ptr = none) "route->getRoutingTable() == nullptr"
  pure { rt with routeList := stableSort rt.useAdminDist (rt.routeList ++ [route]) }

def addRoute (rt : Ipv6RoutingTable) (route : Ipv6Route) : Except Error Ipv6RoutingTable := do
  let rt ← rt.internalAddRoute route
  pure rt.purgeDestCache

def internalRemoveRoute (rt : Ipv6RoutingTable) (ptr : ℕ) : Ipv6RoutingTable :=
  { rt with routeList := rt.routeList.eraseP (isRoute ptr) }

/-- The cache is not purged. -/
def removeRoute (rt : Ipv6RoutingTable) (ptr : ℕ) : Ipv6RoutingTable :=
  rt.internalRemoveRoute ptr

def deleteRoute (rt : Ipv6RoutingTable) (ptr : ℕ) : Ipv6RoutingTable :=
  rt.internalRemoveRoute ptr

/-- The loops that call `internalDeleteRoute` for all routes of a kind. -/
def deleteRoutes (rt : Ipv6RoutingTable) (kind : Ipv6Route → Bool) : Ipv6RoutingTable :=
  { rt with routeList := rt.routeList.filter fun route => !kind route }

def isDefaultRouteOf (interfaceId : ℤ) (route : Ipv6Route) : Bool :=
  decide (route.interface = some interfaceId ∧ route.prefixLength = 0)

def isPrefixOf (interfaceId : ℤ) (route : Ipv6Route) : Bool :=
  decide (route.interface = some interfaceId ∧ route.prefixLength > 0)

def deleteDefaultRoutes (rt : Ipv6RoutingTable) (interfaceId : ℤ) :
    Except Error Ipv6RoutingTable := do
  assert (interfaceId ≥ 0) "interfaceID >= 0"
  pure (rt.deleteRoutes (isDefaultRouteOf interfaceId))

def deletePrefixes (rt : Ipv6RoutingTable) (interfaceId : ℤ) : Except Error Ipv6RoutingTable := do
  assert (interfaceId ≥ 0) "interfaceID >= 0"
  pure (rt.deleteRoutes (isPrefixOf interfaceId))

def deleteInterfaceRoutes (rt : Ipv6RoutingTable) (interfaceId : ℤ) : Ipv6RoutingTable :=
  rt.deleteRoutes fun route => route.interface = some interfaceId

def deleteAllRoutes (rt : Ipv6RoutingTable) : Ipv6RoutingTable := { rt with routeList := [] }

/-- The routes that the prefix functions look for. -/
def isAdvertised (sourceType : SourceType) (destPrefix : Ipv6Address) (prefixLength : ℤ)
    (route : Ipv6Route) : Bool :=
  decide (route.sourceType = sourceType ∧ route.destPrefix = destPrefix ∧
    route.prefixLength = prefixLength)

def deleteOnLinkPrefix (rt : Ipv6RoutingTable) (destPrefix : Ipv6Address) (prefixLength : ℤ) :
    Ipv6RoutingTable :=
  { rt with routeList :=
      rt.routeList.eraseP (isAdvertised .routerAdvertisement destPrefix prefixLength) }

/-! ## Setters of routes in the table -/

/-- A setter of the first such route, of a field that `routeChanged` does nothing about. -/
def setInPlace (rt : Ipv6RoutingTable) (which : Ipv6Route → Bool) (f : Ipv6Route → Ipv6Route) :
    Ipv6RoutingTable :=
  { rt with routeList :=
      rt.routeList.replaceF fun route => if which route then some (f route) else none }

def setNextHop (rt : Ipv6RoutingTable) (ptr : ℕ) (nextHop : Ipv6Address) : Ipv6RoutingTable :=
  rt.setInPlace (isRoute ptr) fun route => { route with nextHop }

def setInterface (rt : Ipv6RoutingTable) (ptr : ℕ) (interface : Option ℤ) : Ipv6RoutingTable :=
  rt.setInPlace (isRoute ptr) fun route => { route with interface }

def setAdminDist (rt : Ipv6RoutingTable) (ptr : ℕ) (adminDist : ℕ) : Ipv6RoutingTable :=
  rt.setInPlace (isRoute ptr) fun route => { route with adminDist }

/-- The one setter of the four whose field is in `routeChanged`: the route is removed and added. -/
def setMetric (rt : Ipv6RoutingTable) (ptr : ℕ) (metric : ℤ) : Except Error Ipv6RoutingTable :=
  match rt.findRoute ptr with
  | none => pure rt
  | some route =>
    if route.metric ≠ metric then
      (rt.internalRemoveRoute ptr).internalAddRoute { route with metric }
    else pure rt

/-! ## Advertised prefixes -/

/-- `InterfaceTable::getInterfaceById` -/
def getInterfaceById (ift : List ℤ) (interfaceId : ℤ) : Except Error ℤ :=
  if interfaceId ∈ ift then pure interfaceId
  else throw (.runtime "getInterfaceById(): no interface with ID=%d")

/-- The constructor stores the length in a `short`. -/
def createNewRoute (ptr : ℕ) (destPrefix : Ipv6Address) (prefixLength : ℤ)
    (sourceType : SourceType) : Ipv6Route :=
  { ptr, destPrefix, sourceType, prefixLength := prefixLength.bmod (2 ^ 16) }

/-- `addOrUpdateOnLinkPrefix` and `addOrUpdateOwnAdvPrefix`, which differ in the source type
only. -/
def addOrUpdatePrefix (rt : Ipv6RoutingTable) (ift : List ℤ) (ptr : ℕ) (sourceType : SourceType)
    (destPrefix : Ipv6Address) (prefixLength : ℤ) (interfaceId : ℤ) (expiryTime : ℤ) :
    Except Error Ipv6RoutingTable := do
  match rt.routeList.find? (isAdvertised sourceType destPrefix prefixLength) with
  | none =>
    let route := createNewRoute ptr destPrefix prefixLength sourceType
    let interface ← getInterfaceById ift interfaceId
    rt.addRoute { route with
      interface := some interface, expiryTime, metric := 0, adminDist :=
        Ipv6Route.dDirectlyConnected }
  | some _ =>
    let interface ← getInterfaceById ift interfaceId
    pure (rt.setInPlace (isAdvertised sourceType destPrefix prefixLength) fun route =>
      { route with interface := some interface, expiryTime })

def addOrUpdateOnLinkPrefix (rt : Ipv6RoutingTable) (ift : List ℤ) (ptr : ℕ) :=
  rt.addOrUpdatePrefix ift ptr .routerAdvertisement

def addOrUpdateOwnAdvPrefix (rt : Ipv6RoutingTable) (ift : List ℤ) (ptr : ℕ) :=
  rt.addOrUpdatePrefix ift ptr .ownAdvPrefix

end Ipv6RoutingTable

/-! ## Runs -/

/-- A call of the network layer, or time that passes. A route that is created has the address `ptr`;
`ift` are the interfaces at the time of the call. -/
inductive Event where
  | elapse (duration : ℕ)
  | determineOutputInterface (dest : Ipv6Address)
  | addRoute (route : Ipv6Route)
  | removeRoute (ptr : ℕ)
  | deleteRoute (ptr : ℕ)
  | deleteOnLinkPrefix (destPrefix : Ipv6Address) (prefixLength : ℤ)
  | deleteDefaultRoutes (interfaceId : ℤ)
  | deletePrefixes (interfaceId : ℤ)
  | deleteInterfaceRoutes (interfaceId : ℤ)
  | deleteAllRoutes
  | addOrUpdateOnLinkPrefix (ift : List ℤ) (ptr : ℕ) (destPrefix : Ipv6Address) (prefixLength : ℤ)
      (interfaceId : ℤ) (expiryTime : ℤ)
  | addOrUpdateOwnAdvPrefix (ift : List ℤ) (ptr : ℕ) (destPrefix : Ipv6Address) (prefixLength : ℤ)
      (interfaceId : ℤ) (expiryTime : ℤ)
  | setMetric (ptr : ℕ) (metric : ℤ)
  | setAdminDist (ptr : ℕ) (adminDist : ℕ)
  | setNextHop (ptr : ℕ) (nextHop : Ipv6Address)
  | setInterface (ptr : ℕ) (interface : Option ℤ)

/-- The table and the simulation time. -/
structure Node where
  now : ℕ
  rt : Ipv6RoutingTable

namespace Node

def initial (useAdminDist isRouter : Bool) : Node :=
  ⟨0, ⟨useAdminDist, isRouter, [], fun _ => none⟩⟩

def withTable (n : Node) (rt : Ipv6RoutingTable) : Node := { n with rt }

def step (n : Node) : Event → Except Error Node
  | .elapse duration => pure { n with now := n.now + duration }
  | .determineOutputInterface dest => do
    pure (n.withTable (← n.rt.determineOutputInterface n.now dest).2)
  | .addRoute route => do pure (n.withTable (← n.rt.addRoute route))
  | .removeRoute ptr => pure (n.withTable (n.rt.removeRoute ptr))
  | .deleteRoute ptr => pure (n.withTable (n.rt.deleteRoute ptr))
  | .deleteOnLinkPrefix destPrefix prefixLength =>
    pure (n.withTable (n.rt.deleteOnLinkPrefix destPrefix prefixLength))
  | .deleteDefaultRoutes interfaceId => do
    pure (n.withTable (← n.rt.deleteDefaultRoutes interfaceId))
  | .deletePrefixes interfaceId => do pure (n.withTable (← n.rt.deletePrefixes interfaceId))
  | .deleteInterfaceRoutes interfaceId =>
      pure (n.withTable (n.rt.deleteInterfaceRoutes interfaceId))
  | .deleteAllRoutes => pure (n.withTable n.rt.deleteAllRoutes)
  | .addOrUpdateOnLinkPrefix ift ptr destPrefix prefixLength interfaceId expiryTime => do
    pure (n.withTable (← n.rt.addOrUpdateOnLinkPrefix ift ptr destPrefix prefixLength interfaceId
      expiryTime))
  | .addOrUpdateOwnAdvPrefix ift ptr destPrefix prefixLength interfaceId expiryTime => do
    pure (n.withTable (← n.rt.addOrUpdateOwnAdvPrefix ift ptr destPrefix prefixLength interfaceId
      expiryTime))
  | .setMetric ptr metric => do pure (n.withTable (← n.rt.setMetric ptr metric))
  | .setAdminDist ptr adminDist => pure (n.withTable (n.rt.setAdminDist ptr adminDist))
  | .setNextHop ptr nextHop => pure (n.withTable (n.rt.setNextHop ptr nextHop))
  | .setInterface ptr interface => pure (n.withTable (n.rt.setInterface ptr interface))

def run (n : Node) : List Event → Except Error Node
  | [] => pure n
  | event :: events => do (← n.step event).run events

end Node

end Inet.Ipv6
