import Inet.Aodv.Routes

/-! # The IPv4 routing table

The table keeps pointers to its routes in the order in which they match, and a
cache of results. A setter of a route stores the new value and then tells the
table, which takes the route out and adds it again.
-/

namespace Inet.Ipv4

open Aodv.Ipv4 (makeNetmask maskedAddrAreEqual)

/-- `rt` tells whether `getRoutingTable()` is the table. -/
structure Ipv4Route where
  rt : Bool
  dest : BitVec 32
  netmask : BitVec 32
  interfacePtr : Option ℕ
  adminDist : ℕ
  metric : ℤ
  deriving DecidableEq

/-- The routes are pointers; `route` is the memory that they point to. -/
structure Ipv4RoutingTable where
  useAdminDist : Bool
  route : ℕ → Ipv4Route
  routes : List ℕ
  routingCache : List (BitVec 32 × Option ℕ)
  localBroadcastAddresses : List (BitVec 32)

def getNetmaskLength (addr : BitVec 32) : ℕ :=
  match (List.range 32).find? fun i => addr.getLsbD i with
  | some i => 32 - i
  | none => 0

def isValidNetmask (addr : BitVec 32) : Bool := addr = makeNetmask (getNetmaskLength addr)

/-- The checks of `internalAddRoute`: the first one that the route fails. -/
def Ipv4Route.rejection (entry : Ipv4Route) : Option Error :=
  if ¬ isValidNetmask entry.netmask then
    some (.runtime "addRoute(): wrong netmask %s in route")
  else if entry.netmask ≠ 0 ∧ entry.dest &&& entry.netmask = 0 then
    some (.runtime
      "addRoute(): all bits of destination address %s is 0 inside non zero netmask %s")
  else if entry.dest &&& ~~~entry.netmask ≠ 0 then
    some (.runtime
      "addRoute(): suspicious route: destination IP address %s has bits set outside netmask %s")
  else if entry.interfacePtr = none then
    some (.runtime "addRoute(): interface cannot be nullptr")
  else none

namespace Ipv4RoutingTable

/-- A method of the table: what it has changed stays changed when it throws. -/
abbrev Method := EStateM Error Ipv4RoutingTable

def invalidateCache (this : Ipv4RoutingTable) : Ipv4RoutingTable :=
  { this with routingCache := [], localBroadcastAddresses := [] }

def setRoute (this : Ipv4RoutingTable) (entry : ℕ) (route : Ipv4Route) : Ipv4RoutingTable :=
  { this with route := fun p => if p = entry then route else this.route p }

def routeLessThan (useAdminDist : Bool) (a b : Ipv4Route) : Bool :=
  if a.netmask ≠ b.netmask then a.netmask > b.netmask
  else if a.dest ≠ b.dest then a.dest < b.dest
  else if useAdminDist ∧ a.adminDist ≠ b.adminDist then a.adminDist < b.adminDist
  else a.metric < b.metric

/-- If there is a default route, it is the last one. -/
def getDefaultRoute (this : Ipv4RoutingTable) : Option ℕ :=
  this.routes.getLast?.filter fun p => (this.route p).netmask = 0

/-- `upper_bound` and `insert`. -/
def insertRoute (this : Ipv4RoutingTable) (entry : ℕ) : Ipv4RoutingTable :=
  let stays := fun p => ¬ routeLessThan this.useAdminDist (this.route entry) (this.route p)
  { this with routes := this.routes.takeWhile stays ++ entry :: this.routes.dropWhile stays }

/-- Whether the route was in the table. -/
def internalRemoveRoute (entry : ℕ) : Method Bool := do
  if entry ∈ (← get).routes then
    modify fun this => { this with routes := this.routes.erase entry }.invalidateCache
    return true
  else return false

def deleteRoute (entry : ℕ) : Method Bool := do
  let found ← internalRemoveRoute entry
  if found then
    assert (((← get).route entry).rt = true) "entry->getRoutingTable() == this"
  return found

def internalAddRoute (entry : ℕ) : Method Unit := do
  match ((← get).route entry).rejection with
  | some e => throw e
  | none =>
    -- a default route replaces the old one
    if ((← get).route entry).netmask = 0 then
      match (← get).getDefaultRoute with
      | some oldDefaultRoute => discard (deleteRoute oldDefaultRoute)
      | none => pure ()
    modify fun this => (this.insertRoute entry).invalidateCache
    modify fun this => this.setRoute entry { this.route entry with rt := true }

def addRoute (entry : ℕ) : Method Unit := internalAddRoute entry

/-- `routeChanged` for the fields that the order of the routes depends on. -/
def routeChanged (entry : ℕ) : Method Unit := do
  let found ← internalRemoveRoute entry
  assert (found = true) "entry != nullptr"
  internalAddRoute entry

/-- `changed`. -/
def changed (entry : ℕ) : Method Unit := do
  if ((← get).route entry).rt then routeChanged entry

/-- A setter: the new value is stored before the table is told. -/
def setField (entry : ℕ) (differs : Ipv4Route → Bool) (store : Ipv4Route → Ipv4Route) :
    Method Unit := do
  if differs ((← get).route entry) then
    modify fun this => this.setRoute entry (store (this.route entry))
    changed entry

def setDestination (entry : ℕ) (dest : BitVec 32) : Method Unit :=
  setField entry (fun route => route.dest ≠ dest) fun route => { route with dest := dest }

def setNetmask (entry : ℕ) (netmask : BitVec 32) : Method Unit :=
  setField entry (fun route => route.netmask ≠ netmask)
    fun route => { route with netmask := netmask }

def setMetric (entry : ℕ) (metric : ℤ) : Method Unit :=
  setField entry (fun route => route.metric ≠ metric) fun route => { route with metric := metric }

/-- The first route that matches, or what the cache says. -/
def findBestMatchingRoute (this : Ipv4RoutingTable) (dest : BitVec 32) :
    Option ℕ × Ipv4RoutingTable :=
  match this.routingCache.lookup dest with
  | some bestRoute => (bestRoute, this)
  | none =>
    let bestRoute := this.routes.find? fun p =>
      maskedAddrAreEqual dest (this.route p).dest (this.route p).netmask
    (bestRoute, { this with routingCache := (dest, bestRoute) :: this.routingCache })

inductive RouteCall where
  | addRoute (entry : ℕ)
  | setDestination (entry : ℕ) (dest : BitVec 32)
  | setNetmask (entry : ℕ) (netmask : BitVec 32)
  | setMetric (entry : ℕ) (metric : ℤ)
  deriving DecidableEq

def RouteCall.method : RouteCall → Method Unit
  | .addRoute entry => Ipv4RoutingTable.addRoute entry
  | .setDestination entry dest => Ipv4RoutingTable.setDestination entry dest
  | .setNetmask entry netmask => Ipv4RoutingTable.setNetmask entry netmask
  | .setMetric entry metric => Ipv4RoutingTable.setMetric entry metric

def RouteCall.IsAddRoute : RouteCall → Prop
  | .addRoute _ => True
  | .setDestination _ _ => False
  | .setNetmask _ _ => False
  | .setMetric _ _ => False

/-- The same routes, with the same fields, and the same best route for every destination. -/
structure SameRoutes (this this' : Ipv4RoutingTable) : Prop where
  routes_eq : this'.routes = this.routes
  route_eq : ∀ p ∈ this.routes, this'.route p = this.route p
  findBestMatchingRoute_eq : ∀ dest,
    (this'.findBestMatchingRoute dest).1 = (this.findBestMatchingRoute dest).1

theorem SameRoutes.refl (this : Ipv4RoutingTable) : SameRoutes this this :=
  ⟨rfl, fun _ _ => rfl, fun _ => rfl⟩

variable {α β : Type} {entry : ℕ} {s s' : Ipv4RoutingTable} {message : String}

/-- The method is not one that rejects a route. -/
def Accepts (x : Method α) : Prop := ∀ s message s', x.run s ≠ .error (.runtime message) s'

theorem accepts_pure (a : α) : Accepts (pure a) := nofun

theorem accepts_get : Accepts get := nofun

theorem accepts_modify (f : Ipv4RoutingTable → Ipv4RoutingTable) : Accepts (modify f) := nofun

theorem accepts_assert (condition : Prop) [Decidable condition] (text : String) :
    Accepts (assert condition text) := by
  intro s message s'
  unfold assert
  split_ifs <;> exact nofun

theorem Accepts.bind {x : Method α} {f : α → Method β} (hx : Accepts x) (hf : ∀ a, Accepts (f a)) :
    Accepts (x >>= f) := by
  intro s message s' h
  rw [EStateM.run_bind] at h
  cases hrun : x.run s with
  | ok a t =>
    rw [hrun] at h
    exact hf a t message s' h
  | error e t =>
    rw [hrun] at h
    cases h
    exact hx s message s' hrun

theorem accepts_internalRemoveRoute (entry : ℕ) : Accepts (internalRemoveRoute entry) := by
  refine accepts_get.bind fun this => ?_
  split
  · exact (accepts_modify _).bind fun _ => accepts_pure true
  · exact accepts_pure false

theorem accepts_deleteRoute (entry : ℕ) : Accepts (deleteRoute entry) := by
  refine (accepts_internalRemoveRoute entry).bind fun found => ?_
  split
  · refine accepts_get.bind fun this => ?_
    exact (accepts_assert _ _).bind fun _ => accepts_pure found
  · exact accepts_pure found

theorem run_internalRemoveRoute_of_mem (h : entry ∈ s.routes) : (internalRemoveRoute entry).run s =
    .ok true { s with routes := s.routes.erase entry }.invalidateCache := by
  rw [internalRemoveRoute, EStateM.run_bind, EStateM.run_get]
  dsimp only
  rw [if_pos h]
  rfl

theorem run_internalRemoveRoute_of_notMem (h : entry ∉ s.routes) :
    (internalRemoveRoute entry).run s = .ok false s := by
  rw [internalRemoveRoute, EStateM.run_bind, EStateM.run_get]
  dsimp only
  rw [if_neg h]
  rfl

theorem eq_of_internalAddRoute
    (h : (internalAddRoute entry).run s = .error (.runtime message) s') : s' = s := by
  rw [internalAddRoute, EStateM.run_bind, EStateM.run_get] at h
  dsimp only at h
  cases hr : (s.route entry).rejection with
  | some e =>
    rw [hr] at h
    cases h
    rfl
  | none =>
    rw [hr] at h
    refine absurd h (Accepts.bind accepts_get (fun this => ?_) s message s')
    split
    · refine accepts_get.bind fun this => ?_
      split
      · exact ((accepts_deleteRoute _).bind fun _ => accepts_pure _).bind fun _ =>
          (accepts_modify _).bind fun _ => accepts_modify _
      · exact (accepts_modify _).bind fun _ => accepts_modify _
    · exact (accepts_modify _).bind fun _ => accepts_modify _

theorem routes_eq_of_routeChanged
    (h : (routeChanged entry).run s = .error (.runtime message) s') :
    entry ∈ s.routes ∧ s'.routes = s.routes.erase entry := by
  rw [routeChanged, EStateM.run_bind] at h
  by_cases hmem : entry ∈ s.routes
  · rw [run_internalRemoveRoute_of_mem hmem] at h
    have hrest : (internalAddRoute entry).run { s with
        routes := s.routes.erase entry }.invalidateCache = .error (.runtime message) s' := h
    rw [eq_of_internalAddRoute hrest]
    exact ⟨hmem, rfl⟩
  · rw [run_internalRemoveRoute_of_notMem hmem] at h
    cases h

theorem routes_eq_of_setField {differs : Ipv4Route → Bool} {store : Ipv4Route → Ipv4Route}
    (h : (setField entry differs store).run s = .error (.runtime message) s') :
    entry ∈ s.routes ∧ s'.routes = s.routes.erase entry := by
  rw [setField, EStateM.run_bind, EStateM.run_get] at h
  dsimp only at h
  split_ifs at h
  · rw [EStateM.run_bind, EStateM.run_modify] at h
    dsimp only at h
    rw [changed, EStateM.run_bind, EStateM.run_get] at h
    dsimp only at h
    split_ifs at h
    · obtain ⟨hmem, hroutes⟩ := routes_eq_of_routeChanged h
      exact ⟨hmem, hroutes⟩
    · cases h
  · cases h

theorem not_sameRoutes_of_erase (hmem : entry ∈ s.routes)
    (h : s'.routes = s.routes.erase entry) : ¬ SameRoutes s s' := by
  intro hsame
  have hlen := congrArg List.length (h.symm.trans hsame.routes_eq)
  rw [List.length_erase_of_mem hmem] at hlen
  have hpos := List.length_pos_of_mem hmem
  omega

/-- When a call throws because the checks reject the route, the table is as before exactly when the
call is `addRoute`: a setter of a route of the table leaves the table without it. -/
theorem sameRoutes_iff_isAddRoute {call : RouteCall}
    (h : call.method.run s = .error (.runtime message) s') :
    SameRoutes s s' ↔ call.IsAddRoute := by
  cases call with
  | addRoute entry =>
    rw [eq_of_internalAddRoute h]
    exact ⟨fun _ => trivial, fun _ => .refl s⟩
  | setDestination entry dest =>
    rw [RouteCall.method, setDestination] at h
    obtain ⟨hmem, hroutes⟩ := routes_eq_of_setField h
    exact ⟨fun hsame => not_sameRoutes_of_erase hmem hroutes hsame, False.elim⟩
  | setNetmask entry netmask =>
    rw [RouteCall.method, setNetmask] at h
    obtain ⟨hmem, hroutes⟩ := routes_eq_of_setField h
    exact ⟨fun hsame => not_sameRoutes_of_erase hmem hroutes hsame, False.elim⟩
  | setMetric entry metric =>
    rw [RouteCall.method, setMetric] at h
    obtain ⟨hmem, hroutes⟩ := routes_eq_of_setField h
    exact ⟨fun hsame => not_sameRoutes_of_erase hmem hroutes hsame, False.elim⟩

/-- A table without routes. The memory holds a valid route to 10.0.0.0/8, and one whose netmask
0.255.0.0 is rejected. -/
def emptyTable : Ipv4RoutingTable where
  useAdminDist := false
  route p := ⟨false, 0x0A000000#32, if p = 0 then 0xFF000000#32 else 0x00FF0000#32, some 1, 1, 0⟩
  routes := []
  routingCache := []
  localBroadcastAddresses := []

/-- The table that holds the valid route. -/
def oneRoute : Ipv4RoutingTable :=
  { emptyTable with routes := [0] }

theorem sameRoutes_addRoute_wrong :
    ((RouteCall.addRoute 1).method.run oneRoute =
      .error (.runtime "addRoute(): wrong netmask %s in route") oneRoute) ∧
    SameRoutes oneRoute oneRoute ∧ (oneRoute.findBestMatchingRoute 0x0A020304#32).1 = some 0 :=
  ⟨rfl, (@sameRoutes_iff_isAddRoute oneRoute oneRoute _ (.addRoute 1) rfl).2 trivial, rfl⟩

/-- The route to 10.0.0.0/8 is in the table. It gets the destination 10.1.0.0, and is lost. -/
theorem exists_not_sameRoutes : ∃ s s',
    (RouteCall.addRoute 0).method.run emptyTable = .ok () s ∧ 0 ∈ s.routes ∧
    (RouteCall.setDestination 0 0x0A010000#32).method.run s = .error (.runtime
      "addRoute(): suspicious route: destination IP address %s has bits set outside netmask %s")
      s' ∧
    s.routes = [0] ∧ s'.routes = [] ∧ (s.findBestMatchingRoute 0x0A020304#32).1 = some 0 ∧
    (s'.findBestMatchingRoute 0x0A020304#32).1 = none ∧ ¬ SameRoutes s s' := by
  refine ⟨_, _, rfl, ?_, rfl, rfl, rfl, rfl, rfl, ?_⟩
  · exact List.mem_singleton.2 rfl
  · intro hsame
    exact absurd hsame.routes_eq (by decide)

end Ipv4RoutingTable

end Inet.Ipv4
