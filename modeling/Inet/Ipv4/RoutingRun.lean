import Inet.Ipv4.RoutingOrder

/-! # The best route over a run

The routes stay in their order, and the cache says what a search would find,
whatever is done with the table and its routes. Only the administrative
distance of a route is not set in a table that uses it.
-/

namespace Inet.Ipv4

/-- An interface, as `updateNetmaskRoutes` sees it. -/
structure NetmaskInterface where
  interfacePtr : ℕ
  isUp : Bool
  hasCarrier : Bool
  /-- Whether its name matches the parameter `netmaskRoutes`. -/
  nameMatches : Bool
  /-- The address, the netmask and the metric of its IPv4 data. -/
  ipv4Data : Option (BitVec 32 × BitVec 32 × ℤ)

/-- The address, the netmask and the metric for the route of an interface that gets one. -/
def NetmaskInterface.routeData (ie : NetmaskInterface) : Option (BitVec 32 × BitVec 32 × ℤ) :=
  if ie.isUp && ie.hasCarrier && ie.nameMatches then
    ie.ipv4Data.filter fun data => data.2.1 ≠ 0xFFFFFFFF#32
  else none

/-- `Ipv4Route::dDirectlyConnected` -/
def dDirectlyConnected : ℕ := 0

namespace Ipv4RoutingTable

def removeRoute (entry : ℕ) : Method Bool := do
  let found ← internalRemoveRoute entry
  if found then
    assert (((← get).route entry).rt = true) "entry->getRoutingTable() == this"
    modify fun this => this.setRoute entry { this.route entry with rt := false }
  return found

/-- The loops that delete the routes with a property. -/
def deleteRoutes (condition : ℕ → Bool) : List ℕ → Method Unit
  | [] => pure ()
  | route :: routes => do
    if condition route then
      modify fun this => { this with routes := this.routes.erase route }.invalidateCache
      assert (((← get).route route).rt = true) "route->getRoutingTable() == this"
    deleteRoutes condition routes

def deleteInterfaceRoutes (entry : ℕ) : Method Unit := do
  let this ← get
  deleteRoutes (fun p => (this.route p).interfacePtr = some entry) this.routes

/-- A route of an interface is added, at the given place in the memory. -/
def addNetmaskRoute (entry : ℕ) (ie : NetmaskInterface) (ipAddress netmask : BitVec 32)
    (metric : ℤ) : Method Unit := do
  modify fun this => this.setRoute entry
    ⟨true, ipAddress &&& netmask, netmask, some ie.interfacePtr, dDirectlyConnected, metric⟩
  modify fun this => (this.insertRoute entry).invalidateCache

/-- The second loop of `updateNetmaskRoutes`. `createNewRoute` gives a place to each interface. -/
def addNetmaskRoutes : List (ℕ × NetmaskInterface) → Method Unit
  | [] => pure ()
  | (entry, ie) :: interfaces => do
    match ie.routeData with
    | some (ipAddress, netmask, metric) => addNetmaskRoute entry ie ipAddress netmask metric
    | none => pure ()
    addNetmaskRoutes interfaces

def updateNetmaskRoutes (isNetmaskRoute : ℕ → Bool) (interfaces : List (ℕ × NetmaskInterface)) :
    Method Unit := do
  deleteRoutes isNetmaskRoute (← get).routes
  addNetmaskRoutes interfaces

/-- A setter of a field for which `routeChanged` does nothing. -/
def setOtherField (entry : ℕ) (store : Ipv4Route → Ipv4Route) : Method Unit :=
  modify fun this => this.setRoute entry (store (this.route entry))

def setAdminDist (entry : ℕ) (adminDist : ℕ) : Method Unit :=
  setOtherField entry fun route => { route with adminDist := adminDist }

def setInterface (entry : ℕ) (interfacePtr : Option ℕ) : Method Unit :=
  setOtherField entry fun route => { route with interfacePtr := interfacePtr }

inductive TableCall where
  | route (call : RouteCall)
  | removeRoute (entry : ℕ)
  | deleteRoute (entry : ℕ)
  | updateNetmaskRoutes (isNetmaskRoute : ℕ → Bool) (interfaces : List (ℕ × NetmaskInterface))
  | deleteInterfaceRoutes (interfacePtr : ℕ)
  | findBestMatchingRoute (dest : BitVec 32)
  | setAdminDist (entry : ℕ) (adminDist : ℕ)
  | setInterface (entry : ℕ) (interfacePtr : Option ℕ)

namespace TableCall

def method : TableCall → Method Unit
  | route call => call.method
  | removeRoute entry => discard (Ipv4RoutingTable.removeRoute entry)
  | deleteRoute entry => discard (Ipv4RoutingTable.deleteRoute entry)
  | updateNetmaskRoutes isNetmaskRoute interfaces =>
    Ipv4RoutingTable.updateNetmaskRoutes isNetmaskRoute interfaces
  | deleteInterfaceRoutes interfacePtr => Ipv4RoutingTable.deleteInterfaceRoutes interfacePtr
  | findBestMatchingRoute dest => modify fun this => (this.findBestMatchingRoute dest).2
  | setAdminDist entry adminDist => Ipv4RoutingTable.setAdminDist entry adminDist
  | setInterface entry interfacePtr => Ipv4RoutingTable.setInterface entry interfacePtr

/-- A route that is added is new, and setters that tell the table are called for its routes. The
netmasks of interfaces are contiguous, and administrative distances are set if they do not count. -/
def Allowed (s : Ipv4RoutingTable) : TableCall → Prop
  | route (.addRoute entry) => entry ∉ s.routes
  | route (.setDestination entry _) => entry ∈ s.routes
  | route (.setNetmask entry _) => entry ∈ s.routes
  | route (.setMetric entry _) => entry ∈ s.routes
  | updateNetmaskRoutes _ interfaces => (interfaces.map Prod.fst).Nodup ∧
      (∀ x ∈ interfaces, x.1 ∉ s.routes) ∧
      ∀ x ∈ interfaces, ∀ data ∈ x.2.routeData, isValidNetmask data.2.1 = true
  | setAdminDist _ _ => s.useAdminDist = false
  | _ => True

end TableCall

/-- The tables after any calls that do not throw. -/
inductive Reachable : Ipv4RoutingTable → Prop
  | empty (useAdminDist : Bool) (route : ℕ → Ipv4Route) :
    Reachable ⟨useAdminDist, route, [], [], []⟩
  | call {s s' : Ipv4RoutingTable} {c : TableCall} (h : Reachable s) (hallowed : c.Allowed s)
    (hrun : c.method.run s = .ok () s') : Reachable s'

/-- The routes are sorted, and the best route is found: no route if none matches, or one of the
table that matches and is as good as every route that matches. -/
structure FindsBest (s : Ipv4RoutingTable) : Prop where
  sorted : s.routes.Pairwise fun p q => routeLessThan s.useAdminDist (s.route q) (s.route p) = false
  none_iff : ∀ dest, (s.findBestMatchingRoute dest).1 = none ↔
    ∀ q ∈ s.routes, ¬ (s.route q).Matches dest
  best : ∀ dest p, (s.findBestMatchingRoute dest).1 = some p →
    p ∈ s.routes ∧ (s.route p).Matches dest ∧ ∀ q ∈ s.routes, (s.route q).Matches dest →
      AsGood s.useAdminDist (s.route p) (s.route q)

variable {s s' t : Ipv4RoutingTable} {entry : ℕ} {found : Bool}

/-! ## Methods that take routes out -/

/-- Routes are taken out, and the cache is emptied then. -/
structure Shrinks (s s' : Ipv4RoutingTable) : Prop where
  routes : s'.routes.Sublist s.routes
  route : s'.route = s.route
  useAdminDist : s'.useAdminDist = s.useAdminDist
  cache : s' = s ∨ s'.routingCache = []

theorem Shrinks.refl (s : Ipv4RoutingTable) : Shrinks s s := ⟨.refl _, rfl, rfl, .inl rfl⟩

theorem Shrinks.erase (s : Ipv4RoutingTable) (entry : ℕ) :
    Shrinks s { s with routes := s.routes.erase entry }.invalidateCache :=
  ⟨List.erase_sublist, rfl, rfl, .inr rfl⟩

theorem Shrinks.trans (h : Shrinks s s') (h' : Shrinks s' t) : Shrinks s t where
  routes := h'.routes.trans h.routes
  route := h'.route.trans h.route
  useAdminDist := h'.useAdminDist.trans h.useAdminDist
  cache := by
    rcases h'.cache with rfl | hempty
    · exact h.cache
    · exact .inr hempty

theorem Shrinks.ordered (h : Shrinks s s') (hs : s.Ordered) : s'.Ordered :=
  hs.restrict h.routes (fun _ _ => congrFun h.route _) h.useAdminDist

theorem valid_of_cache_eq_nil (h : s.Ordered) (hcache : s.routingCache = []) : s.Valid where
  ordered := h
  cache := by
    rw [hcache]
    exact nofun

theorem Shrinks.valid (h : Shrinks s s') (hs : s.Valid) : s'.Valid := by
  rcases h.cache with rfl | hempty
  · exact hs
  · exact valid_of_cache_eq_nil (h.ordered hs.ordered) hempty

theorem run_assert_eq_ok {condition : Prop} [Decidable condition] {text : String} {u : Unit}
    (h : (assert condition text : Method Unit).run s = .ok u s') : s' = s := by
  unfold assert at h
  split_ifs at h <;> cases h
  rfl

theorem exists_of_run_bind {α β : Type} {x : Method α} {f : α → Method β} {b : β}
    (h : (x >>= f).run s = .ok b s') : ∃ a t, x.run s = .ok a t ∧ (f a).run t = .ok b s' := by
  rw [EStateM.run_bind] at h
  cases hx : x.run s with
  | ok a t =>
    rw [hx] at h
    exact ⟨a, t, rfl, h⟩
  | error e t =>
    rw [hx] at h
    cases h

theorem run_get_bind {β : Type} {f : Ipv4RoutingTable → Method β} {b : β}
    (h : (get >>= f).run s = .ok b s') : (f s).run s = .ok b s' := h

theorem run_of_run_check {β : Type} {b : β} {text : String} {f : Unit → Method β}
    (h : (do
      let this ← get
      let checked ← assert ((this.route entry).rt = true) text
      f checked : Method β).run s = .ok b s') : (f ()).run s = .ok b s' := by
  obtain ⟨_, _, hassert, h⟩ := exists_of_run_bind (run_get_bind h)
  rwa [run_assert_eq_ok hassert] at h

theorem shrinks_internalRemoveRoute (h : (internalRemoveRoute entry).run s = .ok found s') :
    Shrinks s s' := by
  by_cases hmem : entry ∈ s.routes
  · rw [run_internalRemoveRoute_of_mem hmem] at h
    cases h
    exact .erase s entry
  · rw [run_internalRemoveRoute_of_notMem hmem] at h
    cases h
    exact .refl s

theorem shrinks_deleteRoute (h : (deleteRoute entry).run s = .ok found s') : Shrinks s s' := by
  obtain ⟨removed, t, hremove, h⟩ := exists_of_run_bind h
  have hshrinks := shrinks_internalRemoveRoute hremove
  cases removed with
  | true =>
    cases run_of_run_check h
    exact hshrinks
  | false =>
    cases h
    exact hshrinks

theorem shrinks_deleteRoutes {condition : ℕ → Bool} {routes : List ℕ}
    (h : (deleteRoutes condition routes).run s = .ok () s') : Shrinks s s' := by
  induction routes generalizing s with
  | nil =>
    cases h
    exact .refl _
  | cons route routes ih =>
    rw [deleteRoutes] at h
    split_ifs at h
    · obtain ⟨_, _, hmodify, h⟩ := exists_of_run_bind h
      cases hmodify
      exact (Shrinks.erase s route).trans (ih (run_of_run_check h))
    · exact ih h

@[simp] theorem setRoute_route (t : Ipv4RoutingTable) (entry : ℕ) (r : Ipv4Route) :
    (t.setRoute entry r).route entry = r := if_pos rfl

theorem setRoute_route_of_ne {p : ℕ} (t : Ipv4RoutingTable) (r : Ipv4Route) (h : p ≠ entry) :
    (t.setRoute entry r).route p = t.route p := if_neg h

theorem Ordered.erase (h : s.Ordered) (hroutes : t.routes = s.routes.erase entry)
    (hroute : ∀ p, p ≠ entry → t.route p = s.route p) (huse : t.useAdminDist = s.useAdminDist) :
    t.Ordered := by
  apply h.restrict
  · rw [hroutes]
    exact List.erase_sublist
  · intro p hp
    rw [hroutes, h.nodup.mem_erase_iff] at hp
    exact hroute p hp.1
  · exact huse

theorem Valid.removeRoute (h : s.Valid) (hrun : (removeRoute entry).run s = .ok found s') :
    s'.Valid := by
  obtain ⟨removed, t, hremove, hrun⟩ := exists_of_run_bind hrun
  by_cases hmem : entry ∈ s.routes
  · rw [run_internalRemoveRoute_of_mem hmem] at hremove
    cases hremove
    obtain ⟨_, _, hmodify, hrun⟩ := exists_of_run_bind (run_of_run_check hrun)
    cases hmodify
    cases hrun
    exact valid_of_cache_eq_nil
      (h.ordered.erase rfl (fun p hp => setRoute_route_of_ne _ _ hp) rfl) rfl
  · rw [run_internalRemoveRoute_of_notMem hmem] at hremove
    cases hremove
    cases hrun
    exact h

/-! ## Methods that put a route in -/

theorem run_discard {α : Type} {x : Method α} (h : (discard x).run s = .ok () s') :
    ∃ a, x.run s = .ok a s' := by
  obtain ⟨a, _, hx, hpure⟩ := exists_of_run_bind (x := x) (f := fun _ => pure ()) h
  cases hpure
  exact ⟨a, hx⟩

theorem exists_of_internalAddRoute (h : (internalAddRoute entry).run s = .ok () s') :
    (s.route entry).rejection = none ∧ ∃ t, Shrinks s t ∧
      s' = (t.insertRoute entry).invalidateCache.setRoute entry
        { s.route entry with rt := true } := by
  replace h := run_get_bind h
  cases hrejection : (s.route entry).rejection with
  | some e =>
    rw [hrejection] at h
    cases h
  | none =>
    rw [hrejection] at h
    refine ⟨rfl, ?_⟩
    replace h := run_get_bind h
    suffices hlast : ∃ t, Shrinks s t ∧ (do
        modify fun this => (this.insertRoute entry).invalidateCache
        modify fun this => this.setRoute entry { this.route entry with rt := true } :
          Method Unit).run t = .ok () s' by
      obtain ⟨t, ht, h⟩ := hlast
      cases h
      exact ⟨t, ht, by rw [← ht.route]; rfl⟩
    split_ifs at h
    · replace h := run_get_bind h
      cases hdefault : s.getDefaultRoute with
      | none =>
        rw [hdefault] at h
        exact ⟨s, .refl s, h⟩
      | some oldDefaultRoute =>
        rw [hdefault] at h
        obtain ⟨_, t, hdiscard, h⟩ := exists_of_run_bind h
        obtain ⟨_, hdelete⟩ := run_discard hdiscard
        exact ⟨t, shrinks_deleteRoute hdelete, h⟩
    · exact ⟨s, .refl s, h⟩

theorem Valid.internalAddRoute (h : s.Ordered) (hnew : entry ∉ s.routes)
    (hrun : (internalAddRoute entry).run s = .ok () s') : s'.Valid := by
  obtain ⟨hrejection, t, hshrinks, rfl⟩ := exists_of_internalAddRoute hrun
  have hnew' : entry ∉ t.routes := fun hmem => hnew (hshrinks.routes.mem hmem)
  rw [← hshrinks.route] at hrejection ⊢
  refine valid_of_cache_eq_nil ((hshrinks.ordered h).insert hnew'
    (Ipv4Route.proper_of_rejection hrejection) rfl (fun p hp => ?_) ?_ rfl) rfl
  · exact setRoute_route_of_ne _ _ (ne_of_mem_of_not_mem hp hnew')
  · exact setRoute_route _ _ _

theorem Valid.setField {differs : Ipv4Route → Bool} {store : Ipv4Route → Ipv4Route} (h : s.Valid)
    (hmem : entry ∈ s.routes) (hrun : (setField entry differs store).run s = .ok () s')
    (hstore : ∀ r, (store r).rt = r.rt) : s'.Valid := by
  replace hrun := run_get_bind hrun
  split_ifs at hrun
  · obtain ⟨_, t, hset, hrun⟩ := exists_of_run_bind hrun
    cases hset
    replace hrun := run_get_bind hrun
    rw [setRoute_route, hstore, h.ordered.rt entry hmem, if_pos rfl] at hrun
    obtain ⟨removed, t, hremove, hrun⟩ := exists_of_run_bind hrun
    have hstored : entry ∈ (s.setRoute entry (store (s.route entry))).routes := hmem
    cases (run_internalRemoveRoute_of_mem hstored).symm.trans hremove
    obtain ⟨_, _, hassert, hrun⟩ := exists_of_run_bind hrun
    obtain rfl := run_assert_eq_ok hassert
    apply Valid.internalAddRoute _ _ hrun
    · exact h.ordered.erase rfl (fun p hp => setRoute_route_of_ne _ _ hp) rfl
    · exact h.ordered.nodup.not_mem_erase
  · cases hrun
    exact h

theorem Valid.addNetmaskRoute {ie : NetmaskInterface} {ipAddress netmask : BitVec 32} {metric : ℤ}
    (h : s.Valid) (hnew : entry ∉ s.routes) (hnetmask : isValidNetmask netmask = true)
    (hrun : (addNetmaskRoute entry ie ipAddress netmask metric).run s = .ok () s') :
    s'.Valid ∧ ∀ p ∈ s'.routes, p = entry ∨ p ∈ s.routes := by
  cases hrun
  set r : Ipv4Route :=
    ⟨true, ipAddress &&& netmask, netmask, some ie.interfacePtr, dDirectlyConnected, metric⟩ with hr
  have hordered : (s.setRoute entry r).Ordered :=
    h.ordered.restrict (.refl _)
      (fun p hp => setRoute_route_of_ne _ _ (ne_of_mem_of_not_mem hp hnew)) rfl
  have hproper : ((s.setRoute entry r).route entry).Proper := by
    rw [setRoute_route]
    refine ⟨hnetmask, ?_⟩
    rw [hr, BitVec.and_assoc, BitVec.and_not_self]
    exact BitVec.and_zero
  constructor
  · refine valid_of_cache_eq_nil (hordered.insert hnew hproper rfl (fun _ _ => rfl) ?_ rfl) rfl
    rw [setRoute_route]
    exact setRoute_route _ _ _
  · intro p hp
    exact List.mem_cons.1 ((perm_insertRoute (t := s.setRoute entry r)).mem_iff.1 hp)

theorem Valid.addNetmaskRoutes {interfaces : List (ℕ × NetmaskInterface)} (h : s.Valid)
    (hnodup : (interfaces.map Prod.fst).Nodup) (hnew : ∀ x ∈ interfaces, x.1 ∉ s.routes)
    (hnetmask : ∀ x ∈ interfaces, ∀ data ∈ x.2.routeData, isValidNetmask data.2.1 = true)
    (hrun : (addNetmaskRoutes interfaces).run s = .ok () s') : s'.Valid := by
  induction interfaces generalizing s with
  | nil =>
    cases hrun
    exact h
  | cons first interfaces ih =>
    obtain ⟨entry, ie⟩ := first
    rw [List.map_cons, List.nodup_cons] at hnodup
    rw [List.forall_mem_cons] at hnew hnetmask
    rw [Ipv4RoutingTable.addNetmaskRoutes] at hrun
    cases hdata : ie.routeData with
    | none =>
      rw [hdata] at hrun
      exact ih h hnodup.2 hnew.2 hnetmask.2 hrun
    | some data =>
      obtain ⟨ipAddress, netmask, metric⟩ := data
      rw [hdata] at hrun
      obtain ⟨_, t, hadd, hrun⟩ := exists_of_run_bind hrun
      obtain ⟨hvalid, hroutes⟩ := h.addNetmaskRoute hnew.1 (hnetmask.1 _ hdata) hadd
      refine ih hvalid hnodup.2 (fun x hx hmem => ?_) hnetmask.2 hrun
      rcases hroutes x.1 hmem with heq | hmem
      · exact hnodup.1 (heq ▸ List.mem_map_of_mem hx)
      · exact hnew.2 x hx hmem

/-! ## Fields that can be set in place -/

theorem Valid.setOtherField (store : Ipv4Route → Ipv4Route) (h : s.Valid)
    (hrt : ∀ r, (store r).rt = r.rt) (hdest : ∀ r, (store r).dest = r.dest)
    (hnetmask : ∀ r, (store r).netmask = r.netmask)
    (hkey : ∀ r, routeKey s.useAdminDist (store r) = routeKey s.useAdminDist r) :
    (s.setRoute entry (store (s.route entry))).Valid := by
  set t := s.setRoute entry (store (s.route entry)) with ht
  have hfields {α : Type} (field : Ipv4Route → α) (hset : ∀ r, field (store r) = field r) (p : ℕ) :
      field (t.route p) = field (s.route p) := by
    by_cases hp : p = entry
    · rw [hp, ht, setRoute_route, hset]
    · rw [ht, setRoute_route_of_ne _ _ hp]
  have hsearch (dest : BitVec 32) : t.search dest = s.search dest := by
    unfold search
    congr 1
    funext p
    rw [hfields _ hdest p, hfields _ hnetmask p]
  refine ⟨⟨h.ordered.nodup, fun p hp => ?_, fun p hp => ?_, h.ordered.sorted.imp fun hle => ?_⟩,
    fun x hx => ?_⟩
  · rw [hfields _ hrt]
    exact h.ordered.rt p hp
  · obtain ⟨hmask, hout⟩ := h.ordered.proper p hp
    constructor
    · rwa [hfields _ hnetmask]
    · rwa [hfields _ hdest, hfields _ hnetmask]
  · exact (hfields _ hkey _).trans_le (hle.trans_eq (hfields _ hkey _).symm)
  · rw [hsearch]
    exact h.cache x hx

theorem Valid.findBestMatchingRoute (h : s.Valid) (dest : BitVec 32) :
    (s.findBestMatchingRoute dest).2.Valid := by
  unfold Ipv4RoutingTable.findBestMatchingRoute
  split
  · exact h
  · refine ⟨h.ordered.restrict (.refl _) (fun _ _ => rfl) rfl, fun x hx => ?_⟩
    rcases List.mem_cons.1 hx with rfl | hx
    · rfl
    · exact h.cache x hx

/-! ## The run -/

theorem Valid.call {c : TableCall} (h : s.Valid) (hallowed : c.Allowed s)
    (hrun : c.method.run s = .ok () s') : s'.Valid := by
  cases c with
  | route call =>
    cases call with
    | addRoute entry => exact Valid.internalAddRoute h.ordered hallowed hrun
    | setDestination entry dest =>
      rw [TableCall.method, RouteCall.method, setDestination] at hrun
      exact h.setField hallowed hrun fun _ => rfl
    | setNetmask entry netmask =>
      rw [TableCall.method, RouteCall.method, setNetmask] at hrun
      exact h.setField hallowed hrun fun _ => rfl
    | setMetric entry metric =>
      rw [TableCall.method, RouteCall.method, setMetric] at hrun
      exact h.setField hallowed hrun fun _ => rfl
  | removeRoute entry =>
    obtain ⟨_, hrun⟩ := run_discard hrun
    exact h.removeRoute hrun
  | deleteRoute entry =>
    obtain ⟨_, hrun⟩ := run_discard hrun
    exact (shrinks_deleteRoute hrun).valid h
  | updateNetmaskRoutes isNetmaskRoute interfaces =>
    obtain ⟨hnodup, hnew, hnetmask⟩ := hallowed
    obtain ⟨_, t, hdelete, hrun⟩ := exists_of_run_bind (run_get_bind hrun)
    have hshrinks := shrinks_deleteRoutes hdelete
    exact (hshrinks.valid h).addNetmaskRoutes hnodup
      (fun x hx hmem => hnew x hx (hshrinks.routes.mem hmem)) hnetmask hrun
  | deleteInterfaceRoutes interfacePtr =>
    replace hrun := run_get_bind hrun
    exact (shrinks_deleteRoutes hrun).valid h
  | findBestMatchingRoute dest =>
    cases hrun
    exact h.findBestMatchingRoute dest
  | setAdminDist entry adminDist =>
    cases hrun
    refine h.setOtherField (fun r => { r with adminDist }) (fun _ => rfl) (fun _ => rfl)
      (fun _ => rfl) fun r => ?_
    rw [show s.useAdminDist = false from hallowed]
    rfl
  | setInterface entry interfacePtr =>
    cases hrun
    exact h.setOtherField (fun r => { r with interfacePtr }) (fun _ => rfl) (fun _ => rfl)
      (fun _ => rfl) fun _ => rfl

theorem Reachable.valid (h : s.Reachable) : s.Valid := by
  induction h with
  | empty useAdminDist route => exact ⟨⟨List.nodup_nil, nofun, nofun, .nil⟩, nofun⟩
  | call _ hallowed hrun ih => exact ih.call hallowed hrun

/-- In every table that is reached, the routes are sorted and the best ones are found. -/
theorem Reachable.findsBest (h : s.Reachable) : s.FindsBest where
  sorted := h.valid.ordered.sorted.imp fun hle => not_routeLessThan_iff.2 hle
  none_iff dest := by rw [h.valid.findBestMatchingRoute_eq, search_eq_none]
  best dest p hp := by
    rw [h.valid.findBestMatchingRoute_eq] at hp
    exact h.valid.ordered.search_eq_some hp

/-- Two routes to 10.0.0.0/8 are added, the one with the larger distance first. -/
theorem findsBest_netTen : ∃ s : Ipv4RoutingTable, s.routes = [1, 0] ∧ s.FindsBest :=
  ⟨_, rfl, Reachable.findsBest (.call (c := .route (.addRoute 1))
    (.call (c := .route (.addRoute 0)) (.empty true fun p =>
      ⟨false, 0x0A000000#32, 0xFF000000#32, some 1, if p = 0 then 2 else 1, 0⟩)
      List.not_mem_nil rfl) (by exact fun h => absurd (List.mem_singleton.1 h) (by decide)) rfl)⟩

end Ipv4RoutingTable

end Inet.Ipv4
