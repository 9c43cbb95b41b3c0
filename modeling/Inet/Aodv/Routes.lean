import Inet.Common.Error
import Mathlib.Data.List.Basic
import Mathlib.Data.List.TakeWhile
import Mathlib.Data.Int.Basic

/-! # Routes of an AODV node

The route objects, the routing table that keeps pointers to them in its own
order, and the rules by which the table of a network protocol orders and finds
its routes.
-/

namespace Inet.Aodv

variable {Addr : Type}

structure AodvRouteData (Addr : Type) where
  precursorList : List Addr
  active : Bool
  validDestNum : Bool
  destSeqNum : BitVec 32
  lifeTime : ℤ
  deriving DecidableEq

/-- An `IRoute`. `own` tells whether `getSource()` is the AODV module, and `protocolData` is the
data of the route if it is `AodvRouteData`. -/
structure Route (Addr : Type) where
  destination : Addr
  prefixLength : ℕ
  nextHop : Addr
  metric : BitVec 32
  adminDist : ℕ
  interface : Option ℕ
  own : Bool
  protocolData : Option (AodvRouteData Addr)
  deriving DecidableEq

/-- What AODV relies on of the addresses and of the `IRoutingTable` of a network protocol. The
routing table is a list of pointers, and a route is found as the first one that matches. -/
structure RoutingTableRules (Addr : Type) where
  unspecifiedAddress : Addr
  broadcastAddress : Addr
  maxPrefixLength : ℕ
  «matches» : Addr → Route Addr → Bool
  /-- `addRoute` for a pointer: the place of the route in the table. -/
  insert : (ℕ → Route Addr) → ℕ → List ℕ → Except Error (List ℕ)
  maxPrefixLength_ne_zero : maxPrefixLength ≠ 0
  mem_insert : ∀ {route p routes routes'}, insert route p routes = .ok routes' → p ∈ routes'
  mem_insert_of_mem : ∀ {route p q routes routes'}, insert route p routes = .ok routes' →
    q ∈ routes → (route q).prefixLength ≠ 0 → q ∈ routes'
  eq_or_mem_of_mem_insert : ∀ {route p q routes routes'}, insert route p routes = .ok routes' →
    q ∈ routes' → q = p ∨ q ∈ routes
  matches_congr : ∀ dest {r r'}, r'.destination = r.destination →
    r'.prefixLength = r.prefixLength → «matches» dest r' = «matches» dest r
  /-- A host route is found before all routes that are no host routes. -/
  find?_insert : ∀ {route p routes routes' dest}, insert route p routes = .ok routes' →
    (route p).prefixLength = maxPrefixLength → «matches» dest (route p) = true →
    (∀ q ∈ routes, q ≠ p → «matches» dest (route q) = true →
      (route q).prefixLength < maxPrefixLength) →
    routes'.find? (fun q => «matches» dest (route q)) = some p

namespace Ipv4

def makeNetmask (length : ℕ) : BitVec 32 :=
  if 32 ≤ length then 0xFFFFFFFF#32 else ~~~(0xFFFFFFFF#32 >>> length)

def maskedAddrAreEqual (addr1 addr2 netmask : BitVec 32) : Bool :=
  (addr1 ^^^ addr2) &&& netmask = 0

def routeLessThan (useAdminDist : Bool) (a b : Route (BitVec 32)) : Bool :=
  if makeNetmask a.prefixLength ≠ makeNetmask b.prefixLength then
    makeNetmask b.prefixLength < makeNetmask a.prefixLength
  else if a.destination ≠ b.destination then a.destination < b.destination
  else if useAdminDist ∧ a.adminDist ≠ b.adminDist then a.adminDist < b.adminDist
  else a.metric.slt b.metric

/-- The table without the default route, which stands at its end. -/
def removeDefaultRoute (route : ℕ → Route (BitVec 32)) (routes : List ℕ) : List ℕ :=
  match routes.getLast? with
  | some q => if makeNetmask (route q).prefixLength = 0 then routes.dropLast else routes
  | none => routes

/-- `upper_bound` and `insert`. -/
def insertSorted (useAdminDist : Bool) (route : ℕ → Route (BitVec 32)) (p : ℕ)
    (routes : List ℕ) : List ℕ :=
  let stays := fun q => ¬ routeLessThan useAdminDist (route p) (route q)
  routes.takeWhile stays ++ p :: routes.dropWhile stays

/-- The netmask of a route is made of a length, so that it is a valid one. -/
def internalAddRoute (useAdminDist : Bool) (route : ℕ → Route (BitVec 32)) (p : ℕ)
    (routes : List ℕ) : Except Error (List ℕ) :=
  let entry := route p
  let netmask := makeNetmask entry.prefixLength
  if netmask ≠ 0 ∧ entry.destination &&& netmask = 0 then
    throw (.runtime
      "addRoute(): all bits of destination address %s is 0 inside non zero netmask %s")
  else if entry.destination &&& ~~~netmask ≠ 0 then
    throw (.runtime
      "addRoute(): suspicious route: destination IP address %s has bits set outside netmask %s")
  else if entry.interface = none then
    throw (.runtime "addRoute(): interface cannot be nullptr")
  else if netmask = 0 then
    return insertSorted useAdminDist route p (removeDefaultRoute route routes)
  else return insertSorted useAdminDist route p routes

variable {useAdminDist : Bool} {route : ℕ → Route (BitVec 32)} {p q : ℕ} {routes routes' : List ℕ}

theorem mem_insertSorted :
    q ∈ insertSorted useAdminDist route p routes ↔ q = p ∨ q ∈ routes := by
  simp only [insertSorted, List.mem_append, List.mem_cons]
  rw [or_left_comm, ← List.mem_append, List.takeWhile_append_dropWhile]

theorem makeNetmask_eq_zero {length : ℕ} (h : makeNetmask length = 0) : length = 0 := by
  by_contra hne
  have hbit := congrArg (fun mask => mask.getLsbD 31) h
  rw [makeNetmask] at hbit
  split_ifs at hbit with hle
  · cases hbit
  · have hzero : (0xFFFFFFFF#32).getLsbD (length + 31) = false :=
      BitVec.getLsbD_of_ge _ _ (by omega)
    simp only [BitVec.getLsbD_not, BitVec.getLsbD_ushiftRight, hzero] at hbit
    cases hbit

theorem le_of_makeNetmask_eq {length : ℕ} (h : makeNetmask length = 0xFFFFFFFF#32) :
    32 ≤ length := by
  by_contra hlt
  have hbit := congrArg (fun mask => mask.getLsbD 0) h
  rw [makeNetmask, if_neg hlt] at hbit
  have hone : (0xFFFFFFFF#32).getLsbD (length + 0) = true := by
    rw [show 0xFFFFFFFF#32 = BitVec.allOnes 32 from rfl, BitVec.getLsbD_allOnes]
    exact decide_eq_true (by omega)
  simp only [BitVec.getLsbD_not, BitVec.getLsbD_ushiftRight, hone] at hbit
  cases hbit

theorem le_prefixLength_of_not_routeLessThan {a b : Route (BitVec 32)} (ha : a.prefixLength = 32)
    (h : ¬ routeLessThan useAdminDist a b) : 32 ≤ b.prefixLength := by
  have hmask : makeNetmask a.prefixLength = 0xFFFFFFFF#32 := if_pos ha.ge
  refine le_of_makeNetmask_eq (of_not_not fun hne => h ?_)
  rw [routeLessThan, hmask, if_pos (Ne.symm hne), decide_eq_true_eq]
  exact BitVec.lt_def.2 (lt_of_le_of_ne (Nat.le_of_lt_succ (makeNetmask b.prefixLength).isLt)
    fun heq => hne (BitVec.eq_of_toNat_eq heq))

theorem find?_insertSorted {f : Route (BitVec 32) → Bool} (hp : (route p).prefixLength = 32)
    (hf : f (route p) = true)
    (hothers : ∀ q ∈ routes, q ≠ p → f (route q) = true → (route q).prefixLength < 32) :
    (insertSorted useAdminDist route p routes).find? (fun q => f (route q)) = some p := by
  rw [insertSorted, List.find?_append, List.find?_cons, hf]
  by_cases hnone :
    ((routes.takeWhile fun q => ¬ routeLessThan useAdminDist (route p) (route q)).find?
      fun q => f (route q)) = none
  · rw [hnone]
    rfl
  · obtain ⟨q, hq⟩ := Option.ne_none_iff_exists'.1 hnone
    have hmem := List.mem_of_find?_eq_some hq
    have hbefore := List.mem_takeWhile_imp hmem
    have heq : q = p := by
      by_contra hne
      have hlt := hothers q (List.takeWhile_subset _ hmem) hne (List.find?_some hq :)
      exact hlt.not_ge (le_prefixLength_of_not_routeLessThan hp (of_decide_eq_true hbefore))
    rw [hq, heq]
    rfl

theorem mem_removeDefaultRoute : q ∈ removeDefaultRoute route routes → q ∈ routes := by
  unfold removeDefaultRoute
  split
  · split_ifs
    · exact fun hq => (List.dropLast_sublist routes).mem hq
    · exact id
  · exact id

theorem mem_removeDefaultRoute_of_mem (hq : q ∈ routes) (hne : (route q).prefixLength ≠ 0) :
    q ∈ removeDefaultRoute route routes := by
  unfold removeDefaultRoute
  split
  · rename_i last hlast
    split_ifs with hdefault
    · rw [← List.dropLast_append_getLast? last hlast, List.mem_append, List.mem_singleton] at hq
      rcases hq with hq | rfl
      · exact hq
      · exact absurd (makeNetmask_eq_zero hdefault) hne
    · exact hq
  · exact hq

theorem insert_spec (h : internalAddRoute useAdminDist route p routes = .ok routes') :
    p ∈ routes' ∧ (∀ q ∈ routes, (route q).prefixLength ≠ 0 → q ∈ routes') ∧
      ∀ q ∈ routes', q = p ∨ q ∈ routes := by
  unfold internalAddRoute at h
  dsimp only at h
  split_ifs at h with hdestination hsuspicious hinterface hdefault
  · cases h
    exact ⟨mem_insertSorted.2 (Or.inl rfl),
      fun q hq hne => mem_insertSorted.2 (Or.inr (mem_removeDefaultRoute_of_mem hq hne)),
      fun q hq => (mem_insertSorted.1 hq).imp_right mem_removeDefaultRoute⟩
  · cases h
    exact ⟨mem_insertSorted.2 (Or.inl rfl), fun q hq _ => mem_insertSorted.2 (Or.inr hq),
      fun q hq => mem_insertSorted.1 hq⟩

theorem find?_insert_spec {f : Route (BitVec 32) → Bool}
    (h : internalAddRoute useAdminDist route p routes = .ok routes')
    (hp : (route p).prefixLength = 32) (hf : f (route p) = true)
    (hothers : ∀ q ∈ routes, q ≠ p → f (route q) = true → (route q).prefixLength < 32) :
    routes'.find? (fun q => f (route q)) = some p := by
  unfold internalAddRoute at h
  dsimp only at h
  split_ifs at h with hdestination hsuspicious hinterface hdefault
  · cases h
    exact find?_insertSorted hp hf fun q hq => hothers q (mem_removeDefaultRoute hq)
  · cases h
    exact find?_insertSorted hp hf hothers

/-- The rules of `Ipv4RoutingTable`. -/
def rules (useAdminDist : Bool) : RoutingTableRules (BitVec 32) where
  unspecifiedAddress := 0
  broadcastAddress := 0xFFFFFFFF#32
  maxPrefixLength := 32
  «matches» dest route := maskedAddrAreEqual dest route.destination (makeNetmask route.prefixLength)
  insert := internalAddRoute useAdminDist
  maxPrefixLength_ne_zero := by decide
  mem_insert h := (insert_spec h).1
  mem_insert_of_mem h := (insert_spec h).2.1 _
  eq_or_mem_of_mem_insert h := (insert_spec h).2.2 _
  matches_congr dest r r' hdestination hplen := by rw [hdestination, hplen]
  find?_insert {_ _ _ _ dest} := find?_insert_spec
    (f := fun r => maskedAddrAreEqual dest r.destination (makeNetmask r.prefixLength))

end Ipv4

end Inet.Aodv
