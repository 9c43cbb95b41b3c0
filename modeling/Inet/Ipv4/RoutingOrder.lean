import Inet.Ipv4.RoutingTable
import Inet.Lib.OrderedMap
import Mathlib.Data.Prod.Lex

/-! # The order of the routes

The routes stand in the order of a key: netmask, destination, administrative
distance and metric. Of the routes that match a destination, those with one
netmask have one destination, so that the first one is the best.
-/

namespace Inet.Ipv4

open Aodv.Ipv4 (makeNetmask maskedAddrAreEqual)

/-! ## Netmasks -/

theorem getNetmaskLength_le (netmask : BitVec 32) : getNetmaskLength netmask ≤ 32 := by
  unfold getNetmaskLength
  split
  · exact Nat.sub_le _ _
  · exact Nat.zero_le _

theorem makeNetmask_le_iff : ∀ a ≤ 32, ∀ b ≤ 32,
    (makeNetmask a).toNat ≤ (makeNetmask b).toNat ↔ a ≤ b := by
  decide +kernel

theorem toNat_le_iff_of_isValidNetmask {a b : BitVec 32} (ha : isValidNetmask a = true)
    (hb : isValidNetmask b = true) :
    a.toNat ≤ b.toNat ↔ getNetmaskLength a ≤ getNetmaskLength b := by
  have heq := makeNetmask_le_iff _ (getNetmaskLength_le a) _ (getNetmaskLength_le b)
  rwa [← of_decide_eq_true ha, ← of_decide_eq_true hb] at heq

/-- A netmask that the table accepts, and no bits of the destination outside of it. -/
structure Ipv4Route.Proper (route : Ipv4Route) : Prop where
  netmask : isValidNetmask route.netmask = true
  dest : route.dest &&& ~~~route.netmask = 0

def Ipv4Route.Matches (route : Ipv4Route) (dest : BitVec 32) : Prop :=
  maskedAddrAreEqual dest route.dest route.netmask = true

theorem Ipv4Route.proper_of_rejection {route : Ipv4Route} (h : route.rejection = none) :
    route.Proper := by
  unfold rejection at h
  split_ifs at h with hnetmask _ hdest _
  exact ⟨hnetmask, not_not.1 hdest⟩

theorem Ipv4Route.dest_eq_of_matches {a b : Ipv4Route} {dest : BitVec 32} (ha : a.Proper)
    (hb : b.Proper) (hma : a.Matches dest) (hmb : b.Matches dest) (heq : a.netmask = b.netmask) :
    a.dest = b.dest := by
  have hbit {r : Ipv4Route} (hr : r.Proper) (hm : r.Matches dest) {i : ℕ} (hi : i < 32) :
      r.dest.getLsbD i = (dest.getLsbD i && r.netmask.getLsbD i) := by
    have hout := congrArg (fun x => x.getLsbD i) hr.dest
    have hin := congrArg (fun x => x.getLsbD i) (of_decide_eq_true hm)
    simp only [BitVec.getLsbD_and, BitVec.getLsbD_not, BitVec.getLsbD_xor, decide_eq_true hi,
      BitVec.ofNat_eq_ofNat, BitVec.getLsbD_zero] at hout hin
    revert hout hin
    cases r.dest.getLsbD i <;> cases dest.getLsbD i <;> cases r.netmask.getLsbD i <;> decide
  refine BitVec.eq_of_getLsbD_eq fun i hi => ?_
  rw [hbit ha hma hi, hbit hb hmb hi, heq]

namespace Ipv4RoutingTable

/-! ## The key of a route -/

/-- Routes are ordered by what this compares, which is lexicographic. -/
def routeKey (useAdminDist : Bool) (r : Ipv4Route) : ℕ ×ₗ ℕ ×ₗ ℕ ×ₗ ℤ :=
  toLex (2 ^ 32 - 1 - r.netmask.toNat, toLex (r.dest.toNat,
    toLex (if useAdminDist then r.adminDist else 0, r.metric)))

variable {useAdminDist : Bool} {a b : Ipv4Route}

theorem routeLessThan_iff : routeLessThan useAdminDist a b = true ↔
    routeKey useAdminDist a < routeKey useAdminDist b := by
  have hnetmask := @BitVec.toNat_inj 32 a.netmask b.netmask
  have hdest := @BitVec.toNat_inj 32 a.dest b.dest
  have ha := a.netmask.isLt
  have hb := b.netmask.isLt
  unfold routeLessThan routeKey
  rw [Prod.Lex.toLex_lt_toLex, Prod.Lex.toLex_lt_toLex, Prod.Lex.toLex_lt_toLex]
  dsimp only
  by_cases hmask : a.netmask = b.netmask
  · have heq := hnetmask.2 hmask
    rw [if_neg (not_not.2 hmask)]
    by_cases hd : a.dest = b.dest
    · have heq' := hdest.2 hd
      rw [if_neg (not_not.2 hd)]
      cases useAdminDist with
      | false => simp [heq, heq']
      | true =>
        by_cases hdist : a.adminDist = b.adminDist <;> simp [heq, heq', hdist]
    · have hne := mt hdest.1 hd
      rw [if_pos hd, decide_eq_true_eq, BitVec.lt_def]
      omega
  · have hne := mt hnetmask.1 hmask
    rw [if_pos hmask, decide_eq_true_eq, gt_iff_lt, BitVec.lt_def]
    omega

theorem not_routeLessThan_iff : routeLessThan useAdminDist b a = false ↔
    routeKey useAdminDist a ≤ routeKey useAdminDist b := by
  rw [← not_lt, ← routeLessThan_iff, Bool.not_eq_true]

/-- The first route is at least as good as the second one. -/
structure AsGood (useAdminDist : Bool) (a b : Ipv4Route) : Prop where
  netmask : getNetmaskLength b.netmask ≤ getNetmaskLength a.netmask
  adminDist : getNetmaskLength a.netmask = getNetmaskLength b.netmask → useAdminDist = true →
    a.adminDist ≤ b.adminDist
  metric : getNetmaskLength a.netmask = getNetmaskLength b.netmask →
    (useAdminDist = true → a.adminDist = b.adminDist) → a.metric ≤ b.metric

theorem AsGood.of_key_le {dest : BitVec 32} (ha : a.Proper) (hb : b.Proper) (hma : a.Matches dest)
    (hmb : b.Matches dest) (h : routeKey useAdminDist a ≤ routeKey useAdminDist b) :
    AsGood useAdminDist a b := by
  have hlt := a.netmask.isLt
  have hlt' := b.netmask.isLt
  have hle := toNat_le_iff_of_isValidNetmask ha.netmask hb.netmask
  have hge := toNat_le_iff_of_isValidNetmask hb.netmask ha.netmask
  have hsame (hlength : getNetmaskLength a.netmask = getNetmaskLength b.netmask) :
      a.netmask.toNat = b.netmask.toNat ∧ a.dest.toNat = b.dest.toNat := by
    have heq : a.netmask.toNat = b.netmask.toNat := by omega
    exact ⟨heq, congrArg BitVec.toNat
      (Ipv4Route.dest_eq_of_matches ha hb hma hmb (BitVec.eq_of_toNat_eq heq))⟩
  unfold routeKey at h
  rw [Prod.Lex.toLex_le_toLex, Prod.Lex.toLex_le_toLex, Prod.Lex.toLex_le_toLex] at h
  dsimp only at h
  refine ⟨by omega, fun hlength huse => ?_, fun hlength hdist => ?_⟩
  · obtain ⟨heq, hdest⟩ := hsame hlength
    rw [huse, if_pos rfl, if_pos rfl] at h
    omega
  · obtain ⟨heq, hdest⟩ := hsame hlength
    split_ifs at h with huse
    · have := hdist huse
      omega
    · omega

/-! ## Tables in order -/

/-- The routes are different and know the table, and stand in the order of their keys. -/
structure Ordered (t : Ipv4RoutingTable) : Prop where
  nodup : t.routes.Nodup
  rt : ∀ p ∈ t.routes, (t.route p).rt = true
  proper : ∀ p ∈ t.routes, (t.route p).Proper
  sorted : t.routes.Pairwise fun p q =>
    routeKey t.useAdminDist (t.route p) ≤ routeKey t.useAdminDist (t.route q)

/-- The route that a search finds. -/
def search (t : Ipv4RoutingTable) (dest : BitVec 32) : Option ℕ :=
  t.routes.find? fun p => maskedAddrAreEqual dest (t.route p).dest (t.route p).netmask

/-- The table is in order, and the cache has what a search finds. -/
structure Valid (t : Ipv4RoutingTable) : Prop where
  ordered : t.Ordered
  cache : ∀ x ∈ t.routingCache, x.2 = t.search x.1

variable {t t' : Ipv4RoutingTable} {entry p q : ℕ} {dest : BitVec 32}

theorem Ordered.restrict (h : t.Ordered) (hroutes : t'.routes.Sublist t.routes)
    (hroute : ∀ p ∈ t'.routes, t'.route p = t.route p) (huse : t'.useAdminDist = t.useAdminDist) :
    t'.Ordered where
  nodup := h.nodup.sublist hroutes
  rt p hp := hroute p hp ▸ h.rt p (hroutes.mem hp)
  proper p hp := hroute p hp ▸ h.proper p (hroutes.mem hp)
  sorted := by
    refine (h.sorted.sublist hroutes).imp_of_mem fun hp hq hle => ?_
    rw [hroute _ hp, hroute _ hq, huse]
    exact hle

theorem perm_insertRoute : (t.insertRoute entry).routes.Perm (entry :: t.routes) := by
  refine List.perm_middle.trans ?_
  rw [List.takeWhile_append_dropWhile]

theorem Ordered.insert (h : t.Ordered) (hnew : entry ∉ t.routes) (hproper : (t.route entry).Proper)
    (hroutes : t'.routes = (t.insertRoute entry).routes)
    (hroute : ∀ p ∈ t.routes, t'.route p = t.route p)
    (hentry : t'.route entry = { t.route entry with rt := true })
    (huse : t'.useAdminDist = t.useAdminDist) : t'.Ordered := by
  have hperm : t'.routes.Perm (entry :: t.routes) := hroutes ▸ perm_insertRoute
  have hmem (p : ℕ) (hp : p ∈ t'.routes) : p = entry ∨ p ∈ t.routes :=
    List.mem_cons.1 (hperm.mem_iff.1 hp)
  refine ⟨hperm.nodup_iff.2 (List.nodup_cons.2 ⟨hnew, h.nodup⟩), fun p hp => ?_, fun p hp => ?_, ?_⟩
  · rcases hmem p hp with rfl | hp
    · rw [hentry]
    · rw [hroute p hp]
      exact h.rt p hp
  · rcases hmem p hp with rfl | hp
    · rw [hentry]
      exact ⟨hproper.netmask, hproper.dest⟩
    · rw [hroute p hp]
      exact h.proper p hp
  · rw [hroutes, insertRoute]
    have hsorted := OrderedMap.pairwise_insert (e := entry)
      (fun p => routeKey t.useAdminDist (t.route p))
      (fun p hp => not_routeLessThan_iff.1 (Bool.not_eq_true _ ▸ of_decide_eq_true hp))
      (fun p hp => (routeLessThan_iff.1 (not_not.1 (of_decide_eq_false hp))).le) h.sorted
    refine hsorted.imp_of_mem fun hp hq hle => ?_
    have hsame (p : ℕ) (hp : p ∈ t'.routes) : routeKey t'.useAdminDist (t'.route p) =
        routeKey t.useAdminDist (t.route p) := by
      rcases hmem p hp with rfl | hp
      · rw [hentry, huse]
        rfl
      · rw [hroute p hp, huse]
    rw [hsame _ (hroutes ▸ hp), hsame _ (hroutes ▸ hq)]
    exact hle

theorem Ordered.search_eq_some (h : t.Ordered) (hp : t.search dest = some p) :
    p ∈ t.routes ∧ (t.route p).Matches dest ∧ ∀ q ∈ t.routes, (t.route q).Matches dest →
      AsGood t.useAdminDist (t.route p) (t.route q) := by
  obtain ⟨hmatches, before, behind, hroutes, hnone⟩ := List.find?_eq_some_iff_append.1 hp
  have hmem : p ∈ t.routes := by
    rw [hroutes]
    exact List.mem_append_right _ List.mem_cons_self
  refine ⟨hmem, hmatches, fun q hq hmq => ?_⟩
  refine .of_key_le (h.proper p hmem) (h.proper q hq) hmatches hmq ?_
  have hsorted := h.sorted
  rw [hroutes] at hq hsorted
  obtain ⟨-, hsorted, -⟩ := List.pairwise_append.1 hsorted
  rcases List.mem_append.1 hq with hq | hq
  · exact absurd hmq (by simpa [Ipv4Route.Matches] using hnone q hq)
  · rcases List.mem_cons.1 hq with rfl | hq
    · exact le_rfl
    · exact (List.pairwise_cons.1 hsorted).1 q hq

theorem search_eq_none : t.search dest = none ↔ ∀ q ∈ t.routes, ¬ (t.route q).Matches dest :=
  List.find?_eq_none

theorem Valid.findBestMatchingRoute_eq (h : t.Valid) (dest : BitVec 32) :
    (t.findBestMatchingRoute dest).1 = t.search dest := by
  unfold findBestMatchingRoute
  split
  · rename_i bestRoute hlookup
    obtain ⟨_, _, hcache, -⟩ := List.lookup_eq_some_iff.1 hlookup
    exact h.cache (dest, bestRoute) (hcache ▸ List.mem_append_right _ List.mem_cons_self)
  · rfl

end Ipv4RoutingTable

end Inet.Ipv4
