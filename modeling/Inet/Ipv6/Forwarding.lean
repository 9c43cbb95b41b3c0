import Inet.Ipv6.RoutingTable
import Mathlib.Tactic.SplitIfs

/-! # Forwarding and the current routing table

A resolution that comes from the table follows the best route in it. One that
comes from the destination cache does so as long as no call takes a route that
a cache entry follows away from it: only `addRoute` purges the cache.
-/

namespace Inet.Ipv6

open Ipv6RoutingTable

/-- The route matches the destination and is not expired. -/
def Candidate (now : ℤ) (dest : Ipv6Address) (route : Ipv6Route) : Prop :=
  dest.matches route.destPrefix route.prefixLength = .ok true ∧ route.expired now = false

/-- The route that a datagram to `dest` has to take. -/
structure BestMatch (rt : Ipv6RoutingTable) (now : ℤ) (dest : Ipv6Address) (route : Ipv6Route) :
    Prop where
  mem : route ∈ rt.routeList
  candidate : Candidate now dest route
  longest : ∀ q ∈ rt.routeList, Candidate now dest q → q.prefixLength ≤ route.prefixLength
  adminDist : rt.useAdminDist = true → ∀ q ∈ rt.routeList, Candidate now dest q →
    q.prefixLength = route.prefixLength → route.adminDist ≤ q.adminDist
  metric : ∀ q ∈ rt.routeList, Candidate now dest q → q.prefixLength = route.prefixLength →
    (rt.useAdminDist = true → q.adminDist = route.adminDist) → route.metric ≤ q.metric

/-- The list is sorted by `routeLessThan`. -/
def Sorted (rt : Ipv6RoutingTable) : Prop := rt.routeList.Pairwise (InOrder rt.useAdminDist)

/-! ## The order of routes -/

section Order

variable {u : Bool} {a b c : Ipv6Route}

theorem inOrder_iff : InOrder u a b ↔ b.prefixLength ≤ a.prefixLength ∧
    (b.prefixLength = a.prefixLength → (u = true → a.adminDist ≤ b.adminDist) ∧
      ((u = true → b.adminDist = a.adminDist) → a.metric ≤ b.metric)) := by
  unfold InOrder routeLessThan
  split_ifs with hlength hdist
  · rw [decide_eq_false_iff_not, not_lt]
    exact ⟨fun h => ⟨h, fun heq => absurd heq hlength⟩, And.left⟩
  · obtain ⟨rfl, hne⟩ := hdist
    rw [decide_eq_false_iff_not, not_lt]
    refine ⟨fun h => ⟨?_, fun _ => ⟨fun _ => h, fun heq => absurd (heq rfl) hne⟩⟩, ?_⟩
    · exact (not_not.1 hlength).le
    · exact fun h => (h.2 (not_not.1 hlength)).1 rfl
  · rw [decide_eq_false_iff_not, not_lt]
    have heq : u = true → b.adminDist = a.adminDist := fun hu =>
      not_not.1 fun hne => hdist ⟨hu, hne⟩
    refine ⟨fun h => ⟨(not_not.1 hlength).le, fun _ => ⟨fun hu => (heq hu).ge, fun _ => h⟩⟩, ?_⟩
    exact fun h => (h.2 (not_not.1 hlength)).2 heq

theorem inOrder_refl (a : Ipv6Route) : InOrder u a a := by
  rw [inOrder_iff]
  exact ⟨le_rfl, fun _ => ⟨fun _ => le_rfl, fun _ => le_rfl⟩⟩

instance : IsTrans Ipv6Route (InOrder u) where
  trans a b c hab hbc := by
    rw [inOrder_iff] at *
    cases u <;> simp only [Bool.false_eq_true, false_implies, true_implies, true_and] at * <;> omega

instance : Std.Total (InOrder u) where
  total a b := by
    rw [inOrder_iff, inOrder_iff]
    cases u <;> simp only [Bool.false_eq_true, false_implies, true_implies, true_and] <;> omega

end Order

section Best

variable {rt : Ipv6RoutingTable} {now : ℤ} {dest : Ipv6Address} {r : Ipv6Route}

theorem bestMatch_iff : BestMatch rt now dest r ↔ r ∈ rt.routeList ∧ Candidate now dest r ∧
    ∀ q ∈ rt.routeList, Candidate now dest q → InOrder rt.useAdminDist r q := by
  constructor
  · rintro ⟨hmem, hcandidate, hlongest, hdist, hmetric⟩
    refine ⟨hmem, hcandidate, ?_⟩
    intro q hq hc
    rw [inOrder_iff]
    exact ⟨hlongest q hq hc, fun hlen => ⟨fun hu => hdist hu q hq hc hlen, hmetric q hq hc hlen⟩⟩
  · rintro ⟨hmem, hcandidate, hbest⟩
    have hbest' := fun q hq hc => inOrder_iff.1 (hbest q hq hc)
    constructor
    · exact hmem
    · exact hcandidate
    · exact fun q hq hc => (hbest' q hq hc).1
    · exact fun hu q hq hc hlen => ((hbest' q hq hc).2 hlen).1 hu
    · exact fun q hq hc hlen => ((hbest' q hq hc).2 hlen).2

theorem BestMatch.congr_list {rt' : Ipv6RoutingTable} (h : BestMatch rt now dest r)
    (hlist : rt'.routeList = rt.routeList) (huse : rt'.useAdminDist = rt.useAdminDist) :
    BestMatch rt' now dest r := by
  rw [bestMatch_iff] at *
  rwa [hlist, huse]

theorem firstMatch_some {l : List Ipv6Route} (h : firstMatch now dest l = .ok (some r)) :
    ∃ l₁ l₂, l = l₁ ++ r :: l₂ ∧ Candidate now dest r ∧ ∀ q ∈ l₁, ¬ Candidate now dest q := by
  induction l with
  | nil => cases h
  | cons a l ih =>
    have hskip : ¬ Candidate now dest a → firstMatch now dest l = .ok (some r) →
        ∃ l₁ l₂, a :: l = l₁ ++ r :: l₂ ∧ Candidate now dest r ∧
          ∀ q ∈ l₁, ¬ Candidate now dest q := by
      intro ha hl
      obtain ⟨l₁, l₂, rfl, hr, hbefore⟩ := ih hl
      exact ⟨a :: l₁, l₂, rfl, hr, List.forall_mem_cons.2 ⟨ha, hbefore⟩⟩
    obtain ⟨m, hm, h⟩ := Error.exists_of_bind_eq_ok h
    split_ifs at h with hmatch hexpired
    · exact hskip (fun hc => absurd hexpired (by simp [hc.2])) h
    · obtain rfl : a = r := by cases h; rfl
      exact ⟨[], l, rfl, ⟨by rw [hm, hmatch], by simpa using hexpired⟩, by simp⟩
    · refine hskip (fun hc => hmatch ?_) h
      rw [hc.1] at hm
      cases hm
      rfl

theorem bestMatch_of_firstMatch (hsorted : Sorted rt)
    (h : rt.doLongestPrefixMatch now dest = .ok (some r)) : BestMatch rt now dest r := by
  obtain ⟨l₁, l₂, heq, hr, hbefore⟩ := firstMatch_some h
  rw [bestMatch_iff]
  unfold Sorted at hsorted
  rw [heq] at hsorted ⊢
  refine ⟨by simp, hr, ?_⟩
  intro q hq hc
  rw [List.mem_append, List.mem_cons] at hq
  rcases hq with hq | rfl | hq
  · exact absurd hc (hbefore q hq)
  · exact inOrder_refl q
  · exact (List.pairwise_cons.1 (List.pairwise_append.1 hsorted).2.1).1 q hq

end Best

/-! ## Entries and the routes they follow -/

/-- The cache answers for the destination with this entry. -/
def InUse (rt : Ipv6RoutingTable) (now : ℤ) (dest : Ipv6Address) (e : DestCacheEntry) : Prop :=
  rt.destCache dest = some e ∧ e.interfaceId ≠ -1 ∧ ¬ (e.expiryTime > 0 ∧ now > e.expiryTime)

/-- The entry tells what the route does, and no longer than the route lives. -/
structure Carries (route : Ipv6Route) (dest : Ipv6Address) (e : DestCacheEntry) : Prop where
  interfaceId : route.interfaceId = e.interfaceId
  nextHop : route.nextHopTo dest = e.nextHopAddr
  expiryTime : route.expiryTime = 0 ∨ (0 < e.expiryTime ∧ e.expiryTime ≤ route.expiryTime)

/-- The entry in use for the destination follows the route. -/
structure Follows (rt : Ipv6RoutingTable) (now : ℤ) (dest : Ipv6Address) (e : DestCacheEntry)
    (route : Ipv6Route) : Prop where
  inUse : InUse rt now dest e
  best : BestMatch rt now dest route
  carries : Carries route dest e

/-- Every entry in use follows a route. -/
def Current (rt : Ipv6RoutingTable) (now : ℤ) : Prop :=
  ∀ dest e, InUse rt now dest e → ∃ route, Follows rt now dest e route

/-- What holds before and after every call. -/
structure Consistent (rt : Ipv6RoutingTable) (now : ℤ) : Prop where
  sorted : Sorted rt
  current : Current rt now

/-! ## Calls that go unnoticed -/

/-- No route of the kind is followed by an entry in use. -/
def Unfollowed (rt : Ipv6RoutingTable) (now : ℤ) (kind : Ipv6Route → Prop) : Prop :=
  ∀ dest e route, Follows rt now dest e route → ¬ kind route

/-- A change of the route that `which` finds does not matter to the entries in use: one that follows
the route can still do so, and one that follows another route does not see it overtaken. -/
def ChangeUnnoticed (rt : Ipv6RoutingTable) (now : ℤ) (which : Ipv6Route → Bool)
    (f : Ipv6Route → Ipv6Route) : Prop :=
  ∀ route, rt.routeList.find? which = some route → ∀ dest e r, Follows rt now dest e r →
    (r = route → Carries (f route) dest e ∧ ∀ q ∈ rt.routeList.eraseP which,
      Candidate now dest q → routeLessThan rt.useAdminDist q (f route) = false) ∧
    (r ∈ rt.routeList.eraseP which → Candidate now dest (f route) →
      routeLessThan rt.useAdminDist (f route) r = false)

/-- The route keeps its place between the routes before and after it. -/
def KeepsPlace (rt : Ipv6RoutingTable) (ptr : ℕ) (f : Ipv6Route → Ipv6Route) : Prop :=
  ∀ l₁ route l₂, rt.routeList = l₁ ++ route :: l₂ → route.ptr = ptr →
    (∀ q ∈ l₁, routeLessThan rt.useAdminDist (f route) q = false) ∧
    ∀ q ∈ l₂, routeLessThan rt.useAdminDist q (f route) = false

namespace Event

/-- The call takes no entry in use away from its route and leaves the order of the list alone. -/
def Unnoticed (rt : Ipv6RoutingTable) (now : ℤ) : Event → Prop
  | .elapse _ | .determineOutputInterface _ | .addRoute _ => True
  | .removeRoute ptr | .deleteRoute ptr => Unfollowed rt now fun r => rt.findRoute ptr = some r
  | .deleteOnLinkPrefix destPrefix prefixLength => Unfollowed rt now fun r =>
    rt.routeList.find? (isAdvertised .routerAdvertisement destPrefix prefixLength) = some r
  | .deleteDefaultRoutes interfaceId => Unfollowed rt now fun r =>
    r.interface = some interfaceId ∧ r.prefixLength = 0
  | .deletePrefixes interfaceId => Unfollowed rt now fun r =>
    r.interface = some interfaceId ∧ r.prefixLength > 0
  | .deleteInterfaceRoutes interfaceId => Unfollowed rt now fun r => r.interface = some interfaceId
  | .deleteAllRoutes => Unfollowed rt now fun _ => True
  | .addOrUpdateOnLinkPrefix _ _ destPrefix prefixLength interfaceId expiryTime =>
    ChangeUnnoticed rt now (isAdvertised .routerAdvertisement destPrefix prefixLength) fun r =>
      { r with interface := some interfaceId, expiryTime }
  | .addOrUpdateOwnAdvPrefix _ _ destPrefix prefixLength interfaceId expiryTime =>
    ChangeUnnoticed rt now (isAdvertised .ownAdvPrefix destPrefix prefixLength) fun r =>
      { r with interface := some interfaceId, expiryTime }
  | .setMetric ptr metric => ChangeUnnoticed rt now (isRoute ptr) fun r => { r with metric }
  | .setAdminDist ptr adminDist =>
    ChangeUnnoticed rt now (isRoute ptr) (fun r => { r with adminDist }) ∧
      KeepsPlace rt ptr fun r => { r with adminDist }
  | .setNextHop ptr nextHop => ChangeUnnoticed rt now (isRoute ptr) fun r => { r with nextHop }
  | .setInterface ptr interface =>
    ChangeUnnoticed rt now (isRoute ptr) fun r => { r with interface }

end Event

/-! ## What a call keeps -/

section First

variable {p : Ipv6Route → Bool} {l : List Ipv6Route} {a q : Ipv6Route}

theorem exists_append_of_find? (f : Ipv6Route → Ipv6Route) (h : l.find? p = some a) :
    ∃ l₁ l₂, l = l₁ ++ a :: l₂ ∧ p a = true ∧ l.eraseP p = l₁ ++ l₂ ∧
      l.replaceF (fun r => if p r then some (f r) else none) = l₁ ++ f a :: l₂ := by
  induction l with
  | nil => cases h
  | cons b l ih =>
    rw [List.find?_cons] at h
    cases hb : p b with
    | true =>
      obtain rfl : b = a := by simpa [hb] using h
      exact ⟨[], l, rfl, hb, by simp [hb], by simp [hb]⟩
    | false =>
      obtain ⟨l₁, l₂, rfl, ha, herase, hreplace⟩ := ih (by simpa [hb] using h)
      exact ⟨b :: l₁, l₂, rfl, ha, by simp [hb, herase], by simp [hb, hreplace]⟩

theorem find?_or_mem_eraseP (hq : q ∈ l) : l.find? p = some q ∨ q ∈ l.eraseP p := by
  induction l with
  | nil => cases hq
  | cons b l ih =>
    rw [List.mem_cons] at hq
    cases hb : p b with
    | true =>
      rw [List.find?_cons_of_pos hb, List.eraseP_cons_of_pos hb]
      rcases hq with rfl | hq
      · exact .inl rfl
      · exact .inr hq
    | false =>
      have hb' : ¬ p b = true := by simp [hb]
      rw [List.find?_cons_of_neg hb', List.eraseP_cons_of_neg hb', List.mem_cons]
      rcases hq with rfl | hq
      · exact .inr (.inl rfl)
      · exact (ih hq).imp_right .inr

end First

section Keep

variable {rt rt' : Ipv6RoutingTable} {now : ℤ} {dest : Ipv6Address} {e : DestCacheEntry}
  {r : Ipv6Route}

theorem BestMatch.later (h : BestMatch rt now dest r) {later : ℤ} (hle : now ≤ later)
    (hexpired : r.expired later = false) : BestMatch rt later dest r := by
  rw [bestMatch_iff] at *
  refine ⟨h.1, ⟨h.2.1.1, hexpired⟩, ?_⟩
  rintro q hq ⟨hmatch, hq'⟩
  refine h.2.2 q hq ⟨hmatch, ?_⟩
  simp only [Ipv6Route.expired, decide_eq_false_iff_not] at *
  omega

theorem Carries.not_expired (h : Carries r dest e)
    (hfresh : ¬ (e.expiryTime > 0 ∧ now > e.expiryTime)) : r.expired now = false := by
  have := h.expiryTime
  rw [Ipv6Route.expired, decide_eq_false_iff_not]
  omega

theorem Consistent.later (h : Consistent rt now) {later : ℤ} (hle : now ≤ later) :
    Consistent rt later := by
  refine ⟨h.sorted, ?_⟩
  rintro dest e ⟨hcached, hid, hfresh⟩
  obtain ⟨r, -, hbest, hcarries⟩ := h.current dest e ⟨hcached, hid, by omega⟩
  exact ⟨r, ⟨hcached, hid, hfresh⟩, hbest.later hle (hcarries.not_expired hfresh), hcarries⟩

theorem Current.of_follows (h : Current rt now) (hcache : rt'.destCache = rt.destCache)
    (hfollows : ∀ dest e r, Follows rt now dest e r →
      ∃ r', BestMatch rt' now dest r' ∧ Carries r' dest e) : Current rt' now := by
  intro dest e huse
  obtain ⟨r, hr⟩ := h dest e (by rwa [InUse, ← hcache])
  obtain ⟨r', hbest, hcarries⟩ := hfollows dest e r hr
  exact ⟨r', huse, hbest, hcarries⟩

theorem Consistent.of_sublist (h : Consistent rt now) {l : List Ipv6Route}
    (hl : l.Sublist rt.routeList) {kind : Ipv6Route → Prop} (hkind : Unfollowed rt now kind)
    (hkept : ∀ q ∈ rt.routeList, ¬ kind q → q ∈ l) :
    Consistent { rt with routeList := l } now := by
  refine ⟨List.Pairwise.sublist hl h.sorted, h.current.of_follows rfl ?_⟩
  intro dest e r hr
  refine ⟨r, ?_, hr.carries⟩
  have hbest := bestMatch_iff.1 hr.best
  rw [bestMatch_iff]
  exact ⟨hkept r hbest.1 (hkind dest e r hr), hbest.2.1, fun q hq => hbest.2.2 q (hl.subset hq)⟩

theorem Consistent.eraseP (h : Consistent rt now) {which : Ipv6Route → Bool}
    (hwhich : Unfollowed rt now fun q => rt.routeList.find? which = some q) :
    Consistent { rt with routeList := rt.routeList.eraseP which } now :=
  h.of_sublist List.eraseP_sublist hwhich fun _ hq => (find?_or_mem_eraseP hq).resolve_left

theorem Consistent.deleteRoutes (h : Consistent rt now) {kind : Ipv6Route → Bool}
    {kind' : Ipv6Route → Prop} (hkind' : Unfollowed rt now kind')
    (hkind : ∀ q, kind q = true → kind' q) : Consistent (rt.deleteRoutes kind) now := by
  refine h.of_sublist List.filter_sublist hkind' ?_
  intro q hq hn
  rw [List.mem_filter, Bool.not_eq_true', Bool.eq_false_iff]
  exact ⟨hq, fun hk => hn (hkind q hk)⟩

theorem Current.change (h : Current rt now) {which : Ipv6Route → Bool} {f : Ipv6Route → Ipv6Route}
    (hchange : ChangeUnnoticed rt now which f) {route : Ipv6Route}
    (hroute : rt.routeList.find? which = some route)
    {l : List Ipv6Route} (hl : ∀ q, q ∈ l ↔ q = f route ∨ q ∈ rt.routeList.eraseP which)
    (hmatch : ∀ dest : Ipv6Address,
      dest.matches (f route).destPrefix (f route).prefixLength =
        dest.matches route.destPrefix route.prefixLength) :
    Current { rt with routeList := l } now := by
  refine h.of_follows rfl ?_
  intro dest e r hr
  obtain ⟨hsame, hother⟩ := hchange route hroute dest e r hr
  have hbest := bestMatch_iff.1 hr.best
  rcases find?_or_mem_eraseP hbest.1 with hfind | hmem
  · obtain rfl : route = r := Option.some.inj (hroute.symm.trans hfind)
    obtain ⟨hcarries, hq⟩ := hsame rfl
    refine ⟨f route, bestMatch_iff.2 ⟨(hl _).2 (.inl rfl), ?_, ?_⟩, hcarries⟩
    · exact ⟨(hmatch dest).trans hbest.2.1.1, hcarries.not_expired hr.inUse.2.2⟩
    · intro q hmem hc
      rcases (hl q).1 hmem with rfl | hmem
      · exact inOrder_refl _
      · exact hq q hmem hc
  · refine ⟨r, bestMatch_iff.2 ⟨(hl r).2 (.inr hmem), hbest.2.1, ?_⟩, hr.carries⟩
    intro q hq hc
    rcases (hl q).1 hq with rfl | hq
    · exact hother hmem hc
    · exact hbest.2.2 q (List.mem_of_mem_eraseP hq) hc

theorem Consistent.setInPlace (h : Consistent rt now) {which : Ipv6Route → Bool}
    {f : Ipv6Route → Ipv6Route} (hchange : ChangeUnnoticed rt now which f)
    (hplace : ∀ l₁ route l₂, rt.routeList = l₁ ++ route :: l₂ → which route = true →
      (∀ q ∈ l₁, InOrder rt.useAdminDist q (f route)) ∧
        ∀ q ∈ l₂, InOrder rt.useAdminDist (f route) q)
    (hmatch : ∀ (route : Ipv6Route) (dest : Ipv6Address),
      dest.matches (f route).destPrefix (f route).prefixLength =
        dest.matches route.destPrefix route.prefixLength) :
    Consistent (rt.setInPlace which f) now := by
  cases hroute : rt.routeList.find? which with
  | none =>
    have hnone : rt.setInPlace which f = rt := by
      rw [Ipv6RoutingTable.setInPlace, List.replaceF_of_forall_none]
      intro q hq
      rw [if_neg (List.find?_eq_none.1 hroute q hq)]
    rwa [hnone]
  | some route =>
    obtain ⟨l₁, l₂, hlist, hwhich, herase, hreplace⟩ := exists_append_of_find? f hroute
    obtain ⟨hbefore, hafter⟩ := hplace l₁ route l₂ hlist hwhich
    have hsorted := h.sorted
    rw [Sorted, hlist, List.pairwise_append] at hsorted
    obtain ⟨h₁, h₂, h₁₂⟩ := hsorted
    constructor
    · unfold Sorted Ipv6RoutingTable.setInPlace
      rw [hreplace, List.pairwise_append]
      refine ⟨h₁, List.pairwise_cons.2 ⟨hafter, (List.pairwise_cons.1 h₂).2⟩, ?_⟩
      intro a ha b hb
      rcases List.mem_cons.1 hb with rfl | hb
      · exact hbefore a ha
      · exact h₁₂ a ha b (List.mem_cons_of_mem _ hb)
    · refine h.current.change hchange hroute (fun q => ?_) (hmatch route)
      rw [hreplace, herase]
      simp only [List.mem_append, List.mem_cons]
      tauto

theorem Consistent.setInPlace_of_rank (h : Consistent rt now) {which : Ipv6Route → Bool}
    {f : Ipv6Route → Ipv6Route} (hchange : ChangeUnnoticed rt now which f)
    (hf : ∀ r, (f r).destPrefix = r.destPrefix ∧ (f r).prefixLength = r.prefixLength ∧
      (f r).adminDist = r.adminDist ∧ (f r).metric = r.metric) :
    Consistent (rt.setInPlace which f) now := by
  refine h.setInPlace hchange ?_ ?_
  · intro l₁ route l₂ hlist _
    obtain ⟨-, hlength, hdist, hmetric⟩ := hf route
    have hsorted := h.sorted
    rw [Sorted, hlist, List.pairwise_append, List.pairwise_cons] at hsorted
    constructor
    · intro q hq
      rw [inOrder_iff, hlength, hdist, hmetric, ← inOrder_iff]
      exact hsorted.2.2 q hq route List.mem_cons_self
    · intro q hq
      rw [inOrder_iff, hlength, hdist, hmetric, ← inOrder_iff]
      exact hsorted.2.1.1 q hq
  · intro route dest
    rw [(hf route).1, (hf route).2.1]

theorem sorted_internalAddRoute {route : Ipv6Route} (h : rt.internalAddRoute route = .ok rt') :
    rt' = { rt with routeList := stableSort rt.useAdminDist (rt.routeList ++ [route]) } ∧
      Sorted rt' := by
  obtain ⟨-, -, h⟩ := Error.exists_of_bind_eq_ok h
  obtain rfl := Except.ok.inj h
  exact ⟨rfl, List.pairwise_insertionSort _ _⟩

theorem Consistent.addRoute {route : Ipv6Route} (h : rt.addRoute route = .ok rt') :
    Consistent rt' now := by
  obtain ⟨rt₁, h₁, h⟩ := Error.exists_of_bind_eq_ok h
  obtain rfl := Except.ok.inj h
  refine ⟨(sorted_internalAddRoute h₁).2, ?_⟩
  rintro dest e ⟨hcached, -⟩
  cases hcached

theorem Consistent.setMetric (h : Consistent rt now) {ptr : ℕ} {metric : ℤ}
    (hchange : ChangeUnnoticed rt now (isRoute ptr) fun r => { r with metric })
    (hset : rt.setMetric ptr metric = .ok rt') : Consistent rt' now := by
  unfold Ipv6RoutingTable.setMetric at hset
  cases hroute : rt.findRoute ptr with
  | none =>
    rw [hroute] at hset
    cases hset
    exact h
  | some route =>
    rw [hroute] at hset
    dsimp only at hset
    split_ifs at hset with hne
    · obtain ⟨heq, hsorted⟩ := sorted_internalAddRoute hset
      refine ⟨hsorted, ?_⟩
      rw [heq]
      refine h.current.change hchange hroute (fun q => ?_) fun _ => rfl
      rw [stableSort, List.mem_insertionSort, List.mem_append, List.mem_singleton, or_comm]
      rfl
    · cases hset
      exact h

theorem Consistent.addOrUpdatePrefix (h : Consistent rt now) {ift : List ℤ} {ptr : ℕ}
    {sourceType : SourceType} {destPrefix : Ipv6Address} {prefixLength interfaceId expiryTime : ℤ}
    (hchange : ChangeUnnoticed rt now (isAdvertised sourceType destPrefix prefixLength) fun r =>
      { r with interface := some interfaceId, expiryTime })
    (hadd : rt.addOrUpdatePrefix ift ptr sourceType destPrefix prefixLength interfaceId expiryTime =
      .ok rt') : Consistent rt' now := by
  unfold Ipv6RoutingTable.addOrUpdatePrefix at hadd
  split at hadd
  · obtain ⟨interface, -, hadd⟩ := Error.exists_of_bind_eq_ok hadd
    exact .addRoute hadd
  · obtain ⟨interface, hinterface, hadd⟩ := Error.exists_of_bind_eq_ok hadd
    have hid : interface = interfaceId := by
      unfold getInterfaceById at hinterface
      split_ifs at hinterface
      exact (Except.ok.inj hinterface).symm
    obtain rfl := Except.ok.inj hadd
    rw [hid]
    exact h.setInPlace_of_rank hchange fun _ => ⟨rfl, rfl, rfl, rfl⟩

end Keep

/-! ## Resolving a destination -/

section Resolve

variable {rt rt' : Ipv6RoutingTable} {now : ℤ} {dest : Ipv6Address} {res : Resolution}

theorem lookupDestCache_cases (rt : Ipv6RoutingTable) (now : ℤ) (dest : Ipv6Address) :
    (∃ e, InUse rt now dest e ∧
      rt.lookupDestCache now dest = ((e.nextHopAddr, e.interfaceId), rt)) ∨
    ∃ nextHop cache, rt.lookupDestCache now dest = ((nextHop, -1), { rt with destCache := cache }) ∧
      ∀ d e, cache d = some e → rt.destCache d = some e := by
  cases hcached : rt.destCache dest with
  | none => exact .inr ⟨_, rt.destCache, by rw [lookupDestCache, hcached], fun _ _ h => h⟩
  | some e =>
    rw [lookupDestCache, hcached]
    dsimp only
    split_ifs with hexpired
    · refine .inr ⟨_, _, rfl, ?_⟩
      intro d e' h
      rw [Function.update_apply] at h
      split_ifs at h
      exact h
    · by_cases hid : e.interfaceId = -1
      · rw [hid]
        exact .inr ⟨_, rt.destCache, rfl, fun _ _ h => h⟩
      · exact .inl ⟨e, ⟨hcached, hid, hexpired⟩, rfl⟩

theorem determineOutputInterface_cases (h : rt.determineOutputInterface now dest = .ok (res, rt')) :
    (∃ e, InUse rt now dest e ∧ res = .found e.nextHopAddr e.interfaceId ∧ rt' = rt) ∨
    ∃ cache, (∀ d e, cache d = some e → rt.destCache d = some e) ∧
      ((∃ r, rt.doLongestPrefixMatch now dest = .ok (some r) ∧
        res = .found (r.nextHopTo dest) r.interfaceId ∧
        rt' = ({ rt with destCache := cache } : Ipv6RoutingTable).updateDestCache dest
          (r.nextHopTo dest) r.interfaceId r.expiryTime) ∨
      ((∀ nextHop interfaceId, res ≠ .found nextHop interfaceId) ∧
        rt' = { rt with destCache := cache })) := by
  unfold determineOutputInterface at h
  rcases lookupDestCache_cases rt now dest with
    ⟨e, huse, hlookup⟩ | ⟨nextHop, cache, hlookup, hcache⟩
  · rw [hlookup] at h
    dsimp only at h
    rw [if_neg huse.2.1] at h
    cases h
    exact .inl ⟨e, huse, rfl, rfl⟩
  · rw [hlookup] at h
    dsimp only at h
    rw [if_pos rfl] at h
    refine .inr ⟨cache, hcache, ?_⟩
    obtain ⟨found, hfound, h⟩ := Error.exists_of_bind_eq_ok h
    cases found with
    | some r =>
      cases h
      exact .inl ⟨r, hfound, rfl, rfl⟩
    | none =>
      dsimp only at h
      split_ifs at h <;> cases h <;> exact .inr ⟨by simp, rfl⟩

theorem Carries.of_bestMatch {r : Ipv6Route} (h : BestMatch rt now dest r) (hnow : 0 ≤ now) :
    Carries r dest ⟨r.interfaceId, r.nextHopTo dest, r.expiryTime⟩ := by
  refine ⟨rfl, rfl, ?_⟩
  have hexpired := h.candidate.2
  rw [Ipv6Route.expired, decide_eq_false_iff_not] at hexpired
  dsimp only
  omega

theorem Consistent.of_cache (h : Consistent rt now) {cache : Ipv6Address → Option DestCacheEntry}
    (hcache : ∀ d e, cache d = some e → rt.destCache d = some e) :
    Consistent { rt with destCache := cache } now := by
  refine ⟨h.sorted, ?_⟩
  rintro d e ⟨hcached, hfresh⟩
  obtain ⟨r, -, hbest, hcarries⟩ := h.current d e ⟨hcache d e hcached, hfresh⟩
  exact ⟨r, ⟨hcached, hfresh⟩, hbest.congr_list rfl rfl, hcarries⟩

theorem Consistent.updateDestCache (h : Consistent rt now) {r : Ipv6Route}
    (hbest : BestMatch rt now dest r) (hnow : 0 ≤ now) :
    Consistent (rt.updateDestCache dest (r.nextHopTo dest) r.interfaceId r.expiryTime) now := by
  refine ⟨h.sorted, ?_⟩
  rintro d e ⟨hcached, hfresh⟩
  have hcached' := hcached
  dsimp only [Ipv6RoutingTable.updateDestCache] at hcached'
  rw [Function.update_apply] at hcached'
  split_ifs at hcached' with hd
  · obtain rfl := Option.some.inj hcached'
    rw [hd] at hcached ⊢
    exact ⟨r, ⟨hcached, hfresh⟩, hbest.congr_list rfl rfl, .of_bestMatch hbest hnow⟩
  · obtain ⟨r', -, hbest', hcarries⟩ := h.current d e ⟨hcached', hfresh⟩
    exact ⟨r', ⟨hcached, hfresh⟩, hbest'.congr_list rfl rfl, hcarries⟩

theorem Consistent.determineOutputInterface (h : Consistent rt now) (hnow : 0 ≤ now)
    (hdet : rt.determineOutputInterface now dest = .ok (res, rt')) : Consistent rt' now := by
  rcases determineOutputInterface_cases hdet with
    ⟨-, -, -, rfl⟩ | ⟨cache, hcache, ⟨r, hfound, -, rfl⟩ | ⟨-, rfl⟩⟩
  · exact h
  · have hbest := bestMatch_of_firstMatch h.sorted hfound
    exact (h.of_cache hcache).updateDestCache (hbest.congr_list rfl rfl) hnow
  · exact h.of_cache hcache

theorem Consistent.found (h : Consistent rt now) {nextHop : Ipv6Address} {interfaceId : ℤ}
    (hdet : rt.determineOutputInterface now dest = .ok (.found nextHop interfaceId, rt')) :
    ∃ r, BestMatch rt now dest r ∧ interfaceId = r.interfaceId ∧ nextHop = r.nextHopTo dest := by
  rcases determineOutputInterface_cases hdet with
    ⟨e, huse, hres, -⟩ | ⟨cache, -, ⟨r, hfound, hres, -⟩ | ⟨hres, -⟩⟩
  · obtain ⟨r, hr⟩ := h.current dest e huse
    cases hres
    exact ⟨r, hr.best, hr.carries.interfaceId.symm, hr.carries.nextHop.symm⟩
  · cases hres
    exact ⟨r, bestMatch_of_firstMatch h.sorted hfound, rfl, rfl⟩
  · exact absurd rfl (hres nextHop interfaceId)

end Resolve

/-! ## Runs -/

/-- The states that a node reaches by calls that go unnoticed by the entries in use. -/
inductive Reached (useAdminDist isRouter : Bool) : Node → Prop
  | initial : Reached useAdminDist isRouter (Node.initial useAdminDist isRouter)
  | step {n n' : Node} (event : Event) (h : Reached useAdminDist isRouter n)
      (hunnoticed : event.Unnoticed n.rt n.now) (hstep : n.step event = .ok n') :
      Reached useAdminDist isRouter n'

theorem Node.step_consistent {n n' : Node} {event : Event} (h : Consistent n.rt n.now)
    (hunnoticed : event.Unnoticed n.rt n.now) (hstep : n.step event = .ok n') :
    Consistent n'.rt n'.now := by
  cases event with
  | elapse duration =>
    cases hstep
    exact h.later (Int.ofNat_le.2 (Nat.le_add_right n.now duration))
  | determineOutputInterface dest =>
    obtain ⟨⟨res, rt'⟩, hdet, hstep⟩ := Error.exists_of_bind_eq_ok hstep
    cases hstep
    exact h.determineOutputInterface (by simp) hdet
  | addRoute route =>
    obtain ⟨rt', hadd, hstep⟩ := Error.exists_of_bind_eq_ok hstep
    cases hstep
    exact .addRoute hadd
  | removeRoute ptr =>
    cases hstep
    exact h.eraseP hunnoticed
  | deleteRoute ptr =>
    cases hstep
    exact h.eraseP hunnoticed
  | deleteOnLinkPrefix destPrefix prefixLength =>
    cases hstep
    exact h.eraseP hunnoticed
  | deleteDefaultRoutes interfaceId =>
    obtain ⟨rt', hdel, hstep⟩ := Error.exists_of_bind_eq_ok hstep
    obtain ⟨-, -, hdel⟩ := Error.exists_of_bind_eq_ok hdel
    cases hdel
    cases hstep
    exact h.deleteRoutes hunnoticed fun _ => of_decide_eq_true
  | deletePrefixes interfaceId =>
    obtain ⟨rt', hdel, hstep⟩ := Error.exists_of_bind_eq_ok hstep
    obtain ⟨-, -, hdel⟩ := Error.exists_of_bind_eq_ok hdel
    cases hdel
    cases hstep
    exact h.deleteRoutes hunnoticed fun _ => of_decide_eq_true
  | deleteInterfaceRoutes interfaceId =>
    cases hstep
    exact h.deleteRoutes hunnoticed fun _ => of_decide_eq_true
  | deleteAllRoutes =>
    cases hstep
    exact h.of_sublist (List.nil_sublist _) hunnoticed fun _ _ hn => absurd trivial hn
  | addOrUpdateOnLinkPrefix ift ptr destPrefix prefixLength interfaceId expiryTime =>
    obtain ⟨rt', hadd, hstep⟩ := Error.exists_of_bind_eq_ok hstep
    cases hstep
    exact h.addOrUpdatePrefix hunnoticed hadd
  | addOrUpdateOwnAdvPrefix ift ptr destPrefix prefixLength interfaceId expiryTime =>
    obtain ⟨rt', hadd, hstep⟩ := Error.exists_of_bind_eq_ok hstep
    cases hstep
    exact h.addOrUpdatePrefix hunnoticed hadd
  | setMetric ptr metric =>
    obtain ⟨rt', hset, hstep⟩ := Error.exists_of_bind_eq_ok hstep
    cases hstep
    exact h.setMetric hunnoticed hset
  | setAdminDist ptr adminDist =>
    cases hstep
    obtain ⟨hchange, hplace⟩ := hunnoticed
    refine h.setInPlace hchange ?_ fun _ _ => rfl
    intro l₁ route l₂ hlist hroute
    exact hplace l₁ route l₂ hlist (of_decide_eq_true hroute)
  | setNextHop ptr nextHop =>
    cases hstep
    exact h.setInPlace_of_rank hunnoticed fun _ => ⟨rfl, rfl, rfl, rfl⟩
  | setInterface ptr interface =>
    cases hstep
    exact h.setInPlace_of_rank hunnoticed fun _ => ⟨rfl, rfl, rfl, rfl⟩

theorem Reached.consistent {useAdminDist isRouter : Bool} {n : Node}
    (h : Reached useAdminDist isRouter n) : Consistent n.rt n.now := by
  induction h with
  | initial =>
    refine ⟨.nil, ?_⟩
    rintro dest e ⟨hcached, -⟩
    cases hcached
  | step event _ hunnoticed hstep ih => exact Node.step_consistent ih hunnoticed hstep

/-- As long as no call takes an entry in use away from its route, and the administrative distance of
a route is changed within its place only, the list is sorted and every resolution follows a best
route of the table. -/
theorem forwarding_follows_table {useAdminDist isRouter : Bool} {n : Node}
    (h : Reached useAdminDist isRouter n) :
    Sorted n.rt ∧ ∀ dest nextHop interfaceId rt',
      n.rt.determineOutputInterface n.now dest = .ok (.found nextHop interfaceId, rt') →
      ∃ r, BestMatch n.rt n.now dest r ∧ interfaceId = r.interfaceId ∧
        nextHop = r.nextHopTo dest :=
  ⟨h.consistent.sorted, fun _ _ _ _ hdet => h.consistent.found hdet⟩

/-! A host of `2001::/16`, a default route and a route to the prefix. -/

def sampleHost : Ipv6Address := ⟨0x20010000, 0, 0, 1⟩

def sampleDefault : Ipv6Route :=
  { ptr := 1, destPrefix := .unspecified, prefixLength := 0, sourceType := .manual,
    interface := some 100, nextHop := ⟨0xfe800000, 0, 0, 1⟩ }

def samplePrefix : Ipv6Route :=
  { ptr := 2, destPrefix := ⟨0x20010000, 0, 0, 0⟩, prefixLength := 16, sourceType := .manual,
    interface := some 101, nextHop := ⟨0xfe800000, 0, 0, 2⟩ }

/-- The table with both routes, after the host has been resolved. -/
def sampleTable (routes : List Ipv6Route) : Ipv6RoutingTable :=
  { useAdminDist := false
    isRouter := true
    routeList := routes
    destCache := Function.update (fun _ => none) sampleHost
      (some ⟨101, ⟨0xfe800000, 0, 0, 2⟩, 0⟩) }

theorem sampleTable_unfollowed : Unfollowed (sampleTable [samplePrefix, sampleDefault]) 0
    fun r => (sampleTable [samplePrefix, sampleDefault]).findRoute 1 = some r := by
  rintro dest e r ⟨⟨hcached, -⟩, hbest, -⟩ hr
  obtain rfl : sampleDefault = r := Option.some.inj hr
  have hdest : dest = sampleHost := by
    by_contra hne
    dsimp only [sampleTable] at hcached
    rw [Function.update_of_ne hne] at hcached
    cases hcached
  rw [hdest] at hbest
  -- the longer prefix is a candidate, so the entry does not follow the default route
  have hlonger := hbest.longest samplePrefix (by decide) (by constructor <;> decide +kernel)
  exact absurd hlonger (by decide)

/-- The default route is removed while the host is in the cache, and the longer prefix stays. -/
theorem forwarding_longer_prefix :
    Reached false true ⟨0, sampleTable [samplePrefix]⟩ ∧
      ∃ r, BestMatch (sampleTable [samplePrefix]) 0 sampleHost r ∧ (101 : ℤ) = r.interfaceId ∧
        (⟨0xfe800000, 0, 0, 2⟩ : Ipv6Address) = r.nextHopTo sampleHost := by
  have h₁ := (@Reached.initial false true).step
    (.addRoute sampleDefault) trivial rfl
  have h₂ := h₁.step (.addRoute samplePrefix) trivial rfl
  have h₃ : Reached false true ⟨0, sampleTable [samplePrefix, sampleDefault]⟩ :=
    h₂.step (.determineOutputInterface sampleHost) trivial rfl
  have h₄ : Reached false true ⟨0, sampleTable [samplePrefix]⟩ :=
    h₃.step (.removeRoute 1) sampleTable_unfollowed rfl
  exact ⟨h₄, (forwarding_follows_table h₄).2 sampleHost _ _ (sampleTable [samplePrefix]) rfl⟩

/-- The cache still answers for a route that was removed, in a table without routes. -/
theorem forwarding_removed_route : ∃ events n nextHop interfaceId rt',
    (Node.initial false true).run events = .ok n ∧
      n.rt.determineOutputInterface n.now sampleHost = .ok (.found nextHop interfaceId, rt') ∧
      ¬ ∃ r, BestMatch n.rt n.now sampleHost r := by
  refine ⟨[.addRoute samplePrefix, .determineOutputInterface sampleHost, .removeRoute 2],
    ⟨0, sampleTable []⟩, ⟨0xfe800000, 0, 0, 2⟩, 101, sampleTable [], rfl, rfl, ?_⟩
  rintro ⟨r, hbest⟩
  cases hbest.mem

end Inet.Ipv6
