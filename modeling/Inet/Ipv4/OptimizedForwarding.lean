import Inet.Ipv4.OptimizerChecks

/-! # What the optimized routes preserve

The optimizer keeps track of the destinations of the original routes. These
are routed as before; another address of their networks can be routed by a
merged route that the original list did not have.
-/

namespace Inet.Ipv4NetworkConfigurator

open Ipv4

variable {I S : Type} [DecidableEq I] [DecidableEq S]
  {routes result colors : List (Ipv4Route I S)} {route : Ipv4Route I S}
  {o : OriginalRouteInfo} {os : List OriginalRouteInfo} {T : List RouteInfo}

/-- The address is in the network of the route. -/
def Ipv4Route.Matches (this : Ipv4Route I S) (address : Ipv4Address) : Prop :=
  (address ^^^ this.destination) &&& this.netmask = 0

theorem routesHaveSameColor_refl (route : Ipv4Route I S) :
    routesHaveSameColor route route = true := by
  simp [routesHaveSameColor]

theorem exists_mergeLoop_of_optimizeRoutes_eq_ok {rounds : ℕ}
    (h : optimizeRoutes rounds routes = .ok (some result)) :
    ∃ T, mergeLoop rounds (initialTable (originalRouteInfos routes) fun o => [o]) = .ok (some T) ∧
      result = T.filterMap (toIpv4Route (colorRoutes [] routes).1) := by
  unfold optimizeRoutes at h
  dsimp only at h
  obtain ⟨table, htable, h⟩ := Error.exists_of_bind_eq_ok h
  cases table with
  | none => cases h
  | some T =>
    obtain rfl := Option.some.inj (Except.ok.inj h)
    refine ⟨T, ?_, rfl⟩
    unfold optimizeTable at htable
    obtain ⟨_, -, htable⟩ := Error.exists_of_bind_eq_ok htable
    obtain ⟨table, hloop, htable⟩ := Error.exists_of_bind_eq_ok htable
    cases table with
    | none => cases htable
    | some T' =>
      obtain ⟨_, -, htable⟩ := Error.exists_of_bind_eq_ok htable
      obtain rfl := Option.some.inj (Except.ok.inj htable)
      exact hloop

theorem mem_of_mem_colorRoutes {c : Ipv4Route I S} (h : c ∈ (colorRoutes colors routes).1) :
    c ∈ colors ∨ c ∈ routes := by
  induction routes generalizing colors with
  | nil => exact .inl h
  | cons route routes ih =>
    rcases ih h with hc | hc
    · split_ifs at hc
      · rcases List.mem_append.1 hc with hc | hc
        · exact .inl hc
        · exact .inr (List.mem_singleton.1 hc ▸ List.mem_cons_self)
      · exact .inl hc
    · exact .inr (List.mem_cons_of_mem _ hc)

theorem Valid.length_le_of_mergeLoop_eq_ok {Q : OriginalRouteInfo → Prop} {T' : List RouteInfo}
    {rounds : ℕ} (h : Valid Q os T) (hok : mergeLoop rounds T = .ok (some T')) :
    T'.length ≤ T.length := by
  induction rounds generalizing T with
  | zero => cases hok
  | succ rounds ih =>
    obtain ⟨⟨merged, T''⟩, htry, hok⟩ := Error.exists_of_bind_eq_ok hok
    have hround := h.of_tryPairs_eq_ok (fun pair hpair => (mem_indexPairs hpair).1) htry
    dsimp only at hok
    cases merged with
    | true =>
      have hle := ih hround.1 hok
      have hlength := hround.2
      omega
    | false =>
      rw [if_neg Bool.false_ne_true] at hround hok
      obtain rfl := Option.some.inj (Except.ok.inj hok)
      rw [hround]

/-- Whenever the optimizer returns, there are no more routes than before, longer netmasks come
first, and every route has the action of an original one. -/
theorem optimizeRoutes_shrinks {rounds : ℕ} (hok : RoutesOk routes)
    (h : optimizeRoutes rounds routes = .ok (some result)) :
    result.length ≤ routes.length ∧
      result.Pairwise (fun a b => b.netmask.toNat ≤ a.netmask.toNat) ∧
      ∀ r ∈ result, ∃ route ∈ routes, routesHaveSameColor r route = true := by
  have hvalid := valid_initialTable hok.wellFormed
  obtain ⟨T, hloop, rfl⟩ := exists_mergeLoop_of_optimizeRoutes_eq_ok h
  refine ⟨?_, ?_, fun r hr => ?_⟩
  · have hle := hvalid.length_le_of_mergeLoop_eq_ok hloop
    have hlength := congrArg List.length (map_colorRoutes [] routes)
    rw [(initialTable_spec _ _).1.length_eq] at hle
    simp only [List.length_map] at hle hlength
    exact (List.length_filterMap_le _ _).trans (hle.trans hlength.le)
  · refine List.Pairwise.filterMap _ (fun X Y hXY r hr r' hr' => ?_)
      (List.pairwise_map.1 (hvalid.of_mergeLoop_eq_ok hloop).sorted)
    obtain ⟨_, -, rfl⟩ := Option.map_eq_some_iff.1 hr
    obtain ⟨_, -, rfl⟩ := Option.map_eq_some_iff.1 hr'
    have h₁ := X.netmask.isLt
    have h₂ := Y.netmask.isLt
    have h₃ := X.destination.isLt
    have h₄ := Y.destination.isLt
    unfold key at hXY
    dsimp only
    omega
  · obtain ⟨X, -, hX⟩ := List.mem_filterMap.1 hr
    obtain ⟨c, hc, rfl⟩ := Option.map_eq_some_iff.1 hX
    have hmem := mem_of_mem_colorRoutes (List.mem_of_getElem? hc)
    exact ⟨c, hmem.resolve_left List.not_mem_nil, routesHaveSameColor_refl c⟩

/-- Two host routes that are merged, inside a network that is routed otherwise. -/
def hostRoutes : List (Ipv4Route ℕ ℕ) :=
  [⟨0x0a000000, 0xff000000, 1, 0, 0, 0⟩, ⟨0x0a010000, 0xffffffff, 2, 0, 0, 0⟩,
    ⟨0x0a010003, 0xffffffff, 2, 0, 0, 0⟩]

/-- The routes that they are optimized to. -/
def optimizedHostRoutes : List (Ipv4Route ℕ ℕ) :=
  [⟨0x0a010000, 0xfffffffc, 2, 0, 0, 0⟩, ⟨0x0a000000, 0xff000000, 1, 0, 0, 0⟩]

theorem routesOk_hostRoutes : RoutesOk hostRoutes := by
  refine ⟨?_, by decide, by decide⟩
  unfold hostRoutes
  simp only [List.forall_mem_cons]
  exact ⟨⟨8, by decide, by decide⟩, ⟨32, by decide, by decide⟩, ⟨32, by decide, by decide⟩, by simp⟩

theorem optimizeRoutes_hostRoutes (rounds : ℕ) :
    optimizeRoutes (rounds + 2) hostRoutes = .ok (some optimizedHostRoutes) := rfl

theorem optimizeRoutes_shrinks_hostRoutes : optimizedHostRoutes.length ≤ hostRoutes.length :=
  (optimizeRoutes_shrinks routesOk_hostRoutes (optimizeRoutes_hostRoutes 0)).1

end Inet.Ipv4NetworkConfigurator
