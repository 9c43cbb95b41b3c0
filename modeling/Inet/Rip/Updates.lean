import Inet.Rip.Invalidations

/-! # What a response does

An entry of a response changes the route that it is for, if there is one, and
leaves the others as they are: at most a host route is deleted that they refer
to, too.
-/

namespace Inet

namespace Rip

variable {A : Type} {c : Parameters} {s s' : Rip A}

/-- Every route behind a pointer is as the predicate says. -/
def Holds (k : ℕ) (Φ : RipRoute A → Prop) (s : Rip A) : Prop :=
  ∀ r ∈ s.ripRoutingTable, r.id = k → Φ r

namespace Holds

variable {k : ℕ} {Φ Ψ : RipRoute A → Prop}

theorem modifyRoute {f : RipRoute A → RipRoute A} (h : Holds k Φ s) (hf : ∀ r, Φ r → Ψ (f r)) :
    Holds k Ψ (s.modifyRoute k f) := by
  intro r' hr' hk
  obtain ⟨r, hr, rfl⟩ := mem_modifyRoute.1 hr'
  split_ifs at hk ⊢ with hrk
  · exact hf r (h r hr hrk)
  · exact absurd hk hrk

theorem triggerUpdate (h : Holds k Φ s) : Holds k Φ (triggerUpdate c s) := by
  rwa [Holds, ripRoutingTable_triggerUpdate]

theorem evolves {P : RipRoute A → RipRoute A → Prop} {reports : List (Report A)} (h : Holds k Φ s)
    (hs : Evolves P reports s s') (hid : ∀ r r', P r r' → r'.id = r.id)
    (hP : ∀ r r', P r r' → Φ r → Ψ r') : Holds k Ψ s' := by
  intro r' hr' hk
  obtain ⟨r, hr, hPr⟩ := hs.origin r' hr'
  exact hP r r' hPr (h r hr ((hid r r' hPr).symm.trans hk))

theorem mono (h : Holds k Φ s) (hΦ : ∀ r, Φ r → Ψ r) : Holds k Ψ s :=
  fun r hr hk => hΦ r (h r hr hk)

end Holds

/-- The host route of a route may have been deleted. -/
def Detaches (r r' : RipRoute A) : Prop := r' = r ∨ r' = r.setRoute none

theorem Detaches.trans {r r' r'' : RipRoute A} (h : Detaches r r') (h' : Detaches r' r'') :
    Detaches r r'' := by
  rcases h with rfl | rfl
  · exact h'
  · rcases h' with rfl | rfl <;> exact .inr rfl

theorem Detaches.eqs {r r' : RipRoute A} (h : Detaches r r') :
    r'.id = r.id ∧ r'.type = r.type ∧ r'.metric = r.metric := by
  rcases h with rfl | rfl <;> exact ⟨rfl, rfl, rfl⟩

theorem evolves_deleteRoute_own {route : HostRoute A} (hown : route.own = true) (s : Rip A) :
    Evolves Detaches [] s (deleteRoute c route s) := by
  refine Evolves.foldl (P := Detaches) (fun r => .inl rfl) Detaches.trans (I := fun _ => True)
    (fun _ _ => trivial) ?_ trivial
  intro t k _ _
  have hrefl : Evolves Detaches [] t t := Evolves.refl (fun r => .inl rfl) t
  unfold forgetHostRoute
  split_ifs
  · exact hrefl.modifyRoute k _ (fun _ => rfl) fun _ _ _ _ _ hP => hP.trans (.inr rfl)
  · exact hrefl

/-- All routes but one decline. -/
def Aside (k now : ℕ) (r r' : RipRoute A) : Prop :=
  r'.id = r.id ∧ (r.id ≠ k → Declines now (fun _ _ => False) r r')

namespace Aside

variable {k now : ℕ} {reports : List (Report A)}

theorem refl (r : RipRoute A) : Aside k now r r := ⟨rfl, fun _ => Declines.refl r⟩

theorem trans {r r' r'' : RipRoute A} (h : Aside k now r r') (h' : Aside k now r' r'') :
    Aside k now r r'' :=
  ⟨h'.1.trans h.1, fun hk => (h.2 hk).trans (h'.2 fun hk' => hk (h.1.symm.trans hk'))⟩

theorem modifyRoute {f : RipRoute A → RipRoute A} (h : Evolves (Aside k now) reports s s')
    (hid : ∀ r, (f r).id = r.id) : Evolves (Aside k now) reports s (s'.modifyRoute k f) :=
  Evolves.modifyRoute k f h hid fun _ _ r' _ hk hP =>
    ⟨(hid r').trans hP.1, fun hne => absurd (hP.1.symm.trans hk) hne⟩

theorem createRouteFor {r : RipRoute A} {ie metric : ℕ} {nextHop : A}
    (h : Evolves (Aside r.id now) reports s s') :
    Evolves (Aside r.id now) reports s (s'.createRouteFor r ie nextHop metric) := by
  have hnext : Evolves (Aside r.id now) reports s { s' with nextId := s'.nextId + 1 } :=
    ⟨h.1, h.2, Nat.le_succ_of_le h.3, h.4, h.5, h.6⟩
  exact modifyRoute hnext fun _ => rfl

theorem deleteRoute {route : HostRoute A} (h : Evolves (Aside k s.simTime) reports s s')
    (hs : s'.Owned) : Evolves (Aside k s.simTime) reports s (deleteRoute c route s') := by
  have hdelete : Evolves (Declines s'.simTime fun _ _ => False) [] s'
      (Rip.deleteRoute c route s') := evolves_deleteRoute route hs
  rw [h.simTime_eq] at hdelete
  simpa using Evolves.trans (P := Aside k s.simTime) trans h
    (hdelete.mono fun r r' hP => ⟨hP.id_eq, fun _ => hP⟩)

theorem owned (h : Evolves (Aside k now) reports s s') (hs : s.Owned)
    (hk : Holds k (fun r => r.type = .rte → ∀ h ∈ r.route, h.own = true) s') : s'.Owned := by
  refine ⟨h.sublist.nodup hs.nodup, fun r' hr' htype => ?_⟩
  obtain ⟨r, hr, hid, hP⟩ := h.origin r' hr'
  by_cases hrk : r.id = k
  · exact hk r' hr' (hid.trans hrk) htype
  · exact (hP hrk).own (hs.own r hr) htype

theorem invalidateRoute (h : Evolves (Aside k s.simTime) reports s s') (hs : s'.Owned) :
    Evolves (Aside k s.simTime) reports s (invalidateRoute c k s') := by
  have hmark {t : Rip A} (ht : Evolves (Aside k s.simTime) reports s t) :
      Evolves (Aside k s.simTime) reports s (markInvalid c k t) :=
    Evolves.triggerUpdate c (modifyRoute ht fun _ => rfl)
  unfold Rip.invalidateRoute
  split
  · have hrefl : Evolves (Declines s'.simTime fun _ _ => True) [] s' s' :=
      Evolves.refl Declines.refl s'
    exact hmark (deleteRoute (modifyRoute h fun _ => rfl) ((hrefl.setRoute_none k).owned hs))
  · exact hmark h

end Aside

section UpdateRoute

variable {r : RipRoute A} {metric : ℕ}

/-- The route while it gets new values. -/
structure Pending (r : RipRoute A) (metric : ℕ) (x : RipRoute A) : Prop where
  metric_eq : x.metric = metric
  type_eq : x.type = r.type
  own : x.type = .rte → ∀ h ∈ x.route, h.own = true

/-- The route after it has been updated with a finite metric. If the host route of another was
deleted, it counts as invalid all the same. -/
structure Updated (r : RipRoute A) (metric now : ℕ) (x : RipRoute A) : Prop where
  own : ∀ h ∈ x.route, h.own = true
  valid : x.metric = metric ∨ x.metric = infiniteMetric ∧ x.lastInvalid = now ∧ x.type ≠ .rte
  revived : r.metric = infiniteMetric → x.metric = metric

variable (c) (ie : ℕ) (nextHop : A)

theorem reviveRoute_spec {base : Rip A} (hown : ∀ h ∈ r.route, h.own = true)
    (hbase : Evolves (Aside r.id base.simTime) [] base s) (hs : s.Owned)
    (hk : Holds r.id (Pending r metric) s) :
    Evolves (Aside r.id base.simTime) [] base (reviveRoute c r ie nextHop metric s) ∧
      Holds r.id (Updated r metric base.simTime) (reviveRoute c r ie nextHop metric s) := by
  unfold reviveRoute
  have hfinish {t : Rip A} (ht : Evolves (Aside r.id base.simTime) [] base t)
      (hmetric : Holds r.id (fun x => x.metric = metric) t) :
      Evolves (Aside r.id base.simTime) [] base
          ((t.modifyRoute r.id fun r => (r.setType .rte).setNextHop nextHop).createRouteFor r ie
            nextHop metric) ∧
        Holds r.id (Updated r metric base.simTime)
          ((t.modifyRoute r.id fun r => (r.setType .rte).setNextHop nextHop).createRouteFor r ie
            nextHop metric) := by
    refine ⟨Aside.createRouteFor (Aside.modifyRoute ht fun _ => rfl), ?_⟩
    have hset : Holds r.id (fun x => x.metric = metric)
        (t.modifyRoute r.id fun r => (r.setType .rte).setNextHop nextHop) :=
      hmetric.modifyRoute fun _ hx => hx
    refine Holds.modifyRoute (s := { t.modifyRoute r.id _ with nextId := _ }) hset fun x hx => ?_
    exact ⟨by rintro h ⟨⟩; rfl, .inl hx, fun _ => hx⟩
  have hmetric : Holds r.id (fun x => x.metric = metric) s := hk.mono fun _ hx => hx.metric_eq
  cases hroute : r.route with
  | none => exact hfinish hbase hmetric
  | some route =>
    refine hfinish (Aside.deleteRoute hbase hs) ?_
    exact hmetric.evolves (evolves_deleteRoute_own (hown route hroute) s) (fun _ _ hP => hP.eqs.1)
      fun _ _ hP hx => hP.eqs.2.2.trans hx

variable {c ie nextHop}

theorem replaceRoute_spec {base : Rip A} (hr : r.metric ≠ infiniteMetric)
    (hsound : r.Sound) (hbase : Evolves (Aside r.id base.simTime) [] base s) (hs : s.Owned)
    (hk : Holds r.id (Pending r metric) s)
    (h : replaceRoute c r ie nextHop metric s = .ok s') :
    Evolves (Aside r.id base.simTime) [] base s' ∧
      Holds r.id (fun x => x.type = .rte → ∀ h ∈ x.route, h.own = true) s' ∧
      (metric < infiniteMetric → Holds r.id (Updated r metric base.simTime) s') := by
  unfold replaceRoute at h
  cases hroute : r.route with
  | none => simp [hroute] at h
  | some route =>
    simp only [hroute, Error.pure_eq_ok, Except.ok.injEq] at h
    have hdelete : Evolves (Aside r.id base.simTime) [] base (deleteRoute c route s) :=
      Aside.deleteRoute hbase hs
    have hvalid : Holds r.id (fun x => x.type = r.type ∧
        (metric < infiniteMetric →
          x.metric = metric ∨
            x.metric = infiniteMetric ∧ x.lastInvalid = base.simTime ∧ x.type ≠ .rte))
        (deleteRoute c route s) := by
      by_cases hown : route.own = true
      · refine hk.evolves (evolves_deleteRoute_own hown s) (fun _ _ hP => hP.eqs.1) ?_
        intro x x' hP hx
        exact ⟨hP.eqs.2.1.trans hx.type_eq, fun _ => .inl (hP.eqs.2.2.trans hx.metric_eq)⟩
      · have hdeclines : Evolves (Declines s.simTime fun _ _ => True) [] s
            (deleteRoute c route s) := evolves_deleteRoute route hs
        refine hk.evolves hdeclines (fun _ _ hP => hP.id_eq) ?_
        intro x x' hP hx
        refine ⟨hP.type_eq.trans hx.type_eq, fun hlt => ?_⟩
        rcases hP.cases with ⟨hm, -⟩ | ⟨hm, -, hl, -⟩
        · exact .inl (hm.trans hx.metric_eq)
        · refine .inr ⟨hm, hl.trans hbase.simTime_eq, fun htype => hown ?_⟩
          rw [hP.type_eq, hx.type_eq] at htype
          exact hsound.own (.inl htype) route hroute
    have hset : Holds r.id (fun x => x.route = none ∧
        (metric < infiniteMetric →
          x.metric = metric ∨
            x.metric = infiniteMetric ∧ x.lastInvalid = base.simTime ∧ x.type ≠ .rte))
        ((deleteRoute c route s).modifyRoute r.id fun r => (r.setRoute none).setNextHop nextHop) :=
      hvalid.modifyRoute fun x hx => ⟨ite_self none, hx.2⟩
    split_ifs at h with hlt
    · obtain rfl := h
      have hupdated : Holds r.id (Updated r metric base.simTime)
          (createRouteFor ((deleteRoute c route s).modifyRoute r.id fun r =>
            (r.setRoute none).setNextHop nextHop) r ie nextHop metric) :=
        Holds.modifyRoute (s := { modifyRoute _ _ _ with nextId := _ }) hset fun x hx =>
          ⟨by rintro h ⟨⟩; rfl, hx.2 hlt, fun h => absurd h hr⟩
      exact ⟨Aside.createRouteFor (Aside.modifyRoute hdelete fun _ => rfl),
        hupdated.mono fun x hx _ => hx.own, fun _ => hupdated⟩
    · obtain rfl := h
      refine ⟨Aside.modifyRoute hdelete fun _ => rfl, hset.mono fun x hx _ => ?_, fun hlt' =>
        absurd hlt' hlt⟩
      simp [hx.1]

/-- What an update leaves of the route. -/
structure Settled (r : RipRoute A) (metric now : ℕ) (x : RipRoute A) : Prop where
  sound : x.Sound
  fresh : r.metric ≠ infiniteMetric → x.metric = infiniteMetric → x.lastInvalid = now
  revived : r.metric = infiniteMetric → x.metric = metric

theorem Updated.settled {x : RipRoute A} {now : ℕ} (h : Updated r metric now x)
    (hlt : metric < infiniteMetric) : Settled r metric now x := by
  refine ⟨⟨fun _ => h.own, fun hi => ?_⟩, fun _ hx => ?_, h.revived⟩
  · rcases h.valid with hm | ⟨-, -, htype⟩
    · exact absurd (hm.symm.trans hi.2) (Nat.ne_of_lt hlt)
    · exact absurd hi.1 htype
  · rcases h.valid with hm | ⟨-, hl, -⟩
    · exact absurd (hm.symm.trans hx) (Nat.ne_of_lt hlt)
    · exact hl

theorem Updated.setChanged {x : RipRoute A} {now : ℕ} (changed : Bool)
    (h : Updated r metric now x) : Updated r metric now (x.setChanged changed) := ⟨h.1, h.2, h.3⟩

theorem Updated.setLastUpdateTime {x : RipRoute A} {now : ℕ} (time : ℕ)
    (h : Updated r metric now x) : Updated r metric now (x.setLastUpdateTime time) :=
  ⟨h.1, h.2, h.3⟩

theorem updateRoute_spec {routeTag : ℕ} {src : A} (hs : s.Owned) (hsound : r.Sound)
    (hr : Holds r.id (fun x => x.type = r.type ∧ x.route = r.route) s)
    (hmetric : metric < infiniteMetric ∨ metric = infiniteMetric ∧ r.metric ≠ infiniteMetric)
    (h : updateRoute c r ie nextHop metric routeTag src s = .ok s') :
    Evolves (Aside r.id s.simTime) [] s s' ∧ Holds r.id (Settled r metric s.simTime) s' := by
  unfold updateRoute at h
  have hset : Evolves (Aside r.id s.simTime) [] s (s.modifyRoute r.id fun r =>
      (((r.setInterface (some ie)).setMetric metric).setFrom src).setRouteTag routeTag) :=
    Aside.modifyRoute (Evolves.refl Aside.refl s) fun _ => rfl
  have hpending : Holds r.id (Pending r metric) (s.modifyRoute r.id fun r =>
      (((r.setInterface (some ie)).setMetric metric).setFrom src).setRouteTag routeTag) := by
    refine hr.modifyRoute fun x hx => ⟨rfl, hx.1, fun htype => ?_⟩
    have hx₁ : x.type = .rte := htype
    have hown := hsound.own (.inl (hx.1.symm.trans hx₁))
    rw [← hx.2] at hown
    simpa [RipRoute.setInterface, RipRoute.setMetric, RipRoute.setFrom, RipRoute.setRouteTag,
      RipRoute.writeThrough, hx₁] using hown
  have howned := Aside.owned hset hs (hpending.mono fun x hx => hx.own)
  generalize s.modifyRoute r.id _ = t at h hset hpending howned
  dsimp only at h
  by_cases hinf : r.metric = infiniteMetric
  · have hlt : metric < infiniteMetric := hmetric.resolve_right fun h => h.2 hinf
    obtain ⟨hrevive, hupdated⟩ := reviveRoute_spec c ie nextHop
      (hsound.own (.inr hinf)) hset howned hpending
    rw [if_neg (not_not.2 hinf), if_pos ⟨hinf, hlt⟩, Error.pure_eq_ok, Error.ok_bind,
      if_neg fun h : r.metric ≠ _ ∧ _ => h.1 hinf] at h
    obtain rfl := Except.ok.inj h
    refine ⟨Aside.modifyRoute (Evolves.triggerUpdate c (Aside.modifyRoute hrevive fun _ => rfl))
      fun _ => rfl, ?_⟩
    refine (hupdated.modifyRoute fun x hx => hx.setChanged true).triggerUpdate.modifyRoute
      fun x hx => (hx.setLastUpdateTime _).settled hlt
  · rw [if_pos hinf, if_neg fun h : r.metric = _ ∧ _ => hinf h.1] at h
    obtain ⟨u, hu, h⟩ := Error.exists_of_bind_eq_ok h
    obtain ⟨hreplace, hown, hupdated⟩ := replaceRoute_spec hinf hsound hset howned hpending hu
    have hchanged : Evolves (Aside r.id s.simTime) [] s
        (triggerUpdate c (u.modifyRoute r.id (·.setChanged true))) :=
      Evolves.triggerUpdate c (Aside.modifyRoute hreplace fun _ => rfl)
    split_ifs at h with hinvalid
    · obtain rfl := Except.ok.inj h
      have howned' : Owned (triggerUpdate c (u.modifyRoute r.id (·.setChanged true))) :=
        Aside.owned hchanged hs (hown.modifyRoute fun x hx => hx).triggerUpdate
      refine ⟨Aside.invalidateRoute hchanged howned', ?_⟩
      intro x hx hk
      obtain ⟨hm, hl, hroute⟩ := of_mem_invalidateRoute howned' hx hk
      refine ⟨⟨by simp [hroute], fun _ => hroute⟩, fun _ _ => hl.trans hchanged.simTime_eq, fun h =>
        absurd h hinf⟩
    · obtain rfl := Except.ok.inj h
      have hlt : metric < infiniteMetric := hmetric.resolve_right fun h => hinvalid ⟨hinf, h.1⟩
      refine ⟨Aside.modifyRoute hchanged fun _ => rfl, ?_⟩
      exact ((hupdated hlt).modifyRoute fun x hx => hx.setChanged true).triggerUpdate.modifyRoute
        fun x hx => (hx.setLastUpdateTime _).settled hlt

theorem exists_updateRoute (c : Parameters) (s : Rip A) (ie : ℕ) (nextHop : A) (routeTag : ℕ)
    (src : A) (hr : r.metric = infiniteMetric) :
    ∃ s', updateRoute c r ie nextHop metric routeTag src s = .ok s' := by
  unfold updateRoute
  rw [if_neg (not_not.2 hr), Error.pure_eq_ok, Error.ok_bind]
  dsimp only
  rw [if_neg fun h : r.metric ≠ _ ∧ _ => h.1 hr]
  exact ⟨_, rfl⟩

end UpdateRoute

end Rip

end Inet
