import Inet.Rip.Rip

/-! # What an invalidation does

Invalidations, expiry checks and deletions of host routes leave a route as it
is, or make it invalid at the current time. Which routes that are invalid
already can be invalidated once more depends on who calls. In between, the
module sends reports.
-/

namespace Inet

namespace Rip

variable {A : Type}

namespace RipRoute

variable (r : RipRoute A)

/-- A learned route that is unreachable. -/
def Invalid : Prop := r.type = .rte ∧ r.metric = infiniteMetric

/-- Learned and unreachable routes refer to no host route of others, and those that are both to
none at all. -/
structure Sound : Prop where
  own : r.type = .rte ∨ r.metric = infiniteMetric → ∀ h ∈ r.route, h.own = true
  lost : r.Invalid → r.route = none

/-- The route as `invalidateRoute` leaves it. -/
def invalidated (now : ℕ) : RipRoute A :=
  ((r.setMetric infiniteMetric).setChanged true).setLastInvalidationTime now

variable {r}

theorem invalidated_route {now : ℕ} (h : r.route = none) : (r.invalidated now).route = none := by
  simp [invalidated, setMetric, setChanged, setLastInvalidationTime, writeThrough, h]

end RipRoute

/-- A route before and after some invalidations. Of those that are invalid before, only the ones
with a suitable interface and time of the last update may be invalidated again. -/
structure Declines (now : ℕ) (may : Option ℕ → ℕ → Prop) (r r' : RipRoute A) : Prop where
  id_eq : r'.id = r.id
  type_eq : r'.type = r.type
  ie_eq : r'.ie = r.ie
  lastUpdateTime_eq : r'.lastUpdateTime = r.lastUpdateTime
  cases : (r'.metric = r.metric ∧ r'.changed = r.changed ∧ r'.lastInvalid = r.lastInvalid ∧
      (r'.route = r.route ∨ r'.route = none)) ∨
    (r'.metric = infiniteMetric ∧ r'.changed = true ∧ r'.lastInvalid = now ∧ r'.route = none ∧
      (r.Invalid → may r.ie r.lastUpdateTime))

namespace Declines

variable {now : ℕ} {may may' : Option ℕ → ℕ → Prop} {r r' r'' : RipRoute A}

theorem refl (r : RipRoute A) : Declines now may r r :=
  ⟨rfl, rfl, rfl, rfl, .inl ⟨rfl, rfl, rfl, .inl rfl⟩⟩

theorem trans (h : Declines now may r r') (h' : Declines now may r' r'') :
    Declines now may r r'' := by
  refine ⟨h'.id_eq.trans h.id_eq, h'.type_eq.trans h.type_eq, h'.ie_eq.trans h.ie_eq,
    h'.lastUpdateTime_eq.trans h.lastUpdateTime_eq, ?_⟩
  rcases h.cases with ⟨hm, hc, hl, hr⟩ | ⟨hm, hc, hl, hr, hmay⟩
  · rcases h'.cases with ⟨hm', hc', hl', hr'⟩ | ⟨hm', hc', hl', hr', hmay'⟩
    · left
      refine ⟨hm'.trans hm, hc'.trans hc, hl'.trans hl, ?_⟩
      rcases hr' with hr' | hr'
      · rw [hr']
        exact hr
      · exact .inr hr'
    · right
      refine ⟨hm', hc', hl', hr', fun hi => ?_⟩
      rw [← h.ie_eq, ← h.lastUpdateTime_eq]
      exact hmay' ⟨h.type_eq.trans hi.1, hm.trans hi.2⟩
  · right
    rcases h'.cases with ⟨hm', hc', hl', hr'⟩ | ⟨hm', hc', hl', hr', -⟩
    · refine ⟨hm'.trans hm, hc'.trans hc, hl'.trans hl, ?_, hmay⟩
      rcases hr' with hr' | hr'
      · exact hr'.trans hr
      · exact hr'
    · exact ⟨hm', hc', hl', hr', hmay⟩

theorem mono (h : Declines now may r r')
    (hmay : may r.ie r.lastUpdateTime → may' r.ie r.lastUpdateTime) : Declines now may' r r' :=
  ⟨h.id_eq, h.type_eq, h.ie_eq, h.lastUpdateTime_eq,
    h.cases.imp_right fun ⟨hm, hc, hl, hr, hi⟩ => ⟨hm, hc, hl, hr, fun h => hmay (hi h)⟩⟩

theorem setRoute_none (h : Declines now may r r') : Declines now may r (r'.setRoute none) := by
  refine ⟨h.id_eq, h.type_eq, h.ie_eq, h.lastUpdateTime_eq, ?_⟩
  rcases h.cases with ⟨hm, hc, hl, -⟩ | ⟨hm, hc, hl, -, hmay⟩
  · exact .inl ⟨hm, hc, hl, .inr rfl⟩
  · exact .inr ⟨hm, hc, hl, rfl, hmay⟩

theorem invalidated (h : Declines now may r r') (hr : r'.route = none)
    (hmay : r.Invalid → may r.ie r.lastUpdateTime) : Declines now may r (r'.invalidated now) :=
  ⟨h.id_eq, h.type_eq, h.ie_eq, h.lastUpdateTime_eq,
    .inr ⟨rfl, rfl, rfl, RipRoute.invalidated_route hr, hmay⟩⟩

theorem route_eq_none (h : Declines now may r r') (hr : r.route = none) : r'.route = none := by
  rcases h.cases with ⟨-, -, -, hr' | hr'⟩ | ⟨-, -, -, hr', -⟩
  · exact hr'.trans hr
  · exact hr'
  · exact hr'

theorem own (h : Declines now may r r') (hr : r.type = .rte → ∀ h ∈ r.route, h.own = true)
    (htype : r'.type = .rte) : ∀ h ∈ r'.route, h.own = true := by
  rcases h.cases with ⟨-, -, -, hr' | hr'⟩ | ⟨-, -, -, hr', -⟩
  · rw [hr']
    exact hr (h.type_eq.symm.trans htype)
  all_goals simp [hr']

theorem sound (h : Declines now may r r') (hr : r.Sound) : r'.Sound := by
  rcases h.cases with ⟨hm, -, -, hr' | hr'⟩ | ⟨-, -, -, hr', -⟩
  · constructor
    · rw [h.type_eq, hm, hr']
      exact hr.own
    · intro hi
      rw [hr']
      exact hr.lost ⟨h.type_eq.symm.trans hi.1, hm.symm.trans hi.2⟩
  all_goals
    constructor
    · simp [hr']
    · exact fun _ => hr'

theorem of_invalid (h : Declines now may r r') (hi : r.Invalid)
    (hmay : ¬may r.ie r.lastUpdateTime) :
    r'.lastInvalid = r.lastInvalid ∧ r'.changed = r.changed := by
  rcases h.cases with ⟨-, hc, hl, -⟩ | ⟨-, -, -, -, hm⟩
  · exact ⟨hl, hc⟩
  · exact absurd (hm hi) hmay

theorem of_valid (h : Declines now may r r') (hr : r.metric ≠ infiniteMetric)
    (hr' : r'.metric = infiniteMetric) : r'.lastInvalid = now := by
  rcases h.cases with ⟨hm, -⟩ | ⟨-, -, hl, -⟩
  · exact absurd (hm.symm.trans hr') hr
  · exact hl

end Declines

/-- The module before and after a part of a call that makes no new routes, each route being as the
relation says, and the reports that were sent. -/
structure Evolves (P : RipRoute A → RipRoute A → Prop) (reports : List (Report A)) (s s' : Rip A) :
    Prop where
  simTime_eq : s'.simTime = s.simTime
  ripInterfaces_eq : s'.ripInterfaces = s.ripInterfaces
  nextId_le : s.nextId ≤ s'.nextId
  sent_eq : s'.sent = s.sent ++ reports
  sublist : (s'.ripRoutingTable.map (·.id)).Sublist (s.ripRoutingTable.map (·.id))
  origin : ∀ r' ∈ s'.ripRoutingTable, ∃ r ∈ s.ripRoutingTable, P r r'

/-- What holds between the calls. -/
structure Consistent (s : Rip A) : Prop where
  nodup : (s.ripRoutingTable.map (·.id)).Nodup
  lt_nextId : ∀ r ∈ s.ripRoutingTable, r.id < s.nextId
  nodup_interfaces : (s.ripInterfaces.map (·.id)).Nodup
  sound : ∀ r ∈ s.ripRoutingTable, r.Sound

/-- What holds in the middle of a call, too. -/
structure Owned (s : Rip A) : Prop where
  nodup : (s.ripRoutingTable.map (·.id)).Nodup
  own : ∀ r ∈ s.ripRoutingTable, r.type = .rte → ∀ h ∈ r.route, h.own = true

theorem Consistent.owned {s : Rip A} (h : s.Consistent) : s.Owned :=
  ⟨h.nodup, fun r hr htype => (h.sound r hr).own (.inl htype)⟩

theorem Owned.eq_of_id {s : Rip A} (h : s.Owned) {r r' : RipRoute A}
    (hr : r ∈ s.ripRoutingTable) (hr' : r' ∈ s.ripRoutingTable) (hid : r.id = r'.id) : r = r' :=
  List.inj_on_of_nodup_map h.nodup hr hr' hid

namespace Evolves

variable {P Q : RipRoute A → RipRoute A → Prop} {reports reports' : List (Report A)}
  {s s' s'' : Rip A} {now : ℕ} {may : Option ℕ → ℕ → Prop}

theorem refl (hP : ∀ r, P r r) (s : Rip A) : Evolves P [] s s :=
  ⟨rfl, rfl, le_rfl, (List.append_nil _).symm, List.Sublist.refl _, fun r hr => ⟨r, hr, hP r⟩⟩

theorem trans (hP : ∀ {r r' r''}, P r r' → P r' r'' → P r r'') (h : Evolves P reports s s')
    (h' : Evolves P reports' s' s'') : Evolves P (reports ++ reports') s s'' := by
  refine ⟨h'.simTime_eq.trans h.simTime_eq, h'.ripInterfaces_eq.trans h.ripInterfaces_eq,
    Nat.le_trans h.nextId_le h'.nextId_le, ?_, h'.sublist.trans h.sublist, fun r'' hr'' => ?_⟩
  · rw [h'.sent_eq, h.sent_eq, List.append_assoc]
  · obtain ⟨r', hr', hPr'⟩ := h'.origin r'' hr''
    obtain ⟨r, hr, hPr⟩ := h.origin r' hr'
    exact ⟨r, hr, hP hPr hPr'⟩

theorem mono (h : Evolves P reports s s') (hPQ : ∀ r r', P r r' → Q r r') :
    Evolves Q reports s s' :=
  ⟨h.simTime_eq, h.ripInterfaces_eq, h.nextId_le, h.sent_eq, h.sublist, fun r' hr' =>
    let ⟨r, hr, hP⟩ := h.origin r' hr'
    ⟨r, hr, hPQ r r' hP⟩⟩

theorem map (f : RipRoute A → RipRoute A) (h : Evolves P reports s s')
    (hid : ∀ r, (f r).id = r.id)
    (hf : ∀ r ∈ s.ripRoutingTable, ∀ r' ∈ s'.ripRoutingTable, P r r' → Q r (f r')) :
    Evolves Q reports s { s' with ripRoutingTable := s'.ripRoutingTable.map f } := by
  refine ⟨h.simTime_eq, h.ripInterfaces_eq, h.nextId_le, h.sent_eq, ?_, ?_⟩
  · simpa [Function.comp_def, hid] using h.sublist
  · simp only [List.mem_map, forall_exists_index, and_imp, forall_apply_eq_imp_iff₂]
    intro r' hr'
    obtain ⟨r, hr, hP⟩ := h.origin r' hr'
    exact ⟨r, hr, hf r hr r' hr' hP⟩

theorem modifyRoute (k : ℕ) (f : RipRoute A → RipRoute A) (h : Evolves P reports s s')
    (hid : ∀ r, (f r).id = r.id)
    (hf : ∀ r ∈ s.ripRoutingTable, ∀ r' ∈ s'.ripRoutingTable, r'.id = k → P r r' → P r (f r')) :
    Evolves P reports s (s'.modifyRoute k f) := by
  refine h.map _ (fun r => ?_) fun r hr r' hr' hP => ?_
  · split_ifs
    · exact hid r
    · rfl
  · split_ifs with hk
    · exact hf r hr r' hr' hk hP
    · exact hP

theorem filter (p : RipRoute A → Bool) (h : Evolves P reports s s') :
    Evolves P reports s { s' with ripRoutingTable := s'.ripRoutingTable.filter p } :=
  ⟨h.simTime_eq, h.ripInterfaces_eq, h.nextId_le, h.sent_eq,
    (List.filter_sublist.map _).trans h.sublist, fun r' hr' =>
      h.origin r' (List.mem_of_mem_filter hr')⟩

theorem triggerUpdate (c : Parameters) (h : Evolves P reports s s') :
    Evolves P reports s (triggerUpdate c s') := by
  unfold Rip.triggerUpdate
  split_ifs
  · dsimp only
    split_ifs <;> exact ⟨h.1, h.2, h.3, h.4, h.5, h.6⟩
  · exact h

theorem foldl {β : Type} {f : Rip A → β → Rip A} (hrefl : ∀ r, P r r)
    (htrans : ∀ {r r' r''}, P r r' → P r' r'' → P r r'') {I : Rip A → Prop}
    (hI : ∀ {s s'}, Evolves P [] s s' → I s → I s')
    {l : List β} (hf : ∀ s, ∀ k ∈ l, I s → Evolves P [] s (f s k)) (hs : I s) :
    Evolves P [] s (l.foldl f s) := by
  induction l generalizing s with
  | nil => exact refl hrefl s
  | cons k l ih =>
    have h := hf s k List.mem_cons_self hs
    exact Evolves.trans @htrans h
      (ih (fun s k' hk' => hf s k' (List.mem_cons_of_mem k hk')) (hI h hs))

theorem consistent (h : Evolves P reports s s') (hid : ∀ r r', P r r' → r'.id = r.id)
    (hP : ∀ r ∈ s.ripRoutingTable, ∀ r', P r r' → r.Sound → r'.Sound) (hs : s.Consistent) :
    s'.Consistent := by
  constructor
  · exact h.sublist.nodup hs.nodup
  · intro r' hr'
    obtain ⟨r, hr, hPr⟩ := h.origin r' hr'
    rw [hid r r' hPr]
    exact Nat.lt_of_lt_of_le (hs.lt_nextId r hr) h.nextId_le
  · rw [h.ripInterfaces_eq]
    exact hs.nodup_interfaces
  · intro r' hr'
    obtain ⟨r, hr, hPr⟩ := h.origin r' hr'
    exact hP r hr r' hPr (hs.sound r hr)

theorem declined (h : Evolves (Declines now may) reports s s') (hs : s.Consistent) :
    s'.Consistent :=
  h.consistent (fun _ _ h => h.id_eq) (fun _ _ _ h => h.sound) hs

theorem owned (h : Evolves (Declines now may) reports s s') (hs : s.Owned) : s'.Owned := by
  refine ⟨h.sublist.nodup hs.nodup, fun r' hr' htype => ?_⟩
  obtain ⟨r, hr, hP⟩ := h.origin r' hr'
  exact hP.own (hs.own r hr) htype

end Evolves

section Functions

variable {c : Parameters} {s s' : Rip A} {may : Option ℕ → ℕ → Prop} {reports : List (Report A)}

theorem of_getRipRoute {k : ℕ} {r : RipRoute A} (h : s.getRipRoute k = some r) :
    r ∈ s.ripRoutingTable ∧ r.id = k :=
  ⟨List.mem_of_find?_eq_some h, by simpa using List.find?_some h⟩

theorem Owned.getRipRoute_eq_iff (hs : s.Owned) {k : ℕ} {r : RipRoute A} :
    s.getRipRoute k = some r ↔ r ∈ s.ripRoutingTable ∧ r.id = k := by
  constructor
  · exact of_getRipRoute
  · rintro ⟨hr, rfl⟩
    cases hfind : s.getRipRoute r.id with
    | none => simpa using List.find?_eq_none.1 hfind r hr
    | some r' =>
      obtain ⟨hr', hid⟩ := of_getRipRoute hfind
      rw [hs.eq_of_id hr' hr hid]

theorem mem_modifyRoute {k : ℕ} {f : RipRoute A → RipRoute A} {r' : RipRoute A} :
    r' ∈ (s.modifyRoute k f).ripRoutingTable ↔
      ∃ r ∈ s.ripRoutingTable, r' = if r.id = k then f r else r := by
  simp [modifyRoute, eq_comm]

theorem ripRoutingTable_triggerUpdate :
    (triggerUpdate c s).ripRoutingTable = s.ripRoutingTable := by
  unfold triggerUpdate
  split_ifs
  · dsimp only
    split_ifs <;> rfl
  · rfl

theorem mem_markInvalid {k : ℕ} {r' : RipRoute A} :
    r' ∈ (markInvalid c k s).ripRoutingTable ↔
      ∃ r ∈ s.ripRoutingTable, r' = if r.id = k then r.invalidated s.simTime else r := by
  rw [markInvalid, ripRoutingTable_triggerUpdate, mem_modifyRoute]
  rfl

theorem Evolves.markInvalid {k : ℕ} (h : Evolves (Declines s.simTime may) reports s s')
    (hroute : ∀ r' ∈ s'.ripRoutingTable, r'.id = k → r'.route = none)
    (hmay : ∀ r ∈ s.ripRoutingTable, r.id = k → r.Invalid → may r.ie r.lastUpdateTime) :
    Evolves (Declines s.simTime may) reports s (markInvalid c k s') := by
  refine Evolves.triggerUpdate c (h.modifyRoute k _ (fun _ => rfl) fun r hr r' hr' hk hP => ?_)
  rw [h.simTime_eq]
  exact hP.invalidated (hroute r' hr' hk) (hmay r hr (hP.id_eq.symm.trans hk))

theorem Evolves.setRoute_none (k : ℕ) (h : Evolves (Declines s.simTime may) reports s s') :
    Evolves (Declines s.simTime may) reports s (s'.modifyRoute k (·.setRoute none)) :=
  h.modifyRoute k _ (fun _ => rfl) fun _ _ _ _ _ hP => hP.setRoute_none

theorem route_of_setRoute_none {k : ℕ} {r : RipRoute A}
    (hr : r ∈ (s.modifyRoute k (·.setRoute none)).ripRoutingTable) (hk : r.id = k) :
    r.route = none := by
  obtain ⟨r₀, -, rfl⟩ := mem_modifyRoute.1 hr
  split_ifs at hk ⊢ with h
  · rfl
  · exact absurd hk h

theorem evolves_forgetHostRoute (route : HostRoute A) (k : ℕ) (hs : s.Owned) :
    Evolves (Declines s.simTime may) [] s (forgetHostRoute c route s k) := by
  unfold forgetHostRoute
  have hrefl : Evolves (Declines s.simTime may) [] s s := Evolves.refl Declines.refl s
  split_ifs with href hown
  · exact hrefl.setRoute_none k
  · refine (hrefl.setRoute_none k).markInvalid (fun r => route_of_setRoute_none) ?_
    intro r hr hk hi
    rw [hs.getRipRoute_eq_iff.2 ⟨hr, hk⟩] at href
    obtain ⟨h, hh, hroute⟩ := (Option.any_eq_true _ _).1 (show r.refersTo route = true from href)
    exact absurd ((of_decide_eq_true hroute).2.symm.trans (hs.own r hr hi.1 h hh)) hown
  · exact hrefl

theorem evolves_deleteRoute (route : HostRoute A) (hs : s.Owned) :
    Evolves (Declines s.simTime may) [] s (deleteRoute c route s) := by
  refine Evolves.foldl Declines.refl Declines.trans
    (I := fun t => t.Owned ∧ t.simTime = s.simTime)
    (fun h hI => ⟨h.owned hI.1, h.simTime_eq.trans hI.2⟩) ?_ ⟨hs, rfl⟩
  intro t k _ ht
  rw [← ht.2]
  exact evolves_forgetHostRoute route k ht.1

theorem evolves_invalidateRoute {k : ℕ} (hs : s.Owned)
    (hmay : ∀ r ∈ s.ripRoutingTable, r.id = k → r.Invalid → may r.ie r.lastUpdateTime) :
    Evolves (Declines s.simTime may) [] s (invalidateRoute c k s) := by
  have hrefl : Evolves (Declines s.simTime may) [] s s := Evolves.refl Declines.refl s
  unfold invalidateRoute
  split
  · rename_i route hroute
    have hset := hrefl.setRoute_none k
    have hdelete : Evolves (Declines s.simTime may) [] (s.modifyRoute k (·.setRoute none))
        (deleteRoute c route (s.modifyRoute k (·.setRoute none))) :=
      evolves_deleteRoute route (hset.owned hs)
    have hboth := Evolves.trans (P := Declines s.simTime may) Declines.trans hset hdelete
    refine hboth.markInvalid (fun r' hr' hk => ?_) hmay
    obtain ⟨r, hr, hP⟩ := hdelete.origin r' hr'
    exact hP.route_eq_none (route_of_setRoute_none hr (hP.id_eq.symm.trans hk))
  · rename_i hnone
    refine hrefl.markInvalid (fun r hr hk => ?_) hmay
    rw [hs.getRipRoute_eq_iff.2 ⟨hr, hk⟩] at hnone
    exact hnone

theorem of_mem_invalidateRoute {k : ℕ} {r' : RipRoute A} (hs : s.Owned)
    (hr' : r' ∈ (invalidateRoute c k s).ripRoutingTable) (hk : r'.id = k) :
    r'.metric = infiniteMetric ∧ r'.lastInvalid = s.simTime ∧ r'.route = none := by
  unfold invalidateRoute at hr'
  split at hr'
  · rename_i route hroute
    have hrefl : Evolves (Declines s.simTime fun _ _ => True) [] s s :=
      Evolves.refl Declines.refl s
    have hset := hrefl.setRoute_none k
    have hdelete : Evolves (Declines s.simTime fun _ _ => True) []
        (s.modifyRoute k (·.setRoute none))
        (deleteRoute c route (s.modifyRoute k (·.setRoute none))) :=
      evolves_deleteRoute route (hset.owned hs)
    obtain ⟨r, hr, rfl⟩ := mem_markInvalid.1 hr'
    obtain ⟨r₀, hr₀, hP⟩ := hdelete.origin r hr
    split_ifs at hk ⊢ with h
    · refine ⟨rfl, hdelete.simTime_eq, RipRoute.invalidated_route ?_⟩
      exact hP.route_eq_none (route_of_setRoute_none hr₀ (hP.id_eq.symm.trans h))
    · exact absurd hk h
  · rename_i hnone
    obtain ⟨r, hr, rfl⟩ := mem_markInvalid.1 hr'
    split_ifs at hk ⊢ with h
    · rw [hs.getRipRoute_eq_iff.2 ⟨hr, h⟩] at hnone
      exact ⟨rfl, rfl, RipRoute.invalidated_route hnone⟩
    · exact absurd hk h

/-- A learned route is expired, but not yet purged. -/
def Lapsed (c : Parameters) (now lastUpdateTime : ℕ) : Prop :=
  lastUpdateTime + c.routeExpiryTime ≤ now ∧
    now < lastUpdateTime + c.routeExpiryTime + c.routePurgeTime

instance (c : Parameters) (now lastUpdateTime : ℕ) : Decidable (Lapsed c now lastUpdateTime) :=
  inferInstanceAs (Decidable (_ ∧ _))

theorem evolves_purgeRoute (r : RipRoute A) (hs : s.Owned) :
    Evolves (Declines s.simTime may) [] s (purgeRoute c r s) := by
  have hrefl : Evolves (Declines s.simTime may) [] s s := Evolves.refl Declines.refl s
  unfold purgeRoute
  cases r.route with
  | none => exact hrefl.filter _
  | some route =>
    have hset := hrefl.setRoute_none r.id
    have hdelete : Evolves (Declines s.simTime may) [] (s.modifyRoute r.id (·.setRoute none))
        (deleteRoute c route (s.modifyRoute r.id (·.setRoute none))) :=
      evolves_deleteRoute route (hset.owned hs)
    exact (Evolves.trans (P := Declines s.simTime may) Declines.trans hset hdelete).filter _

theorem evolves_checkExpiredRoute (k : ℕ) (hs : s.Owned) :
    Evolves (Declines s.simTime fun _ => Lapsed c s.simTime) [] s (checkExpiredRoute c s k) := by
  unfold checkExpiredRoute
  cases hfind : s.getRipRoute k with
  | none => exact Evolves.refl Declines.refl s
  | some r =>
    obtain ⟨hr, -⟩ := of_getRipRoute hfind
    dsimp only
    split_ifs with htype hpurge hexpired
    · exact evolves_purgeRoute r hs
    · refine evolves_invalidateRoute hs fun r' hr' hid _ => ?_
      rw [hs.eq_of_id hr' hr hid]
      exact ⟨hexpired, Nat.lt_of_not_le hpurge⟩
    · exact Evolves.refl Declines.refl s
    · exact Evolves.refl Declines.refl s

theorem evolves_checkExpiredRoutes (c : Parameters) (hs : s.Owned) :
    Evolves (Declines s.simTime fun _ => Lapsed c s.simTime) [] s (checkExpiredRoutes c s) := by
  refine Evolves.foldl Declines.refl Declines.trans
    (I := fun t => t.Owned ∧ t.simTime = s.simTime)
    (fun h hI => ⟨h.owned hI.1, h.simTime_eq.trans hI.2⟩) ?_ ⟨hs, rfl⟩
  intro t k _ ht
  rw [← ht.2]
  exact evolves_checkExpiredRoute k ht.1

/-- A report on an interface. The changed routes come from those that the relation leaves
changed. -/
structure Reports (P : RipRoute A → RipRoute A → Prop) (s : Rip A) (changedOnly : Bool)
    (report : Report A) : Prop where
  changedOnly_eq : report.changedOnly = changedOnly
  changed : changedOnly = true → ∀ entry ∈ report.entries, ∃ r ∈ s.ripRoutingTable, ∃ r',
    r'.id = entry.1 ∧ r'.changed = true ∧ P r r'

theorem of_entryFor {ripInterface : RipNetworkInterface} {changedOnly : Bool} {r : RipRoute A}
    {entry : ℕ × RipEntry A} (h : entryFor ripInterface changedOnly r = some entry) :
    r.id = entry.1 ∧ (changedOnly = true → r.changed = true) := by
  unfold entryFor at h
  split_ifs at h with h₁ h₂ h₃ <;> cases h
  all_goals
    refine ⟨rfl, fun hc => ?_⟩
    simpa [hc] using h₁

/-- The module may check which routes are expired before it sends on one of the interfaces. -/
def MayLapse (c : Parameters) (l : List RipNetworkInterface) (now : ℕ) (_ : Option ℕ)
    (lastUpdateTime : ℕ) : Prop :=
  (∃ i ∈ l, i.mode ≠ .noRip) ∧ Lapsed c now lastUpdateTime

theorem sendRoutes_spec {changedOnly : Bool} {ripInterface : RipNetworkInterface}
    (hs : s.Owned) (h : sendRoutes c changedOnly s ripInterface = .ok s') :
    ∃ reports, Evolves (Declines s.simTime (MayLapse c [ripInterface] s.simTime)) reports s s' ∧
      (reports = [] ∨ ∃ report, reports = [report] ∧ report.interfaceId = ripInterface.id) ∧
      ∀ report ∈ reports, Reports (Declines s.simTime (MayLapse c [ripInterface] s.simTime)) s
        changedOnly report := by
  have hcheck (hmode : ripInterface.mode ≠ .noRip) :
      Evolves (Declines s.simTime (MayLapse c [ripInterface] s.simTime)) [] s
        (checkExpiredRoutes c s) :=
    (evolves_checkExpiredRoutes c hs).mono fun r r' hP =>
      hP.mono fun hl => ⟨⟨ripInterface, List.mem_singleton_self _, hmode⟩, hl⟩
  unfold sendRoutes at h
  split at h
  · cases h
    exact ⟨[], Evolves.refl Declines.refl s, .inl rfl, by simp⟩
  · rename_i hmode
    cases h
    exact ⟨[], hcheck (by simp [hmode]), .inl rfl, by simp⟩
  · rename_i hmode _
    obtain ⟨_, -, h⟩ := Error.exists_of_bind_eq_ok h
    have hevolves := hcheck hmode
    dsimp only at h
    split_ifs at h with hentries
    · cases h
      exact ⟨[], hevolves, .inl rfl, by simp⟩
    · cases h
      refine ⟨[⟨ripInterface.id, changedOnly, (checkExpiredRoutes c s).ripRoutingTable.filterMap
        (entryFor ripInterface changedOnly)⟩], ?_, .inr ⟨_, rfl, rfl⟩, ?_⟩
      · refine ⟨hevolves.1, hevolves.2, hevolves.3, ?_, hevolves.5, hevolves.6⟩
        dsimp only
        rw [hevolves.sent_eq, List.append_nil]
      · rintro report hreport
        obtain rfl := List.mem_singleton.1 hreport
        refine ⟨rfl, fun hc entry hentry => ?_⟩
        obtain ⟨r', hr', hentry⟩ := List.mem_filterMap.1 hentry
        obtain ⟨r, hr, hP⟩ := hevolves.origin r' hr'
        obtain ⟨hid, hchanged⟩ := of_entryFor hentry
        exact ⟨r, hr, r', hid, hchanged hc, hP⟩

theorem MayLapse.mono {l l' : List RipNetworkInterface} (hl : ∀ i ∈ l, i ∈ l') {now : ℕ}
    {ie : Option ℕ} {lastUpdateTime : ℕ} (h : MayLapse c l now ie lastUpdateTime) :
    MayLapse c l' now ie lastUpdateTime := by
  obtain ⟨⟨i, hi, hmode⟩, hlapsed⟩ := h
  exact ⟨⟨i, hl i hi, hmode⟩, hlapsed⟩

theorem Reports.mono {P Q : RipRoute A → RipRoute A → Prop} {changedOnly : Bool}
    {report : Report A} (h : Reports P s changedOnly report) (hPQ : ∀ r r', P r r' → Q r r') :
    Reports Q s changedOnly report :=
  ⟨h.1, fun hc entry hentry =>
    let ⟨r, hr, r', hid, hchanged, hP⟩ := h.2 hc entry hentry
    ⟨r, hr, r', hid, hchanged, hPQ r r' hP⟩⟩

theorem sendAll_spec {changedOnly : Bool} {l : List RipNetworkInterface} (hs : s.Owned)
    (h : l.foldlM (sendRoutes c changedOnly) s = .ok s') :
    ∃ reports, Evolves (Declines s.simTime (MayLapse c l s.simTime)) reports s s' ∧
      (reports.map (·.interfaceId)).Sublist (l.map (·.id)) ∧
      ∀ report ∈ reports, Reports (Declines s.simTime (MayLapse c l s.simTime)) s changedOnly
        report := by
  induction l generalizing s with
  | nil =>
    cases h
    exact ⟨[], Evolves.refl Declines.refl _, List.Sublist.refl _, by simp⟩
  | cons i l ih =>
    rw [List.foldlM_cons] at h
    obtain ⟨t, ht, h⟩ := Error.exists_of_bind_eq_ok h
    obtain ⟨reports₁, hfirst, hone, hreports₁⟩ := sendRoutes_spec hs ht
    obtain ⟨reports₂, hrest, hsub, hreports₂⟩ := ih (hfirst.owned hs) h
    rw [hfirst.simTime_eq] at hrest hreports₂
    have hmono₁ (r r' : RipRoute A) (hP : Declines s.simTime (MayLapse c [i] s.simTime) r r') :
        Declines s.simTime (MayLapse c (i :: l) s.simTime) r r' :=
      hP.mono (MayLapse.mono (by simp))
    have hmono₂ (r r' : RipRoute A) (hP : Declines s.simTime (MayLapse c l s.simTime) r r') :
        Declines s.simTime (MayLapse c (i :: l) s.simTime) r r' :=
      hP.mono (MayLapse.mono fun j hj => List.mem_cons_of_mem i hj)
    refine ⟨reports₁ ++ reports₂, Evolves.trans
      (P := Declines s.simTime (MayLapse c (i :: l) s.simTime)) Declines.trans
      (hfirst.mono hmono₁) (hrest.mono hmono₂), ?_, ?_⟩
    · rcases hone with rfl | ⟨report, rfl, hid⟩
      · exact hsub.cons _
      · rw [List.singleton_append, List.map_cons, List.map_cons, hid]
        exact hsub.cons_cons _
    · intro report hreport
      rcases List.mem_append.1 hreport with hreport | hreport
      · exact (hreports₁ report hreport).mono hmono₁
      · obtain ⟨heq, hchanged⟩ := hreports₂ report hreport
        refine ⟨heq, fun hc entry hentry => ?_⟩
        obtain ⟨r', hr', r'', hid, hch, hP'⟩ := hchanged hc entry hentry
        obtain ⟨r, hr, hP⟩ := hfirst.origin r' hr'
        exact ⟨r, hr, r'', hid, hch, (hmono₁ r r' hP).trans (hmono₂ r' r'' hP')⟩

end Functions

end Rip

end Inet
