import Inet.Rip.Updates

/-! # What an event does

Whatever happens, the routes that the module finds keep their time of
invalidation while they are unreachable, unless an expiry check or an interface
that goes down meets a route that is invalid already.
-/

namespace Inet

namespace Rip

variable {A : Type} {c : Parameters} {s s' : Rip A}

/-- A route before and after an event. -/
structure Moves (now : ℕ) (r r' : RipRoute A) : Prop where
  fresh : r.metric ≠ infiniteMetric → r'.metric = infiniteMetric → r'.lastInvalid = now
  kept : r.Invalid → r'.metric = infiniteMetric →
    r'.lastInvalid = r.lastInvalid ∧ (r'.changed = true → r.changed = true)

theorem Moves.refl (now : ℕ) (r : RipRoute A) : Moves now r r :=
  ⟨fun h h' => absurd h' h, fun _ _ => ⟨rfl, id⟩⟩

theorem Moves.of_valid {now : ℕ} {r r' : RipRoute A} (h : r'.metric ≠ infiniteMetric) :
    Moves now r r' := ⟨fun _ h' => absurd h' h, fun _ h' => absurd h' h⟩

theorem Declines.moves {now : ℕ} {may : Option ℕ → ℕ → Prop} {r r' : RipRoute A}
    (h : Declines now may r r') (hmay : r.Invalid → ¬may r.ie r.lastUpdateTime) :
    Moves now r r' := by
  refine ⟨h.of_valid, fun hi _ => ?_⟩
  obtain ⟨hl, hc⟩ := h.of_invalid hi (hmay hi)
  exact ⟨hl, fun h => hc.symm.trans h⟩

/-- What a triggered report says of the routes that it is about. -/
def Truthful (s s' : Rip A) (report : Report A) : Prop :=
  report.changedOnly = true → ∀ entry ∈ report.entries,
    (∀ r ∈ s.ripRoutingTable, r.id = entry.1 → r.Invalid → r.changed = true) ∧
      ∀ r' ∈ s'.ripRoutingTable, r'.id = entry.1 → r'.changed = false

/-- The module before and after an event. -/
structure Advances (now : ℕ) (s s' : Rip A) : Prop where
  consistent : s'.Consistent
  nextId_le : s.nextId ≤ s'.nextId
  origin : ∀ r' ∈ s'.ripRoutingTable,
    (∃ r ∈ s.ripRoutingTable, r'.id = r.id ∧ Moves now r r') ∨ s.nextId ≤ r'.id
  sent : ∃ reports, s'.sent = s.sent ++ reports ∧
    ((reports.filter (·.changedOnly)).map (·.interfaceId)).Nodup ∧
      ∀ report ∈ reports, Truthful s s' report

namespace Advances

variable {now : ℕ}

theorem sent_of_regular {reports : List (Report A)} (hsent : s'.sent = s.sent ++ reports)
    (h : ∀ report ∈ reports, report.changedOnly = false) :
    ∃ reports, s'.sent = s.sent ++ reports ∧
      ((reports.filter (·.changedOnly)).map (·.interfaceId)).Nodup ∧
        ∀ report ∈ reports, Truthful s s' report := by
  refine ⟨reports, hsent, ?_, fun report hreport hc => ?_⟩
  · rw [List.filter_eq_nil_iff.2 fun report hreport => by simp [h report hreport]]
    exact List.nodup_nil
  · simp [h report hreport] at hc

theorem sent_of_eq (hsent : s'.sent = s.sent) :
    ∃ reports, s'.sent = s.sent ++ reports ∧
      ((reports.filter (·.changedOnly)).map (·.interfaceId)).Nodup ∧
        ∀ report ∈ reports, Truthful s s' report :=
  sent_of_regular (hsent.trans (List.append_nil _).symm) (by simp)

theorem of_evolves {may : Option ℕ → ℕ → Prop} {reports : List (Report A)} (hs : s.Consistent)
    (h : Evolves (Declines s.simTime may) reports s s')
    (hmay : ∀ r ∈ s.ripRoutingTable, r.Invalid → ¬may r.ie r.lastUpdateTime)
    (hreports : ∀ report ∈ reports, report.changedOnly = false) : Advances s.simTime s s' := by
  refine ⟨h.declined hs, h.nextId_le, fun r' hr' => ?_, sent_of_regular h.sent_eq hreports⟩
  obtain ⟨r, hr, hP⟩ := h.origin r' hr'
  exact .inl ⟨r, hr, hP.id_eq, hP.moves (hmay r hr)⟩

theorem refl (hs : s.Consistent) : Advances now s s :=
  ⟨hs, le_rfl, fun r hr => .inl ⟨r, hr, rfl, Moves.refl now r⟩, sent_of_eq rfl⟩

theorem of_sublist (hs : s.Consistent)
    (htable : s'.ripRoutingTable.Sublist s.ripRoutingTable)
    (hinterfaces : (s'.ripInterfaces.map (·.id)).Nodup) (hnext : s.nextId ≤ s'.nextId)
    (hsent : s'.sent = s.sent) : Advances now s s' := by
  refine ⟨⟨(htable.map _).nodup hs.nodup, fun r hr => ?_, hinterfaces, fun r hr =>
    hs.sound r (htable.subset hr)⟩, hnext, fun r hr => ?_, sent_of_eq hsent⟩
  · exact Nat.lt_of_lt_of_le (hs.lt_nextId r (htable.subset hr)) hnext
  · exact .inl ⟨r, htable.subset hr, rfl, Moves.refl now r⟩

theorem of_modifyRoute {k : ℕ} {f : RipRoute A → RipRoute A} (hs : s.Consistent)
    (hid : ∀ r, (f r).id = r.id)
    (hf : ∀ r ∈ s.ripRoutingTable, r.id = k → Moves now r (f r) ∧ (f r).Sound) :
    Advances now s (s.modifyRoute k f) := by
  have h : Evolves (fun r r' => r'.id = r.id ∧ Moves now r r' ∧ (r.Sound → r'.Sound)) [] s
      (s.modifyRoute k f) := by
    refine (Evolves.refl (P := Eq) (fun _ => rfl) s).map _ (fun r => ?_) ?_
    · split_ifs
      · exact hid r
      · rfl
    · rintro r hr _ _ rfl
      split_ifs with hk
      · exact ⟨hid r, (hf r hr hk).1, fun _ => (hf r hr hk).2⟩
      · exact ⟨rfl, Moves.refl now r, id⟩
  refine ⟨h.consistent (fun _ _ h => h.1) (fun _ _ _ h => h.2.2) hs, le_rfl, fun r' hr' => ?_,
    sent_of_eq rfl⟩
  obtain ⟨r, hr, hr'⟩ := h.origin r' hr'
  exact .inl ⟨r, hr, hr'.1, hr'.2.1⟩

theorem triggerUpdate (h : Advances now s s') : Advances now s (triggerUpdate c s') := by
  unfold Rip.triggerUpdate
  split_ifs
  · dsimp only
    split_ifs <;> exact ⟨⟨h.1.1, h.1.2, h.1.3, h.1.4⟩, h.2, h.3, h.4⟩
  · exact h

end Advances

/-- Routes are put behind those of the table. -/
structure Extends (s s' : Rip A) : Prop where
  nextId_le : s.nextId ≤ s'.nextId
  sent_eq : s'.sent = s.sent
  ripInterfaces_eq : s'.ripInterfaces = s.ripInterfaces
  table : ∃ l, s'.ripRoutingTable = s.ripRoutingTable ++ l ∧ (l.map (·.id)).Nodup ∧
    ∀ r ∈ l, s.nextId ≤ r.id ∧ r.id < s'.nextId ∧ r.Sound

namespace Extends

theorem refl (s : Rip A) : Extends s s := ⟨le_rfl, rfl, rfl, [], by simp⟩

theorem trans {s'' : Rip A} (h : Extends s s') (h' : Extends s' s'') : Extends s s'' := by
  obtain ⟨hnext, hsent, hinterfaces, l, htable, hnodup, hl⟩ := h
  obtain ⟨hnext', hsent', hinterfaces', l', htable', hnodup', hl'⟩ := h'
  refine ⟨Nat.le_trans hnext hnext', hsent'.trans hsent, hinterfaces'.trans hinterfaces, l ++ l',
    ?_, ?_, fun r hr => ?_⟩
  · rw [htable', htable, List.append_assoc]
  · rw [List.map_append, List.nodup_append]
    refine ⟨hnodup, hnodup', fun i hi j hj hij => ?_⟩
    obtain ⟨r, hr, rfl⟩ := List.mem_map.1 hi
    obtain ⟨r', hr', rfl⟩ := List.mem_map.1 hj
    exact absurd hij (Nat.ne_of_lt (Nat.lt_of_lt_of_le (hl r hr).2.1 (hl' r' hr').1))
  · rcases List.mem_append.1 hr with hr | hr
    · exact ⟨(hl r hr).1, Nat.lt_of_lt_of_le (hl r hr).2.1 hnext', (hl r hr).2.2⟩
    · exact ⟨Nat.le_trans hnext (hl' r hr).1, (hl' r hr).2⟩

theorem singleton (r : RipRoute A) (n : ℕ) (hid : s.nextId ≤ r.id ∧ r.id < n) (hr : r.Sound) :
    Extends s { s with ripRoutingTable := s.ripRoutingTable ++ [r], nextId := n } :=
  ⟨Nat.le_of_lt (Nat.lt_of_le_of_lt hid.1 hid.2), rfl, rfl, [r], rfl, List.nodup_singleton _, by
    simpa using ⟨hid.1, hid.2, hr⟩⟩

theorem consistent (h : Extends s s') (hs : s.Consistent) : s'.Consistent := by
  obtain ⟨hnext, -, hinterfaces, l, htable, hnodup, hl⟩ := h
  refine ⟨?_, ?_, ?_, ?_⟩
  · rw [htable, List.map_append, List.nodup_append]
    refine ⟨hs.nodup, hnodup, fun i hi j hj hij => ?_⟩
    obtain ⟨r, hr, rfl⟩ := List.mem_map.1 hi
    obtain ⟨r', hr', rfl⟩ := List.mem_map.1 hj
    exact absurd hij (Nat.ne_of_lt (Nat.lt_of_lt_of_le (hs.lt_nextId r hr) (hl r' hr').1))
  · intro r hr
    rcases List.mem_append.1 (htable ▸ hr) with hr | hr
    · exact Nat.lt_of_lt_of_le (hs.lt_nextId r hr) hnext
    · exact (hl r hr).2.1
  · rw [hinterfaces]
    exact hs.nodup_interfaces
  · intro r hr
    rcases List.mem_append.1 (htable ▸ hr) with hr | hr
    · exact hs.sound r hr
    · exact (hl r hr).2.2

theorem advances (h : Extends s s') (hs : s.Consistent) (now : ℕ) : Advances now s s' := by
  refine ⟨h.consistent hs, h.nextId_le, fun r hr => ?_, Advances.sent_of_eq h.sent_eq⟩
  obtain ⟨l, htable, -, hl⟩ := h.table
  rcases List.mem_append.1 (htable ▸ hr) with hr | hr
  · exact .inl ⟨r, hr, rfl, Moves.refl now r⟩
  · exact .inr (hl r hr).1

end Extends

section Events

theorem processUpdate_advances {triggered : Bool} (hs : s.Consistent)
    (hmay : ∀ r ∈ s.ripRoutingTable, r.Invalid →
      ¬MayLapse c (s.ripInterfaces.filter (·.isUp)) s.simTime r.ie r.lastUpdateTime)
    (h : processUpdate c triggered s = .ok s') : Advances s.simTime s s' := by
  unfold processUpdate at h
  obtain ⟨t, ht, h⟩ := Error.exists_of_bind_eq_ok h
  obtain rfl := Except.ok.inj h
  obtain ⟨reports, hevolves, hsub, hreports⟩ := sendAll_spec hs.owned ht
  have hmap : Evolves (fun r r' => r'.id = r.id ∧ (r.Invalid →
        ¬MayLapse c (s.ripInterfaces.filter (·.isUp)) s.simTime r.ie r.lastUpdateTime →
          Moves s.simTime r r') ∧ (r.Sound → r'.Sound)) reports s
      { t with ripRoutingTable := t.ripRoutingTable.map (·.setChanged false) } := by
    refine hevolves.map _ (fun _ => rfl) fun r _ r' _ hP =>
      ⟨hP.id_eq, fun hi hm => ?_, fun hr => ?_⟩
    · exact ⟨hP.of_valid, fun _ _ => ⟨(hP.of_invalid hi hm).1, by rintro ⟨⟩⟩⟩
    · exact ⟨(hP.sound hr).own, (hP.sound hr).lost⟩
  refine ⟨hmap.consistent (fun _ _ h => h.1) (fun _ _ _ h => h.2.2) hs, hmap.nextId_le, ?_, reports,
    hmap.sent_eq, ?_, ?_⟩
  · intro r' hr'
    obtain ⟨r'', hr'', rfl⟩ := List.mem_map.1 hr'
    obtain ⟨r, hr, hP⟩ := hevolves.origin r'' hr''
    refine .inl ⟨r, hr, hP.id_eq, hP.of_valid, fun hi _ => ⟨?_, by rintro ⟨⟩⟩⟩
    exact (hP.of_invalid hi (hmay r hr hi)).1
  · have hall : List.Sublist ((s.ripInterfaces.filter (·.isUp)).map (·.id))
        (s.ripInterfaces.map (·.id)) := List.filter_sublist.map _
    exact ((List.filter_sublist.map _).trans (hsub.trans hall)).nodup hs.nodup_interfaces
  · intro report hreport hc entry hentry
    obtain ⟨hchangedOnly, hchanged⟩ := hreports report hreport
    obtain ⟨r, hr, r'', hid, hch, hP⟩ := hchanged (hchangedOnly.symm.trans hc) entry hentry
    constructor
    · intro r₀ hr₀ hid₀ hi
      obtain rfl := hs.owned.eq_of_id hr₀ hr (hid₀.trans (hid.symm.trans hP.id_eq))
      exact (hP.of_invalid hi (hmay r₀ hr₀ hi)).2.symm.trans hch
    · intro r' hr' _
      obtain ⟨_, -, rfl⟩ := List.mem_map.1 hr'
      rfl

theorem processRequest_advances [DecidableEq A] {interfaceId : ℕ} {entries : List (RequestEntry A)}
    (hs : s.Consistent)
    (hmay : requestsAll entries = true → ∀ i ∈ s.findRipInterfaceById interfaceId,
      ∀ r ∈ s.ripRoutingTable, r.Invalid → ¬MayLapse c [i] s.simTime r.ie r.lastUpdateTime)
    (h : processRequest c interfaceId entries s = .ok s') : Advances s.simTime s s' := by
  unfold processRequest at h
  split_ifs at h with hall
  · cases hfind : s.findRipInterfaceById interfaceId with
    | none =>
      rw [hfind] at h
      obtain rfl := Except.ok.inj h
      exact Advances.refl hs
    | some i =>
      rw [hfind] at h
      obtain ⟨reports, hevolves, -, hreports⟩ := sendRoutes_spec hs.owned h
      exact Advances.of_evolves hs hevolves (hmay hall i hfind) fun report hreport =>
        (hreports report hreport).changedOnly_eq
  · obtain ⟨_, -, h⟩ := Error.exists_of_bind_eq_ok h
    obtain rfl := Except.ok.inj h
    exact Advances.refl hs

theorem advances_of_aside {k : ℕ} (hs : s.Consistent) (h : Evolves (Aside k s.simTime) [] s s')
    (hk : ∀ r ∈ s.ripRoutingTable, r.id = k →
      Holds k (fun r' => Moves s.simTime r r' ∧ r'.Sound) s') : Advances s.simTime s s' := by
  have horigin : ∀ r' ∈ s'.ripRoutingTable, ∃ r ∈ s.ripRoutingTable, r'.id = r.id ∧
      Moves s.simTime r r' ∧ r'.Sound := by
    intro r' hr'
    obtain ⟨r, hr, hid, hP⟩ := h.origin r' hr'
    refine ⟨r, hr, hid, ?_⟩
    by_cases hrk : r.id = k
    · exact hk r hr hrk r' hr' (hid.trans hrk)
    · exact ⟨(hP hrk).moves fun _ => id, (hP hrk).sound (hs.sound r hr)⟩
  refine ⟨⟨h.sublist.nodup hs.nodup, fun r' hr' => ?_, ?_, fun r' hr' => ?_⟩, h.nextId_le,
    fun r' hr' => ?_, Advances.sent_of_eq (h.sent_eq.trans (List.append_nil _))⟩
  · obtain ⟨r, hr, hid, -⟩ := horigin r' hr'
    rw [hid]
    exact Nat.lt_of_lt_of_le (hs.lt_nextId r hr) h.nextId_le
  · rw [h.ripInterfaces_eq]
    exact hs.nodup_interfaces
  · obtain ⟨r, -, -, -, hsound⟩ := horigin r' hr'
    exact hsound
  · obtain ⟨r, hr, hid, hmoves, -⟩ := horigin r' hr'
    exact .inl ⟨r, hr, hid, hmoves⟩

theorem addRoute_advances {dest nextHop src : A} {prefixLength ie metric routeTag : ℕ}
    (hs : s.Consistent) (hmetric : metric ≠ infiniteMetric) (now : ℕ) :
    Advances now s (addRoute c dest prefixLength ie nextHop metric routeTag src s) := by
  refine Advances.triggerUpdate ((Extends.singleton _ _ ⟨Nat.le_succ _, Nat.lt_succ_self _⟩
    ⟨?_, ?_⟩).advances hs now)
  · rintro - h ⟨⟩
    rfl
  · rintro ⟨-, hi⟩
    exact absurd hi hmetric

theorem RipEntry.metricVia_le (entry : RipEntry A) (incomingIe : RipNetworkInterface) :
    entry.metricVia incomingIe ≤ infiniteMetric := Nat.min_le_right _ _

theorem importRoute_extends {route : HostRoute A} {type : RouteType} {metric : ℕ}
    (htype : type ≠ .rte) (h : importRoute route type metric s = .ok s') : Extends s s' := by
  unfold importRoute at h
  obtain ⟨_, hassert, h⟩ := Error.exists_of_bind_eq_ok h
  have hmetric := Error.of_assert_eq_ok hassert
  obtain rfl := Except.ok.inj h
  have hsound {r : RipRoute A} (hr : r.type = type ∧ r.metric = metric) : r.Sound := by
    refine ⟨?_, fun hi => absurd (hr.1.symm.trans hi.1) htype⟩
    rintro (h | h)
    · exact absurd (hr.1.symm.trans h) htype
    · exact absurd (hr.2.symm.trans h) (Nat.ne_of_lt hmetric)
  refine Extends.singleton _ _ ?_ (hsound ?_)
  · split <;> exact ⟨le_rfl, Nat.lt_succ_self _⟩
  · split <;> exact ⟨rfl, rfl⟩

theorem importInterfaceRoute_extends {ie : ℕ} {route : HostRoute A}
    (h : importInterfaceRoute ie route s = .ok s') : Extends s s' := by
  unfold importInterfaceRoute at h
  split_ifs at h
  · exact importRoute_extends (by simp) h
  · obtain rfl := Except.ok.inj h
    exact Extends.refl s

theorem importHostRoute_extends {route : HostRoute A} (h : importHostRoute s route = .ok s') :
    Extends s s' := by
  unfold importHostRoute at h
  split at h
  · obtain rfl := Except.ok.inj h
    exact Extends.refl s
  · exact importInterfaceRoute_extends h
  · exact importRoute_extends (by simp) h
  · exact importRoute_extends (by simp) h
  · obtain rfl := Except.ok.inj h
    exact Extends.refl s

theorem importAll_extends {routes : List (HostRoute A)}
    (h : routes.foldlM importHostRoute s = .ok s') : Extends s s' := by
  induction routes generalizing s with
  | nil =>
    obtain rfl := Except.ok.inj h
    exact Extends.refl _
  | cons route routes ih =>
    rw [List.foldlM_cons] at h
    obtain ⟨t, ht, h⟩ := Error.exists_of_bind_eq_ok h
    exact (importHostRoute_extends ht).trans (ih h)

theorem startRIPRouting_advances {ripInterfaces : List RipNetworkInterface}
    {routes : List (HostRoute A)} (hs : s.Consistent)
    (hinterfaces : (ripInterfaces.map (·.id)).Nodup) (now : ℕ)
    (h : startRIPRouting c ripInterfaces routes s = .ok s') : Advances now s s' := by
  unfold startRIPRouting at h
  obtain ⟨t, ht, h⟩ := Error.exists_of_bind_eq_ok h
  obtain rfl := Except.ok.inj h
  have hstart : Consistent { s with ripInterfaces := ripInterfaces } :=
    ⟨hs.nodup, hs.lt_nextId, hinterfaces, hs.sound⟩
  have hadvances := (importAll_extends ht).advances hstart now
  exact ⟨⟨hadvances.1.1, hadvances.1.2, hadvances.1.3, hadvances.1.4⟩, hadvances.2, hadvances.3,
    hadvances.4⟩

theorem nodup_setUp (hs : s.Consistent) (ie : ℕ) (isUp : Bool) :
    ((s.setUp ie isUp).ripInterfaces.map (·.id)).Nodup := by
  have hids : (s.setUp ie isUp).ripInterfaces.map (·.id) = s.ripInterfaces.map (·.id) := by
    rw [setUp, List.map_map]
    refine List.map_congr_left fun i _ => ?_
    dsimp only [Function.comp]
    split_ifs <;> rfl
  rw [hids]
  exact hs.nodup_interfaces

theorem interfaceDown_advances {ie : ℕ} (hs : s.Consistent)
    (hmay : ∀ r ∈ s.ripRoutingTable, r.Invalid → r.ie ≠ some ie) :
    Advances s.simTime s (interfaceDown c ie s) := by
  have hstart : (s.setUp ie false).Consistent :=
    ⟨hs.nodup, hs.lt_nextId, nodup_setUp hs ie false, hs.sound⟩
  have hevolves : Evolves (Declines s.simTime fun ie' _ => ie' = some ie) [] (s.setUp ie false)
      (interfaceDown c ie s) := by
    refine Evolves.foldl Declines.refl Declines.trans
      (I := fun t =>
        Evolves (Declines s.simTime fun ie' _ => ie' = some ie) [] (s.setUp ie false) t)
      (fun h hI => Evolves.trans (P := Declines s.simTime fun ie' _ => ie' = some ie)
        Declines.trans hI h) ?_ (Evolves.refl Declines.refl _)
    intro t k hk ht
    rw [← show t.simTime = s.simTime from ht.simTime_eq]
    refine evolves_invalidateRoute (ht.declined hstart).owned fun r' hr' hid _ => ?_
    obtain ⟨r, hr, hP⟩ := ht.origin r' hr'
    obtain ⟨r₀, hr₀, rfl⟩ := List.mem_map.1 hk
    obtain ⟨hr₀, hie⟩ := List.mem_filter.1 hr₀
    obtain rfl := hstart.owned.eq_of_id hr hr₀ (hP.id_eq.symm.trans hid)
    rw [hP.ie_eq]
    exact of_decide_eq_true hie
  have hadvances := Advances.of_evolves hstart hevolves hmay (by simp)
  exact ⟨hadvances.1, hadvances.2, hadvances.3, hadvances.4⟩

theorem handleStopOperation_advances (hs : s.Consistent)
    (h : handleStopOperation c s = .ok s') : Advances s.simTime s s' := by
  unfold handleStopOperation at h
  have hinvalidate : Evolves (Declines s.simTime fun _ _ => True) [] s
      ((s.ripRoutingTable.map (·.id)).foldl (fun s k => invalidateRoute c k s) s) := by
    refine Evolves.foldl Declines.refl Declines.trans
      (I := fun t => t.Owned ∧ t.simTime = s.simTime)
      (fun h hI => ⟨h.owned hI.1, h.simTime_eq.trans hI.2⟩) ?_ ⟨hs.owned, rfl⟩
    intro t k _ ht
    rw [← ht.2]
    exact evolves_invalidateRoute ht.1 fun _ _ _ _ => trivial
  generalize (s.ripRoutingTable.map (·.id)).foldl _ s = t at h hinvalidate
  obtain ⟨u, hu, h⟩ := Error.exists_of_bind_eq_ok h
  obtain rfl := Except.ok.inj h
  obtain ⟨reports, hevolves, -, hreports⟩ := sendAll_spec (hinvalidate.owned hs.owned) hu
  refine ⟨⟨List.nodup_nil, by simp [stopRIPRouting], List.nodup_nil, by simp [stopRIPRouting]⟩,
    Nat.le_trans hinvalidate.nextId_le hevolves.nextId_le, by simp [stopRIPRouting],
    Advances.sent_of_regular (?_ : u.sent = s.sent ++ reports) fun report hreport =>
      (hreports report hreport).changedOnly_eq⟩
  rw [hevolves.sent_eq, hinvalidate.sent_eq, List.append_nil]

theorem getInterfaceMetric_lt (s : Rip A) (ie : ℕ) : s.getInterfaceMetric ie < infiniteMetric := by
  unfold getInterfaceMetric
  split
  · exact RipNetworkInterface.metric_lt _
  · decide

theorem routeAdded_advances {route : HostRoute A} (hs : s.Consistent) (now : ℕ)
    (h : routeAdded c route s = .ok s') : Advances now s s' := by
  unfold routeAdded at h
  split_ifs at h
  · obtain rfl := Except.ok.inj h
    exact Advances.refl hs
  · split at h
    · rename_i ie _
      cases hfind : s.findInterfaceRoute ie with
      | none =>
        rw [hfind] at h
        exact (importInterfaceRoute_extends h).advances hs now
      | some r =>
        rw [hfind] at h
        obtain rfl := Except.ok.inj h
        have hr : r ∈ s.ripRoutingTable := List.mem_of_find?_eq_some hfind
        have htype : r.type = .interface := by
          have := List.find?_some hfind
          simp only [decide_eq_true_eq] at this
          exact this.1
        refine Advances.triggerUpdate (Advances.of_modifyRoute hs (fun _ => rfl) fun x hx hid => ?_)
        rw [hs.owned.eq_of_id hx hr hid]
        have hmetric := Nat.ne_of_lt (getInterfaceMetric_lt s ie)
        refine ⟨Moves.of_valid hmetric, ?_, fun hi => absurd hi.2 hmetric⟩
        rintro (hrte | hinf)
        · exact absurd (htype.symm.trans hrte) (by simp)
        · exact absurd hinf hmetric
    · obtain rfl := Except.ok.inj h
      exact Advances.refl hs

theorem routeChanged_advances [DecidableEq A] {route : HostRoute A} (hs : s.Consistent) :
    Advances s.simTime s (routeChanged c route s) := by
  unfold routeChanged
  split_ifs with hown
  · exact Advances.refl hs
  · cases hfind : s.findRipRouteOf route with
    | none => exact Advances.refl hs
    | some r =>
      have hr : r ∈ s.ripRoutingTable := List.mem_of_find?_eq_some hfind
      have hrefers : r.refersTo route = true :=
        List.find?_some (p := fun r : RipRoute A => r.refersTo route) hfind
      obtain ⟨h, hh, hroute⟩ := (Option.any_eq_true _ _).1 hrefers
      have hforeign : ¬h.own = true := (of_decide_eq_true hroute).2 ▸ hown
      -- a route of others is behind a route that is neither learned nor unreachable
      have hrte : r.type ≠ .rte := fun htype => hforeign ((hs.sound r hr).own (.inl htype) h hh)
      have hvalid : r.metric ≠ infiniteMetric := fun hinf =>
        hforeign ((hs.sound r hr).own (.inr hinf) h hh)
      have hrefl : Evolves (Aside r.id s.simTime) [] s s := Evolves.refl Aside.refl s
      have hset := Aside.modifyRoute hrefl (f := fun r =>
        ((((r.setRoute (some route)).setDestination route.dest).setPrefixLength
          route.prefixLength).setNextHop route.nextHop).setInterface route.ie) fun _ => rfl
      have hholds : Holds r.id (fun x => x.metric ≠ infiniteMetric ∧ x.type ≠ .rte) s := by
        intro x hx hid
        rw [hs.owned.eq_of_id hx hr hid]
        exact ⟨hvalid, hrte⟩
      have hfinish {t : Rip A} (ht : Evolves (Aside r.id s.simTime) [] s t)
          (hx : Holds r.id (fun x => x.metric ≠ infiniteMetric ∧ x.type ≠ .rte) t) :
          Advances s.simTime s t :=
        advances_of_aside hs ht fun x₀ _ _ => hx.mono fun x hx =>
          ⟨Moves.of_valid hx.1, fun h => absurd h (not_or.2 ⟨hx.2, hx.1⟩), fun hi =>
            absurd hi.1 hx.2⟩
      dsimp only
      split_ifs
      · refine Advances.triggerUpdate (hfinish (Aside.modifyRoute hset fun _ => rfl) ?_)
        exact (hholds.modifyRoute fun x hx => hx).modifyRoute fun x hx => hx
      · exact hfinish hset (hholds.modifyRoute fun x hx => hx)

/-- The interfaces on which an event sends routes. -/
def interfacesFor (s : Rip A) : Event A → List RipNetworkInterface
  | .updateTimer | .triggeredUpdateTimer => s.ripInterfaces.filter (·.isUp)
  | .request interfaceId entries =>
    if requestsAll entries then (s.findRipInterfaceById interfaceId).toList else []
  | _ => []

/-- No route that is invalid already is invalidated again: an expiry check meets none that is
expired and not yet purged, and no interface goes down that one leads to. -/
def Careful (c : Parameters) (s : Rip A) (now : ℕ) (e : Event A) : Prop :=
  ∀ r ∈ s.ripRoutingTable, r.Invalid →
    ((∃ i ∈ s.interfacesFor e, i.mode ≠ .noRip) → ¬Lapsed c now r.lastUpdateTime) ∧
      ∀ ie, e = .interfaceDown ie → r.ie ≠ some ie

theorem Careful.not_mayLapse {now : ℕ} {e : Event A} (h : Careful c s now e)
    {l : List RipNetworkInterface} (hl : ∀ i ∈ l, i ∈ s.interfacesFor e) :
    ∀ r ∈ s.ripRoutingTable, r.Invalid → ¬MayLapse c l now r.ie r.lastUpdateTime := by
  rintro r hr hi ⟨⟨i, hmem, hmode⟩, hlapsed⟩
  exact (h r hr hi).1 ⟨i, hl i hmem, hmode⟩ hlapsed

theorem of_findRipRoute [DecidableEq A] {dest : A} {prefixLength : ℕ} {r : RipRoute A}
    (h : s.findRipRoute dest prefixLength = some r) : r ∈ s.ripRoutingTable :=
  List.mem_of_find?_eq_some h

theorem refresh_advances (hs : s.Consistent) {r : RipRoute A} (hr : r ∈ s.ripRoutingTable)
    (p : Prop) [Decidable p] (time now : ℕ) :
    Advances now s (if p then s.modifyRoute r.id (·.setLastUpdateTime time) else s) ∧
      Evolves (Aside r.id now) [] s
        (if p then s.modifyRoute r.id (·.setLastUpdateTime time) else s) ∧
      Holds r.id (fun x => x.type = r.type ∧ x.route = r.route)
        (if p then s.modifyRoute r.id (·.setLastUpdateTime time) else s) := by
  have hholds : Holds r.id (fun x => x.type = r.type ∧ x.route = r.route) s := by
    intro x hx hid
    rw [hs.owned.eq_of_id hx hr hid]
    exact ⟨rfl, rfl⟩
  split_ifs
  · refine ⟨Advances.of_modifyRoute hs (fun _ => rfl) fun x hx _ =>
        ⟨⟨?_, fun _ _ => ⟨rfl, id⟩⟩, ?_⟩,
      Aside.modifyRoute (Evolves.refl Aside.refl s) fun _ => rfl, hholds.modifyRoute fun x hx => hx⟩
    · exact fun h h' => absurd h' h
    · exact ⟨(hs.sound x hx).own, (hs.sound x hx).lost⟩
  · exact ⟨Advances.refl hs, Evolves.refl Aside.refl s, hholds⟩

variable [DecidableEq A] {srcAddr : A} {incomingIe : RipNetworkInterface} {entry : RipEntry A}

theorem processEntry_advances (hs : s.Consistent)
    (h : processEntry c srcAddr incomingIe entry s = .ok s') : Advances s.simTime s s' := by
  unfold processEntry at h
  cases hfind : s.findRipRoute entry.address entry.prefixLength with
  | none =>
    simp only [hfind] at h
    split_ifs at h with hmetric
    · obtain rfl := Except.ok.inj h
      exact addRoute_advances hs hmetric _
    · obtain rfl := Except.ok.inj h
      exact Advances.refl hs
  | some r =>
    simp only [hfind] at h
    have hr := of_findRipRoute hfind
    by_cases hskip : (r.type = .static ∨ r.type = .default) ∧ r.metric ≠ infiniteMetric
    · rw [if_pos hskip] at h
      obtain rfl := Except.ok.inj h
      exact Advances.refl hs
    · rw [if_neg hskip] at h
      obtain ⟨hadvances, haside, hholds⟩ :=
        refresh_advances hs hr (r.fromAddr = some srcAddr) s.simTime s.simTime
      have htime := haside.simTime_eq
      generalize (if r.fromAddr = some srcAddr then _ else _) = t at h hadvances haside hholds htime
      split_ifs at h with hbetter hprevent
      · obtain rfl := Except.ok.inj h
        exact hadvances
      · have hmetric : entry.metricVia incomingIe < infiniteMetric ∨
            entry.metricVia incomingIe = infiniteMetric ∧ r.metric ≠ infiniteMetric := by
          have hle := RipEntry.metricVia_le entry incomingIe
          rcases Nat.lt_or_eq_of_le hle with hlt | heq
          · exact .inl hlt
          · refine .inr ⟨heq, fun hinf => ?_⟩
            rcases hbetter with hlt | ⟨-, hne⟩
            · rw [heq, hinf] at hlt
              exact absurd hlt (Nat.lt_irrefl _)
            · exact hne (hinf.trans heq.symm)
        obtain ⟨hupdate, hsettled⟩ :=
          updateRoute_spec hadvances.consistent.owned (hs.sound r hr) hholds hmetric h
        rw [htime] at hupdate hsettled
        refine advances_of_aside hs (by
          simpa using Evolves.trans (P := Aside r.id s.simTime) Aside.trans haside hupdate) ?_
        intro r₀ hr₀ hid
        obtain rfl := hs.owned.eq_of_id hr₀ hr hid
        refine hsettled.mono fun x hx => ⟨⟨hx.fresh, fun hi hinf => ?_⟩, hx.sound⟩
        have hne : entry.metricVia incomingIe = infiniteMetric := (hx.revived hi.2).symm.trans hinf
        rcases hmetric with hlt | ⟨-, hr'⟩
        · exact absurd hne (Nat.ne_of_lt hlt)
        · exact absurd hi.2 hr'
      · obtain rfl := Except.ok.inj h
        exact hadvances

theorem processEntry_revives (hs : s.Consistent) {r : RipRoute A}
    (hfind : s.findRipRoute entry.address entry.prefixLength = some r) (hi : r.Invalid)
    (hmetric : entry.metricVia incomingIe < infiniteMetric)
    (htime : r.lastInvalid + c.holdDownTime ≤ s.simTime) :
    ∃ s', processEntry c srcAddr incomingIe entry s = .ok s' ∧
      Holds r.id (fun x => x.metric < infiniteMetric) s' := by
  have hr := of_findRipRoute hfind
  obtain ⟨hadvances, haside, hholds⟩ :=
    refresh_advances hs hr (r.fromAddr = some srcAddr) s.simTime s.simTime
  have hsimTime := haside.simTime_eq
  have hskip : ¬((r.type = .static ∨ r.type = .default) ∧ r.metric ≠ infiniteMetric) := by
    rintro ⟨-, hne⟩
    exact hne hi.2
  have hlt : entry.metricVia incomingIe < r.metric := by
    rw [hi.2]
    exact hmetric
  unfold processEntry
  simp only [hfind]
  rw [if_neg hskip]
  generalize (if r.fromAddr = some srcAddr then _ else _) = t at hadvances haside hholds hsimTime ⊢
  have hprevent : ¬preventRouteUpdate c t r (entry.metricVia incomingIe) = true := by
    rw [preventRouteUpdate, if_pos ⟨hi.2, hmetric⟩, if_neg, (hs.sound r hr).lost hi]
    · simp
    · rintro ⟨-, hearly⟩
      rw [hsimTime] at hearly
      exact absurd htime (Nat.not_le_of_lt hearly)
  rw [if_pos (.inl hlt), if_neg hprevent]
  obtain ⟨s', h⟩ := exists_updateRoute c t incomingIe.id (entry.nextHop.getD srcAddr)
    entry.routeTag srcAddr hi.2
  refine ⟨s', h, ?_⟩
  obtain ⟨-, hsettled⟩ := updateRoute_spec hadvances.consistent.owned (hs.sound r hr) hholds
    (.inl hmetric) h
  refine hsettled.mono fun x hx => ?_
  rw [hx.revived hi.2]
  exact hmetric

theorem handle_advances {e : Event A} (hs : s.Consistent) (hdue : s.Due s.simTime e)
    (hcareful : Careful c s s.simTime e) (h : handle c s e = .ok s') : Advances s.simTime s s' := by
  obtain ⟨-, -, -, hdue⟩ := hdue
  cases e with
  | startup ripInterfaces routes => exact startRIPRouting_advances hs hdue.2 _ h
  | updateTimer =>
    obtain ⟨t, ht, h⟩ := Error.exists_of_bind_eq_ok h
    obtain rfl := Except.ok.inj h
    have hstart : Consistent { s with updateTimer := none } := ⟨hs.1, hs.2, hs.3, hs.4⟩
    have hadvances := processUpdate_advances hstart
      (hcareful.not_mayLapse (l := s.ripInterfaces.filter (·.isUp)) fun i hi => hi) ht
    exact ⟨⟨hadvances.1.1, hadvances.1.2, hadvances.1.3, hadvances.1.4⟩, hadvances.2, hadvances.3,
      hadvances.4⟩
  | triggeredUpdateTimer =>
    have hstart : Consistent { s with triggeredUpdateTimer := none } := ⟨hs.1, hs.2, hs.3, hs.4⟩
    have hadvances := processUpdate_advances hstart
      (hcareful.not_mayLapse (l := s.ripInterfaces.filter (·.isUp)) fun i hi => hi) h
    exact ⟨hadvances.1, hadvances.2, hadvances.3, hadvances.4⟩
  | request interfaceId entries =>
    refine processRequest_advances hs (fun hall i hi => hcareful.not_mayLapse fun j hj => ?_) h
    obtain rfl := List.mem_singleton.1 hj
    rw [interfacesFor, if_pos hall]
    exact Option.mem_toList.2 hi
  | responseEntry srcAddr interfaceId entry =>
    simp only [handle] at h
    cases hfind : s.findRipInterfaceById interfaceId with
    | none =>
      rw [hfind] at h
      obtain rfl := Except.ok.inj h
      exact Advances.refl hs
    | some incomingIe =>
      rw [hfind] at h
      exact processEntry_advances hs h
  | interfaceCreated i =>
    obtain rfl := Except.ok.inj h
    refine Advances.of_sublist hs (List.Sublist.refl _) ?_ le_rfl rfl
    rw [List.map_append, List.nodup_append]
    refine ⟨hs.nodup_interfaces, List.nodup_singleton _, fun id hid id' hid' hids => ?_⟩
    obtain ⟨j, hj, rfl⟩ := List.mem_map.1 hid
    exact hdue j hj (hids.trans (List.mem_singleton.1 hid'))
  | interfaceDeleted ie =>
    obtain rfl := Except.ok.inj h
    exact Advances.of_sublist hs List.filter_sublist
      ((List.filter_sublist.map _).nodup hs.nodup_interfaces) le_rfl rfl
  | interfaceDown ie =>
    obtain rfl := Except.ok.inj h
    exact interfaceDown_advances hs fun r hr hi => (hcareful r hr hi).2 ie rfl
  | interfaceUp ie =>
    obtain rfl := Except.ok.inj h
    exact Advances.of_sublist hs (List.Sublist.refl _) (nodup_setUp hs ie true) le_rfl rfl
  | routeDeleted route =>
    obtain rfl := Except.ok.inj h
    have hdelete : Evolves (Declines s.simTime fun _ _ => False) [] s (deleteRoute c route s) :=
      evolves_deleteRoute route hs.owned
    exact Advances.of_evolves hs hdelete (fun _ _ _ => id) (by simp)
  | routeAdded route => exact routeAdded_advances hs _ h
  | routeChanged route =>
    obtain rfl := Except.ok.inj h
    exact routeChanged_advances hs
  | stop => exact handleStopOperation_advances hs h
  | crash =>
    obtain rfl := Except.ok.inj h
    exact Advances.of_sublist hs (List.nil_sublist _) List.nodup_nil le_rfl rfl

theorem step_advances {now : ℕ} {e : Event A} (hs : s.Consistent)
    (hdue : s.Due now e) (hcareful : Careful c s now e) (h : step c now e s = .ok s') :
    Advances now s s' := by
  have hstart : Consistent { s with simTime := now } := ⟨hs.1, hs.2, hs.3, hs.4⟩
  have hdue' : Due { s with simTime := now } now e := ⟨le_rfl, hdue.2⟩
  have hadvances : Advances now { s with simTime := now } s' :=
    handle_advances hstart hdue' hcareful h
  exact ⟨hadvances.1, hadvances.2, hadvances.3, hadvances.4⟩

end Events

end Rip

end Inet
