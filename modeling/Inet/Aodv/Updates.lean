import Inet.Aodv.Freshness

/-! # The three updates

The route to the previous hop loses its valid number, and the routes to the
destination of a reply and to the originator of a request are updated where the
handlers find the message better.
-/

namespace Inet.Aodv

variable {Addr : Type} {rules : RoutingTableRules Addr} {parameters : Parameters}
  {this mid after : Aodv Addr} {p q : ℕ} {sourceAddr dest : Addr} {simTime : ℤ}

/-! Lookups. -/

/-- No other host route matches the destination. -/
def OnlyHostRoute (rules : RoutingTableRules Addr) (this : Aodv Addr) (p : ℕ) (dest : Addr) :
    Prop :=
  ∀ q ∈ this.routes, q ≠ p → rules.matches dest (this.route q) = true →
    (this.route q).prefixLength < rules.maxPrefixLength

theorem findOwnRoute_eq_some : this.findOwnRoute rules dest = some p ↔
    this.findBestMatchingRoute rules dest = some p ∧ (this.route p).own = true := by
  rw [findOwnRoute, Option.filter_eq_some_iff]

theorem mem_of_findOwnRoute (h : this.findOwnRoute rules dest = some p) : p ∈ this.routes :=
  List.mem_of_find?_eq_some (findOwnRoute_eq_some.1 h).1

theorem matches_of_findOwnRoute (h : this.findOwnRoute rules dest = some p) :
    rules.matches dest (this.route p) = true :=
  (List.find?_some (findOwnRoute_eq_some.1 h).1 :)

theorem matches_setRoute {r : Route Addr}
    (hdestination : r.destination = (this.route p).destination)
    (hplen : r.prefixLength = (this.route p).prefixLength) :
    rules.matches dest ((this.setRoute p r).route q) = rules.matches dest (this.route q) := by
  simp only [setRoute]
  split_ifs with h
  · rw [h]
    exact rules.matches_congr dest hdestination hplen
  · rfl

theorem findBestMatchingRoute_setRoute {r : Route Addr}
    (hdestination : r.destination = (this.route p).destination)
    (hplen : r.prefixLength = (this.route p).prefixLength) :
    (this.setRoute p r).findBestMatchingRoute rules dest =
      this.findBestMatchingRoute rules dest := by
  have hmatches : (fun q => rules.matches dest ((this.setRoute p r).route q)) =
      fun q => rules.matches dest (this.route q) :=
    funext fun q => matches_setRoute hdestination hplen
  rw [findBestMatchingRoute, hmatches]
  rfl

theorem findBestMatchingRoute_setMetric {metric : BitVec 32}
    (heq : this.setMetric rules p metric = .ok after)
    (hfound : this.findBestMatchingRoute rules dest = some p)
    (hhost : (this.route p).prefixLength = rules.maxPrefixLength)
    (honly : OnlyHostRoute rules this p dest) :
    after.findBestMatchingRoute rules dest = some p := by
  unfold setMetric at heq
  split_ifs at heq with hne
  · obtain ⟨_, -, heq⟩ := Error.exists_of_bind_eq_ok heq
    obtain ⟨routes, hroutes, heq⟩ := Error.exists_of_bind_eq_ok heq
    cases heq
    have hmatches (q : ℕ) : rules.matches dest
        ((this.setRoute p { this.route p with metric }).route q) =
          rules.matches dest (this.route q) := matches_setRoute rfl rfl
    refine rules.find?_insert hroutes ?_ ?_ ?_
    · simpa only [setRoute, if_true] using hhost
    · rw [hmatches]
      exact (List.find?_some hfound :)
    · intro q hq hqp hq'
      rw [hmatches] at hq'
      simpa only [setRoute, if_neg hqp] using honly q (List.mem_of_mem_erase hq) hqp hq'
  · cases heq
    exact hfound

theorem findOwnRoute_updateRoutingTable {nextHop : Addr} {hopCount destSeqNum : BitVec 32}
    {hasValidDestNum isActive : Bool} {lifeTime : ℤ}
    (heq : this.updateRoutingTable rules p nextHop hopCount hasValidDestNum destSeqNum isActive
      lifeTime = .ok after)
    (hfound : this.findOwnRoute rules dest = some p)
    (hhost : (this.route p).prefixLength = rules.maxPrefixLength)
    (honly : OnlyHostRoute rules this p dest) : after.findOwnRoute rules dest = some p := by
  obtain ⟨precursorList, hreplaced⟩ := replaced_updateRoutingTable heq
  obtain ⟨hbest, hown⟩ := findOwnRoute_eq_some.1 hfound
  refine findOwnRoute_eq_some.2 ⟨?_, by rw [hreplaced.route]; exact hown⟩
  obtain ⟨mid, hmid, heq⟩ := Error.exists_of_bind_eq_ok heq
  obtain ⟨data, -, heq⟩ := Error.exists_of_bind_eq_ok heq
  cases heq
  have hhop : (this.setNextHop p nextHop).findBestMatchingRoute rules dest = some p :=
    (findBestMatchingRoute_setRoute (p := p) (r := { this.route p with nextHop }) rfl rfl).trans
      hbest
  refine (findBestMatchingRoute_setRoute (p := p) (r := { mid.route p with
    protocolData := some ⟨data.precursorList, isActive, hasValidDestNum, destSeqNum, lifeTime⟩ })
      rfl rfl).trans (findBestMatchingRoute_setMetric hmid hhop ?_ ?_)
  · simpa only [setNextHop, setRoute, if_true] using hhost
  · intro q hq hqp hq'
    have hmatches : rules.matches dest ((this.setNextHop p nextHop).route q) =
        rules.matches dest (this.route q) :=
      matches_setRoute (p := p) (r := { this.route p with nextHop }) rfl rfl
    rw [hmatches] at hq'
    simpa only [setNextHop, setRoute, if_neg hqp] using honly q hq hqp hq'

/-! The previous hop. -/

/-- A route whose number is no longer valid. -/
structure Invalidated (r r' : Route Addr) : Prop where
  own : r'.own = r.own
  destination : r'.destination = r.destination
  prefixLength : r'.prefixLength = r.prefixLength
  data : ∀ data ∈ r'.protocolData, data.validDestNum = false

/-- What is known after the first part of a handler. -/
structure PreviousHopUpdated (rules : RoutingTableRules Addr) (sourceAddr : Addr)
    (this after : Aodv Addr) : Prop where
  kept : Kept (fun p => this.findOwnRoute rules sourceAddr = some p) this after
  selfIPAddress : after.selfIPAddress = this.selfIPAddress
  waitForRREPTimers : after.waitForRREPTimers = this.waitForRREPTimers
  rreqsArrivalTime : after.rreqsArrivalTime = this.rreqsArrivalTime
  invalidated : ∀ p, this.findOwnRoute rules sourceAddr = some p →
    Invalidated (this.route p) (after.route p)
  found : ∀ p, this.findOwnRoute rules sourceAddr = some p →
    (this.route p).prefixLength = rules.maxPrefixLength → OnlyHostRoute rules this p sourceAddr →
      after.findOwnRoute rules sourceAddr = some p

theorem previousHopUpdated (h : this.WellFormed) {seqNum : BitVec 32}
    (heq : this.updatePreviousHop rules parameters sourceAddr seqNum simTime = .ok after) :
    PreviousHopUpdated rules sourceAddr this after := by
  unfold updatePreviousHop at heq
  split at heq
  · rename_i route hroute
    obtain ⟨precursorList, hreplaced⟩ := replaced_updateRoutingTable heq
    have hafter := hreplaced.after_eq
    have honly {p : ℕ} (hp : this.findOwnRoute rules sourceAddr = some p) : p = route :=
      Option.some.inj (hp.symm.trans hroute)
    refine ⟨hreplaced.kept h rfl fun hne _ => absurd hroute hne, ?_, ?_, ?_, ?_, ?_⟩
    · rw [hafter]
      rfl
    · rw [hafter]
      rfl
    · rw [hafter]
      rfl
    · intro p hp
      rw [honly hp, hreplaced.route]
      refine ⟨rfl, rfl, rfl, ?_⟩
      rintro data ⟨⟩
      rfl
    · intro p hp hhost hothers
      rw [honly hp] at hhost hothers ⊢
      exact findOwnRoute_updateRoutingTable heq hroute hhost hothers
  · rename_i hnone
    obtain ⟨⟨p, mid⟩, hmid, heq⟩ := Error.exists_of_bind_eq_ok heq
    cases heq
    obtain ⟨hkept, -, hself, htimers, htimes⟩ := kept_createRoute h hmid
    refine ⟨hkept.mono fun _ => False.elim, hself, htimers, htimes, ?_, ?_⟩
    · intro q hq
      cases hnone.symm.trans hq
    · intro q hq
      cases hnone.symm.trans hq

/-! The forward route of a reply. -/

/-- The reply is better than the route, by the comparisons of the code. -/
def ReplyIsBetter (this : Aodv Addr) (rrep : Rrep Addr) (newHopCount : BitVec 32) (p : ℕ) : Prop :=
  ∃ data ∈ (this.route p).protocolData, data.validDestNum = false ∨
    data.destSeqNum < rrep.destSeqNum ∨ rrep.destSeqNum = data.destSeqNum ∧ data.active = false ∨
    rrep.destSeqNum = data.destSeqNum ∧ newHopCount < (this.route p).metric

variable {rrep : Rrep Addr} {rreq : Rreq Addr} {newHopCount hopCount : BitVec 32} {route : ℕ}

theorem carries_updateForwardRoute (h : this.WellFormed)
    (heq : this.updateForwardRoute rules rrep sourceAddr newHopCount simTime = .ok (route, after)) :
    Carries sourceAddr newHopCount rrep.destSeqNum (fun p =>
      this.findOwnRoute rules rrep.destAddr = some p ∧ this.ReplyIsBetter rrep newHopCount p)
        this after ∧
      (this.findOwnRoute rules rrep.destAddr = some route ∨ route = this.newRoute) := by
  unfold updateForwardRoute at heq
  dsimp only at heq
  split at heq
  · rename_i p hp
    obtain ⟨data, hdata, heq⟩ := Error.exists_of_bind_eq_ok heq
    have hdata := getRouteData_eq_ok hdata
    split_ifs at heq with hbetter
    · obtain ⟨mid, hmid, heq⟩ := Error.exists_of_bind_eq_ok heq
      cases heq
      refine ⟨(carries_updateRoutingTable h hmid).2.mono ?_, Or.inl hp⟩
      rintro _ rfl
      refine ⟨hp, data, hdata, ?_⟩
      simpa only [Bool.not_eq_true] using hbetter
    · cases heq
      exact ⟨KeptAll.carries (Kept.refl h), Or.inl hp⟩
  · obtain ⟨hkept, hnew, -⟩ := kept_createRoute h heq
    exact ⟨hkept.carries, Or.inr hnew⟩

theorem updateForwardRoute_frame (h : this.WellFormed)
    (heq : this.updateForwardRoute rules rrep sourceAddr newHopCount simTime = .ok (route, after)) :
    after.selfIPAddress = this.selfIPAddress ∧
      after.waitForRREPTimers = this.waitForRREPTimers := by
  unfold updateForwardRoute at heq
  dsimp only at heq
  split at heq
  · obtain ⟨data, -, heq⟩ := Error.exists_of_bind_eq_ok heq
    split_ifs at heq
    · obtain ⟨mid, hmid, heq⟩ := Error.exists_of_bind_eq_ok heq
      obtain ⟨precursorList, hreplaced⟩ := replaced_updateRoutingTable hmid
      cases heq
      rw [hreplaced.after_eq]
      exact ⟨rfl, rfl⟩
    · cases heq
      exact ⟨rfl, rfl⟩
  · obtain ⟨-, -, hself, htimers, -⟩ := kept_createRoute h heq
    exact ⟨hself, htimers⟩

theorem updatedTo_updateForwardRoute (h : this.WellFormed)
    (heq : this.updateForwardRoute rules rrep sourceAddr newHopCount simTime = .ok (route, after))
    (hfound : this.findOwnRoute rules rrep.destAddr = some p)
    (hinvalid : ∀ data ∈ (this.route p).protocolData, data.validDestNum = false) :
    UpdatedTo sourceAddr newHopCount rrep.destSeqNum (this.route p) (after.route p) := by
  unfold updateForwardRoute at heq
  dsimp only at heq
  rw [hfound] at heq
  obtain ⟨data, hdata, heq⟩ := Error.exists_of_bind_eq_ok heq
  have hfalse := hinvalid data (getRouteData_eq_ok hdata)
  rw [if_pos (Or.inl (by rw [hfalse]; exact Bool.false_ne_true))] at heq
  obtain ⟨mid, hmid, heq⟩ := Error.exists_of_bind_eq_ok heq
  cases heq
  exact (carries_updateRoutingTable h hmid).1

/-! The reverse route of a request. -/

/-- The request is better than the route, by the comparisons of the code. -/
def RequestIsBetter (this : Aodv Addr) (rreq : Rreq Addr) (hopCount : BitVec 32) (p : ℕ) : Prop :=
  ∃ data ∈ (this.route p).protocolData, data.destSeqNum.slt rreq.originatorSeqNum = true ∨
    rreq.originatorSeqNum = data.destSeqNum ∧ hopCount.slt (this.route p).metric = true

theorem carries_updateReverseRoute (h : this.WellFormed) (hflag : rreq.unknownSeqNumFlag = false)
    (heq : this.updateReverseRoute rules parameters rreq sourceAddr hopCount simTime =
      .ok (route, after)) :
    Carries sourceAddr hopCount rreq.originatorSeqNum (fun p =>
      this.findOwnRoute rules rreq.originatorAddr = some p ∧
        this.RequestIsBetter rreq hopCount p) this after := by
  unfold updateReverseRoute at heq
  dsimp only at heq
  split at heq
  · rename_i p hp
    obtain ⟨data, hdata, heq⟩ := Error.exists_of_bind_eq_ok heq
    have hdata := getRouteData_eq_ok hdata
    split_ifs at heq with hbetter hnewer
    · obtain ⟨mid, hmid, heq⟩ := Error.exists_of_bind_eq_ok heq
      cases heq
      refine (carries_updateRoutingTable h hmid).2.mono ?_
      rintro _ rfl
      exact ⟨hp, data, hdata, Or.inl hnewer⟩
    · have hshorter : rreq.originatorSeqNum = data.destSeqNum ∧
          hopCount.slt (this.route p).metric = true := by
        rcases hbetter with hnewer' | hshorter | hflag'
        · exact absurd hnewer' hnewer
        · exact hshorter
        · rw [hflag] at hflag'
          cases hflag'
      obtain ⟨mid, hmid, heq⟩ := Error.exists_of_bind_eq_ok heq
      cases heq
      rw [← hshorter.1] at hmid
      refine (carries_updateRoutingTable h hmid).2.mono ?_
      rintro _ rfl
      exact ⟨hp, data, hdata, Or.inr hshorter⟩
    · cases heq
      exact KeptAll.carries (Kept.refl h)
  · obtain ⟨hkept, -⟩ := kept_createRoute h heq
    exact hkept.carries

end Inet.Aodv
