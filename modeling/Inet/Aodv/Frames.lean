import Inet.Aodv.Aodv

/-! # What the handlers leave alone

Every part of the two handlers keeps the host routes that it does not replace:
they stay in the routing table, and only precursors and lifetimes change.
-/

namespace Inet.Aodv

variable {Addr : Type} {rules : RoutingTableRules Addr} {parameters : Parameters}
  {this mid after : Aodv Addr} {p q : ℕ}

/-- The pointers in the table are those of route objects, and the default route is one. -/
structure WellFormed (this : Aodv Addr) : Prop where
  lt : ∀ p ∈ this.routes, p < this.newRoute
  defaultRoute : ∀ p ∈ this.defaultGatewayRoute,
    p < this.newRoute ∧ (this.route p).prefixLength = 0

/-- The same route up to its precursors and its lifetime. -/
structure Same (r r' : Route Addr) : Prop where
  own : r'.own = r.own
  destination : r'.destination = r.destination
  prefixLength : r'.prefixLength = r.prefixLength
  nextHop : r'.nextHop = r.nextHop
  metric : r'.metric = r.metric
  data : ∀ data ∈ r.protocolData, ∃ data' ∈ r'.protocolData, data'.active = data.active ∧
    data'.validDestNum = data.validDestNum ∧ data'.destSeqNum = data.destSeqNum

theorem Same.refl (r : Route Addr) : Same r r :=
  ⟨rfl, rfl, rfl, rfl, rfl, fun data h => ⟨data, h, rfl, rfl, rfl⟩⟩

theorem Same.trans {r r' r'' : Route Addr} (h : Same r r') (h' : Same r' r'') : Same r r'' := by
  refine ⟨h'.own.trans h.own, h'.destination.trans h.destination,
    h'.prefixLength.trans h.prefixLength, h'.nextHop.trans h.nextHop, h'.metric.trans h.metric, ?_⟩
  intro data hdata
  obtain ⟨data', hdata', hactive, hvalid, hseq⟩ := h.data data hdata
  obtain ⟨data'', hdata'', hactive', hvalid', hseq'⟩ := h'.data data' hdata'
  exact ⟨data'', hdata'', hactive'.trans hactive, hvalid'.trans hvalid, hseq'.trans hseq⟩

/-- All routes but the default route and the excepted ones are still there. -/
structure Kept (except : ℕ → Prop) (this after : Aodv Addr) : Prop where
  wellFormed : after.WellFormed
  kept : ∀ p ∈ this.routes, (this.route p).prefixLength ≠ 0 → ¬ except p →
    p ∈ after.routes ∧ Same (this.route p) (after.route p)

variable {except except' : ℕ → Prop}

theorem Kept.refl (h : this.WellFormed) : Kept except this this :=
  ⟨h, fun _ hp _ _ => ⟨hp, Same.refl _⟩⟩

theorem Kept.trans (h : Kept except this mid) (h' : Kept except' mid after) :
    Kept (fun p => except p ∨ except' p) this after := by
  refine ⟨h'.wellFormed, fun p hp hne hexcept => ?_⟩
  obtain ⟨hmid, hsame⟩ := h.kept p hp hne fun h => hexcept (Or.inl h)
  obtain ⟨hafter, hsame'⟩ := h'.kept p hmid (hsame.prefixLength ▸ hne) fun h => hexcept (Or.inr h)
  exact ⟨hafter, hsame.trans hsame'⟩

theorem Kept.mono (h : Kept except this after) (hle : ∀ p, except p → except' p) :
    Kept except' this after :=
  ⟨h.wellFormed, fun p hp hne hexcept => h.kept p hp hne fun h => hexcept (hle p h)⟩

/-- Nothing is excepted. -/
abbrev KeptAll (this after : Aodv Addr) : Prop := Kept (fun _ => False) this after

theorem KeptAll.trans (h : KeptAll this mid) (h' : KeptAll mid after) : KeptAll this after :=
  (Kept.trans h h').mono fun _ => Or.rec id id

theorem kept_setRoute (h : this.WellFormed) {r : Route Addr}
    (hplen : r.prefixLength = (this.route p).prefixLength)
    (hsame : ¬ except p → (this.route p).prefixLength ≠ 0 → Same (this.route p) r) :
    Kept except this (this.setRoute p r) := by
  refine ⟨⟨h.lt, fun q hq => ⟨(h.defaultRoute q hq).1, ?_⟩⟩, fun q hq hne hexcept => ⟨hq, ?_⟩⟩
  · have hzero := (h.defaultRoute q hq).2
    simp only [setRoute]
    split_ifs with heq
    · rw [hplen, ← heq, hzero]
    · exact hzero
  · simp only [setRoute]
    split_ifs with heq
    · subst heq
      exact hsame hexcept hne
    · exact Same.refl _

theorem setRoute_self : this.setRoute p (this.route p) = this := by
  have hroute : (fun q => if q = p then this.route p else this.route q) = this.route := by
    funext q
    split_ifs with h
    · rw [h]
    · rfl
  rw [setRoute, hroute]

/-- A route object has a new value, and the table still has its routes. -/
structure Replaced (p : ℕ) (r : Route Addr) (this after : Aodv Addr) : Prop where
  after_eq : after = { this.setRoute p r with routes := after.routes }
  mem : ∀ q ∈ this.routes, (this.route q).prefixLength ≠ 0 → q ∈ after.routes
  sub : ∀ q ∈ after.routes, q ∈ this.routes

theorem Replaced.setRoute {r : Route Addr} : Replaced p r this (this.setRoute p r) :=
  ⟨rfl, fun _ hq _ => hq, fun _ hq => hq⟩

theorem Replaced.route {r : Route Addr} (h : Replaced p r this after) : after.route p = r := by
  rw [h.after_eq]
  exact if_pos rfl

theorem Replaced.trans {r r' : Route Addr} (h : Replaced p r this mid)
    (h' : Replaced p r' mid after)
    (hplen : r.prefixLength = (this.route p).prefixLength) : Replaced p r' this after := by
  have hmid := h.after_eq
  constructor
  · have hset : (fun q => if q = p then r' else if q = p then r else this.route q) =
        fun q => if q = p then r' else this.route q := by
      funext q
      split_ifs <;> rfl
    rw [h'.after_eq, hmid]
    simp only [Aodv.setRoute, hset]
  · intro q hq hne
    refine h'.mem q (h.mem q hq hne) ?_
    rw [hmid]
    simp only [Aodv.setRoute]
    split_ifs with heq
    · rw [hplen, ← heq]
      exact hne
    · exact hne
  · exact fun q hq => h.sub q (h'.sub q hq)

theorem Replaced.kept {r : Route Addr} (h : Replaced p r this after) (hwf : this.WellFormed)
    (hplen : r.prefixLength = (this.route p).prefixLength)
    (hsame : ¬ except p → (this.route p).prefixLength ≠ 0 → Same (this.route p) r) :
    Kept except this after := by
  have hset := kept_setRoute hwf hplen hsame
  constructor
  · have hwf' := hset.wellFormed
    rw [h.after_eq]
    exact ⟨fun q hq => hwf.lt q (h.sub q hq), hwf'.defaultRoute⟩
  · intro q hq hne hexcept
    refine ⟨h.mem q hq hne, ?_⟩
    rw [h.after_eq]
    exact (hset.kept q hq hne hexcept).2

theorem replaced_setMetric {metric : BitVec 32} (h : this.setMetric rules p metric = .ok after) :
    Replaced p { this.route p with metric } this after := by
  unfold setMetric at h
  split_ifs at h with hne
  · obtain ⟨_, hmem, h⟩ := Error.exists_of_bind_eq_ok h
    obtain ⟨routes, hroutes, h⟩ := Error.exists_of_bind_eq_ok h
    cases h
    have hp : p ∈ this.routes := Error.of_assert_eq_ok hmem
    refine ⟨rfl, fun q hq hqne => ?_, fun q hq => ?_⟩
    · by_cases heq : q = p
      · rw [heq]
        exact rules.mem_insert hroutes
      · refine rules.mem_insert_of_mem hroutes ((List.mem_erase_of_ne heq).2 hq) ?_
        simpa only [setRoute, if_neg heq] using hqne
    · rcases rules.eq_or_mem_of_mem_insert hroutes hq with rfl | hq
      · exact hp
      · exact List.mem_of_mem_erase hq
  · cases h
    rw [not_not] at hne
    have hself : { this.route p with metric } = this.route p := by rw [← hne]
    refine ⟨?_, fun _ hq _ => hq, fun _ hq => hq⟩
    rw [hself, setRoute_self]

theorem getRouteData_eq_ok {data : AodvRouteData Addr} (h : this.getRouteData p = .ok data) :
    (this.route p).protocolData = some data := by
  unfold getRouteData at h
  split at h
  · cases h
    assumption
  · cases h

theorem replaced_updateRoutingTable {nextHop : Addr} {hopCount destSeqNum : BitVec 32}
    {hasValidDestNum isActive : Bool} {lifeTime : ℤ}
    (h : this.updateRoutingTable rules p nextHop hopCount hasValidDestNum destSeqNum isActive
      lifeTime = .ok after) :
    ∃ precursorList, Replaced p { this.route p with
      nextHop, metric := hopCount, protocolData := some
        ⟨precursorList, isActive, hasValidDestNum, destSeqNum, lifeTime⟩ } this after := by
  obtain ⟨mid, hmid, h⟩ := Error.exists_of_bind_eq_ok h
  obtain ⟨data, -, h⟩ := Error.exists_of_bind_eq_ok h
  cases h
  have hset : Replaced p { this.route p with nextHop } this (this.setNextHop p nextHop) :=
    Replaced.setRoute
  have hmetric := replaced_setMetric hmid
  rw [hset.route] at hmetric
  have hroute := hmetric.route
  have hdata : Replaced p { this.route p with
      nextHop, metric := hopCount, protocolData := some
        ⟨data.precursorList, isActive, hasValidDestNum, destSeqNum, lifeTime⟩ } mid
      (mid.setRouteData p
        ⟨data.precursorList, isActive, hasValidDestNum, destSeqNum, lifeTime⟩) := by
    rw [setRouteData, hroute]
    exact Replaced.setRoute
  exact ⟨data.precursorList, (hset.trans hmetric rfl).trans hdata rfl⟩

theorem kept_addRoute (h : this.WellFormed) {newRoute : Route Addr}
    (heq : this.addRoute rules newRoute = .ok (p, after)) :
    KeptAll this after ∧ after = { this.setRoute p newRoute with
      routes := after.routes, newRoute := p + 1 } ∧ p = this.newRoute := by
  obtain ⟨routes, hroutes, heq⟩ := Error.exists_of_bind_eq_ok heq
  cases heq
  refine ⟨⟨⟨fun q hq => ?_, fun q hq => ?_⟩, fun q hq hne _ => ?_⟩, rfl, rfl⟩
  · rcases rules.eq_or_mem_of_mem_insert hroutes hq with rfl | hq
    · exact Nat.lt_succ_self _
    · exact Nat.lt_succ_of_lt (h.lt q hq)
  · obtain ⟨hlt, hzero⟩ := h.defaultRoute q hq
    refine ⟨Nat.lt_succ_of_lt hlt, ?_⟩
    simp only [setRoute, if_neg hlt.ne]
    exact hzero
  · have hlt := h.lt q hq
    have hsame : (this.setRoute this.newRoute newRoute).route q = this.route q := if_neg hlt.ne
    refine ⟨rules.mem_insert_of_mem hroutes hq (hsame ▸ hne), ?_⟩
    rw [hsame]
    exact Same.refl _

theorem kept_createRoute (h : this.WellFormed) {destAddr nextHop : Addr}
    {hopCount destSeqNum : BitVec 32} {hasValidDestNum isActive : Bool} {lifeTime : ℤ}
    (heq : this.createRoute rules destAddr nextHop hopCount hasValidDestNum destSeqNum isActive
      lifeTime = .ok (p, after)) :
    KeptAll this after ∧ p = this.newRoute ∧ after.selfIPAddress = this.selfIPAddress ∧
      after.waitForRREPTimers = this.waitForRREPTimers ∧
        after.rreqsArrivalTime = this.rreqsArrivalTime := by
  obtain ⟨hkept, hafter, hp⟩ := kept_addRoute h heq
  rw [hafter]
  exact ⟨hafter ▸ hkept, hp, rfl, rfl, rfl⟩

theorem kept_setRouteData (h : this.WellFormed) {data data' : AodvRouteData Addr}
    (hdata : (this.route p).protocolData = some data) (hactive : data'.active = data.active)
    (hvalid : data'.validDestNum = data.validDestNum) (hseq : data'.destSeqNum = data.destSeqNum) :
    KeptAll this (this.setRouteData p data') := by
  refine kept_setRoute h rfl fun _ _ => ⟨rfl, rfl, rfl, rfl, rfl, fun d hd => ?_⟩
  rw [hdata] at hd
  cases hd
  exact ⟨data', rfl, hactive, hvalid, hseq⟩

theorem kept_of_eq (h : this.WellFormed) (hroute : after.route = this.route)
    (hroutes : after.routes = this.routes) (hnew : after.newRoute = this.newRoute)
    (hdefault : after.defaultGatewayRoute = this.defaultGatewayRoute) : KeptAll this after := by
  refine ⟨⟨?_, ?_⟩, fun p hp _ _ => ?_⟩
  · rw [hroutes, hnew]
    exact h.lt
  · rw [hroute, hnew, hdefault]
    exact h.defaultRoute
  · rw [hroutes, hroute]
    exact ⟨hp, Same.refl _⟩

theorem kept_sendAODVPacket (h : this.WellFormed) {packet : AodvControlPacket Addr}
    {destAddr : Addr} {timeToLive : ℕ}
    (heq : this.sendAODVPacket packet destAddr timeToLive = .ok after) : KeptAll this after := by
  obtain ⟨_, -, heq⟩ := Error.exists_of_bind_eq_ok heq
  cases heq
  exact kept_of_eq h rfl rfl rfl rfl

theorem kept_sendGRREP (h : this.WellFormed) {grrep : Rrep Addr} {destAddr : Addr}
    {timeToLive : ℕ} (heq : this.sendGRREP rules grrep destAddr timeToLive = .ok after) :
    KeptAll this after := by
  unfold sendGRREP at heq
  split at heq
  · cases heq
  · exact kept_sendAODVPacket h heq

theorem Replaced.keptAll {r : Route Addr} (h : Replaced p r this after) (hwf : this.WellFormed)
    (hplen : r.prefixLength = (this.route p).prefixLength)
    (hzero : (this.route p).prefixLength = 0) : KeptAll this after :=
  h.kept hwf hplen fun _ hne => absurd hzero hne

theorem kept_createDefaultGatewayRoute (h : this.WellFormed)
    (heq : this.createDefaultGatewayRoute rules = .ok after) : KeptAll this after := by
  obtain ⟨⟨p, mid⟩, hmid, heq⟩ := Error.exists_of_bind_eq_ok heq
  cases heq
  obtain ⟨hkept, hafter, hp⟩ := kept_addRoute h hmid
  refine ⟨⟨hkept.wellFormed.lt, ?_⟩, hkept.kept⟩
  rintro q hq
  cases hq
  rw [hafter]
  refine ⟨Nat.lt_succ_self _, ?_⟩
  simp only [setRoute, if_true]

theorem kept_updateGatewayRoute (h : this.WellFormed)
    (heq : this.updateGatewayRoute rules = .ok after) : KeptAll this after := by
  unfold updateGatewayRoute at heq
  split at heq
  · cases heq
  · rename_i defaultRoute hdefault
    have hzero := (h.defaultRoute defaultRoute hdefault).2
    obtain ⟨data, -, heq⟩ := Error.exists_of_bind_eq_ok heq
    split at heq
    · obtain ⟨gatewayData, -, heq⟩ := Error.exists_of_bind_eq_ok heq
      split_ifs at heq
      · obtain ⟨mid, hmid, heq⟩ := Error.exists_of_bind_eq_ok heq
        cases heq
        have hhop {nextHop : Addr} : KeptAll this (this.setNextHop defaultRoute nextHop) :=
          kept_setRoute h rfl fun _ hne => absurd hzero hne
        have hrep := replaced_setMetric hmid
        have hzero' : (mid.route defaultRoute).prefixLength = 0 := by
          rw [hrep.route]
          simpa only [setNextHop, setRoute, if_true] using hzero
        have hmetric := hrep.keptAll hhop.wellFormed rfl (by
          simpa only [setNextHop, setRoute, if_true] using hzero)
        exact (hhop.trans hmetric).trans
          (kept_setRoute hmetric.wellFormed rfl fun _ hne => absurd hzero' hne)
      · cases heq
        exact Kept.refl h
    · split_ifs at heq
      · cases heq
        have hdata {data : AodvRouteData Addr} :
          KeptAll this (this.setRouteData defaultRoute data) :=
          kept_setRoute h rfl fun _ hne => absurd hzero hne
        refine hdata.trans (kept_setRoute hdata.wellFormed rfl fun _ hne => absurd ?_ hne)
        simpa only [setRouteData, setRoute, if_true] using hzero
      · cases heq
        exact Kept.refl h

theorem kept_acknowledge (h : this.WellFormed) {rrep : Rrep Addr} {sourceAddr : Addr}
    (heq : this.acknowledge rrep sourceAddr = .ok after) : KeptAll this after := by
  unfold acknowledge at heq
  split_ifs at heq
  · exact kept_sendAODVPacket h heq
  · cases heq
    exact Kept.refl h

theorem kept_forwardRREQ (h : this.WellFormed) {rreq : Rreq Addr}
    {destRouteData : Option (AodvRouteData Addr)} {timeToLive : ℕ} {simTime : ℤ}
    (heq : this.forwardRREQ rules parameters rreq destRouteData timeToLive simTime = .ok after) :
    KeptAll this after := by
  unfold forwardRREQ at heq
  split_ifs at heq
  · exact kept_sendAODVPacket h heq
  · cases heq
    exact Kept.refl h

theorem kept_ensureDefaultGatewayRoute (h : this.WellFormed)
    (heq : this.ensureDefaultGatewayRoute rules = .ok after) : KeptAll this after := by
  unfold ensureDefaultGatewayRoute at heq
  split_ifs at heq
  · exact kept_createDefaultGatewayRoute h heq
  · cases heq
    exact Kept.refl h

section Precursors

variable [DecidableEq Addr] {sourceAddr : Addr} {simTime : ℤ}

theorem kept_addPrecursor (h : this.WellFormed) {precursorAddr : Addr}
    (heq : this.addPrecursor p precursorAddr = .ok after) : KeptAll this after := by
  obtain ⟨data, hdata, heq⟩ := Error.exists_of_bind_eq_ok heq
  cases heq
  exact kept_setRouteData h (getRouteData_eq_ok hdata) rfl rfl rfl

theorem kept_sendRREP (h : this.WellFormed) {rrep : Rrep Addr} {destAddr : Addr} {timeToLive : ℕ}
    (heq : this.sendRREP rules rrep destAddr timeToLive = .ok after) : KeptAll this after := by
  unfold sendRREP at heq
  split at heq
  · cases heq
  · obtain ⟨mid, hmid, heq⟩ := Error.exists_of_bind_eq_ok heq
    have hkept := kept_addPrecursor h hmid
    exact hkept.trans (kept_sendAODVPacket hkept.wellFormed heq)

theorem kept_createRREPAtIntermediate (h : this.WellFormed) {rreq : Rreq Addr} {rrep : Rrep Addr}
    {destRoute originatorRoute : ℕ} {lastHopAddr : Addr}
    (heq : this.createRREPAtIntermediate rreq destRoute originatorRoute lastHopAddr simTime =
      .ok (rrep, after)) : KeptAll this after := by
  obtain ⟨_, -, heq⟩ := Error.exists_of_bind_eq_ok heq
  obtain ⟨_, -, heq⟩ := Error.exists_of_bind_eq_ok heq
  obtain ⟨mid, hmid, heq⟩ := Error.exists_of_bind_eq_ok heq
  have hkept := kept_addPrecursor h hmid
  obtain ⟨last, hlast, heq⟩ := Error.exists_of_bind_eq_ok heq
  cases heq
  exact hkept.trans (kept_addPrecursor hkept.wellFormed hlast)

theorem kept_addPrecursorToNextHop (h : this.WellFormed) {precursorAddr : Addr}
    (heq : this.addPrecursorToNextHop rules p precursorAddr = .ok after) : KeptAll this after := by
  unfold addPrecursorToNextHop at heq
  split at heq
  · exact kept_addPrecursor h heq
  · cases heq
    exact Kept.refl h

theorem kept_forwardToOriginator (h : this.WellFormed) {rrep : Rrep Addr}
    {destRoute originatorRoute : ℕ}
    (heq : this.forwardToOriginator rules parameters rrep sourceAddr destRoute originatorRoute
      simTime = .ok after) : KeptAll this after := by
  obtain ⟨data, hdata, heq⟩ := Error.exists_of_bind_eq_ok heq
  have hlife : KeptAll this (this.setRouteData originatorRoute { data with
      lifeTime := max (simTime + parameters.activeRouteTimeout) data.lifeTime }) :=
    kept_setRouteData h (getRouteData_eq_ok hdata) rfl rfl rfl
  dsimp only at heq
  split_ifs at heq with hreboot
  · obtain ⟨acked, hacked, heq⟩ := Error.exists_of_bind_eq_ok heq
    have hkept := hlife.trans (kept_acknowledge hlife.wellFormed hacked)
    obtain ⟨first, hfirst, heq⟩ := Error.exists_of_bind_eq_ok heq
    have hkept := hkept.trans (kept_addPrecursor hkept.wellFormed hfirst)
    obtain ⟨second, hsecond, heq⟩ := Error.exists_of_bind_eq_ok heq
    have hkept := hkept.trans (kept_addPrecursorToNextHop hkept.wellFormed hsecond)
    exact hkept.trans (kept_sendAODVPacket hkept.wellFormed heq)
  · cases heq
    exact hlife

theorem kept_replyForDestination (h : this.WellFormed) {rreq : Rreq Addr}
    {destRoute reverseRoute : ℕ}
    (heq : this.replyForDestination rules rreq sourceAddr destRoute reverseRoute simTime =
      .ok after) : KeptAll this after := by
  obtain ⟨⟨rrep, first⟩, hfirst, heq⟩ := Error.exists_of_bind_eq_ok heq
  have hkept := kept_createRREPAtIntermediate h hfirst
  obtain ⟨second, hsecond, heq⟩ := Error.exists_of_bind_eq_ok heq
  have hkept := hkept.trans (kept_sendRREP hkept.wellFormed hsecond)
  split_ifs at heq
  · obtain ⟨grrep, -, heq⟩ := Error.exists_of_bind_eq_ok heq
    exact hkept.trans (kept_sendGRREP hkept.wellFormed heq)
  · cases heq
    exact hkept

theorem kept_replyOrForward (h : this.WellFormed) {rreq : Rreq Addr} {reverseRoute timeToLive : ℕ}
    (heq : this.replyOrForward rules parameters rreq sourceAddr reverseRoute timeToLive simTime =
      .ok after) : KeptAll this after := by
  unfold replyOrForward at heq
  dsimp only at heq
  by_cases hself : rreq.destAddr = this.selfIPAddress
  · rw [if_pos hself] at heq
    have hcount : KeptAll this (this.createRREPAtDestination parameters rreq).2 :=
      kept_of_eq h rfl rfl rfl rfl
    exact hcount.trans (kept_sendRREP hcount.wellFormed heq)
  · rw [if_neg hself] at heq
    split at heq
    · split_ifs at heq
      · cases heq
        exact Kept.refl h
      · exact kept_forwardRREQ h heq
      · exact kept_replyForDestination h heq
      · exact kept_forwardRREQ h heq
    · exact kept_forwardRREQ h heq

theorem completeDiscovery_eq_ok {rrep : Rrep Addr} {newHopCount : BitVec 32}
    (heq : this.completeDiscovery rules rrep sourceAddr newHopCount p simTime = .ok after) :
    ∃ mid, this.updateRoutingTable rules p sourceAddr newHopCount true rrep.destSeqNum true
      (simTime + rrep.lifeTime) = .ok mid ∧ (mid.WellFormed → KeptAll mid after) := by
  obtain ⟨mid, hmid, heq⟩ := Error.exists_of_bind_eq_ok heq
  refine ⟨mid, hmid, fun hwf => ?_⟩
  obtain ⟨first, hfirst, heq⟩ := Error.exists_of_bind_eq_ok heq
  have hkept : KeptAll mid first := by
    obtain ⟨_, -, hfirst⟩ := Error.exists_of_bind_eq_ok hfirst
    cases hfirst
    exact kept_of_eq hwf rfl rfl rfl rfl
  split_ifs at heq
  · obtain ⟨second, hsecond, heq⟩ := Error.exists_of_bind_eq_ok heq
    have hkept := hkept.trans (kept_ensureDefaultGatewayRoute hkept.wellFormed hsecond)
    exact hkept.trans (kept_updateGatewayRoute hkept.wellFormed heq)
  · cases heq
    exact hkept

end Precursors

end Inet.Aodv
