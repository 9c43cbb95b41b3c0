import Inet.Aodv.Updates

/-! # Runs of route requests and route replies

In a run whose messages meet a condition, no message replaces a fresh route by
a stale one. A neighbour with a fresh route breaks it by any request: the route
to the previous hop is written without a valid number.
-/

namespace Inet.Aodv

variable {Addr : Type} {rules : RoutingTableRules Addr} {parameters : Parameters}
  {this mid after : Aodv Addr} {p : ℕ} {sourceAddr : Addr} {simTime : ℤ} {rrep : Rrep Addr}
  {rreq : Rreq Addr}

theorem Invalidated.updatedTo {r r' r'' : Route Addr} {nextHop : Addr} {hopCount seqNum : BitVec 32}
    (h : Invalidated r r') (h' : UpdatedTo nextHop hopCount seqNum r' r'') :
    UpdatedTo nextHop hopCount seqNum r r'' :=
  ⟨h'.own.trans h.own, h'.destination.trans h.destination, h'.prefixLength.trans h.prefixLength,
    h'.nextHop, h'.metric, h'.data⟩

theorem offers_of_replyIsBetter {newHopCount : BitVec 32}
    (hsame : Same (this.route p) (mid.route p)) (hfresh : Fresh rules (this.route p))
    (hbetter : mid.ReplyIsBetter rrep newHopCount p) :
    (∃ data ∈ (this.route p).protocolData, data.destSeqNum < rrep.destSeqNum) ∨
      Offers (this.route p) sourceAddr newHopCount rrep.destSeqNum := by
  obtain ⟨-, -, data, hdata, hactive, hvalid⟩ := hfresh
  obtain ⟨data', hdata', hactive', hvalid', hseq⟩ := hsame.data data hdata
  obtain ⟨data'', hdata'', hcases⟩ := hbetter
  cases hdata'.symm.trans hdata''
  rw [hactive', hvalid', hactive, hvalid, hseq, hsame.metric] at hcases
  rcases hcases with hfalse | hless | ⟨-, hfalse⟩ | ⟨hequal, hless⟩
  · cases hfalse
  · exact Or.inl ⟨data, hdata, hless⟩
  · cases hfalse
  · refine Or.inr fun data₁ hdata₁ => Or.inr ⟨?_, Or.inr hless⟩
    cases hdata.symm.trans hdata₁
    exact hequal

theorem requestIsBetter_of_same {hopCount : BitVec 32}
    (hsame : Same (this.route p) (mid.route p)) (hfresh : Fresh rules (this.route p))
    (hbetter : mid.RequestIsBetter rreq hopCount p) : this.RequestIsBetter rreq hopCount p := by
  obtain ⟨-, -, data, hdata, -, -⟩ := hfresh
  obtain ⟨data', hdata', -, -, hseq⟩ := hsame.data data hdata
  obtain ⟨data'', hdata'', hcases⟩ := hbetter
  cases hdata'.symm.trans hdata''
  rw [hseq, hsame.metric] at hcases
  exact ⟨data, hdata, hcases⟩

/-- A node that has just started, with an empty routing table. -/
def start (rules : RoutingTableRules Addr) (selfIPAddress : Addr) : Aodv Addr where
  selfIPAddress := selfIPAddress
  interface := 0
  sequenceNum := 0
  waitForRREPTimers := []
  rreqsArrivalTime := []
  blacklist := []
  rebootTime := 0
  gatewayAddress := rules.unspecifiedAddress
  defaultGatewayRoute := none
  route _ := ⟨rules.unspecifiedAddress, 0, rules.unspecifiedAddress, 0, 255, none, false, none⟩
  routes := []
  newRoute := 0
  sent := []

theorem wellFormed_start {selfIPAddress : Addr} : (start rules selfIPAddress).WellFormed :=
  ⟨nofun, nofun⟩

/-! Replies. -/

variable [DecidableEq Addr]

/-- A reply is from a neighbour without a fresh route, or it is about this neighbour and no step
back; and where the number is larger or a discovery completes, it is no step back for a fresh route
to its destination. -/
structure SafeReply (rules : RoutingTableRules Addr) (this : Aodv Addr) (rrep : Rrep Addr)
    (sourceAddr : Addr) : Prop where
  previousHop : ∀ p, this.findOwnRoute rules sourceAddr = some p → Fresh rules (this.route p) →
    rrep.destAddr = sourceAddr ∧ OnlyHostRoute rules this p sourceAddr ∧
      Offers (this.route p) sourceAddr (rrep.hopCount + 1) rrep.destSeqNum
  destination : ∀ p ∈ this.routes, Fresh rules (this.route p) →
    rules.matches rrep.destAddr (this.route p) = true →
      (∃ data ∈ (this.route p).protocolData, data.destSeqNum < rrep.destSeqNum) ∨
        this.selfIPAddress = rrep.originatorAddr ∧
          this.hasOngoingRouteDiscovery rrep.destAddr = true →
      Offers (this.route p) sourceAddr (rrep.hopCount + 1) rrep.destSeqNum

theorem carries_afterForwardRoute (h : this.WellFormed) {destRoute : ℕ} {newHopCount : BitVec 32}
    (heq : (if this.selfIPAddress ≠ rrep.originatorAddr then
        match this.findOwnRoute rules rrep.originatorAddr with
        | some originatorRoute => this.forwardToOriginator rules parameters
            { rrep with hopCount := newHopCount } sourceAddr destRoute originatorRoute simTime
        | none => return this
      else if this.hasOngoingRouteDiscovery rrep.destAddr then
        this.completeDiscovery rules { rrep with hopCount := newHopCount } sourceAddr newHopCount
          destRoute simTime
      else return this) = .ok after) :
    Carries sourceAddr newHopCount rrep.destSeqNum (fun p => p = destRoute ∧
      this.selfIPAddress = rrep.originatorAddr ∧
        this.hasOngoingRouteDiscovery rrep.destAddr = true) this after := by
  split_ifs at heq with hself hongoing
  · split at heq
    · exact (kept_forwardToOriginator h heq).carries
    · cases heq
      exact KeptAll.carries (Kept.refl h)
  · obtain ⟨mid, hmid, hrest⟩ := completeDiscovery_eq_ok heq
    obtain ⟨-, hcarries⟩ := carries_updateRoutingTable h hmid
    refine (hcarries.mono ?_).trans (hrest hcarries.wellFormed).carries
    rintro q rfl
    exact ⟨rfl, of_not_not hself, hongoing⟩
  · cases heq
    exact KeptAll.carries (Kept.refl h)

theorem keepsFresh_handleRREP (h : this.WellFormed) (hsafe : SafeReply rules this rrep sourceAddr)
    (heq : this.handleRREP rules parameters rrep sourceAddr simTime = .ok after) :
    after.WellFormed ∧ KeepsFresh rules this after := by
  obtain ⟨mid, hmid, heq⟩ := Error.exists_of_bind_eq_ok heq
  obtain ⟨⟨destRoute, forwarded⟩, hforwarded, heq⟩ := Error.exists_of_bind_eq_ok heq
  have hprevious := previousHopUpdated h hmid
  have hwf := hprevious.kept.wellFormed
  obtain ⟨hforward, hdest⟩ := carries_updateForwardRoute hwf hforwarded
  obtain ⟨hself, htimers⟩ := updateForwardRoute_frame hwf hforwarded
  have hrest := carries_afterForwardRoute hforward.wellFormed heq
  refine ⟨hrest.wellFormed, fun p hp hfresh => ?_⟩
  by_cases hfound : this.findOwnRoute rules sourceAddr = some p
  · -- The reply is about the neighbour, and gives its route a valid number again.
    obtain ⟨hdestAddr, honly, hoffers⟩ := hsafe.previousHop p hfound hfresh
    have hlookup := hprevious.found p hfound hfresh.2.1 honly
    rw [← hdestAddr] at hlookup
    have hinvalidated := hprevious.invalidated p hfound
    have hupdated := updatedTo_updateForwardRoute hwf hforwarded hlookup hinvalidated.data
    have hne : (mid.route p).prefixLength ≠ 0 :=
      hinvalidated.prefixLength ▸ hfresh.prefixLength_ne_zero
    obtain ⟨hmem, -⟩ := hforward.carried p (mem_of_findOwnRoute hlookup) hne
    obtain ⟨hmem', hlast⟩ := hrest.carried p hmem (hupdated.prefixLength ▸ hne)
    refine ⟨hmem', UpdatedTo.succeeds (hinvalidated.updatedTo ?_) hfresh hoffers⟩
    rcases hlast with hsame | ⟨hupdated', -⟩
    · exact hupdated.same hsame
    · exact hupdated.trans hupdated'
  · obtain ⟨hmem, hsame⟩ := hprevious.kept.kept p hp hfresh.prefixLength_ne_zero hfound
    have hcarries := (hforward.mono fun q hq => Or.inl hq).trans
      (hrest.mono fun q hq => Or.inr hq)
    obtain ⟨hmem', hfate⟩ :=
      hcarries.carried p hmem (hsame.prefixLength ▸ hfresh.prefixLength_ne_zero)
    refine ⟨hmem', ?_⟩
    rcases hfate with hsame' | ⟨hupdated, hcondition⟩
    · exact (hsame.trans hsame').succeeds hfresh
    · refine UpdatedTo.succeeds (hsame.updatedTo hupdated) hfresh ?_
      have hmatches (hlookup : mid.findOwnRoute rules rrep.destAddr = some p) :
          rules.matches rrep.destAddr (this.route p) = true := by
        rw [← rules.matches_congr _ hsame.destination hsame.prefixLength]
        exact matches_of_findOwnRoute hlookup
      rcases hcondition with ⟨hlookup, hbetter⟩ | ⟨rfl, horiginator, hongoing⟩
      · rcases offers_of_replyIsBetter hsame hfresh hbetter with hless | hoffers
        · exact hsafe.destination p hp hfresh (hmatches hlookup) (Or.inl hless)
        · exact hoffers
      · rcases hdest with hlookup | hnew
        · refine hsafe.destination p hp hfresh (hmatches hlookup) (Or.inr ⟨?_, ?_⟩)
          · rw [← hprevious.selfIPAddress, ← hself]
            exact horiginator
          · rw [hasOngoingRouteDiscovery, ← hprevious.waitForRREPTimers, ← htimers]
            exact hongoing
        · exact absurd hnew (hwf.lt p hmem).ne

/-! Requests. -/

/-- A request that is not dropped is from a neighbour without a fresh route; and where the code
finds it better, it is no step back for a fresh route to its originator. -/
structure SafeRequest (rules : RoutingTableRules Addr) (parameters : Parameters) (this : Aodv Addr)
    (rreq : Rreq Addr) (sourceAddr : Addr) (simTime : ℤ) : Prop where
  previousHop : ∀ p, this.findOwnRoute rules sourceAddr = some p → ¬ Fresh rules (this.route p)
  originator : this.isKnownRREQ parameters rreq simTime = false →
    ∀ p ∈ this.routes, Fresh rules (this.route p) →
      rules.matches rreq.originatorAddr (this.route p) = true →
        this.RequestIsBetter rreq (rreq.hopCount + 1) p →
          Offers (this.route p) sourceAddr (rreq.hopCount + 1) rreq.originatorSeqNum

theorem keepsFresh_handleRREQ (h : this.WellFormed) (hflag : rreq.unknownSeqNumFlag = false)
    {timeToLive : ℕ}
    (hsafe : this.blacklist.contains sourceAddr = false →
      SafeRequest rules parameters this rreq sourceAddr simTime)
    (heq : this.handleRREQ rules parameters rreq sourceAddr timeToLive simTime = .ok after) :
    after.WellFormed ∧ KeepsFresh rules this after := by
  unfold handleRREQ at heq
  split_ifs at heq with hblacklist
  · cases heq
    exact ⟨h, fun p hp hfresh => ⟨hp, (Same.refl _).succeeds hfresh⟩⟩
  · have hsafe := hsafe (by simpa using hblacklist)
    obtain ⟨mid, hmid, heq⟩ := Error.exists_of_bind_eq_ok heq
    have hprevious := previousHopUpdated h hmid
    have hwf := hprevious.kept.wellFormed
    have hstays (p : ℕ) (hp : p ∈ this.routes) (hfresh : Fresh rules (this.route p)) :
        p ∈ mid.routes ∧ Same (this.route p) (mid.route p) :=
      hprevious.kept.kept p hp hfresh.prefixLength_ne_zero fun hfound =>
        hsafe.previousHop p hfound hfresh
    split_ifs at heq with hknown
    · cases heq
      exact ⟨hwf, fun p hp hfresh =>
        (hstays p hp hfresh).imp_right fun hsame => hsame.succeeds hfresh⟩
    · have harrived : KeptAll mid { mid with rreqsArrivalTime :=
          ((rreq.originatorAddr, rreq.rreqId), simTime) :: mid.rreqsArrivalTime } :=
        kept_of_eq hwf rfl rfl rfl rfl
      obtain ⟨⟨reverseRoute, reversed⟩, hreversed, heq⟩ := Error.exists_of_bind_eq_ok heq
      have hreverse := carries_updateReverseRoute harrived.wellFormed hflag hreversed
      have hrest := kept_replyOrForward hreverse.wellFormed heq
      have hcarries := hreverse.trans hrest.carries
      refine ⟨hcarries.wellFormed, fun p hp hfresh => ?_⟩
      obtain ⟨hmem, hsame⟩ := hstays p hp hfresh
      obtain ⟨hmem', hfate⟩ :=
        hcarries.carried p hmem (hsame.prefixLength ▸ hfresh.prefixLength_ne_zero)
      refine ⟨hmem', ?_⟩
      rcases hfate with hsame' | ⟨hupdated, hlookup, hbetter⟩
      · exact (hsame.trans hsame').succeeds hfresh
      · refine UpdatedTo.succeeds (hsame.updatedTo hupdated) hfresh
          (hsafe.originator ?_ p hp hfresh ?_ (requestIsBetter_of_same hsame hfresh hbetter))
        · rw [Bool.not_eq_true, isKnownRREQ, hprevious.rreqsArrivalTime] at hknown
          exact hknown
        · rw [← rules.matches_congr _ hsame.destination hsame.prefixLength]
          exact matches_of_findOwnRoute hlookup

/-! Runs. -/

/-- A message at the node, with its source and time of arrival. -/
inductive Received (Addr : Type) where
  | rrep (rrep : Rrep Addr) (sourceAddr : Addr) (simTime : ℤ)
  | rreq (rreq : Rreq Addr) (sourceAddr : Addr) (timeToLive : ℕ) (simTime : ℤ)
  deriving DecidableEq

/-- A reply that is no Hello message, or a request with the flag clear. -/
def Received.Admitted (rules : RoutingTableRules Addr) : Received Addr → Prop
  | .rrep rrep _ _ => rrep.originatorAddr ≠ rules.unspecifiedAddress
  | .rreq rreq _ _ _ => rreq.unknownSeqNumFlag = false

def handle (rules : RoutingTableRules Addr) (parameters : Parameters) (this : Aodv Addr) :
    Received Addr → Except Error (Aodv Addr)
  | .rrep rrep sourceAddr simTime => this.handleRREP rules parameters rrep sourceAddr simTime
  | .rreq rreq sourceAddr timeToLive simTime =>
    this.handleRREQ rules parameters rreq sourceAddr timeToLive simTime

def run (rules : RoutingTableRules Addr) (parameters : Parameters) (this : Aodv Addr)
    (received : List (Received Addr)) : Except Error (Aodv Addr) :=
  received.foldlM (handle rules parameters) this

def Safe (rules : RoutingTableRules Addr) (parameters : Parameters) (this : Aodv Addr) :
    Received Addr → Prop
  | .rrep rrep sourceAddr _ => SafeReply rules this rrep sourceAddr
  | .rreq rreq sourceAddr _ simTime => this.blacklist.contains sourceAddr = false →
    SafeRequest rules parameters this rreq sourceAddr simTime

theorem keepsFresh_handle {message : Received Addr} (h : this.WellFormed)
    (hadmitted : message.Admitted rules) (hsafe : this.Safe rules parameters message)
    (heq : this.handle rules parameters message = .ok after) :
    after.WellFormed ∧ KeepsFresh rules this after := by
  cases message with
  | rrep rrep sourceAddr simTime => exact keepsFresh_handleRREP h hsafe heq
  | rreq rreq sourceAddr timeToLive simTime => exact keepsFresh_handleRREQ h hadmitted hsafe heq

/-- The messages of a run each meet the condition in the state in which they arrive. -/
def SafeRun (rules : RoutingTableRules Addr) (parameters : Parameters) (this : Aodv Addr) :
    List (Received Addr) → Prop
  | [] => True
  | message :: received => this.Safe rules parameters message ∧
    ∀ after, this.handle rules parameters message = .ok after →
      after.SafeRun rules parameters received

/-- No message of a safe run replaces a fresh route by a stale one. -/
theorem keepsFresh_of_safeRun (h : this.WellFormed) (earlier : List (Received Addr))
    (message : Received Addr) (later : List (Received Addr))
    (hadmitted : ∀ m ∈ earlier ++ message :: later, m.Admitted rules)
    (hsafe : this.SafeRun rules parameters (earlier ++ message :: later))
    (hmid : this.run rules parameters earlier = .ok mid)
    (hafter : mid.handle rules parameters message = .ok after) : KeepsFresh rules mid after := by
  induction earlier generalizing this with
  | nil =>
    cases hmid
    exact (keepsFresh_handle h (hadmitted message List.mem_cons_self) hsafe.1 hafter).2
  | cons first earlier ih =>
    obtain ⟨next, hnext, hmid⟩ := Error.exists_of_bind_eq_ok hmid
    have hwf := (keepsFresh_handle h (hadmitted first List.mem_cons_self) hsafe.1 hnext).1
    exact ih hwf (fun m hm => hadmitted m (List.mem_cons_of_mem _ hm)) (hsafe.2 next hnext) hmid

/-- A reply from another neighbour with a newer number. -/
theorem keepsFresh_newerReply : ∃ mid after : Aodv (BitVec 32),
    (start (Ipv4.rules false) 0x0A000001#32).run (Ipv4.rules false) ⟨3, 1, 1, 1, 1, 1⟩
        [.rrep ⟨false, 2, 0x0A000008#32, 5, 0x0A000009#32, 1⟩ 0x0A000002#32 1] = .ok mid ∧
      mid.handle (Ipv4.rules false) ⟨3, 1, 1, 1, 1, 1⟩
        (.rrep ⟨false, 3, 0x0A000008#32, 6, 0x0A000009#32, 1⟩ 0x0A000003#32 2) = .ok after ∧
      Fresh (Ipv4.rules false) (mid.route 1) ∧ KeepsFresh (Ipv4.rules false) mid after := by
  have hkeeps {mid after : Aodv (BitVec 32)} := @keepsFresh_of_safeRun _ (Ipv4.rules false)
    ⟨3, 1, 1, 1, 1, 1⟩ (start (Ipv4.rules false) 0x0A000001#32) mid after _ wellFormed_start
    [.rrep ⟨false, 2, 0x0A000008#32, 5, 0x0A000009#32, 1⟩ 0x0A000002#32 1]
    (.rrep ⟨false, 3, 0x0A000008#32, 6, 0x0A000009#32, 1⟩ 0x0A000003#32 2) [] ?_ ?_
  · exact ⟨_, _, rfl, rfl, ⟨rfl, rfl, _, rfl, rfl, rfl⟩, hkeeps rfl rfl⟩
  · intro message hmessage
    rcases List.mem_pair.1 hmessage with rfl | rfl <;>
    · change ¬ (0x0A000009#32 : BitVec 32) = 0
      decide
  · refine ⟨⟨nofun, nofun⟩, ?_⟩
    rintro mid ⟨⟩
    refine ⟨⟨nofun, ?_⟩, fun _ _ => trivial⟩
    rintro p hp ⟨-, -, data, hdata, hactive, hvalid⟩ - - data' hdata'
    cases hdata.symm.trans hdata'
    rcases List.mem_pair.1 hp with rfl | rfl
    · cases hdata
      cases hvalid
    · cases hdata
      exact Or.inl (by decide)

/-- A reply tells the node of a neighbour, a request from the neighbour follows, and its number is
no longer valid. -/
theorem exists_not_keepsFresh :
    ∃ (reply request : Received (BitVec 32)) (mid after : Aodv (BitVec 32)),
    reply.Admitted (Ipv4.rules false) ∧ request.Admitted (Ipv4.rules false) ∧
      (start (Ipv4.rules false) 0x0A000001#32).run (Ipv4.rules false) ⟨3, 1, 1, 1, 1, 1⟩ [reply] =
        .ok mid ∧
      mid.handle (Ipv4.rules false) ⟨3, 1, 1, 1, 1, 1⟩ request = .ok after ∧
        ¬ KeepsFresh (Ipv4.rules false) mid after := by
  refine ⟨.rrep ⟨false, 0, 0x0A000002#32, 5, 0x0A000009#32, 1⟩ 0x0A000002#32 1,
    .rreq ⟨false, false, false, 0, 1, 0x0A000008#32, 0, 0x0A000002#32, 6⟩ 0x0A000002#32 1 2,
    _, _, ?_, rfl, rfl, rfl, fun hkeeps => ?_⟩
  · change ¬ (0x0A000009#32 : BitVec 32) = 0
    decide
  · obtain ⟨-, -, -, -, data, hdata, data', hdata', hvalid, -⟩ :=
      hkeeps 0 (List.mem_singleton.2 rfl) ⟨rfl, rfl, _, rfl, rfl, rfl⟩
    cases hdata'
    cases hvalid

end Inet.Aodv
