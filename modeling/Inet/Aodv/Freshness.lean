import Inet.Aodv.Frames

/-! # Fresh routes

An active route with a valid sequence number is replaced only by a newer one,
or by a shorter one of the same age, if no message comes from a neighbour with
such a route and the comparisons of the handlers agree with the age.
-/

namespace Inet.Aodv

variable {Addr : Type} {rules : RoutingTableRules Addr} {parameters : Parameters}
  {this mid after : Aodv Addr} {p q : ℕ} {sourceAddr : Addr} {simTime : ℤ}

/-- An active host route of this module with a valid sequence number. -/
def Fresh (rules : RoutingTableRules Addr) (r : Route Addr) : Prop :=
  r.own = true ∧ r.prefixLength = rules.maxPrefixLength ∧
    ∃ data ∈ r.protocolData, data.active = true ∧ data.validDestNum = true

/-- The first number is newer, by the sign of the difference of 32 bits. -/
def Newer (seqNum seqNum' : BitVec 32) : Prop := 0 < (seqNum - seqNum').toInt

instance {seqNum seqNum' : BitVec 32} : Decidable (Newer seqNum seqNum') :=
  inferInstanceAs (Decidable (0 < (seqNum - seqNum').toInt))

/-- What may become of a fresh route: it keeps a valid number that is not older, and another next
hop comes with a newer number or with the same number and fewer hops. -/
def Succeeds (r r' : Route Addr) : Prop :=
  r'.own = r.own ∧ r'.destination = r.destination ∧ r'.prefixLength = r.prefixLength ∧
    ∃ data ∈ r.protocolData, ∃ data' ∈ r'.protocolData, data'.validDestNum = true ∧
      0 ≤ (data'.destSeqNum - data.destSeqNum).toInt ∧
      (r'.nextHop ≠ r.nextHop → Newer data'.destSeqNum data.destSeqNum ∨
        data'.destSeqNum = data.destSeqNum ∧ r'.metric < r.metric)

/-- Every fresh route is succeeded in the table. -/
def KeepsFresh (rules : RoutingTableRules Addr) (this after : Aodv Addr) : Prop :=
  ∀ p ∈ this.routes, Fresh rules (this.route p) →
    p ∈ after.routes ∧ Succeeds (this.route p) (after.route p)

/-- A route by way of the neighbour with the number and hop count is no step back. -/
def Offers (r : Route Addr) (nextHop : Addr) (hopCount seqNum : BitVec 32) : Prop :=
  ∀ data ∈ r.protocolData, Newer seqNum data.destSeqNum ∨
    seqNum = data.destSeqNum ∧ (r.nextHop = nextHop ∨ hopCount < r.metric)

theorem Fresh.prefixLength_ne_zero {r : Route Addr} (h : Fresh rules r) : r.prefixLength ≠ 0 := by
  rw [h.2.1]
  exact rules.maxPrefixLength_ne_zero

theorem Same.succeeds {r r' : Route Addr} (h : Same r r') (hr : Fresh rules r) : Succeeds r r' := by
  obtain ⟨-, -, data, hdata, -, hvalid⟩ := hr
  obtain ⟨data', hdata', -, hvalid', hseq⟩ := h.data data hdata
  refine ⟨h.own, h.destination, h.prefixLength, data, hdata, data', hdata', hvalid'.trans hvalid,
    ?_, fun hne => absurd h.nextHop hne⟩
  rw [hseq, BitVec.sub_self]
  exact Int.le_refl 0

/-- A route that has been updated to what a message offers. -/
structure UpdatedTo (nextHop : Addr) (hopCount seqNum : BitVec 32) (r r' : Route Addr) : Prop where
  own : r'.own = r.own
  destination : r'.destination = r.destination
  prefixLength : r'.prefixLength = r.prefixLength
  nextHop : r'.nextHop = nextHop
  metric : r'.metric = hopCount
  data : ∃ data ∈ r'.protocolData, data.active = true ∧ data.validDestNum = true ∧
    data.destSeqNum = seqNum

variable {nextHop : Addr} {hopCount seqNum : BitVec 32} {r r' r'' : Route Addr}

theorem UpdatedTo.succeeds (h : UpdatedTo nextHop hopCount seqNum r r') (hr : Fresh rules r)
    (hoffers : Offers r nextHop hopCount seqNum) : Succeeds r r' := by
  obtain ⟨-, -, data, hdata, -, -⟩ := hr
  obtain ⟨data', hdata', -, hvalid, hseq⟩ := h.data
  refine ⟨h.own, h.destination, h.prefixLength, data, hdata, data', hdata', hvalid, ?_, ?_⟩
  · rw [hseq]
    rcases hoffers data hdata with hnewer | ⟨heq, -⟩
    · exact Int.le_of_lt hnewer
    · rw [heq, BitVec.sub_self]
      exact Int.le_refl 0
  · intro hne
    rw [hseq, h.metric]
    refine (hoffers data hdata).imp_right fun ⟨heq, hhop⟩ => ⟨heq, hhop.resolve_left fun h' => ?_⟩
    exact hne (h.nextHop.trans h'.symm)

theorem UpdatedTo.same (h : UpdatedTo nextHop hopCount seqNum r r') (h' : Same r' r'') :
    UpdatedTo nextHop hopCount seqNum r r'' := by
  obtain ⟨data, hdata, hactive, hvalid, hseq⟩ := h.data
  obtain ⟨data', hdata', hactive', hvalid', hseq'⟩ := h'.data data hdata
  exact ⟨h'.own.trans h.own, h'.destination.trans h.destination,
    h'.prefixLength.trans h.prefixLength, h'.nextHop.trans h.nextHop, h'.metric.trans h.metric,
    data', hdata', hactive'.trans hactive, hvalid'.trans hvalid, hseq'.trans hseq⟩

theorem Same.updatedTo (h : Same r r') (h' : UpdatedTo nextHop hopCount seqNum r' r'') :
    UpdatedTo nextHop hopCount seqNum r r'' :=
  ⟨h'.own.trans h.own, h'.destination.trans h.destination, h'.prefixLength.trans h.prefixLength,
    h'.nextHop, h'.metric, h'.data⟩

theorem UpdatedTo.trans {nextHop' : Addr} {hopCount' seqNum' : BitVec 32}
    (h : UpdatedTo nextHop' hopCount' seqNum' r r')
    (h' : UpdatedTo nextHop hopCount seqNum r' r'') : UpdatedTo nextHop hopCount seqNum r r'' :=
  ⟨h'.own.trans h.own, h'.destination.trans h.destination, h'.prefixLength.trans h.prefixLength,
    h'.nextHop, h'.metric, h'.data⟩

/-- The host routes stay as they are, or are updated under a condition. -/
structure Carries (nextHop : Addr) (hopCount seqNum : BitVec 32) (condition : ℕ → Prop)
    (this after : Aodv Addr) : Prop where
  wellFormed : after.WellFormed
  carried : ∀ p ∈ this.routes, (this.route p).prefixLength ≠ 0 → p ∈ after.routes ∧
    (Same (this.route p) (after.route p) ∨
      UpdatedTo nextHop hopCount seqNum (this.route p) (after.route p) ∧ condition p)

variable {condition condition' : ℕ → Prop}

theorem KeptAll.carries (h : KeptAll this after) :
    Carries nextHop hopCount seqNum condition this after :=
  ⟨h.wellFormed, fun p hp hne => (h.kept p hp hne not_false).imp_right Or.inl⟩

theorem Carries.mono (h : Carries nextHop hopCount seqNum condition this after)
    (hle : ∀ p, condition p → condition' p) :
    Carries nextHop hopCount seqNum condition' this after :=
  ⟨h.wellFormed, fun p hp hne =>
    (h.carried p hp hne).imp_right fun h => h.imp_right fun h => h.imp_right (hle p)⟩

theorem Carries.trans (h : Carries nextHop hopCount seqNum condition this mid)
    (h' : Carries nextHop hopCount seqNum condition mid after) :
    Carries nextHop hopCount seqNum condition this after := by
  refine ⟨h'.wellFormed, fun p hp hne => ?_⟩
  obtain ⟨hmid, hfirst⟩ := h.carried p hp hne
  have hplen : (mid.route p).prefixLength = (this.route p).prefixLength :=
    hfirst.elim (fun hsame => hsame.prefixLength) fun hupdated => hupdated.1.prefixLength
  obtain ⟨hafter, hsecond⟩ := h'.carried p hmid (hplen ▸ hne)
  refine ⟨hafter, ?_⟩
  rcases hfirst with hsame | ⟨hupdated, hcondition⟩ <;>
    rcases hsecond with hsame' | ⟨hupdated', hcondition'⟩
  · exact Or.inl (hsame.trans hsame')
  · exact Or.inr ⟨hsame.updatedTo hupdated', hcondition'⟩
  · exact Or.inr ⟨hupdated.same hsame', hcondition⟩
  · exact Or.inr ⟨hupdated.trans hupdated', hcondition⟩

theorem carries_updateRoutingTable (h : this.WellFormed) {lifeTime : ℤ}
    (heq : this.updateRoutingTable rules p nextHop hopCount true seqNum true lifeTime = .ok after) :
    UpdatedTo nextHop hopCount seqNum (this.route p) (after.route p) ∧
      Carries nextHop hopCount seqNum (fun q => q = p) this after := by
  obtain ⟨precursorList, hreplaced⟩ := replaced_updateRoutingTable heq
  have hupdated : UpdatedTo nextHop hopCount seqNum (this.route p) (after.route p) := by
    rw [hreplaced.route]
    exact ⟨rfl, rfl, rfl, rfl, rfl, _, rfl, rfl, rfl, rfl⟩
  have hkept : Kept (fun q => q = p) this after :=
    hreplaced.kept h rfl fun hne _ => absurd rfl hne
  refine ⟨hupdated, hkept.wellFormed, fun q hq hne => ?_⟩
  by_cases hqp : q = p
  · subst hqp
    exact ⟨hreplaced.mem q hq hne, Or.inr ⟨hupdated, rfl⟩⟩
  · exact (hkept.kept q hq hne hqp).imp_right Or.inl

end Inet.Aodv
