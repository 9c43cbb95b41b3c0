import Inet.Ieee8021d.StpRoles
import Inet.Lib.Outcome

/-! # The states of the ports under the spanning tree protocol

A port that loses its role on a BPDU keeps its state until the next tick, where
it is blocked. Seen at the ticks, a port forwards only while it has a role, and
it starts to forward when it has had one for two forward delays.
-/

namespace Inet.Ieee8021d.Stp

open Inet.Ethernet

variable {this s s' t : Stp} {interfaceId id : InterfaceId} {now : ℤ}

/-! Between ticks, the state of a port can only become blocking. -/

structure Blocks (s s' : Stp) : Prop where
  parameters : s'.toStpParameters = s.toStpParameters
  bridgePriority : s'.bridgePriority = s.bridgePriority
  port : ∀ id,
    ((s'.data id).state = (s.data id).state ∧ (s'.data id).fdWhile = (s.data id).fdWhile) ∨
      (s'.data id).state = .blocking

namespace Blocks

theorem refl (s : Stp) : Blocks s s := ⟨rfl, rfl, fun _ => .inl ⟨rfl, rfl⟩⟩

/-- Other fields may change before. -/
theorem after (h : Blocks s' t) (hparameters : s'.toStpParameters = s.toStpParameters)
    (hpriority : s'.bridgePriority = s.bridgePriority) (hdata : s'.data = s.data) : Blocks s t :=
  ⟨h.parameters.trans hparameters, h.bridgePriority.trans hpriority, by
    rw [← hdata]
    exact h.port⟩

/-- Other fields may change afterwards. -/
theorem before (h : Blocks s s') (hparameters : t.toStpParameters = s'.toStpParameters)
    (hpriority : t.bridgePriority = s'.bridgePriority) (hdata : t.data = s'.data) : Blocks s t :=
  ⟨hparameters.trans h.parameters, hpriority.trans h.bridgePriority, by
    rw [hdata]
    exact h.port⟩

theorem trans (h : Blocks s s') (h' : Blocks s' t) : Blocks s t := by
  refine ⟨h'.parameters.trans h.parameters, h'.bridgePriority.trans h.bridgePriority,
    fun id => ?_⟩
  rcases h'.port id with ⟨hstate, hfd⟩ | hstate
  · rcases h.port id with ⟨hstate', hfd'⟩ | hstate'
    · exact .inl ⟨hstate.trans hstate', hfd.trans hfd'⟩
    · exact .inr (hstate.trans hstate')
  · exact .inr hstate

theorem forPorts {body : Stp → InterfaceId → Stp} (h : ∀ s id, Blocks s (body s id)) :
    Blocks this (this.forPorts body) :=
  forPorts_induction (Blocks this) (refl this) fun s id hs => hs.trans (h s id)

theorem foldl {body : Stp → InterfaceId → Stp} (h : ∀ s id, Blocks s (body s id))
    (ids : List InterfaceId) : Blocks this (ids.foldl body this) := by
  induction ids generalizing this with
  | nil => exact refl this
  | cons id ids ih => exact (h this id).trans ih

end Blocks

theorem blocks_update (this : Stp) (interfaceId : InterfaceId) {f : PortInfo → PortInfo}
    (hf : ∀ port, ((f port).state = port.state ∧ (f port).fdWhile = port.fdWhile) ∨
      (f port).state = .blocking) : Blocks this (this.update interfaceId f) := by
  refine ⟨rfl, rfl, fun id => ?_⟩
  by_cases h : id = interfaceId
  · subst h
    rw [update_data_self]
    exact hf _
  · rw [update_data_of_ne h]
    exact .inl ⟨rfl, rfl⟩

theorem blocks_setRole (this : Stp) (id : InterfaceId) (role : PortRole) :
    Blocks this (this.setRole id role) :=
  blocks_update this id fun _ => .inl ⟨rfl, rfl⟩

theorem blocks_generateBpdu (this : Stp) (now : ℤ) (id : InterfaceId) (address : MacAddress)
    (tcFlag tcaFlag : Bool) : Blocks this (this.generateBpdu now id address tcFlag tcaFlag) := by
  unfold generateBpdu
  split
  · exact blocks_update this id fun _ => .inl ⟨rfl, rfl⟩
  · refine (blocks_update _ id fun _ => ?_).after rfl rfl rfl
    exact .inl ⟨rfl, rfl⟩

theorem blocks_setSuperiorBpdu (this : Stp) (id : InterfaceId) (bpdu : BpduCfg) :
    Blocks this (this.setSuperiorBpdu id bpdu) := by
  unfold setSuperiorBpdu
  split
  · exact .refl this
  · exact blocks_update this id fun _ => .inl ⟨rfl, rfl⟩

theorem blocks_isSuperiorBpdu (this : Stp) (id : InterfaceId) (bpdu : BpduCfg) :
    Blocks this (this.isSuperiorBpdu id bpdu).2 := by
  unfold isSuperiorBpdu
  dsimp only
  split_ifs
  · exact .refl this
  · exact (blocks_update this id fun _ => .inr rfl).trans (blocks_setSuperiorBpdu ..)
  · exact blocks_setSuperiorBpdu ..

theorem blocks_setDesignated (this : Stp) (id : InterfaceId) :
    Blocks this (this.setDesignated id) := by
  unfold setDesignated
  split
  · exact .refl this
  · exact (blocks_setRole this id .designated).before rfl rfl rfl

theorem blocks_setAllDesignated (this : Stp) : Blocks this this.setAllDesignated :=
  (Blocks.forPorts blocks_setDesignated : Blocks { this with desPorts := [] } _).after rfl rfl rfl

theorem blocks_selectRootPort (this : Stp) : Blocks this this.selectRootPort := by
  obtain ⟨best, h⟩ := rootSelected_selectRootPort this
  refine ⟨h.parameters, h.bridgePriority, fun id => ?_⟩
  rw [h.data id]
  split_ifs <;> exact .inl ⟨rfl, rfl⟩

theorem blocks_selectDesignatedPorts (this : Stp) : Blocks this this.selectDesignatedPorts := by
  have hs := sameRoot_selectDesignatedPorts this
  refine ⟨hs.parameters, hs.bridgePriority, fun id => ?_⟩
  rw [selectDesignatedPorts_data]
  split_ifs <;> exact .inl ⟨rfl, rfl⟩

theorem blocks_claimRoot (this : Stp) : Blocks this this.claimRoot.setAllDesignated :=
  (blocks_setAllDesignated this.claimRoot).after rfl rfl rfl

theorem blocks_tryRoot (this : Stp) : Blocks this this.tryRoot := by
  unfold tryRoot
  split
  · exact blocks_claimRoot this
  · exact ((blocks_selectRootPort { this with isRoot := false }).trans
      (blocks_selectDesignatedPorts _)).after rfl rfl rfl

theorem blocks_sendDesignated (this : Stp) (now : ℤ) (tcFlag : Bool) :
    Blocks this (this.sendDesignated now tcFlag) :=
  .foldl (fun s id => blocks_generateBpdu s now id _ _ _) _

theorem blocks_initInterfacedata (this : Stp) (id : InterfaceId) :
    Blocks this (this.initInterfacedata id) :=
  blocks_update this id fun _ => .inr rfl

theorem blocks_checkAge (this : Stp) (id : InterfaceId) : Blocks this (this.checkAge id) := by
  unfold checkAge
  dsimp only
  split_ifs
  · exact (blocks_initInterfacedata this id).trans ((blocks_tryRoot _).after rfl rfl rfl)
  · exact (blocks_initInterfacedata this id).trans
      ((blocks_selectDesignatedPorts _).before rfl rfl rfl)
  · exact .refl this

theorem blocks_sendPending (this : Stp) (now : ℤ) : Blocks this (this.sendPending now) := by
  refine .forPorts fun s id => ?_
  dsimp only
  split
  · exact blocks_generateBpdu ..
  · exact .refl s

theorem blocks_generateHelloBpdus (this : Stp) (now : ℤ) :
    Blocks this (this.generateHelloBpdus now) :=
  .forPorts fun s id => blocks_generateBpdu s now id _ _ _

theorem blocks_generateTcn (this : Stp) : Blocks this this.generateTcn := by
  unfold generateTcn
  split_ifs
  · exact (Blocks.refl this).before rfl rfl rfl
  · exact .refl this
  · exact .refl this

theorem checkParametersChange_eq (h : this.bridgePriority = this.configuredBridgePriority) :
    this.checkParametersChange =
      if this.isRoot then
        { this with
          helloInterval := this.configuredHelloInterval
          maxAge := this.configuredMaxAge
          forwardDelay := this.configuredForwardDelay }
      else this := by
  unfold checkParametersChange
  dsimp only
  split_ifs <;> first | rfl | contradiction

theorem blocks_checkParametersChange (h : this.bridgePriority = this.configuredBridgePriority) :
    Blocks this this.checkParametersChange := by
  rw [checkParametersChange_eq h]
  split
  · exact (Blocks.refl this).before rfl rfl rfl
  · exact .refl this

theorem blocks_acknowledge (this : Stp) (bpdu : BpduCfg) : Blocks this (this.acknowledge bpdu) := by
  unfold acknowledge
  split
  · exact (Blocks.refl this).before rfl rfl rfl
  · exact .refl this

theorem blocks_respond (this : Stp) (now : ℤ) (id : InterfaceId) (bpdu : BpduCfg)
    (superior : Bool) : Blocks this (this.respond now id bpdu superior) := by
  unfold respond
  split_ifs
  · exact blocks_generateBpdu ..
  · exact .refl this
  · exact (blocks_sendDesignated (this.setAgingTime _) _ _).after rfl rfl rfl
  · exact (blocks_sendDesignated (this.setAgingTime _) _ _).after rfl rfl rfl
  · exact .refl this

theorem blocks_handleBpdu {bpdu : BpduCfg}
    (h : this.handleBpdu now interfaceId bpdu = .ok s) : Blocks this s := by
  obtain ⟨u, -, h⟩ := Error.exists_of_bind_eq_ok h
  cases h
  exact (blocks_acknowledge this bpdu).trans ((blocks_isSuperiorBpdu _ interfaceId bpdu).trans
    ((blocks_respond _ _ _ _ _).trans (blocks_tryRoot _)))

theorem blocks_handleTcn {srcAddress : MacAddress}
    (h : this.handleTcn now interfaceId srcAddress = .ok s) : Blocks this s := by
  obtain ⟨u, -, h⟩ := Error.exists_of_bind_eq_ok h
  cases h
  exact (blocks_generateBpdu _ _ _ _ _ _).after rfl rfl rfl

/-! The roles between two elections. -/

structure SameRoles (s s' : Stp) : Prop extends SameRoot s s' where
  role : ∀ id, (s'.data id).role = (s.data id).role

namespace SameRoles

theorem refl (s : Stp) : SameRoles s s := ⟨.refl s, fun _ => rfl⟩

theorem trans (h : SameRoles s s') (h' : SameRoles s' t) : SameRoles s t :=
  ⟨h.toSameRoot.trans h'.toSameRoot, fun id => (h'.role id).trans (h.role id)⟩

theorem forPorts {body : Stp → InterfaceId → Stp} (h : ∀ s id, SameRoles s (body s id)) :
    SameRoles this (this.forPorts body) :=
  forPorts_induction (SameRoles this) (refl this) fun s id hs => hs.trans (h s id)

end SameRoles

theorem sameRoles_update (this : Stp) (interfaceId : InterfaceId) {f : PortInfo → PortInfo}
    (hf : ∀ port, (f port).role = port.role) : SameRoles this (this.update interfaceId f) := by
  refine ⟨sameRoot_update this interfaceId f, fun id => ?_⟩
  by_cases h : id = interfaceId
  · subst h
    rw [update_data_self, hf]
  · rw [update_data_of_ne h]

theorem sameRoles_generateBpdu (this : Stp) (now : ℤ) (id : InterfaceId) (address : MacAddress)
    (tcFlag tcaFlag : Bool) : SameRoles this (this.generateBpdu now id address tcFlag tcaFlag) := by
  unfold generateBpdu
  split
  · exact sameRoles_update this id fun _ => rfl
  · have hsent : ∀ packet, SameRoles this (this.sendOut packet id address) := fun _ =>
      ⟨⟨rfl, rfl, rfl, rfl, rfl, rfl, rfl, rfl, rfl, rfl⟩, fun _ => rfl⟩
    exact (hsent _).trans (sameRoles_update _ id fun _ => rfl)

theorem sameRoles_sendPending (this : Stp) (now : ℤ) : SameRoles this (this.sendPending now) := by
  refine .forPorts fun s id => ?_
  dsimp only
  split
  · exact sameRoles_generateBpdu ..
  · exact .refl s

theorem sameRoles_generateHelloBpdus (this : Stp) (now : ℤ) :
    SameRoles this (this.generateHelloBpdus now) :=
  .forPorts fun s id => sameRoles_generateBpdu s now id _ _ _

theorem sameRoles_generateTcn (this : Stp) : SameRoles this this.generateTcn := by
  unfold generateTcn
  split_ifs
  · exact ⟨⟨rfl, rfl, rfl, rfl, rfl, rfl, rfl, rfl, rfl, rfl⟩, fun _ => rfl⟩
  · exact .refl this
  · exact .refl this

theorem incrementTimers_role (port : PortInfo) : (incrementTimers port).role = port.role := by
  unfold incrementTimers
  dsimp only
  split_ifs <;> rfl

theorem checkFdWhile_role (forwardDelay : ℤ) (port : PortInfo) :
    (checkFdWhile forwardDelay port).role = port.role := by
  unfold checkFdWhile
  split_ifs
  · rfl
  · split <;> rfl
  · rfl
  · rfl

/-- At most one port is the root port, and none of a root bridge, which has its own parameters. -/
structure Settled (s : Stp) : Prop where
  root_unique : ∀ a ∈ s.ifTable.ids, ∀ b ∈ s.ifTable.ids,
    (s.data a).role = .root → (s.data b).role = .root → a = b
  no_root : s.isRoot → ∀ a ∈ s.ifTable.ids, (s.data a).role ≠ .root
  forwardDelay : s.isRoot → s.forwardDelay = s.configuredForwardDelay

theorem Settled.of_sameRoles (h : Settled s) (hs : SameRoles s s') : Settled s' := by
  have hids := ifTable_eq hs.toSameRoot
  constructor
  · intro a ha b hb
    rw [hids] at ha hb
    rw [hs.role, hs.role]
    exact h.root_unique a ha b hb
  · intro hroot a ha
    rw [hids] at ha
    rw [hs.isRoot] at hroot
    rw [hs.role]
    exact h.no_root hroot a ha
  · intro hroot
    rw [hs.isRoot] at hroot
    rw [hs.forwardDelay, hs.parameters]
    exact h.forwardDelay hroot

theorem setAllDesignated_role (this : Stp) (id : InterfaceId) (hid : id ∈ this.ifTable.ids) :
    (this.setAllDesignated.data id).role =
      if (this.data id).role = .disabled then .disabled else .designated := by
  rw [setAllDesignated_data, if_pos hid]
  split_ifs with h
  · exact h
  · rfl

theorem settled_setAllDesignated (h : this.forwardDelay = this.configuredForwardDelay) :
    Settled this.setAllDesignated := by
  have hroot := sameRoot_setAllDesignated this
  have hids := ifTable_eq hroot
  have hnone : ∀ a ∈ this.ifTable.ids, (this.setAllDesignated.data a).role ≠ .root := by
    intro a ha
    rw [setAllDesignated_role this a ha]
    split_ifs <;> exact nofun
  constructor
  · intro a ha b _ h
    rw [hids] at ha
    exact absurd h (hnone a ha)
  · intro _ a ha
    rw [hids] at ha
    exact hnone a ha
  · intro _
    rw [hroot.forwardDelay, hroot.parameters, h]

theorem selectDesignatedPorts_role_eq_root_iff (this : Stp) (id : InterfaceId) :
    (this.selectDesignatedPorts.data id).role = .root ↔ (this.data id).role = .root := by
  rw [selectDesignatedPorts_data]
  split_ifs with hid hrole hpos
  · rfl
  · exact ⟨nofun, fun h => absurd (.inl h) hrole⟩
  · rfl
  · rfl

theorem Settled.selectDesignatedPorts (h : Settled s) : Settled s.selectDesignatedPorts := by
  have hs := sameRoot_selectDesignatedPorts s
  have hids := ifTable_eq hs
  constructor
  · intro a ha b hb
    rw [hids] at ha hb
    rw [selectDesignatedPorts_role_eq_root_iff, selectDesignatedPorts_role_eq_root_iff]
    exact h.root_unique a ha b hb
  · intro hroot a ha
    rw [hids] at ha
    rw [hs.isRoot] at hroot
    rw [ne_eq, selectDesignatedPorts_role_eq_root_iff]
    exact h.no_root hroot a ha
  · intro hroot
    rw [hs.isRoot] at hroot
    rw [hs.forwardDelay, hs.parameters]
    exact h.forwardDelay hroot

theorem settled_tryRoot (this : Stp) : Settled this.tryRoot := by
  unfold tryRoot
  split
  · exact settled_setAllDesignated rfl
  · obtain ⟨best, h⟩ := rootSelected_selectRootPort { this with isRoot := false }
    apply Settled.selectDesignatedPorts
    have hids : ({ this with isRoot := false } : Stp).selectRootPort.ifTable = this.ifTable :=
      congrArg StpParameters.ifTable h.parameters
    have hrole : ∀ a ∈ this.ifTable.ids,
        (({ this with isRoot := false } : Stp).selectRootPort.data a).role = .root → a = best := by
      intro a ha hrole
      rw [h.data a] at hrole
      by_contra hne
      rw [if_neg hne, if_pos ha] at hrole
      cases hrole
    constructor
    · intro a ha b hb hra hrb
      rw [hids] at ha hb
      rw [hrole a ha hra, hrole b hb hrb]
    · intro hroot
      rw [h.isRoot] at hroot
      cases hroot
    · intro hroot
      rw [h.isRoot] at hroot
      cases hroot

theorem Settled.initInterfacedata (h : Settled s) (id : InterfaceId) :
    Settled (s.initInterfacedata id) := by
  have hrole : ∀ a, ((s.initInterfacedata id).data a).role = .root → (s.data a).role = .root := by
    intro a ha
    unfold Stp.initInterfacedata at ha
    by_cases heq : a = id
    · subst heq
      rw [update_data_self] at ha
      cases ha
    · rwa [update_data_of_ne heq] at ha
  exact ⟨fun a ha b hb hra hrb => h.root_unique a ha b hb (hrole a hra) (hrole b hrb),
    fun hroot a ha hra => h.no_root hroot a ha (hrole a hra), h.forwardDelay⟩

theorem Settled.checkAge (h : Settled s) (id : InterfaceId) : Settled (s.checkAge id) := by
  unfold Stp.checkAge
  dsimp only
  split_ifs
  · exact settled_tryRoot _
  · have hsame : ∀ this : Stp, SameRoles this { this with topologyChangeNotification := true } :=
      fun _ => ⟨⟨rfl, rfl, rfl, rfl, rfl, rfl, rfl, rfl, rfl, rfl⟩, fun _ => rfl⟩
    exact (h.initInterfacedata id).selectDesignatedPorts.of_sameRoles (hsame _)
  · exact h

/-! A tick. -/

def HasRole (port : PortInfo) : Prop := port.role = .root ∨ port.role = .designated

instance (port : PortInfo) : Decidable (HasRole port) := inferInstanceAs (Decidable (_ ∨ _))

theorem checkParametersChange_role
    (hpriority : this.bridgePriority = this.configuredBridgePriority) (id : InterfaceId) :
    (this.checkParametersChange.data id).role = (this.data id).role := by
  rw [checkParametersChange_eq hpriority]
  split <;> rfl

theorem Settled.checkParametersChange_forwardDelay (h : Settled this)
    (hpriority : this.bridgePriority = this.configuredBridgePriority) :
    this.checkParametersChange.forwardDelay = this.forwardDelay := by
  rw [checkParametersChange_eq hpriority]
  split
  next hroot => exact (h.forwardDelay hroot).symm
  · rfl

theorem Settled.checkParametersChange (h : Settled this)
    (hpriority : this.bridgePriority = this.configuredBridgePriority) :
    Settled this.checkParametersChange := by
  rw [checkParametersChange_eq hpriority]
  split
  · exact ⟨h.root_unique, h.no_root, fun _ => rfl⟩
  · exact h

theorem sameRoles_setTimeSinceLastHello (this : Stp) (time : ℤ) :
    SameRoles this { this with timeSinceLastHello := time } :=
  ⟨⟨rfl, rfl, rfl, rfl, rfl, rfl, rfl, rfl, rfl, rfl⟩, fun _ => rfl⟩

/-- The message age and forward timers of all ports at a tick. -/
def incrementAll (this : Stp) : Stp :=
  { this with timeSinceLastHello :=
      if this.isRoot then this.timeSinceLastHello + simTimeOfSeconds 1 else 0 }.forPorts
    fun this interfaceId => this.update interfaceId incrementTimers

/-- What `checkTimers` does before the forward timers are looked at. -/
def checkAges (this : Stp) (now : ℤ) : Stp :=
  (if this.timeSinceLastHello ≥ this.helloInterval then
      { if this.isRoot then this.generateHelloBpdus now else this with timeSinceLastHello := 0 }
    else this).forPorts Stp.checkAge

/-- The forward timers of all ports. -/
def checkForward (this : Stp) : Stp :=
  this.forPorts fun s id => s.update id (checkFdWhile this.forwardDelay)

/-- The bridge in the tick, before the forward timers are looked at. -/
def aged (this : Stp) (now : ℤ) : Stp := (this.incrementAll.sendPending now).checkAges now

theorem handleTick_eq (this : Stp) (now : ℤ) :
    this.handleTick now = (this.aged now).checkForward.checkParametersChange.generateTcn := rfl

theorem sameRoles_incrementAll (this : Stp) : SameRoles this this.incrementAll :=
  (sameRoles_setTimeSinceLastHello this _).trans
    (.forPorts fun s id => sameRoles_update s id incrementTimers_role)

theorem sameRoles_checkForward (this : Stp) : SameRoles this this.checkForward :=
  .forPorts fun s id => sameRoles_update s id (checkFdWhile_role this.forwardDelay)

theorem exists_checkAges_eq (this : Stp) (now : ℤ) :
    ∃ s, SameRoles this s ∧ Blocks this s ∧ this.checkAges now = s.forPorts Stp.checkAge := by
  unfold checkAges
  split_ifs
  · refine ⟨_, (sameRoles_generateHelloBpdus this now).trans
      (sameRoles_setTimeSinceLastHello _ 0), ?_, rfl⟩
    exact (blocks_generateHelloBpdus this now).before rfl rfl rfl
  · exact ⟨_, sameRoles_setTimeSinceLastHello this 0, (Blocks.refl this).before rfl rfl rfl, rfl⟩
  · exact ⟨this, .refl this, .refl this, rfl⟩

theorem blocks_checkAges (this : Stp) (now : ℤ) : Blocks this (this.checkAges now) := by
  obtain ⟨s, -, hs, heq⟩ := exists_checkAges_eq this now
  rw [heq]
  exact hs.trans (.forPorts blocks_checkAge)

theorem Settled.checkAges (h : Settled this) (now : ℤ) : Settled (this.checkAges now) := by
  obtain ⟨s, hs, -, heq⟩ := exists_checkAges_eq this now
  rw [heq]
  exact forPorts_induction Settled (h.of_sameRoles hs) fun t id ht => ht.checkAge id

theorem incrementTimers_state (port : PortInfo) :
    (incrementTimers port).state = port.state ∧
      (incrementTimers port).fdWhile ≤ port.fdWhile + tickInterval := by
  have htick : port.fdWhile ≤ port.fdWhile + tickInterval :=
    le_add_of_nonneg_right (by decide)
  unfold incrementTimers
  dsimp only
  split_ifs
  · exact ⟨rfl, htick⟩
  · exact ⟨rfl, le_rfl⟩
  · exact ⟨rfl, htick⟩
  · exact ⟨rfl, le_rfl⟩
  · exact ⟨rfl, htick⟩

theorem blocks_aged (this : Stp) (now : ℤ) : Blocks this.incrementAll (this.aged now) :=
  (blocks_sendPending this.incrementAll now).trans (blocks_checkAges _ now)

theorem aged_parameters (this : Stp) (now : ℤ) :
    (this.aged now).toStpParameters = this.toStpParameters := by
  rw [(blocks_aged this now).parameters, (sameRoles_incrementAll this).parameters]

theorem Settled.aged (h : Settled this) (now : ℤ) : Settled (this.aged now) :=
  ((h.of_sameRoles (sameRoles_incrementAll this)).of_sameRoles
    (sameRoles_sendPending this.incrementAll now)).checkAges now

theorem checkForward_bridgePriority
    (hpriority : this.bridgePriority = this.configuredBridgePriority) (now : ℤ) :
    (this.aged now).checkForward.bridgePriority =
      (this.aged now).checkForward.configuredBridgePriority := by
  have hforward := sameRoles_checkForward (this.aged now)
  rw [hforward.bridgePriority, (blocks_aged this now).bridgePriority,
    (sameRoles_incrementAll this).bridgePriority, hpriority, hforward.parameters, aged_parameters]

theorem settled_handleTick (h : Settled this)
    (hpriority : this.bridgePriority = this.configuredBridgePriority) (now : ℤ) :
    Settled (this.handleTick now) :=
  (((h.aged now).of_sameRoles (sameRoles_checkForward _)).checkParametersChange
    (checkForward_bridgePriority hpriority now)).of_sameRoles (sameRoles_generateTcn _)

theorem blocks_handleTick (hpriority : this.bridgePriority = this.configuredBridgePriority)
    (now : ℤ) : Blocks (this.aged now).checkForward (this.handleTick now) :=
  (blocks_checkParametersChange (checkForward_bridgePriority hpriority now)).trans
    (blocks_generateTcn _)

theorem handleTick_parameters (hpriority : this.bridgePriority = this.configuredBridgePriority)
    (now : ℤ) : (this.handleTick now).toStpParameters = this.toStpParameters := by
  rw [(blocks_handleTick hpriority now).parameters, (sameRoles_checkForward _).parameters,
    aged_parameters]

theorem handleTick_bridgePriority
    (hpriority : this.bridgePriority = this.configuredBridgePriority) (now : ℤ) :
    (this.handleTick now).bridgePriority = (this.handleTick now).configuredBridgePriority := by
  rw [(blocks_handleTick hpriority now).bridgePriority, checkForward_bridgePriority hpriority now,
    (blocks_handleTick hpriority now).parameters]

theorem handleTick_port (h : Settled this)
    (hpriority : this.bridgePriority = this.configuredBridgePriority) (now : ℤ)
    (hid : id ∈ this.ifTable.ids) :
    ∃ port : PortInfo,
      (port.state = (this.data id).state ∧
        port.fdWhile ≤ (this.data id).fdWhile + tickInterval ∨ port.state = .blocking) ∧
      (((this.handleTick now).data id).state =
          (checkFdWhile (this.handleTick now).forwardDelay port).state ∧
        ((this.handleTick now).data id).fdWhile =
          (checkFdWhile (this.handleTick now).forwardDelay port).fdWhile ∨
        ((this.handleTick now).data id).state = .blocking) ∧
      ((this.handleTick now).data id).role = port.role := by
  have hbridge := checkForward_bridgePriority hpriority now
  have hforward := sameRoles_checkForward (this.aged now)
  have htcn := sameRoles_generateTcn (this.aged now).checkForward.checkParametersChange
  have hdelay : (this.handleTick now).forwardDelay = (this.aged now).forwardDelay := by
    rw [handleTick_eq, htcn.forwardDelay,
      ((h.aged now).of_sameRoles hforward).checkParametersChange_forwardDelay hbridge,
      hforward.forwardDelay]
  have hids : (this.aged now).ifTable = this.ifTable :=
    congrArg StpParameters.ifTable (aged_parameters this now)
  have hchecked : (this.aged now).checkForward.data id =
      checkFdWhile (this.handleTick now).forwardDelay ((this.aged now).data id) := by
    rw [hdelay, checkForward, forPorts_update, if_pos (hids ▸ hid)]
  have hincremented : this.incrementAll.data id = incrementTimers (this.data id) := by
    rw [incrementAll, forPorts_update]
    exact if_pos hid
  refine ⟨(this.aged now).data id, ?_, ?_, ?_⟩
  · have hstate := incrementTimers_state (this.data id)
    rw [← hincremented] at hstate
    rcases (blocks_aged this now).port id with ⟨hs, hf⟩ | hs
    · rw [hs, hf]
      exact .inl hstate
    · exact .inr hs
  · rw [← hchecked]
    exact (blocks_handleTick hpriority now).port id
  · rw [handleTick_eq, htcn.role, checkParametersChange_role hbridge, hforward.role]

/-! A run of the bridge with the states it has been in. -/

structure Snapshot where
  state : Stp
  /-- The state was reached by a tick, or by `start`. -/
  atTick : Bool

/-- The state of the bridge, and all states so far with the last one first. -/
structure History where
  current : Stp
  snapshots : List Snapshot

namespace History

def start (parameters : StpParameters) (data : InterfaceId → PortInfo) : History :=
  ⟨Stp.start parameters data, [⟨Stp.start parameters data, true⟩]⟩

def record (this : History) (state : Stp) (atTick : Bool) : History :=
  ⟨state, ⟨state, atTick⟩ :: this.snapshots⟩

def step (this : History) (now : ℤ) (event : Event) : Except Error History := do
  let state ← this.current.handle now event
  pure (this.record state (match event with | .tick => true | _ => false))

def run (this : History) : List (ℤ × Event) → Except Error History
  | [] => pure this
  | (now, event) :: events => do
    let this ← this.step now event
    this.run events

/-- The states after the ticks. -/
def ticks (this : History) : List Stp :=
  (this.snapshots.filter Snapshot.atTick).map Snapshot.state

end History

/-- At the last tick and the `n` ticks before it the port had a role. -/
def HeldFor (ticks : List Stp) (id : InterfaceId) (n : ℕ) : Prop :=
  ∀ i ≤ n, ∃ s, ticks[i]? = some s ∧ HasRole (s.data id)

theorem HeldFor.cons {ticks : List Stp} {n : ℕ} (h : HeldFor ticks id n)
    (hs : HasRole (s.data id)) : HeldFor (s :: ticks) id (n + 1) := by
  intro i hi
  cases i with
  | zero => exact ⟨s, rfl, hs⟩
  | succ i => exact h i (Nat.le_of_succ_le_succ hi)

theorem heldFor_zero {ticks : List Stp} (hs : HasRole (s.data id)) :
    HeldFor (s :: ticks) id 0 := by
  intro i hi
  cases Nat.le_zero.mp hi
  exact ⟨s, rfl, hs⟩

/-- The port was in the state at a tick. -/
def StateAt (ticks : List Stp) (id : InterfaceId) (i : ℕ) (state : PortState) : Prop :=
  ∃ s, ticks[i]? = some s ∧ (s.data id).state = state

/-- At a tick the port became learning, and has been so at all ticks since. -/
structure LearnsSince (ticks : List Stp) (id : InterfaceId) (m : ℕ) : Prop where
  listening : StateAt ticks id (m + 1) .listening
  learning : ∀ i ≤ m, StateAt ticks id i .learning

theorem StateAt.cons {ticks : List Stp} {i : ℕ} {state : PortState} (h : StateAt ticks id i state)
    (s : Stp) : StateAt (s :: ticks) id (i + 1) state := h

theorem LearnsSince.cons {ticks : List Stp} {m : ℕ} (h : LearnsSince ticks id m)
    (hs : (s.data id).state = .learning) : LearnsSince (s :: ticks) id (m + 1) where
  listening := h.listening.cons s
  learning i hi := by
    cases i with
    | zero => exact ⟨s, rfl, hs⟩
    | succ i => exact (h.learning i (Nat.le_of_succ_le_succ hi)).cons s

theorem learnsSince_zero {ticks : List Stp} (h : StateAt ticks id 0 .listening)
    (hs : (s.data id).state = .learning) : LearnsSince (s :: ticks) id 0 where
  listening := h.cons s
  learning i hi := by
    cases Nat.le_zero.mp hi
    exact ⟨s, rfl, hs⟩

/-- At the ticks the port has had a role for a forward delay before it became learning, at the
`m`-th tick before the last, and for another one since then. -/
def HeldForTwoDelays (ticks : List Stp) (id : InterfaceId) : Prop :=
  ∃ n m : ℕ, ∃ current learning, ticks[0]? = some current ∧ ticks[m + 1]? = some learning ∧
    LearnsSince ticks.tail id m ∧ learning.forwardDelay ≤ n * tickInterval ∧
    current.forwardDelay ≤ (m + 1 : ℕ) * tickInterval ∧ HeldFor ticks id (n + (m + 1))

/-- What the state of a port says about its role at the ticks. -/
def Earned (ticks : List Stp) (id : InterfaceId) (port : PortInfo) : Prop :=
  match port.state with
  | .listening => StateAt ticks id 0 .listening ∧
      ∃ n : ℕ, port.fdWhile ≤ n * tickInterval ∧ HeldFor ticks id n
  | .learning => ∃ n m : ℕ, ∃ learning, ticks[m]? = some learning ∧ LearnsSince ticks id m ∧
      learning.forwardDelay ≤ n * tickInterval ∧ port.fdWhile ≤ m * tickInterval ∧
      HeldFor ticks id (n + m)
  | .forwarding => HeldFor ticks id 0
  | _ => True

theorem Earned.of_blocks {ticks : List Stp} (h : Earned ticks id (s.data id))
    (hs : Blocks s s') : Earned ticks id (s'.data id) := by
  rcases hs.port id with ⟨hstate, hfd⟩ | hstate
  · unfold Earned at h ⊢
    rw [hstate, hfd]
    exact h
  · unfold Earned
    rw [hstate]
    trivial

theorem checkFdWhile_of_not_hasRole {port : PortInfo} (h : ¬ HasRole port) (forwardDelay : ℤ) :
    (checkFdWhile forwardDelay port).state = .blocking := by
  unfold checkFdWhile
  exact (congrArg PortInfo.state (if_neg h) :)

theorem checkFdWhile_cases {port : PortInfo} (h : HasRole port) (forwardDelay : ℤ) :
    let new := checkFdWhile forwardDelay port
    (port.state = .blocking ∧ new.state = .listening ∧ new.fdWhile = 0) ∨
    (port.state ≠ .blocking ∧ new.state = port.state ∧ new.fdWhile = port.fdWhile) ∨
    (forwardDelay ≤ port.fdWhile ∧ new.fdWhile = 0 ∧
      (port.state = .listening ∧ new.state = .learning ∨
        port.state = .learning ∧ new.state = .forwarding ∨
        port.state = .forwarding ∧ new.state = .forwarding ∨
        port.state = .discarding ∧ new.state = .discarding)) := by
  have hrole : port.role = .root ∨ port.role = .designated := h
  dsimp only
  unfold checkFdWhile
  rw [if_pos hrole]
  split_ifs with hblocking hdelay
  · exact .inl ⟨hblocking, rfl, rfl⟩
  · refine .inr (.inr ⟨hdelay, ?_⟩)
    cases hstate : port.state with
    | listening => exact ⟨rfl, .inl ⟨rfl, rfl⟩⟩
    | learning => exact ⟨rfl, .inr (.inl ⟨rfl, rfl⟩)⟩
    | forwarding => exact ⟨rfl, .inr (.inr (.inl ⟨rfl, rfl⟩))⟩
    | discarding => exact ⟨rfl, .inr (.inr (.inr ⟨rfl, rfl⟩))⟩
    | blocking => exact absurd hstate hblocking
  · exact .inr (.inl ⟨hblocking, rfl, rfl⟩)

section

variable {ticks : List Stp} {old port : PortInfo}

theorem Earned.keep (h : Earned ticks id old) (hstate : (s'.data id).state = old.state)
    (hfd : (s'.data id).fdWhile ≤ old.fdWhile + tickInterval) (hrole : HasRole (s'.data id)) :
    Earned (s' :: ticks) id (s'.data id) := by
  unfold Earned at h ⊢
  rw [hstate]
  cases hold : old.state with
  | listening =>
    rw [hold] at h hstate
    obtain ⟨-, n, hn, hheld⟩ := h
    refine ⟨⟨s', rfl, hstate⟩, n + 1, ?_, hheld.cons hrole⟩
    rw [Nat.cast_succ, add_one_mul]
    exact hfd.trans (Int.add_le_add_right hn _)
  | learning =>
    rw [hold] at h hstate
    obtain ⟨n, m, learning, hlearning, hsince, hn, hm, hheld⟩ := h
    refine ⟨n, m + 1, learning, hlearning, hsince.cons hstate, hn, ?_, hheld.cons hrole⟩
    rw [Nat.cast_succ, add_one_mul]
    exact hfd.trans (Int.add_le_add_right hm _)
  | forwarding => exact heldFor_zero hrole
  | discarding => trivial
  | blocking => trivial

theorem Earned.advance (h : Earned ticks id old)
    (hdelay : s'.forwardDelay ≤ old.fdWhile + tickInterval)
    (hzero : (s'.data id).fdWhile = 0) (hrole : HasRole (s'.data id))
    (hstate : old.state = .listening ∧ (s'.data id).state = .learning ∨
      old.state = .learning ∧ (s'.data id).state = .forwarding ∨
      old.state = .forwarding ∧ (s'.data id).state = .forwarding ∨
      old.state = .discarding ∧ (s'.data id).state = .discarding) :
    Earned (s' :: ticks) id (s'.data id) ∧
      ((s'.data id).state = .forwarding → old.state ≠ .forwarding →
        HeldForTwoDelays (s' :: ticks) id) := by
  unfold Earned at h ⊢
  rcases hstate with ⟨hold, hnew⟩ | ⟨hold, hnew⟩ | ⟨hold, hnew⟩ | ⟨hold, hnew⟩
  · rw [hold] at h
    rw [hnew, hzero]
    obtain ⟨hlistening, n, hn, hheld⟩ := h
    refine ⟨⟨n + 1, 0, s', rfl, learnsSince_zero hlistening hnew, ?_, by simp,
      hheld.cons hrole⟩, nofun⟩
    rw [Nat.cast_succ, add_one_mul]
    exact hdelay.trans (Int.add_le_add_right hn _)
  · rw [hold] at h
    rw [hnew]
    obtain ⟨n, m, learning, hlearning, hsince, hn, hm, hheld⟩ := h
    refine ⟨heldFor_zero hrole, fun _ _ =>
      ⟨n, m, s', learning, rfl, hlearning, hsince, hn, ?_, hheld.cons hrole⟩⟩
    rw [Nat.cast_succ, add_one_mul]
    exact hdelay.trans (Int.add_le_add_right hm _)
  · rw [hnew]
    exact ⟨heldFor_zero hrole, fun _ hne => absurd hold hne⟩
  · rw [hnew]
    exact ⟨trivial, nofun⟩

theorem Earned.tick (h : Earned ticks id old)
    (hport : port.state = old.state ∧ port.fdWhile ≤ old.fdWhile + tickInterval ∨
      port.state = .blocking)
    (hnew : (s'.data id).state = (checkFdWhile s'.forwardDelay port).state ∧
        (s'.data id).fdWhile = (checkFdWhile s'.forwardDelay port).fdWhile ∨
      (s'.data id).state = .blocking)
    (hrole : (s'.data id).role = port.role) :
    Earned (s' :: ticks) id (s'.data id) ∧
      ((s'.data id).state = .forwarding → old.state ≠ .forwarding →
        HeldForTwoDelays (s' :: ticks) id) := by
  have hblocked : (s'.data id).state = .blocking →
      Earned (s' :: ticks) id (s'.data id) ∧
        ((s'.data id).state = .forwarding → old.state ≠ .forwarding →
          HeldForTwoDelays (s' :: ticks) id) := by
    intro hstate
    unfold Earned
    rw [hstate]
    exact ⟨trivial, nofun⟩
  rcases hnew with ⟨hstate, hfd⟩ | hstate
  · by_cases hhas : HasRole port
    · have hhas' : HasRole (s'.data id) := by
        unfold HasRole
        rw [hrole]
        exact hhas
      have hcases := checkFdWhile_cases hhas s'.forwardDelay
      dsimp only at hcases
      rw [← hstate, ← hfd] at hcases
      rcases hcases with ⟨_, hlistening, hzero⟩ | ⟨hne, hsame, hsame'⟩ | ⟨hdelay, hzero, hmove⟩
      · unfold Earned
        rw [hlistening]
        exact ⟨⟨⟨s', rfl, hlistening⟩, 0, by simp [hzero], heldFor_zero hhas'⟩, nofun⟩
      · rcases hport with ⟨hold, hle⟩ | hblocking
        · rw [hold] at hsame
          exact ⟨h.keep hsame (hsame'.trans_le hle) hhas', fun hf hn => absurd (hsame ▸ hf) hn⟩
        · exact absurd hblocking hne
      · rcases hport with ⟨hold, hle⟩ | hblocking
        · rw [hold] at hmove
          exact h.advance (hdelay.trans hle) hzero hhas' hmove
        · rcases hmove with ⟨h', _⟩ | ⟨h', _⟩ | ⟨h', _⟩ | ⟨h', _⟩ <;>
            exact absurd (hblocking.symm.trans h') nofun
    · exact hblocked (hstate.trans (checkFdWhile_of_not_hasRole hhas _))
  · exact hblocked hstate

end

/-! Every run. -/

/-- The interfaces as they were created, with their configuration. -/
def created (priority : InterfaceId → UInt16) (linkCost : InterfaceId → UInt32)
    (edge : InterfaceId → Bool) (id : InterfaceId) : PortInfo :=
  .default (priority id) (linkCost id) (edge id)

structure Valid (history : History) : Prop where
  settled : Settled history.current
  bridgePriority : history.current.bridgePriority = history.current.configuredBridgePriority
  earned : ∀ id ∈ history.current.ifTable.ids,
    Earned history.ticks id (history.current.data id)
  last : ∃ atTick rest, history.snapshots = ⟨history.current, atTick⟩ :: rest
  entered : ∀ current previous rest, history.snapshots = current :: previous :: rest →
    ∀ id ∈ history.current.ifTable.ids, (current.state.data id).state = .forwarding →
      (previous.state.data id).state ≠ .forwarding →
        current.atTick ∧ HeldForTwoDelays history.ticks id

/-- An event between ticks. -/
theorem Valid.record {history : History} (h : Valid history) (hs : Settled s)
    (hblocks : Blocks history.current s) : Valid (history.record s false) := by
  have hids : s.ifTable = history.current.ifTable :=
    congrArg StpParameters.ifTable hblocks.parameters
  refine ⟨hs, ?_, ?_, ⟨false, history.snapshots, rfl⟩, ?_⟩
  · change s.bridgePriority = s.configuredBridgePriority
    rw [hblocks.bridgePriority, hblocks.parameters]
    exact h.bridgePriority
  · intro id hid
    change id ∈ s.ifTable.ids at hid
    rw [hids] at hid
    exact (h.earned id hid).of_blocks hblocks
  · intro current previous rest heq id hid hforwarding hne
    obtain ⟨atTick, older, hlast⟩ := h.last
    rw [History.record, hlast] at heq
    cases heq
    rcases hblocks.port id with ⟨hstate, -⟩ | hstate
    · exact absurd (hstate ▸ hforwarding) hne
    · rw [hforwarding] at hstate
      cases hstate

theorem Valid.recordTick {history : History} (h : Valid history) (hs : Settled s)
    (hpriority : s.bridgePriority = s.configuredBridgePriority)
    (hids : s.ifTable = history.current.ifTable)
    (hport : ∀ id ∈ history.current.ifTable.ids, Earned (s :: history.ticks) id (s.data id) ∧
      ((s.data id).state = .forwarding → (history.current.data id).state ≠ .forwarding →
        HeldForTwoDelays (s :: history.ticks) id)) : Valid (history.record s true) := by
  refine ⟨hs, hpriority, ?_, ⟨true, history.snapshots, rfl⟩, ?_⟩
  · intro id hid
    change id ∈ s.ifTable.ids at hid
    rw [hids] at hid
    exact (hport id hid).1
  · intro current previous rest heq id hid hforwarding hne
    change id ∈ s.ifTable.ids at hid
    rw [hids] at hid
    obtain ⟨atTick, older, hlast⟩ := h.last
    rw [History.record, hlast] at heq
    cases heq
    exact ⟨rfl, (hport id hid).2 hforwarding hne⟩

theorem Valid.tick {history : History} (h : Valid history) (now : ℤ) :
    Valid (history.record (history.current.handleTick now) true) := by
  refine h.recordTick (settled_handleTick h.settled h.bridgePriority now)
    (handleTick_bridgePriority h.bridgePriority now)
    (congrArg StpParameters.ifTable (handleTick_parameters h.bridgePriority now)) ?_
  intro id hid
  obtain ⟨port, hport, hnew, hrole⟩ := handleTick_port h.settled h.bridgePriority now hid
  exact (h.earned id hid).tick hport hnew hrole

theorem settled_handleBpdu {bpdu : BpduCfg}
    (h : this.handleBpdu now interfaceId bpdu = .ok s) : Settled s := by
  obtain ⟨u, -, h⟩ := Error.exists_of_bind_eq_ok h
  cases h
  exact settled_tryRoot _

theorem settled_handleTcn (h : Settled this) {srcAddress : MacAddress}
    (hs : this.handleTcn now interfaceId srcAddress = .ok s) : Settled s := by
  obtain ⟨u, -, hs⟩ := Error.exists_of_bind_eq_ok hs
  cases hs
  have hsame : SameRoles this { this with topologyChangeNotification := true } :=
    ⟨⟨rfl, rfl, rfl, rfl, rfl, rfl, rfl, rfl, rfl, rfl⟩, fun _ => rfl⟩
  exact h.of_sameRoles (hsame.trans (sameRoles_generateBpdu _ _ _ _ _ _))

theorem Valid.step {history history' : History} {event : Event} (h : Valid history)
    (hstep : history.step now event = .ok history') : Valid history' := by
  obtain ⟨state, hhandle, hstep⟩ := Error.exists_of_bind_eq_ok hstep
  cases event with
  | bpdu arrivalGate bpdu =>
    cases hstep
    exact h.record (settled_handleBpdu hhandle) (blocks_handleBpdu hhandle)
  | tcn arrivalGate srcAddress =>
    cases hstep
    exact h.record (settled_handleTcn h.settled hhandle) (blocks_handleTcn hhandle)
  | tick =>
    cases hhandle
    cases hstep
    exact h.tick now

theorem Valid.run {history history' : History} {events : List (ℤ × Event)} (h : Valid history)
    (hrun : history.run events = .ok history') : Valid history' := by
  induction events generalizing history with
  | nil =>
    cases hrun
    exact h
  | cons event events ih =>
    obtain ⟨next, hstep, hrun⟩ := Error.exists_of_bind_eq_ok hrun
    exact ih (h.step hstep) hrun

theorem sameRoot_initPort (this : Stp) (id : InterfaceId) : SameRoot this (this.initPort id) := by
  unfold initPort
  split
  · exact sameRoot_update ..
  · exact .refl this

theorem sameRoot_initPortTable (this : Stp) : SameRoot this this.initPortTable :=
  .forPorts sameRoot_initPort

theorem initPortTable_data (parameters : StpParameters) {data : InterfaceId → PortInfo}
    (hdata : ∀ id, (data id).role = .notAssigned ∧ (data id).state = .forwarding)
    (id : InterfaceId) :
    ((initial parameters data).initPortTable.data id).role = .notAssigned ∧
      (((initial parameters data).initPortTable.data id).state = .blocking ∨
        ((initial parameters data).initPortTable.data id).state = .forwarding) := by
  have hall : ∀ id, ((initial parameters data).initPortTable.data id).role = .notAssigned ∧
      (((initial parameters data).initPortTable.data id).state = .blocking ∨
        ((initial parameters data).initPortTable.data id).state = .forwarding) := by
    refine forPorts_induction (fun s : Stp => ∀ id, (s.data id).role = .notAssigned ∧
      ((s.data id).state = .blocking ∨ (s.data id).state = .forwarding))
      (fun id => ⟨(hdata id).1, .inr (hdata id).2⟩) ?_
    intro s interfaceId hs id
    unfold initPort
    split
    · unfold initInterfacedata
      by_cases h : id = interfaceId
      · subst h
        rw [update_data_self]
        exact ⟨rfl, .inl rfl⟩
      · rw [update_data_of_ne h]
        exact hs id
    · exact hs id
  exact hall id

theorem valid_start (parameters : StpParameters) {data : InterfaceId → PortInfo}
    (hdata : ∀ id, (data id).role = .notAssigned ∧ (data id).state = .forwarding) :
    Valid (History.start parameters data) := by
  have hinit := sameRoot_initPortTable (initial parameters data)
  have hall := sameRoot_setAllDesignated (initial parameters data).initPortTable
  have hids : (start parameters data).ifTable = (initial parameters data).initPortTable.ifTable :=
    ifTable_eq hall
  refine ⟨settled_setAllDesignated ?_, ?_, ?_, ⟨true, [], rfl⟩, fun _ _ _ h => nomatch h⟩
  · rw [hinit.forwardDelay, hinit.parameters]
    rfl
  · change (start parameters data).bridgePriority = (start parameters data).configuredBridgePriority
    rw [start, hall.bridgePriority, hinit.bridgePriority, hall.parameters, hinit.parameters]
    rfl
  · intro id hid
    change id ∈ (start parameters data).ifTable.ids at hid
    rw [hids] at hid
    obtain ⟨hrole, hstate⟩ := initPortTable_data parameters hdata id
    have hport : (start parameters data).data id =
        { (initial parameters data).initPortTable.data id with role := .designated } := by
      rw [start, setAllDesignated_data, if_pos hid, if_neg (by rw [hrole]; exact nofun)]
    change Earned [start parameters data] id ((start parameters data).data id)
    have hhas : HasRole ((start parameters data).data id) := by
      rw [hport]
      exact .inr rfl
    have hstate' : ((start parameters data).data id).state =
        ((initial parameters data).initPortTable.data id).state := by
      rw [hport]
    unfold Earned
    rw [hstate']
    rcases hstate with hstate | hstate
    · rw [hstate]
      trivial
    · rw [hstate]
      exact heldFor_zero hhas

/-- At most one port is the root port, and none of a bridge that considers itself root. A port
that learns or forwards had a role right after the last tick. It starts to forward at a tick, when
at the ticks it has had a role for two forward delays. -/
structure RolesHeld (history : History) : Prop where
  root_unique : ∀ a ∈ history.current.ifTable.ids, ∀ b ∈ history.current.ifTable.ids,
    (history.current.data a).role = .root → (history.current.data b).role = .root → a = b
  no_root : history.current.isRoot → ∀ a ∈ history.current.ifTable.ids,
    (history.current.data a).role ≠ .root
  hasRole : ∀ id ∈ history.current.ifTable.ids,
    ((history.current.data id).state = .learning ∨
      (history.current.data id).state = .forwarding) →
    ∃ s, history.ticks[0]? = some s ∧ HasRole (s.data id)
  entered : ∀ current previous rest, history.snapshots = current :: previous :: rest →
    ∀ id ∈ history.current.ifTable.ids, (current.state.data id).state = .forwarding →
      (previous.state.data id).state ≠ .forwarding →
        current.atTick ∧ HeldForTwoDelays history.ticks id

theorem Valid.rolesHeld {history : History} (h : Valid history) : RolesHeld history := by
  refine ⟨h.settled.root_unique, h.settled.no_root, ?_, h.entered⟩
  intro id hid hstate
  have hearned := h.earned id hid
  unfold Earned at hearned
  rcases hstate with hstate | hstate
  · rw [hstate] at hearned
    obtain ⟨n, m, _, _, _, _, _, hheld⟩ := hearned
    exact hheld 0 (Nat.zero_le _)
  · rw [hstate] at hearned
    exact hearned 0 le_rfl

/-- In every run from `start`. -/
theorem rolesHeld_of_run (parameters : StpParameters) (priority : InterfaceId → UInt16)
    (linkCost : InterfaceId → UInt32) (edge : InterfaceId → Bool) (events : List (ℤ × Event))
    (history : History)
    (h : (History.start parameters (created priority linkCost edge)).run events = .ok history) :
    RolesHeld history :=
  ((valid_start parameters fun _ => ⟨rfl, rfl⟩).run h).rolesHeld

/-- A bridge with two ports and a forward delay of one second. -/
def exampleParameters : StpParameters where
  ifTable := ⟨101, [102], by decide⟩
  hasStpPort := fun _ => true
  bridgeAddress := 0x0AAA00000009
  configuredBridgePriority := 32768
  configuredMaxAge := simTimeOfSeconds 20
  configuredForwardDelay := simTimeOfSeconds 1
  configuredHelloInterval := simTimeOfSeconds 2
  holdTime := simTimeOfSeconds 1
  agingTime := simTimeOfSeconds 120

/-- The better root `0A-AA-00-00-00-01` at the cost. -/
def exampleBpdu (rootPathCost : UInt32) : BpduCfg where
  tcaFlag := false
  agreementFlag := false
  proposalFlag := false
  tcFlag := false
  rootPriority := 32768
  rootAddress := 0x0AAA00000001
  rootPathCost := rootPathCost
  bridgePriority := 32768
  bridgeAddress := 0x0AAA00000002
  portPriority := 128
  portNum := 101
  messageAge := 0
  maxAge := simTimeOfSeconds 20
  helloTime := simTimeOfSeconds 2
  forwardDelay := simTimeOfSeconds 1

def exampleHistory : History :=
  .start exampleParameters (created (fun _ => 128) (fun _ => 4) fun _ => false)

/-- The run of a port that becomes the root port and starts to forward. -/
theorem rolesHeld_of_run_example :
    ∃ history, exampleHistory.run [(0, .bpdu 101 (exampleBpdu 10)), (simTimeOfSeconds 1, .tick),
        (simTimeOfSeconds 2, .tick), (simTimeOfSeconds 3, .tick)] = .ok history ∧
      RolesHeld history ∧ (history.current.data 101).state = .forwarding := by
  have h : Outcome.ReturnsWith (exampleHistory.run
      [(0, .bpdu 101 (exampleBpdu 10)), (simTimeOfSeconds 1, .tick), (simTimeOfSeconds 2, .tick),
        (simTimeOfSeconds 3, .tick)]) fun history =>
      (history.current.data 101).state = .forwarding := by
    decide +kernel
  obtain ⟨history, hrun, hforwarding⟩ := h
  exact ⟨history, hrun, rolesHeld_of_run exampleParameters _ _ _ _ history hrun, hforwarding⟩

/-- A port that loses its role on a BPDU goes on forwarding. Another one loses its role and gets
one again within a tick, and at the next tick starts to forward. -/
theorem unassigned_port_forwards :
    Outcome.ReturnsWith (exampleHistory.run
        [(0, .bpdu 101 (exampleBpdu 10)), (simTimeOfSeconds 1, .tick), (simTimeOfSeconds 2, .tick),
          (simTimeOfSeconds 3, .tick), (simTimeOfSeconds 3, .bpdu 102 (exampleBpdu 9))])
      (fun history => (history.current.data 101).state = .forwarding ∧
        ¬ HasRole (history.current.data 101)) ∧
    Outcome.ReturnsWith (exampleHistory.run
        [(0, .bpdu 101 (exampleBpdu 10)), (simTimeOfSeconds 1, .tick), (simTimeOfSeconds 2, .tick),
          (simTimeOfSeconds 2, .bpdu 102 (exampleBpdu 9)),
          (simTimeOfSeconds 2, .bpdu 102 (exampleBpdu 1)), (simTimeOfSeconds 3, .tick)])
      (fun history => history.snapshots.map (fun snapshot =>
          (snapshot.atTick, (snapshot.state.data 101).state, (snapshot.state.data 101).role)) =
        [(true, .forwarding, .designated), (false, .learning, .designated),
          (false, .learning, .notAssigned), (true, .learning, .root), (true, .listening, .root),
          (false, .blocking, .root), (true, .blocking, .designated)]) :=
  ⟨by decide +kernel, by decide +kernel⟩

end Inet.Ieee8021d.Stp
