import Inet.Ieee8021d.Stp
import Inet.Lib.Loop

/-! # How a bridge assigns the roles of its ports

A loop over the ports changes each of them by itself. With that, the roles that
`tryRoot` gives are read off from the information kept at the ports.
-/

namespace Inet.Ieee8021d.Stp

open Inet.Ethernet

variable {this s s' t : Stp} {interfaceId id : InterfaceId}

/-! The data after an update. -/

@[simp] theorem update_data_self (this : Stp) (id : InterfaceId) (f : PortInfo → PortInfo) :
    (this.update id f).data id = f (this.data id) := Function.update_self ..

theorem update_data_of_ne {f : PortInfo → PortInfo} (h : id ≠ interfaceId) :
    (this.update interfaceId f).data id = this.data id := Function.update_of_ne h ..

@[simp] theorem setRole_data_self (this : Stp) (id : InterfaceId) (role : PortRole) :
    (this.setRole id role).data id = { this.data id with role := role } := update_data_self ..

theorem setRole_data_of_ne {role : PortRole} (h : id ≠ interfaceId) :
    (this.setRole interfaceId role).data id = this.data id := update_data_of_ne h

/-! Loops over the ports. -/

theorem forPorts_induction {body : Stp → InterfaceId → Stp} (Inv : Stp → Prop) (h : Inv this)
    (hbody : ∀ s id, Inv s → Inv (body s id)) : Inv (this.forPorts body) :=
  List.foldlRecOn _ _ h fun s hs id _ => hbody s id hs

theorem forPorts_data {body : Stp → InterfaceId → Stp} (Inv : Stp → Prop)
    (g : InterfaceId → PortInfo → PortInfo) (h : Inv this)
    (hbody : ∀ s id, Inv s → Inv (body s id))
    (hself : ∀ s id, Inv s → (body s id).data id = g id (s.data id))
    (hother : ∀ s id id', Inv s → id' ≠ id → (body s id).data id' = s.data id')
    (id : InterfaceId) :
    (this.forPorts body).data id =
      if id ∈ this.ifTable.ids then g id (this.data id) else this.data id :=
  Loop.foldl_data Stp.data Inv g this.ifTable.nodup_ids h hbody hself hother id

theorem forPorts_update (this : Stp) (f : PortInfo → PortInfo) (id : InterfaceId) :
    (this.forPorts fun s id => s.update id f).data id =
      if id ∈ this.ifTable.ids then f (this.data id) else this.data id :=
  forPorts_data (fun _ => True) (fun _ => f) trivial (fun _ _ _ => trivial)
    (fun s id _ => update_data_self s id f) (fun _ _ _ _ h => update_data_of_ne h) id

/-- The bridge is the same in all that the assignment of designated ports reads but the ports. -/
structure SameRoot (s s' : Stp) : Prop where
  parameters : s'.toStpParameters = s.toStpParameters
  isRoot : s'.isRoot = s.isRoot
  rootInterfaceId : s'.rootInterfaceId = s.rootInterfaceId
  rootPathCost : s'.rootPathCost = s.rootPathCost
  rootPriority : s'.rootPriority = s.rootPriority
  rootAddress : s'.rootAddress = s.rootAddress
  maxAge : s'.maxAge = s.maxAge
  forwardDelay : s'.forwardDelay = s.forwardDelay
  helloInterval : s'.helloInterval = s.helloInterval
  bridgePriority : s'.bridgePriority = s.bridgePriority

namespace SameRoot

theorem refl (s : Stp) : SameRoot s s := ⟨rfl, rfl, rfl, rfl, rfl, rfl, rfl, rfl, rfl, rfl⟩

theorem trans (h : SameRoot s s') (h' : SameRoot s' t) : SameRoot s t :=
  ⟨h'.1.trans h.1, h'.2.trans h.2, h'.3.trans h.3, h'.4.trans h.4, h'.5.trans h.5, h'.6.trans h.6,
    h'.7.trans h.7, h'.8.trans h.8, h'.9.trans h.9, h'.10.trans h.10⟩

theorem forPorts {body : Stp → InterfaceId → Stp} (h : ∀ s id, SameRoot s (body s id)) :
    SameRoot this (this.forPorts body) :=
  forPorts_induction (SameRoot this) (refl this) fun s id hs => hs.trans (h s id)

end SameRoot

theorem sameRoot_update (this : Stp) (id : InterfaceId) (f : PortInfo → PortInfo) :
    SameRoot this (this.update id f) := ⟨rfl, rfl, rfl, rfl, rfl, rfl, rfl, rfl, rfl, rfl⟩

theorem ifTable_eq (h : SameRoot s s') : s'.ifTable = s.ifTable :=
  congrArg StpParameters.ifTable h.parameters

/-! All ports designated. -/

theorem sameRoot_setDesignated (this : Stp) (id : InterfaceId) :
    SameRoot this (this.setDesignated id) := by
  unfold setDesignated
  split
  · exact .refl this
  · exact ⟨rfl, rfl, rfl, rfl, rfl, rfl, rfl, rfl, rfl, rfl⟩

theorem sameRoot_clear (this : Stp) : SameRoot this { this with desPorts := [] } :=
  ⟨rfl, rfl, rfl, rfl, rfl, rfl, rfl, rfl, rfl, rfl⟩

theorem sameRoot_setAllDesignated (this : Stp) : SameRoot this this.setAllDesignated :=
  (sameRoot_clear this).trans (.forPorts sameRoot_setDesignated)

theorem setAllDesignated_data (this : Stp) (id : InterfaceId) :
    this.setAllDesignated.data id =
      if id ∈ this.ifTable.ids then
        if (this.data id).role = .disabled then this.data id
        else { this.data id with role := .designated }
      else this.data id := by
  refine forPorts_data (fun _ => True)
    (fun _ port => if port.role = .disabled then port else { port with role := .designated })
    trivial (fun _ _ _ => trivial) ?_ ?_ id
  · intro s id _
    unfold setDesignated
    split <;> simp_all [setRole]
  · intro s id id' _ hne
    unfold setDesignated
    split
    · rfl
    · exact setRole_data_of_ne hne

/-! Better information is smaller in the order on root id, root path cost, bridge id and port id. -/

abbrev BridgeId := ℕ ×ₗ ℕ

def bridgeId (priority : UInt32) (address : MacAddress) : BridgeId :=
  toLex (priority.toNat, address.toNat)

abbrev PriorityVector := BridgeId ×ₗ ℕ ×ₗ BridgeId ×ₗ ℕ ×ₗ ℕ

def vector (port : PortInfo) : PriorityVector :=
  toLex (bridgeId port.rootPriority port.rootAddress,
    toLex (port.rootPathCost.toNat,
      toLex (bridgeId port.bridgePriority port.bridgeAddress,
        toLex (port.portPriority.toNat, port.portNum.toNat))))

theorem compareBridgeIDs_eq (aPriority : UInt32) (aAddress : MacAddress) (bPriority : UInt32)
    (bAddress : MacAddress) :
    compareBridgeIDs aPriority aAddress bPriority bAddress =
      thenCompare (compareKeys aPriority.toNat bPriority.toNat)
        (compareKeys aAddress.toNat bAddress.toNat) := by
  simp only [compareBridgeIDs, compareTo_eq_neg_one_iff, compareTo_eq_one_iff, thenCompare,
    compareKeys, UInt32.lt_iff_toNat_lt, gt_iff_lt]
  split_ifs <;> omega

theorem comparePortIDs_eq (aPriority aNum bPriority bNum : UInt32) :
    comparePortIDs aPriority aNum bPriority bNum =
      thenCompare (compareKeys aPriority.toNat bPriority.toNat)
        (compareKeys aNum.toNat bNum.toNat) := by
  simp only [comparePortIDs, thenCompare, compareKeys, UInt32.lt_iff_toNat_lt, gt_iff_lt]
  split_ifs <;> omega

theorem ranksBy_compareBridgeIDs :
    RanksBy (fun a b : UInt32 × MacAddress => compareBridgeIDs a.1 a.2 b.1 b.2)
      (fun a => bridgeId a.1 a.2) := by
  simp only [compareBridgeIDs_eq]
  exact (ranksBy_compareKeys.comp fun a : UInt32 × MacAddress => a.1.toNat).lex
    (ranksBy_compareKeys.comp fun a : UInt32 × MacAddress => a.2.toNat)

theorem ranksBy_comparePortIDs :
    RanksBy (fun a b : UInt32 × UInt32 => comparePortIDs a.1 a.2 b.1 b.2)
      (fun a => toLex (a.1.toNat, a.2.toNat)) := by
  simp only [comparePortIDs_eq]
  exact (ranksBy_compareKeys.comp fun a : UInt32 × UInt32 => a.1.toNat).lex
    (ranksBy_compareKeys.comp fun a : UInt32 × UInt32 => a.2.toNat)

theorem comparePorts_eq (a b : PortInfo) :
    comparePorts a b =
      thenCompare (compareBridgeIDs a.rootPriority a.rootAddress b.rootPriority b.rootAddress)
        (thenCompare (compareKeys a.rootPathCost.toNat b.rootPathCost.toNat)
          (thenCompare
            (compareBridgeIDs a.bridgePriority a.bridgeAddress b.bridgePriority b.bridgeAddress)
            (comparePortIDs a.portPriority a.portNum b.portPriority b.portNum))) := by
  simp only [comparePorts, thenCompare, compareKeys, UInt32.lt_iff_toNat_lt, gt_iff_lt]
  split_ifs <;> first | rfl | omega

theorem ranksBy_comparePorts : RanksBy comparePorts vector := by
  have h := (ranksBy_compareBridgeIDs.comp
      fun port : PortInfo => (port.rootPriority, port.rootAddress)).lex
    ((ranksBy_compareKeys.comp fun port : PortInfo => port.rootPathCost.toNat).lex
      ((ranksBy_compareBridgeIDs.comp
        fun port : PortInfo => (port.bridgePriority, port.bridgeAddress)).lex
        (ranksBy_comparePortIDs.comp fun port : PortInfo => (port.portPriority, port.portNum))))
  have heq : comparePorts = fun a b => _ := funext fun a => funext fun b => comparePorts_eq a b
  rw [heq]
  exact h

@[simp] theorem vector_role (port : PortInfo) (role : PortRole) :
    vector { port with role := role } = vector port := rfl

/-! The root port. -/

theorem selectRootStep_fst (s : Stp × InterfaceId) (id : InterfaceId) :
    (selectRootStep s id).1 = s.1.setRole id .notAssigned := by
  unfold selectRootStep
  dsimp only
  split_ifs <;> rfl

theorem selectRootStep_snd (this : Stp) (best id : InterfaceId) :
    ((selectRootStep (this, best) id).2 = id ∨ (selectRootStep (this, best) id).2 = best) ∧
      vector (this.data (selectRootStep (this, best) id).2) ≤ vector (this.data best) ∧
      vector (this.data (selectRootStep (this, best) id).2) ≤ vector (this.data id) := by
  have hvector : ∀ id', vector ((this.setRole id .notAssigned).data id') =
      vector (this.data id') := by
    intro id'
    by_cases h : id' = id
    · subst h
      simp
    · rw [setRole_data_of_ne h]
  have hpos := ranksBy_comparePorts.pos_iff ((this.setRole id .notAssigned).data id)
    ((this.setRole id .notAssigned).data best)
  have hneg := ranksBy_comparePorts.neg_iff ((this.setRole id .notAssigned).data id)
    ((this.setRole id .notAssigned).data best)
  rw [hvector, hvector] at hpos hneg
  unfold selectRootStep
  dsimp only
  by_cases h : comparePorts ((this.setRole id .notAssigned).data id)
    ((this.setRole id .notAssigned).data best) > 0
  · rw [if_pos h]
    exact ⟨.inl rfl, (hpos.mp h).le, le_rfl⟩
  · have hle : vector (this.data best) ≤ vector (this.data id) :=
      not_lt.mp fun hlt => h (hpos.mpr hlt)
    rw [if_neg h]
    split_ifs with hlt hprio
    · exact ⟨.inr rfl, le_rfl, hle⟩
    · have hge : vector (this.data id) ≤ vector (this.data best) :=
        not_lt.mp fun h => hlt (hneg.mpr h)
      exact ⟨.inl rfl, hge, le_rfl⟩
    · exact ⟨.inr rfl, le_rfl, hle⟩

theorem foldl_selectRootStep (ids : List InterfaceId) (this : Stp) (first : InterfaceId)
    (hnodup : ids.Nodup) :
    let r := ids.foldl selectRootStep (this, first)
    SameRoot this r.1 ∧ r.1.desPorts = this.desPorts ∧
      (∀ id, r.1.data id =
        if id ∈ ids then { this.data id with role := .notAssigned } else this.data id) ∧
      (r.2 = first ∨ r.2 ∈ ids) ∧
      ∀ id, id = first ∨ id ∈ ids → vector (this.data r.2) ≤ vector (this.data id) := by
  induction ids generalizing this first with
  | nil =>
    refine ⟨.refl this, rfl, fun id => by simp, .inl rfl, ?_⟩
    rintro id (rfl | h)
    · exact le_rfl
    · cases h
  | cons next ids ih =>
    have hfst := selectRootStep_fst (this, first) next
    have hvector : ∀ id, vector ((selectRootStep (this, first) next).1.data id) =
        vector (this.data id) := by
      intro id
      rw [hfst]
      by_cases h : id = next
      · subst h
        simp
      · rw [setRole_data_of_ne h]
    have hsnd := selectRootStep_snd this first next
    obtain ⟨hroot, hports, hdata, hmem, hbest⟩ :=
      ih (selectRootStep (this, first) next).1 (selectRootStep (this, first) next).2
        (List.nodup_cons.mp hnodup).2
    simp only [hvector] at hbest
    dsimp only
    rw [List.foldl_cons]
    refine ⟨?_, ?_, ?_, ?_, ?_⟩
    · refine .trans ?_ hroot
      rw [hfst]
      exact sameRoot_update ..
    · rw [hports, hfst]
      rfl
    · intro id
      rw [hdata id, hfst]
      by_cases h : id = next
      · subst h
        simp [(List.nodup_cons.mp hnodup).1]
      · rw [setRole_data_of_ne h]
        simp [h]
    · rcases hmem with h | h
      · rcases hsnd.1 with h' | h'
        · exact .inr (by rw [h, h']; exact List.mem_cons_self)
        · exact .inl (h.trans h')
      · exact .inr (List.mem_cons_of_mem _ h)
    · have hstep := hbest _ (.inl rfl)
      rintro id (rfl | h)
      · exact hstep.trans hsnd.2.1
      · rcases List.mem_cons.mp h with rfl | h
        · exact hstep.trans hsnd.2.2
        · exact hbest id (.inr h)

/-- The state `s` after the port `best` was selected as the root port of `this`. -/
structure RootSelected (this s : Stp) (best : InterfaceId) : Prop where
  mem : best ∈ this.ifTable.ids
  le : ∀ id ∈ this.ifTable.ids, vector (this.data best) ≤ vector (this.data id)
  parameters : s.toStpParameters = this.toStpParameters
  isRoot : s.isRoot = this.isRoot
  rootInterfaceId : s.rootInterfaceId = best
  rootPathCost : s.rootPathCost = (this.data best).rootPathCost
  rootPriority : s.rootPriority = (this.data best).rootPriority
  rootAddress : s.rootAddress = (this.data best).rootAddress
  bridgePriority : s.bridgePriority = this.bridgePriority
  data : ∀ id, s.data id =
    if id = best then { this.data id with role := .root }
    else if id ∈ this.ifTable.ids then { this.data id with role := .notAssigned }
    else this.data id

theorem sameRoot_noteRootPort (this : Stp) (id : InterfaceId) :
    SameRoot this (this.noteRootPort id) := by
  unfold noteRootPort
  split
  · exact ⟨rfl, rfl, rfl, rfl, rfl, rfl, rfl, rfl, rfl, rfl⟩
  · exact .refl this

theorem noteRootPort_data (this : Stp) (id : InterfaceId) :
    (this.noteRootPort id).data = this.data := by
  unfold noteRootPort
  split <;> rfl

theorem rootSelected_selectRootPort (this : Stp) :
    ∃ best, RootSelected this this.selectRootPort best := by
  have hfold := foldl_selectRootStep this.ifTable.ids { this with desPorts := [] }
    this.ifTable.first this.ifTable.nodup_ids
  unfold selectRootPort
  generalize this.ifTable.ids.foldl selectRootStep ({ this with desPorts := [] },
    this.ifTable.first) = found at hfold ⊢
  obtain ⟨s, best⟩ := found
  obtain ⟨hroot, -, hdata, hmem, hbest⟩ := hfold
  have hnoted := hroot.trans (sameRoot_noteRootPort s best)
  have hnotedData := noteRootPort_data s best
  have hbestMem : best ∈ this.ifTable.ids := by
    rcases hmem with rfl | h
    · exact this.ifTable.first_mem
    · exact h
  have hcleared :
    (s.noteRootPort best).data best = { this.data best with role := .notAssigned } := by
    rw [hnotedData, hdata best, if_pos hbestMem]
  refine ⟨best, hbestMem, fun id h => hbest id (.inr h), hnoted.parameters, hnoted.isRoot, rfl,
    (congrArg PortInfo.rootPathCost hcleared :), (congrArg PortInfo.rootPriority hcleared :),
    (congrArg PortInfo.rootAddress hcleared :),
    hnoted.bridgePriority, fun id => ?_⟩
  change ((s.noteRootPort best).setRole best .root).data id = _
  by_cases h : id = best
  · subst h
    rw [setRole_data_self, hcleared, if_pos rfl]
  · rw [setRole_data_of_ne h, hnotedData, if_neg h, hdata id]

/-! The designated ports. -/

theorem sameRoot_selectDesignatedStep (this : Stp) (id : InterfaceId) :
    SameRoot this (this.selectDesignatedStep id) := by
  unfold selectDesignatedStep
  dsimp only
  split_ifs
  · exact .refl this
  · exact ⟨rfl, rfl, rfl, rfl, rfl, rfl, rfl, rfl, rfl, rfl⟩
  · exact .refl this

theorem sameRoot_selectDesignatedPorts (this : Stp) : SameRoot this this.selectDesignatedPorts :=
  (sameRoot_clear this).trans (.forPorts sameRoot_selectDesignatedStep)

/-- What a bridge with the root information of `this` offers at a port with the data. -/
def offer (this : Stp) (id : InterfaceId) (port : PortInfo) : PortInfo :=
  { PortInfo.default 0 1 false with
    bridgePriority := this.configuredBridgePriority.toUInt32
    bridgeAddress := this.bridgeAddress
    rootAddress := this.rootAddress
    rootPriority := this.rootPriority
    portPriority := port.priority.toUInt32
    portNum := id
    rootPathCost := this.rootPathCost + port.linkCost }

theorem bridgeGlobal_eq (h : SameRoot this s) (id : InterfaceId) :
    s.bridgeGlobal id = this.offer id (s.data id) := by
  simp only [bridgeGlobal, offer, h.parameters, h.rootAddress, h.rootPriority, h.rootPathCost]

theorem selectDesignatedPorts_data (this : Stp) (id : InterfaceId) :
    this.selectDesignatedPorts.data id =
      if id ∈ this.ifTable.ids then
        if (this.data id).role = .root ∨ (this.data id).role = .disabled then this.data id
        else if 0 < comparePorts (this.bridgeGlobal id) (this.data id) then
          { this.data id with role := .designated }
        else this.data id
      else this.data id := by
  refine forPorts_data (SameRoot { this with desPorts := [] })
    (fun id port => if port.role = .root ∨ port.role = .disabled then port
      else if 0 < comparePorts (this.offer id port) port then { port with role := .designated }
      else port) (.refl _)
    (fun s id hs => hs.trans (sameRoot_selectDesignatedStep s id)) ?_ ?_ id
  · intro s id hs
    have hoffer : s.bridgeGlobal id = this.offer id (s.data id) := bridgeGlobal_eq hs id
    unfold selectDesignatedStep
    dsimp only
    rw [hoffer]
    split_ifs
    · rfl
    · exact setRole_data_self ..
    · rfl
  · intro s id id' _ hne
    unfold selectDesignatedStep
    dsimp only
    split_ifs
    · rfl
    · exact setRole_data_of_ne hne
    · rfl

end Inet.Ieee8021d.Stp
