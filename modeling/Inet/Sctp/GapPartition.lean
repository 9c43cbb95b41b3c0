import Inet.Lib.GuardedRun
import Inet.Sctp.GapMembers

/-! # Revokable and non-revokable TSNs

A TSN of the combined list is in exactly one of the revokable and the
non-revokable list. A sub-list is updated with a copy of the cumulative ack,
which is behind the real one at the end, and is then forwarded.
-/

namespace Inet.Sctp

structure SctpGapList where
  cumAckTsn : Tsn
  revokableGapList : SctpSimpleGapList
  nonRevokableGapList : SctpSimpleGapList
  combinedGapList : SctpSimpleGapList

namespace SctpGapList

/-- An empty list after `setInitialCumAckTsn`. -/
def new (cumAckTsn : Tsn) : SctpGapList := ⟨cumAckTsn, .new, .new, .new⟩

def check (this : SctpGapList) : Except Error Unit := do
  this.combinedGapList.check this.cumAckTsn
  this.revokableGapList.check this.cumAckTsn
  this.nonRevokableGapList.check this.cumAckTsn

/-- The two sub-lists are forwarded to the cumulative ack of the combined one. -/
def forwardSubLists (this : SctpGapList) : Except Error SctpGapList := do
  let revokableGapList ← this.revokableGapList.forwardCumAckTsn this.cumAckTsn
  let nonRevokableGapList ← this.nonRevokableGapList.forwardCumAckTsn this.cumAckTsn
  pure { this with revokableGapList, nonRevokableGapList }

def forwardCumAckTsn (this : SctpGapList) (cumAckTsn : Tsn) : Except Error SctpGapList := do
  let combinedGapList ← this.combinedGapList.forwardCumAckTsn cumAckTsn
  forwardSubLists { this with cumAckTsn, combinedGapList }

def tryToAdvanceCumAckTsn (this : SctpGapList) : Except Error (SctpGapList × Bool) := do
  let (combinedGapList, cumAckTsn, progress) ←
    this.combinedGapList.tryToAdvanceCumAckTsn this.cumAckTsn
  let this := { this with cumAckTsn, combinedGapList }
  if progress then do
    let this ← this.forwardSubLists
    pure (this, true)
  else pure (this, false)

def removeFromGapList (this : SctpGapList) (removedTsn : Tsn) : Except Error SctpGapList := do
  let revokableGapList ← this.revokableGapList.removeFromGapList removedTsn
  let nonRevokableGapList ← this.nonRevokableGapList.removeFromGapList removedTsn
  let combinedGapList ← this.combinedGapList.removeFromGapList removedTsn
  pure { this with revokableGapList, nonRevokableGapList, combinedGapList }

/-- The sub-lists of `updateGapList`, and whether a new chunk was received. -/
def updateSubLists (this : SctpGapList) (receivedTsn : Tsn)
    (newChunkReceived tsnIsRevokable : Bool) :
    Except Error (SctpGapList × Bool) :=
  if tsnIsRevokable then do
    let (revokableGapList, _, newChunkReceived, _) ←
      this.revokableGapList.updateGapList receivedTsn this.cumAckTsn newChunkReceived
    pure ({ this with revokableGapList }, newChunkReceived)
  else do
    let (nonRevokableGapList, _, newChunkReceived, result) ←
      this.nonRevokableGapList.updateGapList receivedTsn this.cumAckTsn newChunkReceived
    if result then do
      let revokableGapList ← this.revokableGapList.removeFromGapList receivedTsn
      pure ({ this with revokableGapList, nonRevokableGapList }, newChunkReceived)
    else pure ({ this with nonRevokableGapList }, newChunkReceived)

/-- The lists, whether a new chunk was received, and the result. -/
def updateGapList (this : SctpGapList) (receivedTsn : Tsn)
    (newChunkReceived tsnIsRevokable : Bool) :
    Except Error (SctpGapList × Bool × Bool) := do
  let (this, newChunkReceived) ← this.updateSubLists receivedTsn newChunkReceived tsnIsRevokable
  let oldCumAckTsn := this.cumAckTsn
  let (combinedGapList, cumAckTsn, newChunkReceived, newChunk) ←
    this.combinedGapList.updateGapList receivedTsn this.cumAckTsn newChunkReceived
  let this := { this with cumAckTsn, combinedGapList }
  if oldCumAckTsn ≠ cumAckTsn then do
    let this ← this.forwardSubLists
    pure (this, newChunkReceived, newChunk)
  else pure (this, newChunkReceived, newChunk)

def BelowLimit (this : SctpGapList) : Prop :=
  this.revokableGapList.numGaps < MAX_GAP_COUNT ∧ this.nonRevokableGapList.numGaps < MAX_GAP_COUNT ∧
    this.combinedGapList.numGaps < MAX_GAP_COUNT

instance (this : SctpGapList) : Decidable this.BelowLimit := inferInstanceAs (Decidable (_ ∧ _))

/-- The sub-list that a report goes to. -/
def reported (this : SctpGapList) (tsnIsRevokable : Bool) : SctpSimpleGapList :=
  if tsnIsRevokable then this.revokableGapList else this.nonRevokableGapList

end SctpGapList

/-! ## Runs -/

/-- The gap lists, and the TSNs above the cumulative ack that have been reported non-revokable and
not been removed. -/
structure GapReports where
  gapList : SctpGapList
  nonRevokable : List Tsn

inductive GapReportCall where
  | updateGapList (receivedTsn : Tsn) (tsnIsRevokable : Bool)
  | removeFromGapList (removedTsn : Tsn)
  | forwardCumAckTsn (cumAckTsn : Tsn)
  | tryToAdvanceCumAckTsn
  deriving DecidableEq, Repr

namespace GapReports

def new (cumAckTsn : Tsn) : GapReports := ⟨.new cumAckTsn, []⟩

/-- The reports that are above the cumulative ack. -/
def above (gapList : SctpGapList) (nonRevokable : List Tsn) : GapReports :=
  ⟨gapList, nonRevokable.filter (tsnGt · gapList.cumAckTsn)⟩

def step (r : GapReports) : GapReportCall → Except Error GapReports
  | .updateGapList receivedTsn tsnIsRevokable => do
    let (gapList, _, _) ← r.gapList.updateGapList receivedTsn false tsnIsRevokable
    pure (above gapList (if tsnIsRevokable then r.nonRevokable else receivedTsn :: r.nonRevokable))
  | .removeFromGapList removedTsn => do
    let gapList ← r.gapList.removeFromGapList removedTsn
    pure (above gapList (r.nonRevokable.filter (· ≠ removedTsn)))
  | .forwardCumAckTsn cumAckTsn => do
    let gapList ← r.gapList.forwardCumAckTsn cumAckTsn
    pure (above gapList r.nonRevokable)
  | .tryToAdvanceCumAckTsn => do
    let (gapList, _) ← r.gapList.tryToAdvanceCumAckTsn
    pure (above gapList r.nonRevokable)

/-- TSNs are less than half of the space above the cumulative ack or not above it, and one that was
reported non-revokable is not reported revokable. TSNs are added and removed below the limit. -/
def Enabled (r : GapReports) : GapReportCall → Prop
  | .updateGapList tsn tsnIsRevokable => r.gapList.BelowLimit ∧
      (tsnLe tsn r.gapList.cumAckTsn = true ∨ offset r.gapList.cumAckTsn tsn < 2 ^ 31) ∧
      (tsnIsRevokable = true → tsn ∉ r.nonRevokable)
  | .removeFromGapList _ => r.gapList.BelowLimit
  | .forwardCumAckTsn cumAckTsn => offset r.gapList.cumAckTsn cumAckTsn < 2 ^ 31
  | .tryToAdvanceCumAckTsn => True

instance (r : GapReports) (c : GapReportCall) : Decidable (r.Enabled c) :=
  match c with
  | .updateGapList _ _ => inferInstanceAs (Decidable (_ ∧ _ ∧ _))
  | .removeFromGapList _ => inferInstanceAs (Decidable r.gapList.BelowLimit)
  | .forwardCumAckTsn cumAckTsn =>
    inferInstanceAs (Decidable (offset r.gapList.cumAckTsn cumAckTsn < 2 ^ 31))
  | .tryToAdvanceCumAckTsn => inferInstanceAs (Decidable True)

/-- The state after a run in which every call is enabled. -/
def run (r : GapReports) (cs : List GapReportCall) : Option GapReports :=
  GuardedRun.run step Enabled r cs

/-- The check accepts all lists, every TSN of the combined one is in exactly one of the others, and
those reported non-revokable are in the list for them. -/
structure Partitioned (r : GapReports) : Prop where
  check : r.gapList.check = .ok ()
  disjoint : ∀ t, ¬ (r.gapList.revokableGapList.tsnInGapList t = true ∧
    r.gapList.nonRevokableGapList.tsnInGapList t = true)
  union : ∀ t, r.gapList.combinedGapList.tsnInGapList t = true ↔
    r.gapList.revokableGapList.tsnInGapList t = true ∨
      r.gapList.nonRevokableGapList.tsnInGapList t = true
  reported : ∀ t ∈ r.nonRevokable, r.gapList.nonRevokableGapList.tsnInGapList t = true

/-- The lists are partitioned when the check accepts the combined one. -/
def Agrees (r : GapReports) : Prop :=
  r.gapList.combinedGapList.check r.gapList.cumAckTsn = .ok () → r.Partitioned

/-- Every call of the run returns, and the lists agree in every state of it. -/
def AgreesRun (r : GapReports) (cs : List GapReportCall) : Prop :=
  GuardedRun.Holds step Enabled Agrees (fun _ _ _ => True) r cs

/-- When a TSN above the cumulative ack is reported, no block of its lists starts at the TSN 0, and
the cumulative ack is not forwarded to right before a TSN of the combined list. -/
def Careful (r : GapReports) : GapReportCall → Prop
  | .updateGapList tsn tsnIsRevokable => tsnLe tsn r.gapList.cumAckTsn = true ∨
      r.gapList.combinedGapList.NoZeroStart ∧ (r.gapList.reported tsnIsRevokable).NoZeroStart
  | .forwardCumAckTsn cumAckTsn => r.gapList.combinedGapList.tsnInGapList (cumAckTsn + 1) ≠ true
  | .removeFromGapList _ | .tryToAdvanceCumAckTsn => True

instance (r : GapReports) (c : GapReportCall) : Decidable (r.Careful c) :=
  match c with
  | .updateGapList _ _ => inferInstanceAs
      (Decidable (_ ∨ (∀ block ∈ r.gapList.combinedGapList.blocks, _) ∧ ∀ block ∈ _, _))
  | .forwardCumAckTsn _ => inferInstanceAs (Decidable (_ ≠ _))
  | .removeFromGapList _ | .tryToAdvanceCumAckTsn => inferInstanceAs (Decidable True)

def CarefulRun (r : GapReports) (cs : List GapReportCall) : Prop :=
  GuardedRun.CarefulRun step Enabled Careful r cs

instance (r : GapReports) (cs : List GapReportCall) : Decidable (r.CarefulRun cs) :=
  GuardedRun.instDecidableCarefulRun step Enabled Careful r cs

end GapReports

namespace SctpGapList

open SctpSimpleGapList

/-- Each of the lists has the TSNs of its set that are behind the cumulative ack. -/
structure Holds (this : SctpGapList) (base : Tsn) (R N C : Tsn → Prop) : Prop where
  revokable : this.revokableGapList.Holds base this.cumAckTsn R
  nonRevokable : this.nonRevokableGapList.Holds base this.cumAckTsn N
  combined : this.combinedGapList.Holds base this.cumAckTsn C

variable {this this' : SctpGapList} {base tsn cR cN : Tsn} {R N C : Tsn → Prop}

theorem exists_forwardSubLists (this : SctpGapList)
    (hR : this.revokableGapList.Holds base cR R)
    (hN : this.nonRevokableGapList.Holds base cN N)
    (hC : this.combinedGapList.Holds base this.cumAckTsn C)
    (hleR : offset base cR ≤ offset base this.cumAckTsn)
    (hleN : offset base cN ≤ offset base this.cumAckTsn)
    (hR' : ¬ R (this.cumAckTsn + 1)) (hN' : ¬ N (this.cumAckTsn + 1)) :
    ∃ this', this.forwardSubLists = .ok this' ∧ this'.cumAckTsn = this.cumAckTsn ∧
      this'.Holds base R N C := by
  obtain ⟨revokable, hrevokable, hR⟩ := hR.forward hleR hC.window hR'
  obtain ⟨nonRevokable, hnonRevokable, hN⟩ := hN.forward hleN hC.window hN'
  exact ⟨{ this with revokableGapList := revokable, nonRevokableGapList := nonRevokable },
    Error.bind_of_eq_ok hrevokable (Error.bind_of_eq_ok hnonRevokable rfl), rfl, hR, hN, hC⟩

theorem offset_self_le : offset base base ≤ offset base tsn := by
  rw [offset_self]
  exact Nat.zero_le _

theorem eq_of_offset_le (h : offset base cR ≤ offset base base) : cR = base := by
  rw [offset_self, Nat.le_zero, ← offset_self base, offset_inj] at h
  exact h

theorem exists_updateGapList_of_subLists {newChunkReceived newChunkReceived' tsnIsRevokable : Bool}
    (hsub : this.updateSubLists tsn newChunkReceived tsnIsRevokable =
      .ok (this', newChunkReceived'))
    (hcumAck : this'.cumAckTsn = this.cumAckTsn)
    (hcombined : this'.combinedGapList = this.combinedGapList)
    (hvalid : this.combinedGapList.Valid this.cumAckTsn)
    (hroom : this.combinedGapList.numGaps < MAX_GAP_COUNT)
    (hzero : this.combinedGapList.NoZeroStart) (hwindow : offset this.cumAckTsn tsn < 2 ^ 31)
    (hR : this'.revokableGapList.Holds this.cumAckTsn cR R)
    (hN : this'.nonRevokableGapList.Holds this.cumAckTsn cN N)
    (hsubset : ∀ t, R t ∨ N t → this.combinedGapList.tsnInGapList t = true ∨ t = tsn)
    (hle : ∀ {combined cumAckTsn},
      this.combinedGapList.Takes this.cumAckTsn tsn combined cumAckTsn →
      offset this.cumAckTsn cR ≤ offset this.cumAckTsn cumAckTsn ∧
      offset this.cumAckTsn cN ≤ offset this.cumAckTsn cumAckTsn) :
    ∃ this'' new result, this.updateGapList tsn newChunkReceived tsnIsRevokable =
        .ok (this'', new, result) ∧ this''.Holds this.cumAckTsn R N
          fun t => this.combinedGapList.tsnInGapList t = true ∨ t = tsn := by
  obtain ⟨combined, cumAckTsn, new, hupdate, htakes, -⟩ :=
    hvalid.exists_updateGapList hzero hwindow newChunkReceived'
  have hC := htakes.holds hvalid hroom hwindow
  have hmissing := htakes.next_missing hvalid hroom hwindow
  obtain ⟨hleR, hleN⟩ := hle htakes
  rw [updateGapList, hsub, Error.ok_bind]
  dsimp only
  rw [hcumAck, hcombined, hupdate, Error.ok_bind]
  dsimp only
  by_cases heq : this.cumAckTsn = cumAckTsn
  · subst heq
    rw [if_neg (not_not.2 rfl)]
    obtain rfl := eq_of_offset_le hleR
    obtain rfl := eq_of_offset_le hleN
    exact ⟨_, _, _, rfl, hR, hN, hC⟩
  · rw [if_pos heq]
    obtain ⟨this'', hforward, -, hholds⟩ := exists_forwardSubLists
      { this' with cumAckTsn, combinedGapList := combined } hR hN hC hleR hleN
      (fun h => hmissing (hsubset _ (.inl h))) fun h => hmissing (hsubset _ (.inr h))
    rw [hforward]
    exact ⟨_, _, _, rfl, hholds⟩

end SctpGapList

namespace GapReports

open SctpSimpleGapList SctpGapList

/-! ## The invariant -/

structure Valid (r : GapReports) : Prop where
  revokable : r.gapList.revokableGapList.Valid r.gapList.cumAckTsn
  nonRevokable : r.gapList.nonRevokableGapList.Valid r.gapList.cumAckTsn
  combined : r.gapList.combinedGapList.Valid r.gapList.cumAckTsn
  disjoint : ∀ t, r.gapList.revokableGapList.tsnInGapList t = true →
    r.gapList.nonRevokableGapList.tsnInGapList t ≠ true
  union : ∀ t, r.gapList.combinedGapList.tsnInGapList t = true ↔
    r.gapList.revokableGapList.tsnInGapList t = true ∨
      r.gapList.nonRevokableGapList.tsnInGapList t = true
  reported : ∀ t, t ∈ r.nonRevokable ↔ r.gapList.nonRevokableGapList.tsnInGapList t = true

variable {r : GapReports} {c : GapReportCall} {gapList : SctpGapList} {base tsn : Tsn}

theorem Valid.partitioned (h : r.Valid) : r.Partitioned where
  check := Error.bind_of_eq_ok h.combined.check_eq
    (Error.bind_of_eq_ok h.revokable.check_eq h.nonRevokable.check_eq)
  disjoint t ht := h.disjoint t ht.1 ht.2
  union := h.union
  reported t := (h.reported t).1

theorem valid_above {R N C : Tsn → Prop} {nonRevokable : List Tsn}
    (h : gapList.Holds base R N C) (hdisjoint : ∀ t, R t → ¬ N t)
    (hunion : ∀ t, C t ↔ R t ∨ N t) (hreported : ∀ t, t ∈ nonRevokable ↔ N t) :
    (above gapList nonRevokable).Valid where
  revokable := h.revokable.valid
  nonRevokable := h.nonRevokable.valid
  combined := h.combined.valid
  disjoint t ht ht' := hdisjoint t ((h.revokable.mem t).1 ht).1 ((h.nonRevokable.mem t).1 ht').1
  union t := by
    change gapList.combinedGapList.tsnInGapList t = true ↔
      gapList.revokableGapList.tsnInGapList t = true ∨
        gapList.nonRevokableGapList.tsnInGapList t = true
    rw [h.combined.mem, h.revokable.mem, h.nonRevokable.mem, hunion, or_and_right]
  reported := h.nonRevokable.mem_filter hreported

theorem Valid.holds (h : r.Valid) : r.gapList.Holds r.gapList.cumAckTsn
    (fun t => r.gapList.revokableGapList.tsnInGapList t = true)
    (fun t => r.gapList.nonRevokableGapList.tsnInGapList t = true)
    (fun t => r.gapList.combinedGapList.tsnInGapList t = true) :=
  ⟨h.revokable.holds, h.nonRevokable.holds, h.combined.holds⟩

theorem Valid.above (h : r.Valid) : (above r.gapList r.nonRevokable).Valid :=
  valid_above h.holds h.disjoint h.union h.reported

theorem Valid.step_covered (h : r.Valid) {tsnIsRevokable : Bool}
    (hle : tsnLe tsn r.gapList.cumAckTsn = true) :
    ∃ r', r.step (.updateGapList tsn tsnIsRevokable) = .ok r' ∧ r'.Valid := by
  have hcombined : r.gapList.combinedGapList.updateGapList tsn r.gapList.cumAckTsn false =
    .ok (_, _, false, false) := if_pos hle
  have hsub : r.gapList.updateSubLists tsn false tsnIsRevokable = .ok (r.gapList, false) := by
    cases tsnIsRevokable with
    | true =>
      have hupdate : r.gapList.revokableGapList.updateGapList tsn r.gapList.cumAckTsn false =
        .ok (_, _, false, false) := if_pos hle
      exact Error.bind_of_eq_ok hupdate rfl
    | false =>
      have hupdate : r.gapList.nonRevokableGapList.updateGapList tsn r.gapList.cumAckTsn false =
        .ok (_, _, false, false) := if_pos hle
      exact Error.bind_of_eq_ok hupdate rfl
  have hupdate : r.gapList.updateGapList tsn false tsnIsRevokable =
    .ok (r.gapList, false, false) := by
    rw [SctpGapList.updateGapList, hsub, Error.ok_bind]
    dsimp only
    rw [hcombined, Error.ok_bind]
    dsimp only
    rw [if_neg (not_not.2 rfl)]
    rfl
  refine ⟨_, Error.bind_of_eq_ok hupdate rfl, ?_⟩
  cases tsnIsRevokable with
  | true => exact h.above
  | false =>
    rw [if_neg Bool.false_ne_true, GapReports.above, List.filter_cons_of_neg
      (Bool.not_eq_true _ ▸ tsnGt_of_tsnLe hle)]
    exact h.above

theorem Valid.step_revokable (h : r.Valid) (hlimit : r.gapList.BelowLimit)
    (hzero : r.gapList.combinedGapList.NoZeroStart)
    (hzero' : r.gapList.revokableGapList.NoZeroStart)
    (hwindow : offset r.gapList.cumAckTsn tsn < 2 ^ 31) (hnew : tsn ∉ r.nonRevokable) :
    ∃ r', r.step (.updateGapList tsn true) = .ok r' ∧ r'.Valid := by
  obtain ⟨hroomR, hroomN, hroomC⟩ := hlimit
  obtain ⟨revokable, cR, new, hupdate, htakes, -⟩ :=
    h.revokable.exists_updateGapList hzero' hwindow false
  have hsub : r.gapList.updateSubLists tsn false true =
    .ok ({ r.gapList with revokableGapList := revokable }, new) := Error.bind_of_eq_ok hupdate rfl
  have hunion : ∀ t, r.gapList.combinedGapList.tsnInGapList t = true ∨ t = tsn ↔
      (r.gapList.revokableGapList.tsnInGapList t = true ∨ t = tsn) ∨
        r.gapList.nonRevokableGapList.tsnInGapList t = true := fun t => by
    rw [h.union, or_right_comm]
  obtain ⟨gapList, new', result, hstep, hholds⟩ := exists_updateGapList_of_subLists hsub rfl rfl
    h.combined hroomC hzero hwindow (htakes.holds h.revokable hroomR hwindow) h.nonRevokable.holds
    (fun t => (hunion t).2) fun htakes' => ⟨htakes.reaches_le htakes' h.revokable h.combined hroomR
      hroomC fun t ht => (h.union t).2 (.inl ht), offset_self_le⟩
  refine ⟨_, Error.bind_of_eq_ok hstep rfl, valid_above hholds (fun t => ?_) hunion h.reported⟩
  rintro (ht | rfl) ht'
  · exact h.disjoint t ht ht'
  · exact hnew ((h.reported t).2 ht')

theorem Valid.step_nonRevokable (h : r.Valid) (hlimit : r.gapList.BelowLimit)
    (hzero : r.gapList.combinedGapList.NoZeroStart)
    (hzero' : r.gapList.nonRevokableGapList.NoZeroStart)
    (hwindow : offset r.gapList.cumAckTsn tsn < 2 ^ 31)
    (hpos : 0 < offset r.gapList.cumAckTsn tsn) :
    ∃ r', r.step (.updateGapList tsn false) = .ok r' ∧ r'.Valid := by
  obtain ⟨hroomR, hroomN, hroomC⟩ := hlimit
  obtain ⟨nonRevokable, cN, new, hupdate, htakes, -⟩ :=
    h.nonRevokable.exists_updateGapList hzero' hwindow false
  obtain ⟨revokable, hremove, hremoved⟩ := h.revokable.removed hroomR tsn
  rw [decide_eq_true hpos] at hupdate
  have hsub : r.gapList.updateSubLists tsn false false =
      .ok ({ r.gapList with revokableGapList := revokable, nonRevokableGapList := nonRevokable },
        new) := Error.bind_of_eq_ok hupdate (Error.bind_of_eq_ok hremove rfl)
  have hunion : ∀ t, r.gapList.combinedGapList.tsnInGapList t = true ∨ t = tsn ↔
      (r.gapList.revokableGapList.tsnInGapList t = true ∧ t ≠ tsn) ∨
        r.gapList.nonRevokableGapList.tsnInGapList t = true ∨ t = tsn := fun t => by
    rw [h.union]
    by_cases heq : t = tsn
    · exact iff_of_true (.inr heq) (.inr (.inr heq))
    · simp only [heq, or_false, ne_eq, not_false_eq_true, and_true]
  obtain ⟨gapList, new', result, hstep, hholds⟩ := exists_updateGapList_of_subLists hsub rfl rfl
    h.combined hroomC hzero hwindow hremoved (htakes.holds h.nonRevokable hroomN hwindow)
    (fun t => (hunion t).2) fun htakes' => ⟨offset_self_le, htakes.reaches_le htakes' h.nonRevokable
      h.combined hroomN hroomC fun t ht => (h.union t).2 (.inr ht)⟩
  refine ⟨_, Error.bind_of_eq_ok hstep rfl, valid_above hholds (fun t => ?_) hunion fun t => ?_⟩
  · rintro ⟨ht, hne⟩ (ht' | rfl)
    · exact h.disjoint t ht ht'
    · exact hne rfl
  · rw [if_neg Bool.false_ne_true, List.mem_cons, h.reported, or_comm]

/-- Every careful call returns and keeps the invariant. -/
theorem Valid.step (h : r.Valid) (henabled : r.Enabled c) (hcareful : r.Careful c) :
    ∃ r', r.step c = .ok r' ∧ r'.Valid := by
  cases c with
  | updateGapList tsn tsnIsRevokable =>
    obtain ⟨hlimit, hwindow, hnew⟩ := henabled
    by_cases hle : tsnLe tsn r.gapList.cumAckTsn = true
    · exact h.step_covered hle
    · obtain ⟨hzero, hzero'⟩ := hcareful.resolve_left hle
      have hwindow := hwindow.resolve_left hle
      cases tsnIsRevokable with
      | true => exact h.step_revokable hlimit hzero hzero' hwindow (hnew rfl)
      | false =>
        exact h.step_nonRevokable hlimit hzero hzero' hwindow
          (Nat.pos_of_ne_zero (mt tsnLe_of_offset hle))
  | removeFromGapList removedTsn =>
    obtain ⟨hroomR, hroomN, hroomC⟩ := henabled
    obtain ⟨revokable, hrevokable, hR⟩ := h.revokable.removed hroomR removedTsn
    obtain ⟨nonRevokable, hnonRevokable, hN⟩ := h.nonRevokable.removed hroomN removedTsn
    obtain ⟨combined, hcombined, hC⟩ := h.combined.removed hroomC removedTsn
    have hremove : r.gapList.removeFromGapList removedTsn = .ok _ :=
      Error.bind_of_eq_ok hrevokable
        (Error.bind_of_eq_ok hnonRevokable (Error.bind_of_eq_ok hcombined rfl))
    refine ⟨_, Error.bind_of_eq_ok hremove rfl, valid_above ⟨hR, hN, hC⟩ (fun t ht ht' => ?_)
      (fun t => ?_) fun t => ?_⟩
    · exact h.disjoint t ht.1 ht'.1
    · rw [h.union, or_and_right]
    · rw [List.mem_filter, h.reported, decide_eq_true_iff]
  | forwardCumAckTsn cumAckTsn =>
    obtain ⟨combined, hcombined, hC⟩ := h.combined.forward_holds henabled hcareful
    obtain ⟨gapList, hforward, -, hholds⟩ := exists_forwardSubLists
      { r.gapList with cumAckTsn, combinedGapList := combined } h.revokable.holds
      h.nonRevokable.holds hC offset_self_le offset_self_le
      (fun ht => hcareful ((h.union _).2 (.inl ht))) fun ht => hcareful ((h.union _).2 (.inr ht))
    exact ⟨_, Error.bind_of_eq_ok (Error.bind_of_eq_ok hcombined hforward) rfl,
      valid_above hholds h.disjoint h.union h.reported⟩
  | tryToAdvanceCumAckTsn =>
    have hadvance : r.gapList.tryToAdvanceCumAckTsn = .ok (r.gapList, false) :=
      Error.bind_of_eq_ok h.combined.tryToAdvanceCumAckTsn_eq rfl
    exact ⟨_, Error.bind_of_eq_ok hadvance rfl, h.above⟩

theorem valid_new (cumAckTsn : Tsn) : (new cumAckTsn).Valid where
  revokable := SctpSimpleGapList.valid_new cumAckTsn
  nonRevokable := SctpSimpleGapList.valid_new cumAckTsn
  combined := SctpSimpleGapList.valid_new cumAckTsn
  disjoint _ ht := (Bool.false_ne_true ht).elim
  union t := by
    change false = true ↔ false = true ∨ false = true
    rw [or_self]
  reported t := by
    change t ∈ [] ↔ false = true
    simp only [List.not_mem_nil, Bool.false_eq_true]

/-- In a careful run the two sub-lists are a partition of the combined list. -/
theorem agreesRun_of_carefulRun (cumAckTsn : Tsn) {cs : List GapReportCall}
    (h : (new cumAckTsn).CarefulRun cs) : (new cumAckTsn).AgreesRun cs :=
  GuardedRun.CarefulRun.holds (fun _ hr _ => hr.partitioned)
    (fun _ _ hr henabled hcareful => by
      obtain ⟨r', hstep, hvalid⟩ := hr.step henabled hcareful
      exact ⟨r', hstep, hvalid, trivial⟩) h (valid_new cumAckTsn)

/-- TSNs become non-revokable, and the gap before them is closed across the TSN 0. -/
theorem agreesRun_closed : (new 0xfffffffc#32).AgreesRun [.updateGapList 0xfffffffe#32 true,
    .updateGapList 0xffffffff#32 false, .updateGapList 0#32 false,
      .updateGapList 0xfffffffe#32 false,
    .removeFromGapList 0#32, .updateGapList 0xfffffffd#32 true, .tryToAdvanceCumAckTsn,
    .updateGapList 3#32 false, .forwardCumAckTsn 1#32] :=
  agreesRun_of_carefulRun _ (by decide +kernel)

/-- Forwarding into a block takes it out of the combined list, and its end stays in a sub-list. -/
theorem not_agreesRun_forward : ¬ (new 3#32).AgreesRun [.updateGapList 5#32 true,
    .updateGapList 6#32 false, .forwardCumAckTsn 5#32] := by
  intro h
  have hstate : ((new 3#32).run [.updateGapList 5#32 true, .updateGapList 6#32 false,
      .forwardCumAckTsn 5#32]).map (fun r =>
        ((r.gapList.combinedGapList.check r.gapList.cumAckTsn).toOption,
          r.gapList.combinedGapList.tsnInGapList 6#32,
          r.gapList.nonRevokableGapList.tsnInGapList 6#32)) = some (some (), false, true) := by
    decide +kernel
  obtain ⟨r, hrun, hr⟩ := Option.map_eq_some_iff.1 hstate
  obtain ⟨hcheck, hr⟩ := Prod.mk.inj hr
  obtain ⟨hcombined, hnonRevokable⟩ := Prod.mk.inj hr
  have haccepted : r.gapList.combinedGapList.check r.gapList.cumAckTsn = .ok () := by
    cases hc : r.gapList.combinedGapList.check r.gapList.cumAckTsn with
    | error e =>
      rw [hc] at hcheck
      cases hcheck
    | ok u => rfl
  have hpartitioned := GuardedRun.Holds.safe_of_run h hrun haccepted
  rw [(hpartitioned.union _).2 (.inr hnonRevokable)] at hcombined
  cases hcombined

end GapReports

end Inet.Sctp
