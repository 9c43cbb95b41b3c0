import Inet.Lib.GuardedRun
import Inet.Sctp.GapMembers

/-! # The received TSNs above the cumulative ack

Below the limit of the blocks a gap list is the set of the TSNs above the
cumulative ack that were received and neither removed nor covered since, and the
cumulative ack goes on to the end of the received TSNs right behind it.
-/

namespace Inet.Sctp

open SctpSimpleGapList

/-- A gap list, with what its owner keeps. -/
structure GapReception where
  gapList : SctpSimpleGapList
  cTsnAck : Tsn
  newChunkReceived : Bool
  /-- The TSNs above the cumulative ack that were received and have not been removed. -/
  received : List Tsn

inductive GapReceptionCall where
  | updateGapList (receivedTsn : Tsn) (newChunkReceived : Bool)
  | removeFromGapList (removedTsn : Tsn)
  | forwardCumAckTsn (cTsnAck : Tsn)
  | tryToAdvanceCumAckTsn
  deriving DecidableEq, Repr

namespace GapReception

/-- A list after `resetGaps`. -/
def new (cTsnAck : Tsn) : GapReception := ⟨.new, cTsnAck, false, []⟩

/-- The TSNs that the cumulative ack covers are given up. -/
def above (r : GapReception) : GapReception :=
  { r with received := r.received.filter (tsnGt · r.cTsnAck) }

def step (r : GapReception) : GapReceptionCall → Except Error GapReception
  | .updateGapList receivedTsn newChunkReceived => do
    let (gapList, cTsnAck, newChunkReceived, _) ←
      r.gapList.updateGapList receivedTsn r.cTsnAck newChunkReceived
    pure (above ⟨gapList, cTsnAck, newChunkReceived, receivedTsn :: r.received⟩)
  | .removeFromGapList removedTsn => do
    let gapList ← r.gapList.removeFromGapList removedTsn
    pure (above { r with gapList, received := r.received.filter (· ≠ removedTsn) })
  | .forwardCumAckTsn cTsnAck => do
    let gapList ← r.gapList.forwardCumAckTsn cTsnAck
    pure (above { r with gapList, cTsnAck })
  | .tryToAdvanceCumAckTsn => do
    let (gapList, cTsnAck, _) ← r.gapList.tryToAdvanceCumAckTsn r.cTsnAck
    pure (above { r with gapList, cTsnAck })

/-- TSNs are less than half of the space above the cumulative ack or not above it, and are added
and removed below the limit of the blocks. -/
def Enabled (r : GapReception) : GapReceptionCall → Prop
  | .updateGapList tsn _ => r.gapList.numGaps < MAX_GAP_COUNT ∧
      (tsnLe tsn r.cTsnAck = true ∨ offset r.cTsnAck tsn < 2 ^ 31)
  | .removeFromGapList _ => r.gapList.numGaps < MAX_GAP_COUNT
  | .forwardCumAckTsn cTsnAck => offset r.cTsnAck cTsnAck < 2 ^ 31
  | .tryToAdvanceCumAckTsn => True

instance (r : GapReception) (c : GapReceptionCall) : Decidable (r.Enabled c) :=
  match c with
  | .updateGapList _ _ => inferInstanceAs (Decidable (_ ∧ _))
  | .removeFromGapList _ => inferInstanceAs (Decidable (r.gapList.numGaps < MAX_GAP_COUNT))
  | .forwardCumAckTsn cTsnAck => inferInstanceAs (Decidable (offset r.cTsnAck cTsnAck < 2 ^ 31))
  | .tryToAdvanceCumAckTsn => inferInstanceAs (Decidable True)

/-- The state after a run in which every call is enabled. -/
def run (r : GapReception) (cs : List GapReceptionCall) : Option GapReception :=
  GuardedRun.run step Enabled r cs

/-- The list passes its check and has exactly the received TSNs. -/
structure Exact (r : GapReception) : Prop where
  check : r.gapList.check r.cTsnAck = .ok ()
  mem : ∀ tsn, r.gapList.tsnInGapList tsn = true ↔ tsn ∈ r.received

/-- The second TSN is the end of the longest run of received TSNs that starts right behind the
first one. -/
structure EndsRun (received : List Tsn) (first last : Tsn) : Prop where
  all : ∀ tsn, 0 < offset first tsn → offset first tsn ≤ offset first last → tsn ∈ received
  next : last + 1 ∉ received

/-- What a call does that adds TSNs to the list or to the cumulative ack. -/
def Meets (r : GapReception) : GapReceptionCall → GapReception → Prop
  | .updateGapList tsn newChunkReceived, r' => r'.Exact ∧
      (r'.newChunkReceived = true ↔ newChunkReceived = true ∨
        ¬ (tsnLe tsn r.cTsnAck = true ∨ r.gapList.tsnInGapList tsn = true)) ∧
      EndsRun (tsn :: r.received) r.cTsnAck r'.cTsnAck
  | .tryToAdvanceCumAckTsn, r' => r'.Exact ∧ EndsRun r.received r.cTsnAck r'.cTsnAck
  | .removeFromGapList _, _ | .forwardCumAckTsn _, _ => True

/-- Every call of the run returns and does so. -/
def ExactRun (r : GapReception) (cs : List GapReceptionCall) : Prop :=
  GuardedRun.Holds step Enabled (fun _ => True) Meets r cs

/-- When a TSN above the cumulative ack is received, no block starts at the TSN 0, and the
cumulative ack is not forwarded to right before a TSN of the list. -/
def Careful (r : GapReception) : GapReceptionCall → Prop
  | .updateGapList tsn _ => tsnLe tsn r.cTsnAck = true ∨ r.gapList.NoZeroStart
  | .forwardCumAckTsn cTsnAck => r.gapList.tsnInGapList (cTsnAck + 1) ≠ true
  | .removeFromGapList _ | .tryToAdvanceCumAckTsn => True

instance (r : GapReception) (c : GapReceptionCall) : Decidable (r.Careful c) :=
  match c with
  | .updateGapList _ _ => inferInstanceAs (Decidable (_ ∨ ∀ block ∈ r.gapList.blocks, _))
  | .forwardCumAckTsn _ => inferInstanceAs (Decidable (_ ≠ _))
  | .removeFromGapList _ | .tryToAdvanceCumAckTsn => inferInstanceAs (Decidable True)

def CarefulRun (r : GapReception) (cs : List GapReceptionCall) : Prop :=
  GuardedRun.CarefulRun step Enabled Careful r cs

instance (r : GapReception) (cs : List GapReceptionCall) : Decidable (r.CarefulRun cs) :=
  GuardedRun.instDecidableCarefulRun step Enabled Careful r cs

/-! ## The invariant -/

structure Valid (r : GapReception) : Prop where
  gapList : SctpSimpleGapList.Valid r.gapList r.cTsnAck
  mem : ∀ tsn, tsn ∈ r.received ↔ r.gapList.tsnInGapList tsn = true

variable {r : GapReception} {c : GapReceptionCall} {base tsn : Tsn} {S : Tsn → Prop}

theorem Valid.exact (h : r.Valid) : r.Exact := ⟨h.gapList.check_eq, fun tsn => (h.mem tsn).symm⟩

theorem valid_above (h : r.gapList.Holds base r.cTsnAck S) (hmem : ∀ t, t ∈ r.received ↔ S t) :
    r.above.Valid := ⟨h.valid, h.mem_filter hmem⟩

theorem Valid.above (h : r.Valid) : r.above.Valid := valid_above h.gapList.holds h.mem

theorem Valid.next_not_mem (h : r.Valid) : r.cTsnAck + 1 ∉ r.received := by
  have hnext : ¬ Intervals.Covers (r.gapList.spans r.cTsnAck r.cTsnAck)
      (offset r.cTsnAck r.cTsnAck + 1) := h.gapList.separated.reaches.2
  rw [offset_self] at hnext
  rw [h.mem, h.gapList.tsnInGapList_iff, offset_one]
  exact fun hin => hnext hin.2

theorem Valid.endsRun (h : r.Valid) : EndsRun r.received r.cTsnAck r.cTsnAck where
  all tsn hpos hle := by
    rw [offset_self] at hle
    omega
  next := h.next_not_mem

theorem Valid.step_covered (h : r.Valid) (hle : tsnLe tsn r.cTsnAck = true) (new : Bool) :
    ∃ r', r.step (.updateGapList tsn new) = .ok r' ∧ r'.Valid ∧
      r.Meets (.updateGapList tsn new) r' := by
  have hupdate : r.gapList.updateGapList tsn r.cTsnAck new =
    .ok (r.gapList, r.cTsnAck, new, false) := if_pos hle
  have hvalid : (GapReception.above
      ⟨r.gapList, r.cTsnAck, new, tsn :: r.received⟩).Valid := by
    rw [GapReception.above, List.filter_cons_of_neg (Bool.not_eq_true _ ▸ tsnGt_of_tsnLe hle)]
    exact ⟨h.above.gapList, h.above.mem⟩
  refine ⟨_, Error.bind_of_eq_ok hupdate rfl, hvalid, hvalid.exact, ?_, ?_, ?_⟩
  · exact (or_iff_left (not_not.2 (.inl hle))).symm
  · intro t hpos hle'
    exact List.mem_cons_of_mem _ (h.endsRun.all t hpos hle')
  · rw [List.mem_cons, not_or]
    refine ⟨fun heq => ?_, h.next_not_mem⟩
    rw [← heq] at hle
    exact not_tsnLe_next _ hle

theorem Valid.step_received (h : r.Valid) (hroom : r.gapList.numGaps < MAX_GAP_COUNT)
    (hzero : r.gapList.NoZeroStart) (hwindow : offset r.cTsnAck tsn < 2 ^ 31)
    (hle : ¬ tsnLe tsn r.cTsnAck = true) (new : Bool) :
    ∃ r', r.step (.updateGapList tsn new) = .ok r' ∧ r'.Valid ∧
      r.Meets (.updateGapList tsn new) r' := by
  obtain ⟨gapList, cTsnAck, new', hupdate, htakes, hnew⟩ :=
    h.gapList.exists_updateGapList hzero hwindow new
  have hmem (t : Tsn) : t ∈ tsn :: r.received ↔ r.gapList.tsnInGapList t = true ∨ t = tsn := by
    rw [List.mem_cons, h.mem, or_comm]
  have hvalid : (GapReception.above ⟨gapList, cTsnAck, new', tsn :: r.received⟩).Valid :=
    valid_above (htakes.holds h.gapList hroom hwindow) hmem
  have hne : tsn ≠ r.cTsnAck := by
    rintro rfl
    exact hle (tsnLe_of_offset (offset_self _))
  refine ⟨_, Error.bind_of_eq_ok hupdate rfl, hvalid, hvalid.exact, ?_, fun t hpos hbefore => ?_,
    ?_⟩
  · change new' = true ↔ _
    rw [hnew hroom, h.gapList.covers_iff, or_iff_right hne, or_iff_right hle]
  · rw [hmem]
    have hreached : _ ∨ _ := (htakes.reaches hroom).1 _ hbefore
    rw [h.gapList.covers_iff, offset_inj] at hreached
    refine hreached.imp_left fun ht => ht.resolve_left ?_
    rintro rfl
    rw [offset_self] at hpos
    exact absurd hpos (lt_irrefl 0)
  · rw [hmem]
    exact htakes.next_missing h.gapList hroom hwindow

/-- Every careful call returns, keeps the invariant and does what it should. -/
theorem Valid.step (h : r.Valid) (henabled : r.Enabled c) (hcareful : r.Careful c) :
    ∃ r', r.step c = .ok r' ∧ r'.Valid ∧ r.Meets c r' := by
  cases c with
  | updateGapList tsn new =>
    obtain ⟨hroom, hwindow⟩ := henabled
    by_cases hle : tsnLe tsn r.cTsnAck = true
    · exact h.step_covered hle new
    · exact h.step_received hroom (hcareful.resolve_left hle) (hwindow.resolve_left hle) hle new
  | removeFromGapList removedTsn =>
    obtain ⟨gapList, hremove, hholds⟩ := h.gapList.removed henabled removedTsn
    refine ⟨_, Error.bind_of_eq_ok hremove rfl, valid_above hholds fun t => ?_, trivial⟩
    rw [List.mem_filter, h.mem, decide_eq_true_iff]
  | forwardCumAckTsn cTsnAck =>
    obtain ⟨gapList, hforward, hholds⟩ := h.gapList.forward_holds henabled hcareful
    exact ⟨_, Error.bind_of_eq_ok hforward rfl, valid_above hholds h.mem, trivial⟩
  | tryToAdvanceCumAckTsn =>
    exact ⟨_, Error.bind_of_eq_ok h.gapList.tryToAdvanceCumAckTsn_eq rfl, h.above, h.above.exact,
      h.endsRun⟩

theorem valid_new (cTsnAck : Tsn) : (new cTsnAck).Valid where
  gapList := SctpSimpleGapList.valid_new cTsnAck
  mem tsn := by
    change tsn ∈ [] ↔ false = true
    simp only [List.not_mem_nil, Bool.false_eq_true]

/-- In a careful run the list is the exact set of the received TSNs. -/
theorem exactRun_of_carefulRun (cTsnAck : Tsn) {cs : List GapReceptionCall}
    (h : (new cTsnAck).CarefulRun cs) : (new cTsnAck).ExactRun cs :=
  GuardedRun.CarefulRun.holds (fun _ _ => trivial) (fun _ _ => Valid.step) h (valid_new cTsnAck)

/-- Blocks are joined across the TSN 0, one is split, and the cumulative ack takes up the first. -/
theorem exactRun_joined : (new 0xfffffffc#32).ExactRun [.updateGapList 0xfffffffe#32 false,
    .updateGapList 0xffffffff#32 false, .updateGapList 1#32 true, .updateGapList 0#32 false,
    .removeFromGapList 0#32, .updateGapList 0xffffffff#32 false, .updateGapList 0xfffffffd#32 false,
    .tryToAdvanceCumAckTsn, .updateGapList 3#32 false, .forwardCumAckTsn 1#32,
    .updateGapList 0#32 false] :=
  exactRun_of_carefulRun _ (by decide +kernel)

/-- The cumulative ack takes up the block right behind it, which stays counted. -/
theorem not_exactRun_advanced : ¬ ∀ cTsnAck cs, (new cTsnAck).ExactRun cs := by
  intro h
  have hstate : ((new 3#32).run [.updateGapList 5#32 false, .forwardCumAckTsn 4#32]).map (fun r =>
      (r.step .tryToAdvanceCumAckTsn).toOption.map fun r' =>
        (r'.gapList.check r'.cTsnAck).toOption) = some (some none) := by
    decide +kernel
  obtain ⟨r, hrun, hr⟩ := Option.map_eq_some_iff.1 hstate
  have hholds := GuardedRun.Holds.of_run (h _ (_ ++ [.tryToAdvanceCumAckTsn])) hrun
  obtain ⟨r', hstep, ⟨hexact, -⟩, -⟩ := hholds.2 trivial
  rw [hstep] at hr
  change some (r'.gapList.check r'.cTsnAck).toOption = some none at hr
  rw [hexact.check] at hr
  cases hr

end GapReception

end Inet.Sctp
