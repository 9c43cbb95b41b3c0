import Inet.Lib.GuardedRun
import Inet.Sctp.GapRemovals

/-! # The arrays of a gap list over a run

Every list that a run reaches is one of received TSNs and passes its check, and
no call leaves the arrays, as long as no TSN is added when a block starts at the
TSN 0, and no block of one TSN is removed when the arrays are full.
-/

namespace Inet.Sctp

/-- A gap list with the cumulative ack that its owner keeps. -/
structure GapReceiver where
  gapList : SctpSimpleGapList
  cTsnAck : Tsn
  /-- The TSNs that were received and have not been removed. -/
  received : List Tsn

inductive GapCall where
  | updateGapList (receivedTsn : Tsn)
  | removeFromGapList (removedTsn : Tsn)
  | forwardCumAckTsn (cTsnAck : Tsn)
  | tryToAdvanceCumAckTsn
  | resetGaps (cTsnAck : Tsn)
  deriving DecidableEq, Repr

namespace GapReceiver

def new (cTsnAck : Tsn) : GapReceiver := ⟨.new, cTsnAck, []⟩

def step (r : GapReceiver) : GapCall → Except Error GapReceiver
  | .updateGapList receivedTsn => do
    let (gapList, cTsnAck, _, _) ← r.gapList.updateGapList receivedTsn r.cTsnAck false
    pure ⟨gapList, cTsnAck, receivedTsn :: r.received⟩
  | .removeFromGapList removedTsn => do
    let gapList ← r.gapList.removeFromGapList removedTsn
    pure ⟨gapList, r.cTsnAck, r.received.filter (· ≠ removedTsn)⟩
  | .forwardCumAckTsn cTsnAck => do
    let gapList ← r.gapList.forwardCumAckTsn cTsnAck
    pure ⟨gapList, cTsnAck, r.received⟩
  | .tryToAdvanceCumAckTsn => do
    let (gapList, cTsnAck, _) ← r.gapList.tryToAdvanceCumAckTsn r.cTsnAck
    pure ⟨gapList, cTsnAck, r.received⟩
  | .resetGaps cTsnAck => pure ⟨r.gapList.resetGaps, cTsnAck, r.received⟩

/-- TSNs are less than half of the space above the cumulative ack. It is not forwarded to right
before a block, where the check would fail. -/
def Enabled (r : GapReceiver) : GapCall → Prop
  | .updateGapList tsn | .removeFromGapList tsn => offset r.cTsnAck tsn < 2 ^ 31
  | .forwardCumAckTsn cTsnAck => offset r.cTsnAck cTsnAck < 2 ^ 31 ∧
      ∀ block ∈ r.gapList.blocks, block.start ≠ cTsnAck + 1
  | .tryToAdvanceCumAckTsn | .resetGaps _ => True

instance (r : GapReceiver) (c : GapCall) : Decidable (r.Enabled c) :=
  match c with
  | .updateGapList tsn | .removeFromGapList tsn =>
    inferInstanceAs (Decidable (offset r.cTsnAck tsn < 2 ^ 31))
  | .forwardCumAckTsn _ => inferInstanceAs (Decidable (_ ∧ _))
  | .tryToAdvanceCumAckTsn | .resetGaps _ => inferInstanceAs (Decidable True)

/-- The state after a run in which every call is enabled. -/
def run (r : GapReceiver) (cs : List GapCall) : Option GapReceiver :=
  GuardedRun.run step Enabled r cs

/-- The list fits the arrays, passes its check, and is one of received TSNs. -/
structure Safe (r : GapReceiver) : Prop where
  numGaps_le : r.gapList.numGaps ≤ MAX_GAP_COUNT
  check_eq : r.gapList.check r.cTsnAck = .ok ()
  received : ∀ tsn, r.gapList.tsnInGapList tsn = true → tsn ∈ r.received

/-- Every call of the run stays in the arrays, and every state of it is safe. -/
def SafeRun (r : GapReceiver) (cs : List GapCall) : Prop :=
  GuardedRun.Holds step Enabled Safe (fun _ _ _ => True) r cs

/-- No block starts at the TSN 0 when a TSN above the cumulative ack is added, and none is of the
removed TSN alone when the arrays are full. -/
def Careful (r : GapReceiver) : GapCall → Prop
  | .updateGapList receivedTsn => tsnLe receivedTsn r.cTsnAck = true ∨ r.gapList.NoZeroStart
  | .removeFromGapList removedTsn => r.gapList.numGaps = MAX_GAP_COUNT →
      ⟨removedTsn, removedTsn⟩ ∉ r.gapList.blocks
  | _ => True

instance (r : GapReceiver) (c : GapCall) : Decidable (r.Careful c) :=
  match c with
  | .updateGapList _ => inferInstanceAs (Decidable (_ ∨ ∀ block ∈ r.gapList.blocks, _))
  | .removeFromGapList _ => inferInstanceAs (Decidable (_ → _))
  | .forwardCumAckTsn _ | .tryToAdvanceCumAckTsn | .resetGaps _ => inferInstanceAs (Decidable True)

def CarefulRun (r : GapReceiver) (cs : List GapCall) : Prop :=
  GuardedRun.CarefulRun step Enabled Careful r cs

instance (r : GapReceiver) (cs : List GapCall) : Decidable (r.CarefulRun cs) :=
  GuardedRun.instDecidableCarefulRun step Enabled Careful r cs

/-! ## The invariant -/

structure Valid (r : GapReceiver) : Prop where
  gapList : SctpSimpleGapList.Valid r.gapList r.cTsnAck
  received : ∀ tsn, r.gapList.tsnInGapList tsn = true → tsn ∈ r.received

variable {r : GapReceiver} {c : GapCall}

theorem Valid.safe (h : r.Valid) : r.Safe := ⟨h.gapList.numGaps_le, h.gapList.check_eq, h.received⟩

theorem updateGapList_covered {gapList : SctpSimpleGapList} {receivedTsn cTsnAck : Tsn}
    (h : tsnLe receivedTsn cTsnAck = true) : gapList.updateGapList receivedTsn cTsnAck false =
      .ok (gapList, cTsnAck, false, false) := by
  rw [SctpSimpleGapList.updateGapList, if_pos h]
  rfl

/-- Every careful call returns and keeps the invariant. -/
theorem Valid.step (h : r.Valid) (henabled : r.Enabled c) (hcareful : r.Careful c) :
    ∃ r', r.step c = .ok r' ∧ r'.Valid := by
  cases c with
  | updateGapList receivedTsn =>
    rcases hcareful with hcovered | hzero
    · exact ⟨_, Error.bind_of_eq_ok (updateGapList_covered hcovered) rfl, h.gapList,
        fun tsn htsn => List.mem_cons_of_mem _ (h.received tsn htsn)⟩
    · obtain ⟨gapList, cTsnAck, _, hupdate, htakes, -⟩ :=
        h.gapList.exists_updateGapList hzero henabled false
      refine ⟨_, Error.bind_of_eq_ok hupdate rfl, htakes.valid h.gapList henabled,
        fun tsn htsn => ?_⟩
      rcases htakes.tsnInGapList h.gapList henabled htsn with hin | rfl
      · exact List.mem_cons_of_mem _ (h.received tsn hin)
      · exact List.mem_cons_self
  | removeFromGapList removedTsn =>
    obtain ⟨gapList, hremove, hdrops | ⟨rfl, hout⟩⟩ :=
      h.gapList.exists_removeFromGapList hcareful
    · refine ⟨_, Error.bind_of_eq_ok hremove rfl, hdrops.valid h.gapList, fun tsn htsn => ?_⟩
      obtain ⟨hin, hne⟩ := hdrops.tsnInGapList h.gapList htsn
      exact List.mem_filter.2 ⟨h.received tsn hin, decide_eq_true hne⟩
    · refine ⟨_, Error.bind_of_eq_ok hremove rfl, h.gapList, fun tsn htsn => ?_⟩
      refine List.mem_filter.2 ⟨h.received tsn htsn, decide_eq_true ?_⟩
      rintro rfl
      exact Bool.false_ne_true (hout.symm.trans htsn)
  | forwardCumAckTsn cTsnAck =>
    obtain ⟨gapList, hforward, hvalid, hsub⟩ := h.gapList.forward henabled.1 henabled.2
    exact ⟨_, Error.bind_of_eq_ok hforward rfl, hvalid,
      fun tsn htsn => h.received tsn (hsub tsn htsn)⟩
  | tryToAdvanceCumAckTsn =>
    exact ⟨r, Error.bind_of_eq_ok h.gapList.tryToAdvanceCumAckTsn_eq rfl, h⟩
  | resetGaps cTsnAck =>
    exact ⟨_, rfl, SctpSimpleGapList.valid_new cTsnAck,
      fun _ htsn => (Bool.false_ne_true htsn).elim⟩

theorem valid_new (cTsnAck : Tsn) : (new cTsnAck).Valid where
  gapList := SctpSimpleGapList.valid_new cTsnAck
  received _ htsn := (Bool.false_ne_true htsn).elim

/-- A careful run of a new list stays in the arrays, and its lists are of received TSNs. -/
theorem safeRun_of_carefulRun (cTsnAck : Tsn) {cs : List GapCall}
    (h : (new cTsnAck).CarefulRun cs) : (new cTsnAck).SafeRun cs :=
  GuardedRun.CarefulRun.holds (fun _ => Valid.safe)
    (fun _ _ hr henabled hcareful => by
      obtain ⟨r', hstep, hvalid⟩ := hr.step henabled hcareful
      exact ⟨r', hstep, hvalid, trivial⟩) h (valid_new cTsnAck)

/-- A block is split, and the gap in it is closed again. -/
theorem safeRun_split : (new 0xfffffffc#32).SafeRun [.updateGapList 0xffffffff#32,
    .updateGapList 0#32, .updateGapList 1#32, .removeFromGapList 0#32, .updateGapList 0xfffffffd#32,
    .forwardCumAckTsn 0xffffffff#32] :=
  safeRun_of_carefulRun _ (by decide +kernel)

/-- A TSN is added behind a block that starts at the TSN 0, which the loop does not see. -/
theorem not_safeRun_zero : ¬ ∀ cTsnAck cs, (new cTsnAck).SafeRun cs := by
  intro h
  have hstate : ((new 0xfffffff0#32).run [.updateGapList 0#32, .updateGapList 5#32,
      .updateGapList 1#32]).map (fun r => (r.gapList.check r.cTsnAck).toOption) = some none := by
    decide +kernel
  obtain ⟨r, hrun, hcheck⟩ := Option.map_eq_some_iff.1 hstate
  have hsafe := GuardedRun.Holds.safe_of_run (h _ _) hrun
  rw [hsafe.check_eq] at hcheck
  cases hcheck

end GapReceiver

end Inet.Sctp
