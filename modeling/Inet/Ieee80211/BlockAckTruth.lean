import Inet.Ieee80211.BasicBlockAck

/-! # Truth of Basic Block Acks

The acknowledgment states are those of received fragments as long as a unit is
passed up once in half of the number range. The bitmap then tells the truth
exactly if no missing fragment counts as old.
-/

namespace Inet.Ieee80211

open SequenceNumberCyclic Error

section Numbers

variable {a b : ℕ}

theorem ofNat_ahead : (ofNat a).ahead b = ofNat (a + b) := by
  apply ext_value
  simp only [ahead, ofNat]
  omega

theorem distance_ofNat (hle : a ≤ b) (hlt : b < a + 4096) :
    (ofNat a).distance (ofNat b) = b - a := by
  simp only [distance, ofNat]
  omega

theorem ofNat_lt (hlt : a < b) (hhalf : b < a + 2048) : ofNat a < ofNat b := by
  rw [lt_def, distance_ofNat hlt.le (by omega)]
  omega

theorem ofNat_le_iff (ha : a ≤ b + 2047) (hb : b ≤ a + 2047) : ofNat a ≤ ofNat b ↔ a ≤ b := by
  rw [le_iff]
  constructor
  · intro h
    simp only [distance, ofNat] at h
    omega
  · intro h
    rw [distance_ofNat h (by omega)]
    omega

/-- Equal numbers less than a round apart are the same. -/
theorem eq_of_ofNat_eq (h : ofNat a = ofNat b) (ha : a < b + 4096) (hb : b < a + 4096) : a = b := by
  have := congrArg SequenceNumberCyclic.value h
  simp only [ofNat] at this
  omega

end Numbers

/-- What reaches the recipient: a data frame with Block Ack policy or a Basic request, with the
number that the originator counts over all rounds. -/
inductive Arrival where
  | dataFrame (number : ℕ) (fragmentNumber : ℤ) (moreFragments : Bool) (address : ℕ)
      (interframe : Bool)
  | blockAckReq (number : ℕ) (tidInfo : ℤ)
  deriving DecidableEq

namespace Arrival

def event : Arrival → Recipient.Event
  | dataFrame number fragmentNumber moreFragments address interframe =>
    .qosFrame ⟨⟨ofNat number, fragmentNumber, moreFragments, .blockAck⟩, address⟩ interframe
  | blockAckReq number tidInfo => .blockAckReq (.basic 0 tidInfo false false (some (ofNat number)))

def received : Arrival → List (ℕ × ℤ)
  | dataFrame number fragmentNumber _ _ _ => [(number, fragmentNumber)]
  | blockAckReq _ _ => []

end Arrival

/-- The recipient with the place of its next expected number, the place of the last unit that was
passed up, and the received fragments. -/
structure Session where
  recipient : Recipient
  next : ℕ
  passed : ℕ
  received : List (ℕ × ℤ)
  deriving DecidableEq

namespace Session

def create (start bufferSize : ℕ) : Session :=
  ⟨Recipient.create (ofNat start) bufferSize (.basic []), start, start, []⟩

/-- The next expected number of the recipient. -/
def expected (session : Session) : SequenceNumberCyclic :=
  session.recipient.receiveBuffer.nextExpectedSequenceNumber

/-- The place of a unit. -/
def place (session : Session) (m : Msdu) : ℕ := session.next + session.expected.distance m.1

/-- The session after an arrival that the recipient has processed. -/
def after (session : Session) (arrival : Arrival) (recipient : Recipient) (frames : List Msdu) :
    Session where
  recipient := recipient
  next := session.next +
    session.expected.distance recipient.receiveBuffer.nextExpectedSequenceNumber
  passed := (frames.getLast?.map session.place).getD session.passed
  received := arrival.received ++ session.received

def step (session : Session) (arrival : Arrival) : Except Error Session := do
  let (recipient, frames) ← session.recipient.process arrival.event
  pure (session.after arrival recipient frames)

def run (session : Session) (arrivals : List Arrival) : Except Error Session :=
  arrivals.foldlM step session

/-- The number is less than half of the number range behind the expected one, and less than half of
it ahead of the last unit that was passed up. For a request this is so for all numbers of the
bitmap. -/
def Close (session : Session) : Arrival → Prop
  | .dataFrame number _ _ _ _ => session.next ≤ number + 2047 ∧ number ≤ session.passed + 2047
  | .blockAckReq number _ => session.next ≤ number + 2047 ∧ number + 63 ≤ session.passed + 2047

def Safe (session : Session) (arrival : Arrival) : Prop :=
  session.recipient.Safe arrival.event ∧ session.Close arrival

def SafeRun (session : Session) : List Arrival → Prop
  | [] => True
  | arrival :: arrivals => session.Safe arrival ∧
    ∀ session', session.step arrival = .ok session' → SafeRun session' arrivals

/-- The units of the buffer and the acknowledgment states are not far from the last unit that was
passed up, and the states are those of received fragments. -/
structure Inv (session : Session) : Prop where
  valid : session.recipient.receiveBuffer.Valid
  fits : session.recipient.receiveBuffer.Fits
  expected_eq : session.expected = ofNat session.next
  passed_le : session.passed ≤ session.next
  place_le : ∀ m ∈ session.recipient.receiveBuffer.buffer,
    session.place m ≤ session.passed + 2047
  states : ∃ states, session.recipient.record = .basic states ∧ ∀ key ∈ states,
    ∃ n, (n, key.2) ∈ session.received ∧ key.1 = ofNat n ∧ session.passed ≤ n ∧
      n ≤ session.passed + 2047

variable {session : Session} {arrival : Arrival} {recipient : Recipient} {frames : List Msdu}

theorem inv_create (start : ℕ) {bufferSize : ℕ} (hpos : 1 ≤ bufferSize) (hle : bufferSize ≤ 64) :
    (create start bufferSize).Inv := by
  constructor
  · exact ⟨hpos, hle, List.nodup_nil, fun m hm => by cases hm⟩
  · exact fun m hm => by cases hm
  · rfl
  · exact le_rfl
  · exact fun m hm => by cases hm
  · exact ⟨[], rfl, fun key hkey => by cases hkey⟩

theorem Inv.place_of_brings (h : session.Inv) (hclose : session.Close arrival) {m : Msdu}
    (hm : arrival.event.Brings session.recipient.receiveBuffer m) :
    session.place m ≤ session.passed + 2047 := by
  cases arrival with
  | dataFrame number fragmentNumber moreFragments address interframe =>
    obtain ⟨hle, -, rfl⟩ := hm
    obtain ⟨hnear, hfar⟩ := hclose
    have hexpected := h.expected_eq
    have hpassed := h.passed_le
    rw [expected] at hexpected
    rw [hexpected, ofNat_le_iff (by omega) (by omega)] at hle
    rw [place, h.expected_eq, distance_ofNat hle (by omega)]
    omega
  | blockAckReq number tidInfo => exact hm.elim

theorem Inv.exists_of_records (h : session.Inv) (hclose : session.Close arrival)
    {key : SequenceNumberCyclic × ℤ}
    (hkey : arrival.event.Records session.recipient.receiveBuffer key) :
    ∃ n, (n, key.2) ∈ arrival.received ∧ key.1 = ofNat n ∧ session.passed ≤ n ∧
      n ≤ session.passed + 2047 := by
  cases arrival with
  | dataFrame number fragmentNumber moreFragments address interframe =>
    obtain ⟨hle, rfl⟩ := hkey
    obtain ⟨hnear, hfar⟩ := hclose
    have hexpected := h.expected_eq
    have hpassed := h.passed_le
    rw [expected] at hexpected
    rw [hexpected, ofNat_le_iff (by omega) (by omega)] at hle
    exact ⟨number, List.mem_singleton.2 rfl, rfl, by omega, hfar⟩
  | blockAckReq number tidInfo => exact hkey.elim

theorem Inv.eq_ofNat_place (h : session.Inv) (m : Msdu) : m.1 = ofNat (session.place m) := by
  rw [place, ← ofNat_ahead, ← h.expected_eq, ahead_distance]

theorem Inv.place_of_origin (h : session.Inv) (hclose : session.Close arrival)
    (hprogress : Progress session.recipient.receiveBuffer recipient.receiveBuffer
      (arrival.event.Brings session.recipient.receiveBuffer) frames) {m : Msdu}
    (hm : m ∈ frames ∨ m ∈ recipient.receiveBuffer.buffer) :
    session.place m ≤ session.passed + 2047 := by
  rcases hprogress.origin m hm with hm | hm
  · exact h.place_le m hm
  · exact h.place_of_brings hclose hm

theorem Inv.passed_bounds (h : session.Inv)
    (hprogress : Progress session.recipient.receiveBuffer recipient.receiveBuffer
      (arrival.event.Brings session.recipient.receiveBuffer) frames) :
    session.passed ≤ (session.after arrival recipient frames).passed ∧
      (session.after arrival recipient frames).passed ≤
        (session.after arrival recipient frames).next := by
  have hpassed := h.passed_le
  simp only [after]
  cases hlast : frames.getLast? with
  | none =>
    simp only [Option.map_none, Option.getD_none]
    omega
  | some last =>
    have hlt := hprogress.passed last (List.mem_of_getLast? hlast)
    simp only [Option.map_some, Option.getD_some, place, expected]
    omega

theorem Inv.after (h : session.Inv) (hclose : session.Close arrival)
    (hprogress : Progress session.recipient.receiveBuffer recipient.receiveBuffer
      (arrival.event.Brings session.recipient.receiveBuffer) frames)
    (hrecorded : Recorded session.recipient.record recipient.record
      (arrival.event.Records session.recipient.receiveBuffer) frames) :
    (session.after arrival recipient frames).Inv := by
  obtain ⟨hold, hnext⟩ := h.passed_bounds hprogress
  constructor
  · exact hprogress.valid
  · exact hprogress.fits
  · simp only [expected, Session.after]
    rw [← ofNat_ahead, ← h.expected_eq, expected, ahead_distance]
  · exact hnext
  · intro m hm
    -- The place of a unit that stays in the buffer does not change.
    have hplace : (session.after arrival recipient frames).place m = session.place m := by
      have hforward := hprogress.forward
      have hlt := hprogress.valid.distance_lt hm
      have hsum := @ahead_distance session.expected
        recipient.receiveBuffer.nextExpectedSequenceNumber
      have hunit := @ahead_distance recipient.receiveBuffer.nextExpectedSequenceNumber m.1
      rw [← hsum, ahead_ahead, hsum] at hunit
      simp only [place, Session.after, expected] at hunit hforward ⊢
      conv_rhs => rw [← hunit]
      rw [distance_ahead (by omega)]
      omega
    rw [hplace]
    have := h.place_of_origin hclose hprogress (.inr hm)
    omega
  · obtain ⟨states, hstates, hkeys⟩ := h.states
    obtain ⟨states', hstates', hkeys'⟩ := hrecorded states hstates
    refine ⟨states', hstates', ?_⟩
    intro key hkey
    obtain ⟨horigin, hbefore⟩ := hkeys' key hkey
    have hreceived : ∃ n, (n, key.2) ∈ arrival.received ++ session.received ∧ key.1 = ofNat n ∧
        session.passed ≤ n ∧ n ≤ session.passed + 2047 := by
      rcases horigin with hkey | hkey
      · obtain ⟨n, hn, hrest⟩ := hkeys key hkey
        exact ⟨n, List.mem_append_right _ hn, hrest⟩
      · obtain ⟨n, hn, hrest⟩ := h.exists_of_records hclose hkey
        exact ⟨n, List.mem_append_left _ hn, hrest⟩
    obtain ⟨n, hn, hnumber, hlower, hupper⟩ := hreceived
    refine ⟨n, hn, hnumber, ?_, by omega⟩
    -- A state before the last released unit would have been removed.
    simp only [Session.after]
    cases hlast : frames.getLast? with
    | none => exact hlower
    | some last =>
      have hmem := List.mem_of_getLast? hlast
      have hplace := h.place_of_origin hclose hprogress (.inl hmem)
      have hnotbefore := hbefore last hmem
      rw [hnumber, h.eq_ofNat_place last] at hnotbefore
      simp only [Option.map_some, Option.getD_some]
      by_contra hlt
      exact hnotbefore (ofNat_lt (by omega) (by omega))

theorem step_inv (h : session.Inv) (hsafe : session.Safe arrival) :
    ∃ recipient frames, session.recipient.process arrival.event = .ok (recipient, frames) ∧
      Recorded session.recipient.record recipient.record
        (arrival.event.Records session.recipient.receiveBuffer) frames ∧
      session.step arrival = .ok (session.after arrival recipient frames) ∧
      (session.after arrival recipient frames).Inv := by
  obtain ⟨recipient, frames, heq, hprogress, hrecorded⟩ :=
    Recipient.process_progress h.valid h.fits hsafe.1
  refine ⟨recipient, frames, heq, hrecorded, ?_, h.after hsafe.2 hprogress hrecorded⟩
  rw [step, heq, ok_bind]
  rfl

theorem run_inv (h : session.Inv) {arrivals : List Arrival} (hsafe : session.SafeRun arrivals) :
    ∃ final, session.run arrivals = .ok final ∧ final.Inv := by
  induction arrivals generalizing session with
  | nil => exact ⟨session, rfl, h⟩
  | cons arrival arrivals ih =>
    obtain ⟨hsafe, hrest⟩ := hsafe
    obtain ⟨recipient, frames, -, -, hstep, hinv⟩ := step_inv h hsafe
    obtain ⟨final, hrun, hfinal⟩ := ih hinv (hrest _ hstep)
    refine ⟨final, ?_, hfinal⟩
    rw [run, List.foldlM_cons, hstep, ok_bind]
    exact hrun

/-- The bits for the numbers in question are set only for received fragments. -/
def Truthful (session : Session) (asked : SequenceNumberCyclic → Prop) (number : ℕ)
    (blockAck : BasicBlockAck) : Prop :=
  ∀ (i : Fin 64) (fragNum : Fin 16), asked ((ofNat number).ahead i) →
    blockAck.blockAckBitmap i fragNum = true →
    (number + (i : ℕ), ((fragNum : ℕ) : ℤ)) ∈ session.received

/-- There are acknowledgment states, and no missing fragment with one of the numbers in question is
before the numerically first of them. -/
def NotOld (session : Session) (asked : SequenceNumberCyclic → Prop) (number : ℕ)
    (states : List (SequenceNumberCyclic × ℤ)) : Prop :=
  ∀ (i : Fin 64) (fragNum : Fin 16), asked ((ofNat number).ahead i) →
    (number + (i : ℕ), ((fragNum : ℕ) : ℤ)) ∉ session.received →
    ∃ first, BlockAckRecord.earliest states = some first ∧ ¬ (ofNat number).ahead i < first

theorem getAckState_iff {states : List (SequenceNumberCyclic × ℤ)} {s : SequenceNumberCyclic}
    {fragmentNumber : ℤ} : BlockAckRecord.getAckState states s fragmentNumber = true ↔
      (s, fragmentNumber) ∈ states ∨
        ¬ ∃ first, BlockAckRecord.earliest states = some first ∧ ¬ s < first := by
  unfold BlockAckRecord.getAckState
  split
  next hmem => simp [hmem]
  next hmem => cases BlockAckRecord.earliest states <;> simp [hmem]

theorem Inv.received_of_mem (h : session.Inv) {number : ℕ} {tidInfo : ℤ}
    (hclose : session.Close (.blockAckReq number tidInfo))
    (hrecorded : Recorded session.recipient.record recipient.record (fun _ => False) frames)
    {states : List (SequenceNumberCyclic × ℤ)} (hstates : recipient.record = .basic states)
    (i : Fin 64) {fragmentNumber : ℤ} (hmem : ((ofNat number).ahead i, fragmentNumber) ∈ states) :
    (number + (i : ℕ), fragmentNumber) ∈ session.received := by
  obtain ⟨old, hold, hkeys⟩ := h.states
  obtain ⟨states', hstates', hkeys'⟩ := hrecorded old hold
  obtain rfl := BlockAckRecord.basic.inj (hstates.symm.trans hstates')
  obtain ⟨horigin, -⟩ := hkeys' _ hmem
  obtain ⟨n, hn, hnumber, hlower, hupper⟩ := hkeys _ (horigin.resolve_right id)
  obtain ⟨hnear, hfar⟩ := hclose
  have hpassed := h.passed_le
  have hi := i.isLt
  rw [ofNat_ahead] at hnumber
  rw [eq_of_ofNat_eq hnumber (by omega) (by omega)]
  exact hn

theorem Inv.truthful_iff (h : session.Inv) {number address : ℕ} {tidInfo : ℤ}
    (hclose : session.Close (.blockAckReq number tidInfo))
    (hrecorded : Recorded session.recipient.record recipient.record (fun _ => False) frames)
    {states : List (SequenceNumberCyclic × ℤ)} (hstates : recipient.record = .basic states)
    (asked : SequenceNumberCyclic → Prop) :
    session.Truthful asked number (buildBlockAck address tidInfo (ofNat number) states) ↔
      session.NotOld asked number states := by
  constructor
  · intro htruth i fragNum hasked hmissing
    by_contra hold
    exact hmissing (htruth i fragNum hasked (getAckState_iff.2 (.inr hold)))
  · intro hnot i fragNum hasked hbit
    rcases getAckState_iff.1 hbit with hmem | hold
    · exact h.received_of_mem hclose hrecorded hstates i hmem
    · by_contra hmissing
      exact hold (hnot i fragNum hasked hmissing)

/-- In a safe run the Block Ack for a request tells the truth about the numbers in question, such as
those at or after the expected one or all of them, exactly if no missing fragment of theirs counts
as old when it is built. The originator then takes none of theirs as acknowledged that was not
received. -/
theorem basicBlockAck_truthful (start : ℕ) {bufferSize : ℕ} (hpos : 1 ≤ bufferSize)
    (hle : bufferSize ≤ 64) {arrivals : List Arrival}
    (hsafe : (create start bufferSize).SafeRun arrivals) :
    ∃ session, (create start bufferSize).run arrivals = .ok session ∧
      ∀ (number address : ℕ) (tidInfo : ℤ), session.Safe (.blockAckReq number tidInfo) →
        ∃ recipient frames states,
          session.recipient.process (Arrival.blockAckReq number tidInfo).event =
            .ok (recipient, frames) ∧
          recipient.record = .basic states ∧
          ∀ asked : SequenceNumberCyclic → Prop,
            (session.Truthful asked number (buildBlockAck address tidInfo (ofNat number) states) ↔
              session.NotOld asked number states) ∧
            (session.NotOld asked number states → ∀ ackStatuses, ∀ id ∈
              (QosAckHandler.processReceivedBlockAck ackStatuses
                (buildBlockAck address tidInfo (ofNat number) states)).2,
              asked id.2.2.1 → ∃ n, (n, id.2.2.2) ∈ session.received ∧
                id.2.2.1 = ofNat n ∧ number ≤ n ∧ n < number + 64) := by
  obtain ⟨session, hrun, hinv⟩ := run_inv (inv_create start hpos hle) hsafe
  refine ⟨session, hrun, ?_⟩
  intro number address tidInfo hrequest
  obtain ⟨recipient, frames, hprocess, hrecorded, -, -⟩ := step_inv hinv hrequest
  obtain ⟨old, hold, -⟩ := hinv.states
  obtain ⟨states, hstates, -⟩ := hrecorded old hold
  refine ⟨recipient, frames, states, hprocess, hstates, fun asked => ?_⟩
  have htruth : session.Truthful asked number
      (buildBlockAck address tidInfo (ofNat number) states) ↔ session.NotOld asked number states :=
    hinv.truthful_iff hrequest.2 hrecorded hstates asked
  refine ⟨htruth, ?_⟩
  intro hnot ackStatuses id hid hasked
  obtain ⟨i, fragNum, hbit, rfl⟩ := QosAckHandler.mem_processReceivedBlockAck hid
  refine ⟨number + i, htruth.2 hnot i fragNum hasked hbit, ?_, by omega, ?_⟩
  · exact ofNat_ahead
  · have := i.isLt
    omega

theorem SafeRun.cons {session' : Session} {arrivals : List Arrival} (hsafe : session.Safe arrival)
    (hstep : session.step arrival = .ok session') (hrest : session'.SafeRun arrivals) :
    session.SafeRun (arrival :: arrivals) := by
  refine ⟨hsafe, ?_⟩
  intro session'' heq
  rw [hstep, Except.ok.injEq] at heq
  rw [← heq]
  exact hrest

/-- A data frame with a single fragment. -/
def singleFrame (number : ℕ) : Arrival := .dataFrame number 0 false number true

/-- The second of three frames is lost, and the Block Ack says so. -/
theorem basicBlockAck_lost_second :
    ∃ session states, (create 0 64).run [singleFrame 0, singleFrame 2] = .ok session ∧
      session.NotOld (fun _ => True) 1 states ∧
      session.Truthful (fun _ => True) 1 (buildBlockAck 7 0 (ofNat 1) states) := by
  have hfirst : (create 0 64).step (singleFrame 0) =
      .ok ⟨⟨⟨[], 64, ofNat 1⟩, .basic [(ofNat 0, 0)]⟩, 1, 0, [(0, 0)]⟩ := by
    decide +kernel
  have hsecond : step ⟨⟨⟨[], 64, ofNat 1⟩, .basic [(ofNat 0, 0)]⟩, 1, 0, [(0, 0)]⟩ (singleFrame 2) =
      .ok ⟨⟨⟨[(ofNat 2, [⟨⟨ofNat 2, 0, false, .blockAck⟩, 2⟩])], 64, ofNat 1⟩,
        .basic [(ofNat 2, 0), (ofNat 0, 0)]⟩, 1, 0, [(2, 0), (0, 0)]⟩ := by
    decide +kernel
  have hsafe : (create 0 64).SafeRun [singleFrame 0, singleFrame 2] := by
    apply SafeRun.cons _ hfirst
    · apply SafeRun.cons _ hsecond
      · trivial
      · exact ⟨⟨by decide, by decide, by decide, fun r hr => by cases hr⟩, by decide, by decide⟩
    · exact ⟨⟨by decide, by decide, by decide, fun r hr => by cases hr⟩, by decide, by decide⟩
  obtain ⟨session, hrun, htruth⟩ := basicBlockAck_truthful 0 (by decide) (by decide) hsafe
  have hrun' := hrun
  rw [run, List.foldlM_cons, hfirst, ok_bind, List.foldlM_cons, hsecond, ok_bind, List.foldlM_nil,
    pure_eq_ok, Except.ok.injEq] at hrun'
  subst hrun'
  obtain ⟨recipient, frames, states, hprocess, hstates, hasked⟩ := htruth 1 7 0
    ⟨trivial, by decide, by decide⟩
  have hprocess' : Recipient.process ⟨⟨[(ofNat 2, [⟨⟨ofNat 2, 0, false, .blockAck⟩, 2⟩])], 64,
      ofNat 1⟩, .basic [(ofNat 2, 0), (ofNat 0, 0)]⟩ (Arrival.blockAckReq 1 0).event =
      .ok (⟨⟨[(ofNat 2, [⟨⟨ofNat 2, 0, false, .blockAck⟩, 2⟩])], 64, ofNat 1⟩,
        .basic [(ofNat 2, 0), (ofNat 0, 0)]⟩, []) := by
    decide +kernel
  rw [hprocess', Except.ok.injEq, Prod.mk.injEq] at hprocess
  rw [← hprocess.1] at hstates
  obtain rfl := BlockAckRecord.basic.inj hstates
  have hnot : NotOld ⟨⟨⟨[(ofNat 2, [⟨⟨ofNat 2, 0, false, .blockAck⟩, 2⟩])], 64, ofNat 1⟩,
      .basic [(ofNat 2, 0), (ofNat 0, 0)]⟩, 1, 0, [(2, 0), (0, 0)]⟩ (fun _ => True) 1
      [(ofNat 2, 0), (ofNat 0, 0)] := by
    intro i fragNum _ _
    refine ⟨ofNat 0, by decide, ?_⟩
    have hi := i.isLt
    rw [lt_def]
    simp only [distance, ahead, ofNat]
    omega
  exact ⟨_, _, hrun, hnot, (hasked _).1.2 hnot⟩

/-- The first of two frames is lost, but counts as old, so that the originator takes it as
acknowledged. -/
theorem basicBlockAck_lost_first :
    ∃ session recipient states, (create 0 64).run [singleFrame 1] = .ok session ∧
      session.recipient.process (Arrival.blockAckReq 0 0).event = .ok (recipient, []) ∧
      recipient.record = .basic states ∧
      ¬ session.Truthful (session.expected ≤ ·) 0 (buildBlockAck 7 0 (ofNat 0) states) ∧
      (0, 0) ∉ session.received ∧
      (7, 0, ofNat 0, 0) ∈ (QosAckHandler.processReceivedBlockAck
        (fun _ => some .waitingForBlockAck) (buildBlockAck 7 0 (ofNat 0) states)).2 := by
  refine ⟨⟨⟨⟨[(ofNat 1, [⟨⟨ofNat 1, 0, false, .blockAck⟩, 1⟩])], 64, ofNat 0⟩,
    .basic [(ofNat 1, 0)]⟩, 0, 0, [(1, 0)]⟩,
    ⟨⟨[(ofNat 1, [⟨⟨ofNat 1, 0, false, .blockAck⟩, 1⟩])], 64, ofNat 0⟩, .basic [(ofNat 1, 0)]⟩,
    [(ofNat 1, 0)], by decide +kernel, by decide +kernel, rfl, ?_, by decide, ?_⟩
  · intro htruth
    exact absurd (htruth 0 0 (by decide) (by decide)) (by decide)
  · exact @QosAckHandler.mem_processReceivedBlockAck_first
      (buildBlockAck 7 0 (ofNat 0) [(ofNat 1, 0)]) (fun _ => some .waitingForBlockAck) rfl
      (by decide)

end Session

end Inet.Ieee80211
