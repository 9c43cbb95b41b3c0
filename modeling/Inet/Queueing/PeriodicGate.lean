import Inet.Common.Error
import Inet.Lib.Alternation
import Mathlib.Algebra.Order.Archimedean.Basic
import Mathlib.Data.Rat.Floor

/-! # The periodic gate

`PeriodicGate` changes its state each time its timer fires, after durations
that are repeated for ever. In every run its state is the alternation of the
initial state at the time shifted by the initial offset.
-/

namespace Inet.Queueing

/-- The parameters of a gate, with what `readDurationsPar` checks. -/
structure PeriodicGate where
  initiallyOpen : Bool
  initialOffset : ℚ
  durations : List ℚ
  even_length : Even durations.length
  durations_pos : ∀ d ∈ durations, 0 < d

structure GateState where
  index : ℕ
  isOpen : Bool
  offset : ℚ
  changeTimer : Option ℚ
  deriving DecidableEq, Repr

/-- The `%` of the language, which rounds the quotient towards zero. -/
def remainder (a b : ℚ) : ℚ := a - b * (if 0 ≤ a / b then ⌊a / b⌋ else ⌈a / b⌉)

namespace PeriodicGate

/-- The gate with the given parameters, if `readDurationsPar` accepts them. -/
def readDurationsPar (initiallyOpen : Bool) (initialOffset : ℚ) (durations : List ℚ) :
    Except Error PeriodicGate :=
  if heven : Even durations.length then
    if hpos : ∀ d ∈ durations, 0 < d then
      .ok ⟨initiallyOpen, initialOffset, durations, heven, hpos⟩
    else .error (.runtime "Unaccepted duration value (%s) at position %u")
  else .error (.runtime "The duration parameter must contain an even number of values")

variable (gate : PeriodicGate)

def totalDuration : ℚ := gate.durations.sum

def scheduleChangeTimer (now : ℚ) (state : GateState) : Except Error GateState :=
  match gate.durations[state.index]? with
  | none => .error (.assertion "0 <= index && (size_t)index < durations.size()")
  | some duration => .ok { state with
      index := (state.index + 1) % gate.durations.length
      changeTimer := some (now + duration - state.offset)
      offset := 0 }

/-- The loop of `initializeGating`, with a bound on the number of its steps. -/
def skipOffset : ℕ → GateState → GateState
  | 0, state => state
  | fuel + 1, state =>
    if 0 < state.offset then
      match gate.durations[state.index]? with
      | none => state
      | some duration =>
        if duration ≤ state.offset then
          skipOffset fuel { state with
            isOpen := !state.isOpen
            offset := state.offset - duration
            index := (state.index + 1) % gate.durations.length }
        else state
    else state

def initializeGating (now : ℚ) : Except Error GateState :=
  let offset := if gate.totalDuration = 0 then 0 else
    remainder (remainder gate.initialOffset gate.totalDuration + gate.totalDuration)
      gate.totalDuration
  let state := gate.skipOffset gate.durations.length
    { index := 0, isOpen := gate.initiallyOpen, offset := offset, changeTimer := none }
  if 0 < gate.durations.length then gate.scheduleChangeTimer now state else .ok state

/-- `handleMessage` for the timer. -/
def handleMessage (now : ℚ) (state : GateState) : Except Error GateState := do
  let state ← gate.scheduleChangeTimer now state
  pure { state with isOpen := !state.isOpen }

/-- The states of a run that starts at time zero, each with the time at which it is entered. -/
inductive Reached : ℚ → GateState → Prop
  | start {state : GateState} : gate.initializeGating 0 = .ok state → Reached 0 state
  | fire {entered time : ℚ} {state state' : GateState} : Reached entered state →
      state.changeTimer = some time → gate.handleMessage time state = .ok state' →
      Reached time state'

/-- A state that the gate is in at some time: it was entered before, and the timer fires later. -/
structure InForce (time entered : ℚ) (state : GateState) : Prop where
  reached : gate.Reached entered state
  entered_le : entered ≤ time
  lt_timer : ∀ timer, state.changeTimer = some timer → time < timer

/-- A gate within one of its durations, in one of its periods. -/
structure Within (entered timer : ℚ) (state : GateState) (k : ℤ) (pre : List ℚ) (d : ℚ)
    (post : List ℚ) : Prop where
  durations_eq : gate.durations = pre ++ d :: post
  index_eq : state.index = (pre.length + 1) % gate.durations.length
  isOpen_eq : state.isOpen = not^[pre.length] gate.initiallyOpen
  offset_eq : state.offset = 0
  timer_eq : state.changeTimer = some timer
  timer_time : timer + gate.initialOffset = k * gate.totalDuration + pre.sum + d
  entered_ge : k * gate.totalDuration + pre.sum ≤ entered + gate.initialOffset
  entered_lt : entered < timer

variable {gate} {entered timer time : ℚ} {state : GateState} {k : ℤ} {pre post : List ℚ} {d : ℚ}

theorem remainder_of_nonneg {a b : ℚ} (ha : 0 ≤ a) (hb : 0 < b) : remainder a b = phase b a := by
  rw [remainder, if_pos (div_nonneg ha hb.le), phase]

theorem remainder_remainder {a b : ℚ} (hb : 0 < b) :
    remainder (remainder a b + b) b = phase b a := by
  obtain ⟨k, hk, hpos⟩ : ∃ k : ℤ, remainder a b = a + k * b ∧ 0 ≤ a + k * b + b := by
    rw [remainder]
    split
    · refine ⟨-⌊a / b⌋, by push_cast; ring, ?_⟩
      have h := Int.floor_le (a / b)
      rw [le_div_iff₀ hb] at h
      push_cast
      linarith
    · refine ⟨-⌈a / b⌉, by push_cast; ring, ?_⟩
      have h := Int.ceil_lt_add_one (a / b)
      rw [← sub_lt_iff_lt_add, lt_div_iff₀ hb] at h
      push_cast
      linarith
  have heq : a + k * b + b = a + ((k + 1 : ℤ) : ℚ) * b := by
    push_cast
    ring
  rw [hk, remainder_of_nonneg hpos hb, heq, phase_add_mul hb]

theorem sum_le_totalDuration (h : gate.durations = pre ++ d :: post) :
    pre.sum + d ≤ gate.totalDuration := by
  have hpost : 0 ≤ post.sum := List.sum_nonneg fun x hx =>
    (gate.durations_pos x (by simp [h, hx])).le
  rw [totalDuration, h, List.sum_append, List.sum_cons]
  linarith

theorem pos_of_mem (h : gate.durations = pre ++ d :: post) : 0 < d :=
  gate.durations_pos d (by simp [h])

theorem nonneg_of_mem_pre (h : gate.durations = pre ++ d :: post) : ∀ x ∈ pre, 0 ≤ x :=
  fun x hx => (gate.durations_pos x (by simp [h, hx])).le

theorem getElem?_length_pre (h : gate.durations = pre ++ d :: post) :
    gate.durations[pre.length]? = some d := by
  simp [h]

theorem skipOffset_spec (rest : List ℚ) {fuel : ℕ} (hfuel : rest.length ≤ fuel)
    (h : gate.durations = pre ++ rest) (h0 : 0 ≤ state.offset) (hlt : state.offset < rest.sum)
    (hindex : state.index = pre.length)
    (hopen : state.isOpen = not^[pre.length] gate.initiallyOpen) :
    ∃ pre' d post, gate.durations = pre' ++ d :: post ∧
      0 ≤ (gate.skipOffset fuel state).offset ∧ (gate.skipOffset fuel state).offset < d ∧
      (gate.skipOffset fuel state).offset + pre'.sum = state.offset + pre.sum ∧
      (gate.skipOffset fuel state).index = pre'.length ∧
      (gate.skipOffset fuel state).isOpen = not^[pre'.length] gate.initiallyOpen := by
  induction rest generalizing pre state fuel with
  | nil => exact absurd h0 (not_le.2 (by simpa using hlt))
  | cons d rest ih =>
    cases fuel with
    | zero => simp at hfuel
    | succ fuel =>
      have hd := pos_of_mem h
      by_cases hge : d ≤ state.offset
      · have hpos : 0 < state.offset := by linarith
        have hne : rest ≠ [] := by
          rintro rfl
          simp only [List.sum_cons, List.sum_nil, add_zero] at hlt
          linarith
        have hlen : (pre.length + 1) % gate.durations.length = (pre ++ [d]).length := by
          have : 0 < rest.length := List.length_pos_iff.2 hne
          rw [Nat.mod_eq_of_lt (by simp [h, this]), List.length_append, List.length_singleton]
        rw [List.sum_cons] at hlt
        have hstep : gate.skipOffset (fuel + 1) state = gate.skipOffset fuel { state with
            isOpen := !state.isOpen
            offset := state.offset - d
            index := (state.index + 1) % gate.durations.length } := by
          rw [skipOffset, if_pos hpos, hindex, getElem?_length_pre h]
          simp only [hge, if_true]
        have hflip : (!state.isOpen) = not^[(pre ++ [d]).length] gate.initiallyOpen := by
          rw [hopen, List.length_append, List.length_singleton, Function.iterate_succ_apply']
        rw [hstep]
        obtain ⟨pre', d', post, heq, hnn, hlt', hsum, hrest⟩ :=
          @ih { state with
            isOpen := !state.isOpen
            offset := state.offset - d
            index := (state.index + 1) % gate.durations.length } (pre ++ [d]) fuel
            (by simpa using hfuel) (by simp [h]) (by simp only; linarith) (by simp only; linarith)
            (by simp only [hindex, hlen]) hflip
        refine ⟨pre', d', post, heq, hnn, hlt', ?_, hrest⟩
        rw [hsum, List.sum_append, List.sum_singleton]
        simp only
        ring
      · have hstop : gate.skipOffset (fuel + 1) state = state := by
          rw [skipOffset]
          split
          · rw [hindex, getElem?_length_pre h]
            simp only [hge, if_false]
          · rfl
        rw [hstop]
        exact ⟨pre, d, rest, h, h0, not_le.1 hge, rfl, hindex, hopen⟩

theorem totalDuration_pos (hne : gate.durations ≠ []) : 0 < gate.totalDuration := by
  obtain ⟨d, post, h⟩ := List.exists_cons_of_ne_nil hne
  have hle := @sum_le_totalDuration gate [] post d h
  have hd := @pos_of_mem gate [] post d h
  simp only [List.sum_nil, zero_add] at hle
  linarith

theorem scheduleChangeTimer_of_index {now : ℚ} (h : gate.durations = pre ++ d :: post)
    (hindex : state.index = pre.length) :
    gate.scheduleChangeTimer now state = .ok { state with
      index := (pre.length + 1) % gate.durations.length
      changeTimer := some (now + d - state.offset)
      offset := 0 } := by
  rw [scheduleChangeTimer, hindex, getElem?_length_pre h]

theorem handleMessage_of_index {now : ℚ} (h : gate.durations = pre ++ d :: post)
    (hindex : state.index = pre.length) :
    gate.handleMessage now state = .ok
      { index := (pre.length + 1) % gate.durations.length
        isOpen := !state.isOpen
        offset := 0
        changeTimer := some (now + d - state.offset) } := by
  rw [handleMessage, scheduleChangeTimer_of_index h hindex]
  rfl

theorem within_start (hne : gate.durations ≠ []) :
    ∃ state timer k pre d post, gate.initializeGating 0 = .ok state ∧
      gate.Within 0 timer state k pre d post := by
  have hpos := totalDuration_pos hne
  obtain ⟨k, hle, hlt, hphase⟩ := exists_period hpos gate.initialOffset
  obtain ⟨pre, d, post, hdur, h0, hd, hsum, hindex, hopen⟩ :=
    @skipOffset_spec gate
      { index := 0, isOpen := gate.initiallyOpen,
        offset := phase gate.totalDuration gate.initialOffset, changeTimer := none } []
      gate.durations gate.durations.length le_rfl rfl (phase_nonneg hpos _)
        (phase_lt hpos _) rfl rfl
  have hstart : gate.initializeGating 0 = gate.scheduleChangeTimer 0
      (gate.skipOffset gate.durations.length
        { index := 0, isOpen := gate.initiallyOpen,
          offset := phase gate.totalDuration gate.initialOffset, changeTimer := none }) := by
    rw [initializeGating]
    simp only [hpos.ne', if_false, remainder_remainder hpos]
    rw [if_pos (List.length_pos_iff.2 hne)]
  generalize gate.skipOffset gate.durations.length _ = skipped at *
  rw [scheduleChangeTimer_of_index hdur hindex] at hstart
  simp only [List.sum_nil, add_zero] at hsum
  refine ⟨_, 0 + d - skipped.offset, k, pre, d, post, hstart, ?_⟩
  constructor
  · exact hdur
  · rfl
  · exact hopen
  · rfl
  · rfl
  · linarith
  · linarith
  · linarith

theorem Within.fire (h : gate.Within entered timer state k pre d post) :
    ∃ state' timer' k' pre' d' post', gate.handleMessage timer state = .ok state' ∧
      gate.Within timer timer' state' k' pre' d' post' ∧ timer' = timer + d' := by
  have hflip : (!state.isOpen) = not^[pre.length + 1] gate.initiallyOpen := by
    rw [h.isOpen_eq, Function.iterate_succ_apply']
  have htime := h.timer_time
  have hoffset := h.offset_eq
  cases post with
  | cons d' post =>
    have hdur : gate.durations = (pre ++ [d]) ++ d' :: post := by simp [h.durations_eq]
    have hindex : state.index = (pre ++ [d]).length := by
      rw [h.index_eq, Nat.mod_eq_of_lt (by simp [h.durations_eq]), List.length_append,
        List.length_singleton]
    have hd' := pos_of_mem hdur
    refine ⟨_, timer + d', k, pre ++ [d], d', post, handleMessage_of_index hdur hindex, ?_, rfl⟩
    constructor
    · exact hdur
    · rfl
    · simpa using hflip
    · rfl
    · simp [hoffset]
    · rw [List.sum_append, List.sum_singleton]
      linarith
    · rw [List.sum_append, List.sum_singleton]
      linarith
    · linarith
  | nil =>
    -- The last duration of a period is over, and the number of changes in a period is even.
    have hlen : gate.durations.length = pre.length + 1 := by simp [h.durations_eq]
    have htotal : gate.totalDuration = pre.sum + d := by simp [totalDuration, h.durations_eq]
    obtain ⟨d', post, hdur⟩ : ∃ d' post, gate.durations = [] ++ d' :: post := by
      cases hd : gate.durations with
      | nil => simp [hd] at hlen
      | cons d' post => exact ⟨d', post, rfl⟩
    have hindex : state.index = ([] : List ℚ).length := by
      rw [h.index_eq, hlen, Nat.mod_self, List.length_nil]
    have hd' := pos_of_mem hdur
    have hnext : ((k + 1 : ℤ) : ℚ) * gate.totalDuration = k * gate.totalDuration +
      (pre.sum + d) := by
      push_cast
      rw [← htotal]
      ring
    refine ⟨_, timer + d', k + 1, [], d', post, handleMessage_of_index hdur hindex, ?_, rfl⟩
    constructor
    · exact hdur
    · rfl
    · rw [← hlen, iterate_not_of_even gate.even_length] at hflip
      exact hflip
    · rfl
    · simp [hoffset]
    · rw [hnext, List.sum_nil]
      linarith
    · rw [hnext, List.sum_nil]
      linarith
    · linarith

theorem Reached.within (hne : gate.durations ≠ []) (h : gate.Reached entered state) :
    ∃ timer k pre d post, gate.Within entered timer state k pre d post := by
  induction h with
  | start hstart =>
    obtain ⟨state', timer, k, pre, d, post, hstart', hw⟩ := within_start hne
    obtain rfl : _ = state' := by simpa [hstart] using hstart'
    exact ⟨timer, k, pre, d, post, hw⟩
  | fire _ htimer hmessage ih =>
    obtain ⟨timer, k, pre, d, post, hw⟩ := ih
    obtain rfl : _ = timer := by simpa [htimer] using hw.timer_eq
    obtain ⟨state', timer', k', pre', d', post', hmessage', hw', -⟩ := hw.fire
    obtain rfl : _ = state' := by simpa [hmessage] using hmessage'
    exact ⟨timer', k', pre', d', post', hw'⟩

theorem Within.isOpen_of_lt (h : gate.Within entered timer state k pre d post)
    (hle : entered ≤ time) (hlt : time < timer) :
    state.isOpen = alternation gate.initiallyOpen gate.durations
      (phase gate.totalDuration (gate.initialOffset + time)) := by
  have htime := h.timer_time
  have hentered := h.entered_ge
  have hsum := sum_le_totalDuration h.durations_eq
  have hd := pos_of_mem h.durations_eq
  have hnn := nonneg_of_mem_pre h.durations_eq
  have hpre := List.sum_nonneg hnn
  rw [phase_eq (by linarith)
    (show (k : ℚ) * gate.totalDuration ≤ gate.initialOffset + time by linarith)
    (by linarith), h.durations_eq, alternation_append_cons hnn (by linarith) (by linarith),
    h.isOpen_eq]

theorem not_reached_of_nil (hnil : gate.durations = []) (h : gate.Reached entered state) :
    entered = 0 ∧ state.changeTimer = none ∧ state.isOpen = gate.initiallyOpen := by
  induction h with
  | start hstart =>
    have h : gate.initializeGating 0 = .ok
        { index := 0, isOpen := gate.initiallyOpen, offset := 0, changeTimer := none } := by
      simp [initializeGating, hnil, totalDuration, skipOffset]
    obtain rfl := Except.ok.inj (hstart.symm.trans h)
    exact ⟨rfl, rfl, rfl⟩
  | fire _ htimer _ ih =>
    rw [ih.2.1] at htimer
    cases htimer

theorem InForce.isOpen_eq (h : gate.InForce time entered state) :
    state.isOpen = alternation gate.initiallyOpen gate.durations
      (phase gate.totalDuration (gate.initialOffset + time)) := by
  by_cases hnil : gate.durations = []
  · rw [(not_reached_of_nil hnil h.reached).2.2, hnil]
    rfl
  · obtain ⟨timer, k, pre, d, post, hw⟩ := h.reached.within hnil
    exact hw.isOpen_of_lt h.entered_le (h.lt_timer timer hw.timer_eq)

theorem Reached.lt_timer (h : gate.Reached entered state)
    (htimer : state.changeTimer = some timer) : entered < timer := by
  by_cases hnil : gate.durations = []
  · rw [(not_reached_of_nil hnil h).2.1] at htimer
    cases htimer
  · obtain ⟨timer', k, pre, d, post, hw⟩ := h.within hnil
    obtain rfl : timer = timer' := by simpa [htimer] using hw.timer_eq
    exact hw.entered_lt

theorem exists_pos_le (ds : List ℚ) (h : ∀ d ∈ ds, 0 < d) : ∃ least > 0, ∀ d ∈ ds, least ≤ d := by
  induction ds with
  | nil => exact ⟨1, one_pos, by simp⟩
  | cons d ds ih =>
    obtain ⟨hd, hds⟩ := List.forall_mem_cons.1 h
    obtain ⟨least, hpos, hle⟩ := ih hds
    refine ⟨min d least, lt_min hd hpos, List.forall_mem_cons.2 ⟨min_le_left _ _, ?_⟩⟩
    exact fun x hx => (min_le_right _ _).trans (hle x hx)

theorem exists_inForce (h0 : 0 ≤ time) : ∃ entered state, gate.InForce time entered state := by
  by_cases hnil : gate.durations = []
  · have hstart : gate.initializeGating 0 = .ok
        { index := 0, isOpen := gate.initiallyOpen, offset := 0, changeTimer := none } := by
      simp [initializeGating, hnil, totalDuration, skipOffset]
    exact ⟨0, _, .start hstart, h0, by simp⟩
  obtain ⟨least, hpos, hleast⟩ := exists_pos_le gate.durations gate.durations_pos
  -- Each time the timer fires, it is set to a time that is later by the least duration.
  have hprogress : ∀ n : ℕ, ∃ entered timer state k pre d post, gate.Reached entered state ∧
      gate.Within entered timer state k pre d post ∧ entered ≤ time ∧
      (time < timer ∨ n * least ≤ timer) := by
    intro n
    induction n with
    | zero =>
      obtain ⟨state, timer, k, pre, d, post, hstart, hw⟩ := within_start hnil
      refine ⟨0, timer, state, k, pre, d, post, .start hstart, hw, h0, .inr ?_⟩
      have := hw.entered_lt
      simp only [Nat.cast_zero, zero_mul]
      linarith
    | succ n ih =>
      obtain ⟨entered, timer, state, k, pre, d, post, hr, hw, hle, htimer⟩ := ih
      by_cases hlt : time < timer
      · exact ⟨entered, timer, state, k, pre, d, post, hr, hw, hle, .inl hlt⟩
      · have hn := htimer.resolve_left hlt
        obtain ⟨state', timer', k', pre', d', post', hmessage, hw', hnext⟩ := hw.fire
        have hd' := hleast d' (by simp [hw'.durations_eq])
        refine ⟨timer, timer', state', k', pre', d', post', .fire hr hw.timer_eq hmessage, hw',
          not_lt.1 hlt, .inr ?_⟩
        push_cast
        linarith
  obtain ⟨n, hn⟩ := exists_nat_gt (time / least)
  rw [div_lt_iff₀ hpos] at hn
  obtain ⟨entered, timer, state, k, pre, d, post, hr, hw, hle, htimer⟩ := hprogress n
  refine ⟨entered, state, hr, hle, fun timer' htimer' => ?_⟩
  obtain rfl : timer = timer' := by simpa [hw.timer_eq] using htimer'
  exact htimer.elim id fun h => hn.trans_le h

end PeriodicGate

end Inet.Queueing
