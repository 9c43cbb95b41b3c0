import Inet.Queueing.PeriodicGate
import Mathlib.Data.List.Nodup
import Mathlib.Data.List.Forall2

/-! # Gate control lists

`GateControlList` turns a list of entries, each with a duration and the states
of all gates, into the parameters of the periodic gates. For one gate, entries
of the same state are joined; a last run in the state of the first is joined
with it, and an offset tells how much of it belongs to the end of the cycle.
A gate with these parameters follows the list.
-/

namespace Inet.Queueing

structure GateControlList where
  numGates : ℕ
  mapping : String
  durations : List ℚ
  gateStates : List String
  deriving DecidableEq, Repr

/-- The parameters of one gate. -/
structure GateSchedule where
  initiallyOpen : Bool
  offset : ℚ
  durations : List ℚ
  deriving DecidableEq, Repr

/-- The elements of `currentGateStates`, `currentDuration` and `gateDurations` for one gate. -/
structure GateRuns where
  currentGateState : Bool
  currentDuration : ℚ
  durations : List ℚ
  deriving DecidableEq, Repr

/-- The gate that a character of the mapping stands for. -/
def gateIndex (ch : Char) : ℤ := (ch.toNat : ℤ) - ('0'.toNat : ℤ)

namespace GateRuns

def addEntry (duration : ℚ) (entry : Bool) (runs : GateRuns) : GateRuns :=
  if entry ≠ runs.currentGateState then
    { currentGateState := !runs.currentGateState
      currentDuration := 0 + duration
      durations := runs.durations ++ [runs.currentDuration] }
  else { runs with currentDuration := runs.currentDuration + duration }

/-- The last loop of `parseGcl`. -/
def schedule (initiallyOpen : Bool) (runs : GateRuns) : GateSchedule :=
  if runs.durations.length % 2 ≠ 0 then
    { initiallyOpen := initiallyOpen
      offset := 0
      durations := runs.durations ++ [runs.currentDuration] }
  else
    match runs.durations with
    | [] => { initiallyOpen := initiallyOpen, offset := 0, durations := [] }
    | d :: ds =>
      { initiallyOpen := initiallyOpen
        offset := runs.currentDuration
        durations := (d + runs.currentDuration) :: ds }

end GateRuns

namespace GateControlList

/-- The loop of `parseGclLine` over the characters of the mapping and of the entry. -/
def setGateStates (numGates : ℕ) : List (Char × Char) → List Bool → Except Error (List Bool)
  | [], result => .ok result
  | (m, ch) :: chars, result =>
    if gateIndex m < 0 ∨ (numGates : ℤ) ≤ gateIndex m then
      .error (.runtime "Invalid gate index %d in mapping")
    else if ch = '1' then setGateStates numGates chars (result.set (gateIndex m).toNat true)
    else if ch = '0' then setGateStates numGates chars (result.set (gateIndex m).toNat false)
    else .error (.runtime "Unknown char")

variable (gcl : GateControlList)

def parseGclLine (gateStates : String) : Except Error (List Bool) :=
  if gateStates.toList.length ≠ gcl.numGates then
    .error (.runtime "The length of the entry is not equal to numGates")
  else
    setGateStates gcl.numGates (gcl.mapping.toList.zip gateStates.toList)
      (List.replicate gcl.numGates false)

/-- One turn of the loop over the entries. -/
def addLine (runs : List GateRuns) (line : ℚ × String) : Except Error (List GateRuns) := do
  let entry ← gcl.parseGclLine line.2
  pure (List.zipWith (GateRuns.addEntry line.1) entry runs)

def parseGcl : Except Error (List GateSchedule) := do
  let initiallyOpens ← match gcl.gateStates with
    | [] => throw (Error.runtime "cValueArray: index out of range")
    | gateStates :: _ => gcl.parseGclLine gateStates
  let runs ← (gcl.durations.zip gcl.gateStates).foldlM gcl.addLine
    (initiallyOpens.map fun isOpen => ⟨isOpen, 0, []⟩)
  pure (List.zipWith GateRuns.schedule initiallyOpens runs)

/-- The checks of `INITSTAGE_LOCAL`, and the parameters of all gates. -/
def configure : Except Error (List GateSchedule) :=
  if gcl.mapping.toList.length ≠ gcl.numGates then
    .error (.runtime "The length of mapping is not equal to numGates")
  else if gcl.durations.length ≠ gcl.gateStates.length then
    .error (.runtime "The length of durations is not equal to the length of gateStates")
  else gcl.parseGcl

/-- An entry has a gate open if the character at the place of the gate is `1`. -/
def HasOpen (gateStates : String) (gate : ℕ) : Prop :=
  ∃ p ∈ gcl.mapping.toList.zip gateStates.toList, gateIndex p.1 = gate ∧ p.2 = '1'

/-- The sum of all durations. -/
def cycleTime : ℚ := gcl.durations.sum

end GateControlList

/-- The element that is active after some time, of elements with durations. -/
def activeEntry {α : Type} : List (ℚ × α) → ℚ → Option α
  | [], _ => none
  | (d, a) :: entries, time => if time < d then some a else activeEntry entries (time - d)

theorem activeEntry_append_of_lt {α : Type} {entries entries' : List (ℚ × α)} {time : ℚ}
    (h0 : 0 ≤ time) (h : time < (entries.map (·.1)).sum) :
    activeEntry (entries ++ entries') time = activeEntry entries time := by
  induction entries generalizing time with
  | nil => exact absurd h0 (not_le.2 h)
  | cons e entries ih =>
    rw [List.map_cons, List.sum_cons] at h
    simp only [List.cons_append, activeEntry]
    split
    · rfl
    · exact ih (by linarith) (by linarith)

theorem activeEntry_append_of_ge {α : Type} {entries entries' : List (ℚ × α)} {time : ℚ}
    (hpos : ∀ e ∈ entries, 0 < e.1) (h : (entries.map (·.1)).sum ≤ time) :
    activeEntry (entries ++ entries') time =
      activeEntry entries' (time - (entries.map (·.1)).sum) := by
  induction entries generalizing time with
  | nil => simp
  | cons e entries ih =>
    obtain ⟨he, hes⟩ := List.forall_mem_cons.1 hpos
    have hsum : 0 ≤ (entries.map (·.1)).sum := by
      apply List.sum_nonneg
      simpa using fun a b hab => (hes _ hab).le
    rw [List.map_cons, List.sum_cons] at h ⊢
    simp only [List.cons_append, activeEntry]
    rw [if_neg (by linarith), ih hes (by linarith), sub_sub]

/-- The runs collected from some entries of one gate. -/
structure Collected (initial : Bool) (entries : List (ℚ × Bool)) (runs : GateRuns) : Prop where
  state_eq : runs.currentGateState = not^[runs.durations.length] initial
  current_pos : 0 < runs.currentDuration
  durations_pos : ∀ d ∈ runs.durations, 0 < d
  sum_eq : runs.durations.sum + runs.currentDuration = (entries.map (·.1)).sum
  active_eq : ∀ time, 0 ≤ time → time < (entries.map (·.1)).sum →
    activeEntry entries time =
      some (alternation initial (runs.durations ++ [runs.currentDuration]) time)

namespace Collected

variable {initial : Bool} {entries : List (ℚ × Bool)} {runs : GateRuns}

theorem first {d : ℚ} (hd : 0 < d) (b : Bool) :
    Collected b [(d, b)] (GateRuns.addEntry d b ⟨b, 0, []⟩) := by
  constructor
  · simp [GateRuns.addEntry]
  · simpa [GateRuns.addEntry] using hd
  · simp [GateRuns.addEntry]
  · simp [GateRuns.addEntry]
  · intro time _ h
    simp only [List.map_cons, List.map_nil, List.sum_cons, List.sum_nil, add_zero] at h
    simp [GateRuns.addEntry, activeEntry, alternation, h]

theorem addEntry (h : Collected initial entries runs) (hpos : ∀ e ∈ entries, 0 < e.1) {d : ℚ}
    (hd : 0 < d) (b : Bool) :
    Collected initial (entries ++ [(d, b)]) (runs.addEntry d b) := by
  have hnn : ∀ x ∈ runs.durations, 0 ≤ x := fun x hx => (h.durations_pos x hx).le
  have hcur := h.current_pos
  have hsum := h.sum_eq
  have hlast : ∀ {time}, (entries.map (·.1)).sum ≤ time → time < (entries.map (·.1)).sum + d →
      activeEntry (entries ++ [(d, b)]) time = some b := by
    intro time hge hlt
    rw [activeEntry_append_of_ge hpos hge, activeEntry, if_pos (by linarith)]
  have hbefore : ∀ {time}, 0 ≤ time → time < (entries.map (·.1)).sum →
      activeEntry (entries ++ [(d, b)]) time =
        some (alternation initial (runs.durations ++ [runs.currentDuration]) time) :=
    fun h0 hlt => (activeEntry_append_of_lt h0 hlt).trans (h.active_eq _ h0 hlt)
  have htotal : ((entries ++ [(d, b)]).map (·.1)).sum = (entries.map (·.1)).sum + d := by simp
  rw [GateRuns.addEntry]
  split
  next hne =>
    have hflip : (!runs.currentGateState) = not^[(runs.durations ++ [runs.currentDuration]).length]
        initial := by
      rw [List.length_append, List.length_singleton, Function.iterate_succ_apply', h.state_eq]
    have hb : (!runs.currentGateState) = b := by
      cases b <;> cases hs : runs.currentGateState <;> simp_all
    have hnn' : ∀ x ∈ runs.durations ++ [runs.currentDuration], 0 ≤ x := by
      simpa [or_imp, forall_and] using ⟨hnn, hcur.le⟩
    constructor
    · exact hflip
    · simpa using hd
    · simpa [or_imp, forall_and] using ⟨h.durations_pos, hcur⟩
    · rw [htotal, ← hsum]
      simp
    · intro time h0 hlt
      rw [htotal] at hlt
      rcases lt_or_ge time (entries.map (·.1)).sum with hb' | hb'
      · simp only
        rw [hbefore h0 hb', @alternation_append_of_lt _ _ _ initial time _ [0 + d] _ h0
          (by simpa [hsum] using hb')]
      · rw [hlast hb' hlt, alternation_append_cons hnn' (by simpa [hsum] using hb')
          (by simpa [hsum] using hlt), ← hflip, hb]
  next heq =>
    have hb : runs.currentGateState = b := by
      simpa using (not_not.1 heq).symm
    constructor
    · exact h.state_eq
    · simp only
      linarith
    · exact h.durations_pos
    · rw [htotal, ← hsum]
      simp only
      ring
    · intro time h0 hlt
      rw [htotal] at hlt
      rcases lt_or_ge time (entries.map (·.1)).sum with hb' | hb'
      · rw [hbefore h0 hb']
        rcases lt_or_ge time runs.durations.sum with hs | hs
        · rw [alternation_append_of_lt h0 hs, alternation_append_of_lt h0 hs]
        · rw [alternation_append_cons hnn hs (by linarith),
            alternation_append_cons hnn hs (by simp only; linarith)]
      · rw [hlast hb' hlt, alternation_append_cons hnn (by linarith) (by simp only; linarith),
          ← h.state_eq, hb]

theorem foldl (h : Collected initial entries runs) (hpos : ∀ e ∈ entries, 0 < e.1)
    {entries' : List (ℚ × Bool)} (hpos' : ∀ e ∈ entries', 0 < e.1) :
    Collected initial (entries ++ entries')
      (entries'.foldl (fun runs e => runs.addEntry e.1 e.2) runs) := by
  induction entries' generalizing entries runs with
  | nil => simpa using h
  | cons e entries' ih =>
    obtain ⟨he, hes⟩ := List.forall_mem_cons.1 hpos'
    have hall : ∀ e' ∈ entries ++ [e], 0 < e'.1 := by
      intro e' he'
      rcases List.mem_append.1 he' with he' | he'
      · exact hpos e' he'
      · rwa [List.mem_singleton.1 he']
    simpa using ih (h.addEntry hpos he e.2) hall hes

theorem schedule (h : Collected initial entries runs) :
    Even (runs.schedule initial).durations.length ∧
      (∀ d ∈ (runs.schedule initial).durations, 0 < d) ∧
      (runs.schedule initial).initiallyOpen = initial ∧
      ∀ time, activeEntry entries (phase (entries.map (·.1)).sum time) =
        some (alternation initial (runs.schedule initial).durations
          (phase (runs.schedule initial).durations.sum
            ((runs.schedule initial).offset + time))) := by
  have hcur := h.current_pos
  have hsum := h.sum_eq
  have hds : 0 ≤ runs.durations.sum := List.sum_nonneg fun d hd => (h.durations_pos d hd).le
  have hcycle : 0 < (entries.map (·.1)).sum := by linarith
  have hactive := fun time => h.active_eq _ (phase_nonneg hcycle time) (phase_lt hcycle time)
  have hpos := h.durations_pos
  simp only [GateRuns.schedule]
  split
  next hodd =>
    refine ⟨?_, ?_, rfl, ?_⟩
    · rw [List.length_append, List.length_singleton, Nat.even_add_one, Nat.even_iff]
      exact hodd
    · simpa [or_imp, forall_and] using ⟨hpos, hcur⟩
    · intro time
      rw [hactive]
      simp only [List.sum_append, List.sum_singleton, hsum, zero_add]
  next heven =>
    rw [not_not] at heven
    cases hruns : runs.durations with
    | nil =>
      simp only [hruns, List.nil_append, List.sum_nil, zero_add] at hactive hsum
      refine ⟨by simp, by simp, rfl, ?_⟩
      intro time
      have hlt := phase_lt hcycle time
      rw [hactive, alternation_of_lt (by linarith)]
      rfl
    | cons d ds =>
      simp only [hruns, List.sum_cons, List.length_cons] at hactive hsum heven hpos
      obtain ⟨hd, hds⟩ := List.forall_mem_cons.1 hpos
      refine ⟨?_, ?_, rfl, ?_⟩
      · rwa [List.length_cons, Nat.even_iff]
      · exact List.forall_mem_cons.2 ⟨by linarith, hds⟩
      · intro time
        have hodd : Odd ds.length := by
          rw [← Nat.not_even_iff_odd, ← Nat.even_add_one, Nat.even_iff]
          exact heven
        have htotal : ((d + runs.currentDuration) :: ds).sum = (entries.map (·.1)).sum := by
          rw [List.sum_cons]
          linarith
        rw [hactive, htotal, alternation_rotate hds hd hcur hodd (by linarith)]
        rfl

end Collected

namespace GateControlList

open Error

variable {gcl : GateControlList} {j : ℕ}

theorem setGateStates_spec {numGates : ℕ} {chars : List (Char × Char)} {result result' : List Bool}
    (h : setGateStates numGates chars result = .ok result')
    (hnodup : (chars.map fun p => gateIndex p.1).Nodup) :
    result'.length = result.length ∧ ∀ (j : ℕ) (b : Bool), result'[j]? = some b →
      (b = true ↔ (∃ p ∈ chars, gateIndex p.1 = j ∧ p.2 = '1') ∨
        (∀ p ∈ chars, gateIndex p.1 ≠ j) ∧ result[j]? = some true) := by
  induction chars generalizing result with
  | nil =>
    obtain rfl := Except.ok.inj h
    refine ⟨rfl, fun j b hb => ?_⟩
    simp [hb]
  | cons p chars ih =>
    obtain ⟨m, ch⟩ := p
    rw [List.map_cons, List.nodup_cons] at hnodup
    obtain ⟨hnotin, hnodup⟩ := hnodup
    obtain ⟨hindex, b, hch, hrec⟩ : 0 ≤ gateIndex m ∧ ∃ b : Bool, (b = true ↔ ch = '1') ∧
        setGateStates numGates chars (result.set (gateIndex m).toNat b) = .ok result' := by
      rw [setGateStates] at h
      split at h
      · cases h
      next hrange =>
        refine ⟨not_lt.1 fun hlt => hrange (.inl hlt), ?_⟩
        split at h
        next h1 => exact ⟨true, by simp [h1], h⟩
        next h1 =>
          split at h
          next h0 => exact ⟨false, by simp [h1], h⟩
          next => cases h
    obtain ⟨hlen, hspec⟩ := ih hrec hnodup
    rw [List.length_set] at hlen
    refine ⟨hlen, fun j b' hb' => ?_⟩
    rw [hspec j b' hb']
    have hother : gateIndex m = j → ∀ p ∈ chars, gateIndex p.1 ≠ j := by
      intro hj p hp hpj
      exact hnotin (List.mem_map.2 ⟨p, hp, hpj.trans hj.symm⟩)
    by_cases hj : gateIndex m = j
    · have hlt : j < result.length := by
        rw [← hlen]
        exact (List.getElem?_eq_some_iff.1 hb').1
      have hset : (result.set (gateIndex m).toNat b)[j]? = some b := by
        rw [show (gateIndex m).toNat = j by omega, List.getElem?_set_self hlt]
      rw [hset]
      constructor
      · rintro (⟨p, hp, hpj, -⟩ | ⟨-, hb⟩)
        · exact absurd hpj (hother hj p hp)
        · exact .inl ⟨(m, ch), List.mem_cons_self, hj, hch.1 (Option.some.inj hb)⟩
      · rintro (⟨p, hp, hpj, hp1⟩ | ⟨hne, -⟩)
        · rcases List.mem_cons.1 hp with rfl | hp
          · exact .inr ⟨hother hj, congrArg some (hch.2 hp1)⟩
          · exact absurd hpj (hother hj p hp)
        · exact absurd hj (hne (m, ch) List.mem_cons_self)
    · have hset : (result.set (gateIndex m).toNat b)[j]? = result[j]? :=
        List.getElem?_set_ne (by omega)
      rw [hset]
      simp [hj]

/-- A mapping that is a permutation of the gates. -/
def IsPermutation (gcl : GateControlList) : Prop :=
  (gcl.mapping.toList.map gateIndex).Perm
    (List.map (fun n : ℕ => (n : ℤ)) (List.range gcl.numGates))

theorem IsPermutation.nodup_zip (h : gcl.IsPermutation) {chars : List Char}
    (hlen : chars.length = gcl.numGates) :
    ((gcl.mapping.toList.zip chars).map fun p => gateIndex p.1).Nodup := by
  have hnodup : (gcl.mapping.toList.map gateIndex).Nodup := by
    rw [h.nodup_iff]
    exact List.nodup_range.map fun a b hab => by simpa using hab
  have hmapping : gcl.mapping.toList.length = gcl.numGates := by simpa using h.length_eq
  have hfst : (gcl.mapping.toList.zip chars).map Prod.fst = gcl.mapping.toList :=
    List.map_fst_zip (by omega)
  rwa [← hfst, List.map_map] at hnodup

theorem parseGclLine_spec (h : gcl.IsPermutation) {gateStates : String} {entry : List Bool}
    (hparse : gcl.parseGclLine gateStates = .ok entry) :
    entry.length = gcl.numGates ∧ ∀ (j : ℕ) (b : Bool), entry[j]? = some b →
      (b = true ↔ gcl.HasOpen gateStates j) := by
  rw [parseGclLine] at hparse
  split at hparse
  · cases hparse
  next hstates =>
    obtain ⟨hlen, hspec⟩ := setGateStates_spec hparse (h.nodup_zip (not_not.1 hstates))
    refine ⟨by simpa using hlen, fun j b hb => ?_⟩
    rw [hspec j b hb, HasOpen]
    constructor
    · rintro (hopen | ⟨-, hfalse⟩)
      · exact hopen
      · simp [List.getElem?_replicate] at hfalse
    · exact .inl

theorem foldlM_addLine (hlen : ∀ {gateStates entry}, gcl.parseGclLine gateStates = .ok entry →
      entry.length = gcl.numGates) (hj : j < gcl.numGates)
    {lines : List (ℚ × String)} {runs runs' : List GateRuns} {r : GateRuns}
    (h : lines.foldlM gcl.addLine runs = .ok runs') (hr : runs[j]? = some r) :
    ∃ bits : List Bool,
      List.Forall₂ (fun line b => ∃ entry, gcl.parseGclLine line.2 = .ok entry ∧
        entry[j]? = some b) lines bits ∧
      runs'[j]? = some (((lines.map (·.1)).zip bits).foldl (fun r e => r.addEntry e.1 e.2) r) := by
  induction lines generalizing runs r with
  | nil =>
    obtain rfl := Except.ok.inj h
    exact ⟨[], .nil, hr⟩
  | cons line lines ih =>
    rw [List.foldlM_cons] at h
    obtain ⟨runs₁, hline, hrest⟩ := exists_of_bind_eq_ok h
    obtain ⟨entry, hentry, heq⟩ := exists_of_bind_eq_ok hline
    obtain rfl := Except.ok.inj heq
    obtain ⟨b, hb⟩ : ∃ b, entry[j]? = some b :=
      ⟨_, List.getElem?_eq_getElem (by rw [hlen hentry]; exact hj)⟩
    have hr₁ : (List.zipWith (GateRuns.addEntry line.1) entry runs)[j]? =
        some (r.addEntry line.1 b) := by
      rw [List.getElem?_zipWith, hb, hr]
    obtain ⟨bits, hbits, hruns'⟩ := ih hrest hr₁
    exact ⟨b :: bits, .cons ⟨entry, hentry, hb⟩ hbits, hruns'⟩

theorem activeEntry_zip {R : ℚ × String → Bool → Prop} {lines : List (ℚ × String)}
    {bits : List Bool} (h : List.Forall₂ R lines bits) {time : ℚ} {b : Bool}
    (hb : activeEntry ((lines.map (·.1)).zip bits) time = some b) :
    ∃ line, activeEntry lines time = some line.2 ∧ R line b := by
  induction h generalizing time with
  | nil => cases hb
  | @cons line b' lines bits hline _ ih =>
    simp only [List.map_cons, List.zip_cons_cons, activeEntry] at hb ⊢
    by_cases hlt : time < line.1
    · rw [if_pos hlt] at hb ⊢
      obtain rfl := Option.some.inj hb
      exact ⟨line, rfl, hline⟩
    · rw [if_neg hlt] at hb ⊢
      exact ih hb

theorem configure_gate (hperm : gcl.IsPermutation) (hne : gcl.durations ≠ [])
    (hpos : ∀ d ∈ gcl.durations, 0 < d) {schedules : List GateSchedule}
    (h : gcl.configure = .ok schedules) (hj : j < gcl.numGates) :
    gcl.durations.length = gcl.gateStates.length ∧
    ∃ (initial : Bool) (bits : List Bool) (runs : GateRuns),
      List.Forall₂ (fun line b => b = true ↔ gcl.HasOpen line.2 j)
        (gcl.durations.zip gcl.gateStates) bits ∧
      Collected initial (gcl.durations.zip bits) runs ∧
      schedules[j]? = some (runs.schedule initial) := by
  rw [configure] at h
  split at h
  · cases h
  split at h
  · cases h
  next hsize =>
  rw [not_not] at hsize
  refine ⟨hsize, ?_⟩
  obtain ⟨d, ds, hdurations⟩ := List.exists_cons_of_ne_nil hne
  obtain ⟨gateStates, rest, hstates⟩ : ∃ gateStates rest, gcl.gateStates = gateStates :: rest := by
    cases hs : gcl.gateStates with
    | nil => simp [hs, hdurations] at hsize
    | cons gateStates rest => exact ⟨gateStates, rest, rfl⟩
  rw [parseGcl, hstates] at h
  obtain ⟨initiallyOpens, hinit, h⟩ := exists_of_bind_eq_ok h
  obtain ⟨runs, hruns, h⟩ := exists_of_bind_eq_ok h
  obtain rfl := Except.ok.inj h
  have hlen := fun {gateStates entry} (h : gcl.parseGclLine gateStates = .ok entry) =>
    (parseGclLine_spec hperm h).1
  obtain ⟨initial, hi⟩ : ∃ initial, initiallyOpens[j]? = some initial :=
    ⟨_, List.getElem?_eq_getElem (by rw [hlen hinit]; exact hj)⟩
  rw [← hstates] at hruns
  obtain ⟨bits, hbits, hruns'⟩ := @foldlM_addLine gcl j hlen hj _ _ _ ⟨initial, 0, []⟩ hruns
    (by simp [hi])
  rw [List.map_fst_zip hsize.le] at hruns'
  refine ⟨initial, bits, _, ?_, ?_, by rw [List.getElem?_zipWith, hi, hruns']⟩
  · refine hbits.imp fun line b => ?_
    rintro ⟨entry, hentry, hb⟩
    exact (parseGclLine_spec hperm hentry).2 j b hb
  · rw [hdurations, hstates, List.zip_cons_cons] at hbits
    cases hbits with
    | @cons _ b _ bits hfirst hrest =>
      -- The first line gives the initial state, so that no empty run is stored.
      obtain ⟨entry, hentry, hb⟩ := hfirst
      obtain rfl := Except.ok.inj (hinit.symm.trans hentry)
      obtain rfl : initial = b := by simpa [hi] using hb
      rw [hdurations] at hpos
      obtain ⟨hd, hds⟩ := List.forall_mem_cons.1 hpos
      have hrest : ∀ e ∈ ds.zip bits, 0 < e.1 := fun e he => hds e.1 (List.of_mem_zip he).1
      have hcollected := (Collected.first hd initial).foldl (by simpa using hd) hrest
      simpa [hdurations] using hcollected

/-- A gate with the parameters that the list gives is open, at every time, exactly if the active
entry of the list has the gate open; its timer is always set to a later time. -/
theorem gate_follows_list (gcl : GateControlList) (hperm : gcl.IsPermutation)
    (hne : gcl.durations ≠ []) (hpos : ∀ d ∈ gcl.durations, 0 < d)
    (schedules : List GateSchedule) (h : gcl.configure = .ok schedules) (j : ℕ)
    (hj : j < gcl.numGates) :
    ∃ schedule gate, schedules[j]? = some schedule ∧
      PeriodicGate.readDurationsPar schedule.initiallyOpen schedule.offset
        schedule.durations = .ok gate ∧
      (∀ entered state timer, gate.Reached entered state → state.changeTimer = some timer →
        entered < timer) ∧
      ∀ time, 0 ≤ time →
        (∃ entered state, gate.InForce time entered state) ∧
        ∀ entered state, gate.InForce time entered state →
          ∃ gateStates, activeEntry (gcl.durations.zip gcl.gateStates)
              (phase gcl.cycleTime time) = some gateStates ∧
            (state.isOpen = true ↔ gcl.HasOpen gateStates j) := by
  obtain ⟨hsize, initial, bits, runs, hbits, hcollected, hschedule⟩ :=
    configure_gate hperm hne hpos h hj
  obtain ⟨heven, hdpos, hinit, hactive⟩ := hcollected.schedule
  refine ⟨_, ⟨(runs.schedule initial).initiallyOpen, (runs.schedule initial).offset, _, heven,
    hdpos⟩, hschedule, ?_, ?_, ?_⟩
  · rw [PeriodicGate.readDurationsPar, dif_pos heven, dif_pos hdpos]
  · exact fun entered state timer hr ht => hr.lt_timer ht
  · intro time htime
    refine ⟨PeriodicGate.exists_inForce htime, fun entered state hforce => ?_⟩
    have hlen := hbits.length_eq
    rw [List.length_zip, hsize, min_self] at hlen
    have hfst : (gcl.durations.zip bits).map (·.1) = gcl.durations :=
      List.map_fst_zip (by omega)
    have hfst' : (gcl.durations.zip gcl.gateStates).map (·.1) = gcl.durations :=
      List.map_fst_zip hsize.le
    have hopen := hforce.isOpen_eq
    have ha := hactive time
    simp only [hinit, PeriodicGate.totalDuration] at hopen
    rw [hfst, ← hopen] at ha
    nth_rewrite 1 [← hfst'] at ha
    obtain ⟨line, hline, hiff⟩ := activeEntry_zip hbits ha
    exact ⟨line.2, hline, hiff⟩

/-- Two gates in reverse order, with a cycle of eight seconds. -/
def gcl_8 : GateControlList where
  numGates := 2
  mapping := "10"
  durations := [4, 2, 2]
  gateStates := ["10", "01", "10"]

/-- The last entry is joined with the first; in the sixth second gate 1 is closed. -/
theorem gate_follows_list_gcl_8 :
    gcl_8.configure = .ok [⟨false, 2, [6, 2]⟩, ⟨true, 2, [6, 2]⟩] ∧
    ∃ gate, PeriodicGate.readDurationsPar true 2 [6, 2] = .ok gate ∧
      ∀ entered state, gate.InForce 5 entered state → state.isOpen = false := by
  have hconfigure : gcl_8.configure = .ok [⟨false, 2, [6, 2]⟩, ⟨true, 2, [6, 2]⟩] := by
    decide +kernel
  have hactive : activeEntry (gcl_8.durations.zip gcl_8.gateStates) (phase gcl_8.cycleTime 5) =
      some "01" := by
    decide +kernel
  have hclosed : ¬ gcl_8.HasOpen "01" 1 := by
    unfold HasOpen
    decide +kernel
  obtain ⟨schedule, gate, hschedule, hread, -, h⟩ := gate_follows_list gcl_8
    (by unfold IsPermutation; decide +kernel) (by decide) (by decide +kernel) _ hconfigure 1
    (by decide)
  obtain rfl : ⟨true, 2, [6, 2]⟩ = schedule := by simpa using hschedule
  refine ⟨hconfigure, gate, hread, fun entered state hforce => ?_⟩
  obtain ⟨gateStates, hstates, hiff⟩ := (h 5 (by norm_num)).2 entered state hforce
  obtain rfl : "01" = gateStates := by simpa [hactive] using hstates
  simpa [hclosed] using hiff

end GateControlList

end Inet.Queueing
