import Inet.Ipv4.Igmpv3Records

/-! # The table of group records

What the comments of `processReport` say of each filter and record type, on
sets of sources, and the states and records for which the code does it.
-/

namespace Inet.Ipv4.Igmpv3

/-- The state of a group: `INCLUDE(a)`, or `EXCLUDE(x, y)` where only the timers of `x` run. -/
inductive GroupFilter where
  | including (a : Set Ipv4Address)
  | excluding (x y : Set Ipv4Address)

namespace GroupFilter

/-- The state after a record with the sources `b`. -/
def receive (b : Set Ipv4Address) : ReportType → GroupFilter → GroupFilter
  | .isIn, including a | .allow, including a | .toIn, including a => including (a ∪ b)
  | .isIn, excluding x y | .allow, excluding x y | .toIn, excluding x y => excluding (x ∪ b) (y \ b)
  | .isEx, including a | .toEx, including a => excluding (a ∩ b) (b \ a)
  | .isEx, excluding _ y | .toEx, excluding _ y => excluding (b \ y) (y ∩ b)
  | .block, including a => including a
  | .block, excluding x y => excluding (x ∪ b \ y) y

/-- The sources that the router asks about. -/
def queried (b : Set Ipv4Address) : ReportType → GroupFilter → Set Ipv4Address
  | .block, including a | .toEx, including a => a ∩ b
  | .block, excluding _ y | .toEx, excluding _ y => b \ y
  | .toIn, including a => a \ b
  | .toIn, excluding x _ => x \ b
  | _, _ => ∅

end GroupFilter

namespace RouterGroupData

def running (g : RouterGroupData) : Set Ipv4Address := {s | ∃ t, g.sources[s]? = some (some t)}

def idle (g : RouterGroupData) : Set Ipv4Address := {s | g.sources[s]? = some none}

def groupFilter (g : RouterGroupData) : GroupFilter :=
  match g.filter with
  | .fmInclude => .including g.running
  | .fmExclude => .excluding g.running g.idle

/-- In INCLUDE mode all source timers run, in EXCLUDE mode the group timer does. -/
structure WellFormed (g : RouterGroupData) : Prop where
  idle_eq : g.filter = .fmInclude → g.idle = ∅
  timer : g.filter = .fmExclude → g.timer.isSome = true

end RouterGroupData

/-- The records after which the code has the sources of the table. -/
def SourcesCovered (g : RouterGroupData) (recordType : ReportType) (l : List Ipv4Address) : Prop :=
  match recordType, g.filter with
  | .isEx, _ => ∀ s ∈ g.sources, s ∈ l
  | .toEx, .fmExclude => ∀ s, s ∉ g.sources
  | .block, .fmExclude => ∀ s ∈ l, s ∈ g.sources
  | _, _ => True

/-- The records that the code handles as in the table. For `TO_IN` in EXCLUDE mode it sets the
group timer to the last member query time, also where that raises it. -/
structure Covered (p : Parameters) (now : ℤ) (g : RouterGroupData) (recordType : ReportType)
    (l : List Ipv4Address) : Prop where
  sources : SourcesCovered g recordType l
  timer : recordType = .toIn → g.filter = .fmExclude →
    g.timer = some (now + p.lastMemberQueryTime)

variable {p : Parameters} {now : ℤ} {state : RouterState} {g g' : RouterGroupData}
  {recordType : ReportType} {l : List Ipv4Address} {s : Ipv4Address}

theorem WellDefined.sourcesCovered (h : WellDefined g recordType l)
    (hblock : recordType ≠ .block) : SourcesCovered g recordType l := by
  unfold SourcesCovered
  unfold WellDefined at h
  cases recordType with
  | block => exact absurd rfl hblock
  | isIn | allow | toIn => trivial
  | isEx => exact h
  | toEx =>
    cases hfilter : g.filter with
    | fmInclude => trivial
    | fmExclude =>
      simp only [hfilter] at h
      exact h

theorem mem_notRunning_iff : s ∈ g.notRunning ↔ s ∈ g.idle := by
  simp only [RouterGroupData.notRunning, RouterGroupData.idle, List.mem_filter,
    Std.ExtTreeMap.mem_keys, OrderedMap.mem_iff_ne_none, RouterGroupData.sourceTimerRunning,
    Set.mem_ofPred_eq]
  rcases g.sources[s]? with _ | _ | t
  · simp
  · simp
  · simp

theorem RouterGroupData.mem_iff : s ∈ g.sources ↔ s ∈ g.running ∨ s ∈ g.idle := by
  simp only [running, idle, OrderedMap.mem_iff_ne_none, Set.mem_ofPred_eq]
  rcases g.sources[s]? with _ | _ | t
  · simp
  · simp
  · simp

section Sets

variable {t : ℤ}

theorem running_start (h : ∀ s, g'.sources[s]? = if s ∈ l then some (some t) else g.sources[s]?) :
    g'.running = g.running ∪ {s | s ∈ l} := by
  ext s
  simp only [RouterGroupData.running, h, Set.mem_ofPred_eq, Set.mem_union]
  by_cases hs : s ∈ l <;> simp [hs]

theorem idle_start (h : ∀ s, g'.sources[s]? = if s ∈ l then some (some t) else g.sources[s]?) :
    g'.idle = g.idle \ {s | s ∈ l} := by
  ext s
  simp only [RouterGroupData.idle, h, Set.mem_ofPred_eq, Set.mem_sdiff]
  by_cases hs : s ∈ l <;> simp [hs]

theorem running_excluded_of_include (hfilter : g.filter = .fmInclude)
    (h : ∀ s, g'.sources[s]? = excludedSource p now g l s) :
    g'.running = g.running ∩ {s | s ∈ l} := by
  ext s
  simp only [RouterGroupData.running, h, excludedSource, hfilter, Set.mem_ofPred_eq,
    Set.mem_inter_iff]
  by_cases hs : s ∈ l <;> rcases g.sources[s]? with _ | _ | _ <;> simp [hs]

theorem idle_excluded_of_include (hfilter : g.filter = .fmInclude) (hidle : g.idle = ∅)
    (h : ∀ s, g'.sources[s]? = excludedSource p now g l s) :
    g'.idle = {s | s ∈ l} \ g.running := by
  ext s
  have hs : s ∉ g.idle := hidle ▸ Set.notMem_empty s
  simp only [RouterGroupData.idle, Set.mem_ofPred_eq] at hs
  simp only [RouterGroupData.idle, RouterGroupData.running, h, excludedSource, hfilter,
    Set.mem_ofPred_eq, Set.mem_sdiff]
  by_cases hs : s ∈ l <;> rcases hr : g.sources[s]? with _ | _ | _ <;> simp_all

theorem running_excluded_of_exclude (hfilter : g.filter = .fmExclude)
    (h : ∀ s, g'.sources[s]? = excludedSource p now g l s) :
    g'.running = {s | s ∈ l} \ g.idle := by
  ext s
  simp only [RouterGroupData.idle, RouterGroupData.running, h, excludedSource, hfilter,
    Set.mem_ofPred_eq, Set.mem_sdiff]
  by_cases hs : s ∈ l <;> rcases g.sources[s]? with _ | _ | _ <;> simp [hs]

theorem idle_excluded_of_exclude (hfilter : g.filter = .fmExclude)
    (h : ∀ s, g'.sources[s]? = excludedSource p now g l s) :
    g'.idle = g.idle ∩ {s | s ∈ l} := by
  ext s
  simp only [RouterGroupData.idle, h, excludedSource, hfilter, Set.mem_ofPred_eq, Set.mem_inter_iff]
  by_cases hs : s ∈ l <;> rcases g.sources[s]? with _ | _ | _ <;> simp [hs]

theorem running_congr (h : ∀ s : Ipv4Address, g'.sources[s]? = g.sources[s]?) :
    g'.running = g.running := by
  ext s
  simp only [RouterGroupData.running, h]

theorem idle_congr (h : ∀ s : Ipv4Address, g'.sources[s]? = g.sources[s]?) : g'.idle = g.idle := by
  ext s
  simp only [RouterGroupData.idle, h]

theorem running_union_of_recorded (h : ∀ s ∈ l, s ∈ g.sources) :
    g.running ∪ {s | s ∈ l} \ g.idle = g.running := by
  apply Set.union_eq_self_of_subset_right
  rintro s ⟨hs, hidle⟩
  exact (RouterGroupData.mem_iff.1 (h s hs)).resolve_right hidle

end Sets

theorem Becomes.groupFilter (hg : g.WellFormed) (h : SourcesCovered g recordType l)
    (hb : Becomes g g' (newFilter recordType g.filter) (newTimer p now recordType g)
      (newSource p now recordType g l)) :
    g'.groupFilter = g.groupFilter.receive {s | s ∈ l} recordType := by
  have hfilter' : g'.filter = newFilter recordType g.filter := by
    have h := congrArg RouterGroupData.filter hb.frame
    exact h
  have hlookup := hb.lookup
  unfold RouterGroupData.groupFilter
  rw [hfilter']
  unfold newSource at hlookup
  cases recordType with
  | isIn | allow | toIn =>
    rw [running_start hlookup, idle_start hlookup]
    cases g.filter with
    | fmInclude => rfl
    | fmExclude => rfl
  | isEx | toEx =>
    cases hfilter : g.filter with
    | fmInclude =>
      rw [running_excluded_of_include hfilter hlookup,
        idle_excluded_of_include hfilter (hg.idle_eq hfilter) hlookup]
      rfl
    | fmExclude =>
      rw [running_excluded_of_exclude hfilter hlookup, idle_excluded_of_exclude hfilter hlookup]
      rfl
  | block =>
    rw [running_congr hlookup, idle_congr hlookup]
    cases hfilter : g.filter with
    | fmInclude => rfl
    | fmExclude =>
      simp only [SourcesCovered, hfilter] at h
      simp only [newFilter, GroupFilter.receive, running_union_of_recorded h]

theorem Becomes.wellFormed (hg : g.WellFormed)
    (hb : Becomes g g' (newFilter recordType g.filter) (newTimer p now recordType g)
      (newSource p now recordType g l)) : g'.WellFormed := by
  have hfilter' : g'.filter = newFilter recordType g.filter := by
    have h := congrArg RouterGroupData.filter hb.frame
    exact h
  have htimer' : g'.timer = newTimer p now recordType g := by
    have h := congrArg RouterGroupData.timer hb.frame
    exact h
  have hlookup := hb.lookup
  unfold newSource at hlookup
  unfold newFilter at hfilter'
  unfold newTimer at htimer'
  constructor
  · rw [hfilter']
    intro hinclude
    cases recordType with
    | isIn | allow | toIn => rw [idle_start hlookup, hg.idle_eq hinclude, Set.empty_sdiff]
    | isEx | toEx => cases hinclude
    | block => rw [idle_congr hlookup, hg.idle_eq hinclude]
  · rw [hfilter', htimer']
    intro hexclude
    cases recordType with
    | isIn | allow | block => exact hg.timer hexclude
    | isEx | toEx => rfl
    | toIn =>
      simp only [hexclude]
      rfl

/-- The default parameters. -/
def Parameters.standard : Parameters where
  enabled := true
  robustnessVariable := 2
  groupMembershipInterval := 260000000000000
  lastMemberQueryInterval := 1000000000000
  lastMemberQueryCount := 2
  groupMembershipInterval_pos := by decide

end Inet.Ipv4.Igmpv3
