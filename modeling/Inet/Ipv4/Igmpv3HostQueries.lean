import Inet.Ipv4.AddressText
import Inet.Ipv4.Igmpv3StateChange

/-! # Answers to queries

A host keeps one response pending for each group, and merges the queries that
come before it is sent. The queries of a group that no report has answered are
kept beside the data: the report of the group has to cover all of them. It does
unless a query for sources comes while a response for the group is pending that
does not cover it and is not put off, or that is for the whole group.
-/

namespace Inet.Ipv4.Igmpv3

/-! ## The host -/

/-- The data of a group with the timer of its response and the recorded sources. -/
structure HostGroupTimerData extends HostGroupData where
  timer : Option ℤ
  queriedSources : List Ipv4Address

/-- `std::set_union` of sorted vectors. -/
def set_union (first second : List Ipv4Address) : Except Error (List Ipv4Address) := do
  assert (isSorted first = true) "isSorted(first)"
  assert (isSorted second = true) "isSorted(second)"
  pure (sort (first ++ second.diff first))

namespace HostGroupTimerData

def new (group : Ipv4Address) : Except Error HostGroupTimerData := do
  assert (group.isMulticast = true) "groupAddr.isMulticast()"
  pure { HostGroupData.new group with timer := none, queriedSources := [] }

/-- The rules 3 to 5 of `processQuery`. -/
def processQuery (g : HostGroupTimerData) (now : ℤ) (queriedSources : List Ipv4Address)
    (delay : ℕ) : Except Error HostGroupTimerData :=
  match g.timer with
  | none => pure { g with queriedSources := sort queriedSources, timer := some (now + delay) }
  | some arrival =>
    if queriedSources.isEmpty then
      pure { g with
        queriedSources := sort queriedSources
        timer := some (if arrival > now + delay then now + delay else arrival) }
    else if arrival > now + delay then do
      let queriedSources ← set_union g.queriedSources (sort queriedSources)
      pure { g with queriedSources, timer := some (now + delay) }
    else pure g

/-- The record of a report with the whole filter of the group. -/
def currentState (g : HostGroupTimerData) : GroupRecord where
  groupAddress := g.groupAddr
  recordType := match g.filter with
    | .fmInclude => .isIn
    | .fmExclude => .isEx
  sourceList := g.sourceAddressList

/-- The recorded sources that the filter admits. -/
def admittedSources (g : HostGroupTimerData) : Except Error (List Ipv4Address) :=
  match g.filter with
  | .fmInclude => set_intersection g.sourceAddressList g.queriedSources
  | .fmExclude => set_complement g.queriedSources g.sourceAddressList

/-- The record of the report that is sent comes with the new data. The timer has expired. -/
def processHostGroupQueryTimer (g : HostGroupTimerData) :
    Except Error (HostGroupTimerData × GroupRecord) := do
  let record ← if g.queriedSources.isEmpty then pure g.currentState
    else do
      let sources ← g.admittedSources
      pure ⟨g.groupAddr, .isIn, sources⟩
  sendGroupReport [record]
  pure ({ g with timer := none, queriedSources := [] }, record)

end HostGroupTimerData

structure HostInterfaceData where
  generalQueryTimer : Option ℤ
  groups : Std.ExtTreeMap Ipv4Address HostGroupTimerData

namespace HostInterfaceData

def putGroupData (i : HostInterfaceData) (group : Ipv4Address) (g : HostGroupTimerData) :
    HostInterfaceData :=
  { i with groups := i.groups.insert group g }

/-- The data of the group, and the interface data with it. -/
def getOrCreateGroupData (i : HostInterfaceData) (group : Ipv4Address) :
    Except Error (HostGroupTimerData × HostInterfaceData) :=
  match i.groups[group]? with
  | some g => pure (g, i)
  | none => do
    let g ← HostGroupTimerData.new group
    pure (g, i.putGroupData group g)

/-- A response to a general query is sent sooner than a response with the delay. -/
def respondsSooner (i : HostInterfaceData) (now : ℤ) (delay : ℕ) : Bool :=
  i.generalQueryTimer.any (· < now + delay)

/-- The host part, for a query with the IGMPv3 fields and the delay that was drawn for it. -/
def processQuery (i : HostInterfaceData) (now : ℤ) (query : Igmpv3Query) (delay : ℕ) :
    Except Error HostInterfaceData :=
  if i.respondsSooner now delay then pure i
  else if query.groupAddress.isUnspecified && query.sourceList.isEmpty then
    pure { i with generalQueryTimer := some (now + delay) }
  else if !query.groupAddress.isUnspecified then do
    let (g, i) ← i.getOrCreateGroupData query.groupAddress
    let g ← g.processQuery now query.sourceList delay
    pure (i.putGroupData query.groupAddress g)
  else pure i

end HostInterfaceData

/-! ## Runs -/

/-- A query for a group, or for sources of it, and when it is to be answered. -/
structure Unanswered where
  sources : List Ipv4Address
  deadline : ℤ
  deriving DecidableEq, Repr

/-- A host interface at a time. -/
structure Host where
  now : ℤ
  interface : HostInterfaceData
  /-- The queries for a group since its last report, but for those that came when a response to a
  general query was pending. -/
  unanswered : Ipv4Address → List Unanswered

/-- What happens on the interface: time passes, a query is received and its delay is drawn, or a
timer expires. -/
inductive HostEvent where
  | advance (time : ℤ)
  | query (query : Igmpv3Query) (delay : ℕ)
  | generalTimer
  | groupTimer (group : Ipv4Address)
  deriving DecidableEq, Repr

namespace Host

/-- The queries of the group with the new one, unless a general response covers it. -/
def receive (h : Host) (query : Igmpv3Query) (delay : ℕ) : Ipv4Address → List Unanswered :=
  if h.interface.respondsSooner h.now delay || query.groupAddress.isUnspecified then h.unanswered
  else Function.update h.unanswered query.groupAddress
    (⟨query.sourceList, h.now + delay⟩ :: h.unanswered query.groupAddress)

def step (h : Host) : HostEvent → Except Error Host
  | .advance time => pure { h with now := time }
  | .query query delay => do
    let interface ← h.interface.processQuery h.now query delay
    pure { h with interface, unanswered := h.receive query delay }
  | .generalTimer => pure { h with interface.generalQueryTimer := none }
  | .groupTimer group =>
    match h.interface.groups[group]? with
    | none => pure h
    | some g => do
      let (g, _) ← g.processHostGroupQueryTimer
      pure { h with
        interface := h.interface.putGroupData group g
        unanswered := Function.update h.unanswered group [] }

/-- Time does not pass a scheduled timer, and a timer expires at its time. -/
def Enabled (h : Host) : HostEvent → Prop
  | .advance time => h.now ≤ time ∧ (∀ arrival ∈ h.interface.generalQueryTimer, time ≤ arrival) ∧
      ∀ group ∈ h.interface.groups.toList, ∀ arrival ∈ group.2.timer, time ≤ arrival
  | .query _ _ => True
  | .generalTimer => h.interface.generalQueryTimer = some h.now
  | .groupTimer group => ∃ g ∈ h.interface.groups[group]?, g.timer = some h.now

instance (h : Host) (e : HostEvent) : Decidable (h.Enabled e) :=
  match e with
  | .advance _ => inferInstanceAs (Decidable (_ ∧ _))
  | .query _ _ => inferInstanceAs (Decidable True)
  | .generalTimer => inferInstanceAs (Decidable (_ = _))
  | .groupTimer group => inferInstanceAs (Decidable (∃ g ∈ h.interface.groups[group]?, _))

/-- The state after a run in which every event can happen. -/
def run (h : Host) : List HostEvent → Option Host
  | [] => some h
  | e :: es => if h.Enabled e then (h.step e).toOption.bind (run · es) else none

end Host

/-! ## What a report covers -/

namespace HostGroupTimerData

def Admits (g : HostGroupTimerData) (s : Ipv4Address) : Prop :=
  match g.filter with
  | .fmInclude => s ∈ g.sourceAddressList
  | .fmExclude => s ∉ g.sourceAddressList

instance (g : HostGroupTimerData) (s : Ipv4Address) : Decidable (g.Admits s) := by
  unfold Admits
  cases g.filter
  · exact inferInstanceAs (Decidable (s ∈ g.sourceAddressList))
  · exact inferInstanceAs (Decidable (s ∉ g.sourceAddressList))

/-- The record is the whole filter if a query is for the group, and otherwise it has every source
of the queries that the filter admits. -/
structure Covers (g : HostGroupTimerData) (unanswered : List Unanswered) (record : GroupRecord) :
    Prop where
  groupAddress : record.groupAddress = g.groupAddr
  whole : (∃ u ∈ unanswered, u.sources = []) → record = g.currentState
  sources : (∀ u ∈ unanswered, u.sources ≠ []) → record.recordType = .isIn ∧
    ∀ u ∈ unanswered, ∀ s ∈ u.sources, g.Admits s → s ∈ record.sourceList

/-- A query for sources comes when the pending response is for the whole group and not later than
its deadline, or is for sources and either later or for its sources as well. -/
def Merges (g : HostGroupTimerData) (now : ℤ) (sources : List Ipv4Address) (delay : ℕ) : Prop :=
  sources ≠ [] → ∀ arrival ∈ g.timer, if g.queriedSources = [] then arrival ≤ now + delay
    else now + delay < arrival ∨ ∀ s ∈ sources, g.Admits s → s ∈ g.queriedSources

instance (g : HostGroupTimerData) (now : ℤ) (sources : List Ipv4Address) (delay : ℕ) :
    Decidable (g.Merges now sources delay) :=
  inferInstanceAs (Decidable (_ → _))

end HostGroupTimerData

namespace Host

/-- The report that the event sends covers the queries of its group, and none of them has been
due before. -/
def Answers (h : Host) : HostEvent → Prop
  | .groupTimer group => ∀ g ∈ h.interface.groups[group]?, ∃ g' record,
      g.processHostGroupQueryTimer = .ok (g', record) ∧ g.Covers (h.unanswered group) record ∧
        ∀ u ∈ h.unanswered group, h.now ≤ u.deadline
  | _ => True

/-- Every event that can happen in the run returns, and its report answers the queries. -/
def AnswersRun (h : Host) : List HostEvent → Prop
  | [] => True
  | e :: es => h.Enabled e → h.Answers e ∧ ∃ h', h.step e = .ok h' ∧ h'.AnswersRun es

/-- A query that no general response covers names a group that is reported, and is merged with the
pending response of the group. -/
def Merges (h : Host) : HostEvent → Prop
  | .query query delay =>
    (h.interface.respondsSooner h.now delay || query.groupAddress.isUnspecified) = false →
      query.groupAddress.isMulticast = true ∧ query.groupAddress.isLinkLocalMulticast = false ∧
      ∀ g ∈ h.interface.groups[query.groupAddress]?, g.Merges h.now query.sourceList delay
  | _ => True

instance (h : Host) (e : HostEvent) : Decidable (h.Merges e) :=
  match e with
  | .query _ _ => inferInstanceAs (Decidable (_ → _))
  | .advance _ | .generalTimer | .groupTimer _ => inferInstanceAs (Decidable True)

def MergesRun (h : Host) : List HostEvent → Prop
  | [] => True
  | e :: es => h.Enabled e → h.Merges e ∧ ∀ h' ∈ (h.step e).toOption, h'.MergesRun es

instance : (h : Host) → (es : List HostEvent) → Decidable (h.MergesRun es)
  | _, [] => inferInstanceAs (Decidable True)
  | h, e :: es =>
    have (h' : Host) : Decidable (h'.MergesRun es) := instDecidableMergesRun h' es
    inferInstanceAs (Decidable (h.Enabled e → h.Merges e ∧ _))

end Host

/-! ## The invariant -/

/-- The pending response of a group covers the queries that are not answered, in time. -/
structure HostGroupTimerData.Valid (g : HostGroupTimerData) (group : Ipv4Address)
    (unanswered : List Unanswered) : Prop where
  groupAddr : g.groupAddr = group
  pairwise_sources : g.sourceAddressList.Pairwise (· ≤ ·)
  pairwise_queried : g.queriedSources.Pairwise (· ≤ ·)
  idle : g.timer = none → unanswered = []
  reported : g.timer.isSome = true → group.isMulticast = true ∧ group.isLinkLocalMulticast = false
  deadline : ∀ arrival ∈ g.timer, ∀ u ∈ unanswered, arrival ≤ u.deadline
  whole : g.timer.isSome = true → g.queriedSources = [] → ∃ u ∈ unanswered, u.sources = []
  merged : g.queriedSources ≠ [] → ∀ u ∈ unanswered, u.sources ≠ [] ∧
    ∀ s ∈ u.sources, g.Admits s → s ∈ g.queriedSources

namespace HostGroupTimerData

variable {g : HostGroupTimerData} {group : Ipv4Address} {unanswered : List Unanswered} {now : ℤ}
  {sources : List Ipv4Address} {delay : ℕ}

theorem mem_union {l₁ l₂ : List Ipv4Address} {s : Ipv4Address} :
    s ∈ sort (l₁ ++ l₂.diff l₁) ↔ s ∈ l₁ ∨ s ∈ l₂ := by
  rw [mem_sort, List.mem_append]
  constructor
  · exact Or.imp_right fun h => List.diff_subset _ _ h
  · rintro (h | h)
    · exact .inl h
    · by_cases hs : s ∈ l₁
      · exact .inl hs
      · exact .inr (List.mem_diff_of_mem h hs)

theorem set_union_eq {l₁ l₂ : List Ipv4Address} (h₁ : l₁.Pairwise (· ≤ ·))
    (h₂ : l₂.Pairwise (· ≤ ·)) : set_union l₁ l₂ = .ok (sort (l₁ ++ l₂.diff l₁)) :=
  Error.bind_of_eq_ok (Error.assert_of_pos (isSorted_of_pairwise h₁))
    (Error.bind_of_eq_ok (Error.assert_of_pos (isSorted_of_pairwise h₂)) rfl)

theorem Valid.merge (h : g.Valid group unanswered)
    (hgroup : group.isMulticast = true ∧ group.isLinkLocalMulticast = false) {arrival : ℤ}
    {queried : List Ipv4Address} (hsorted : queried.Pairwise (· ≤ ·))
    (hdeadline : ∀ u ∈ unanswered, arrival ≤ u.deadline) (hnew : arrival ≤ now + delay)
    (hwhole : queried = [] → sources = [] ∨ ∃ u ∈ unanswered, u.sources = [])
    (hmerged : queried ≠ [] → sources ≠ [] ∧ (∀ s ∈ sources, g.Admits s → s ∈ queried) ∧
      ∀ u ∈ unanswered, u.sources ≠ [] ∧ ∀ s ∈ u.sources, g.Admits s → s ∈ queried) :
    Valid { g with queriedSources := queried, timer := some arrival } group
      (⟨sources, now + delay⟩ :: unanswered) where
  groupAddr := h.groupAddr
  pairwise_sources := h.pairwise_sources
  pairwise_queried := hsorted
  idle := nofun
  reported _ := hgroup
  deadline := by
    rintro _ ⟨⟩ u hu
    rcases List.mem_cons.1 hu with rfl | hu
    · exact hnew
    · exact hdeadline u hu
  whole := by
    rintro - hqueried
    rcases hwhole hqueried with hsources | ⟨u, hu, hsources⟩
    · exact ⟨_, List.mem_cons_self, hsources⟩
    · exact ⟨u, List.mem_cons_of_mem _ hu, hsources⟩
  merged := by
    intro hqueried u hu
    obtain ⟨hne, hsources, hothers⟩ := hmerged hqueried
    rcases List.mem_cons.1 hu with rfl | hu
    · exact ⟨hne, hsources⟩
    · exact hothers u hu

theorem sort_eq_nil {l : List Ipv4Address} : sort l = [] ↔ l = [] := by
  rw [← List.length_eq_zero_iff, sort, List.length_insertionSort, List.length_eq_zero_iff]

theorem Valid.exists_processQuery (h : g.Valid group unanswered)
    (hgroup : group.isMulticast = true ∧ group.isLinkLocalMulticast = false)
    (hmerges : g.Merges now sources delay) : ∃ g', g.processQuery now sources delay = .ok g' ∧
      g'.Valid group (⟨sources, now + delay⟩ :: unanswered) := by
  rw [processQuery]
  cases htimer : g.timer with
  | none =>
    refine ⟨_, rfl, h.merge hgroup (pairwise_sort sources) ?_ le_rfl
      (fun hnil => .inl (sort_eq_nil.1 hnil)) fun hne => ⟨hne ∘ sort_eq_nil.2, ?_, ?_⟩⟩
    · rw [h.idle htimer]
      exact List.forall_mem_nil _
    · exact fun s hs _ => mem_sort.2 hs
    · rw [h.idle htimer]
      exact List.forall_mem_nil _
  | some arrival =>
    have hdeadline := h.deadline arrival htimer
    dsimp only
    by_cases hsources : sources = []
    · -- The response is for the whole group from now on.
      subst hsources
      rw [if_pos List.isEmpty_nil]
      refine ⟨_, rfl, h.merge hgroup (pairwise_sort []) (fun u hu => ?_) ?_ (fun _ => .inl rfl)
        fun hne => absurd rfl hne⟩
      · have := hdeadline u hu
        split_ifs <;> omega
      · split_ifs <;> omega
    · have hmerge := hmerges hsources arrival htimer
      rw [if_neg (by rwa [List.isEmpty_iff])]
      by_cases hlater : arrival > now + delay
      · have hqueried : g.queriedSources ≠ [] := by
          intro hnil
          rw [if_pos hnil] at hmerge
          exact absurd hlater (not_lt.2 hmerge)
        rw [if_pos hlater, set_union_eq h.pairwise_queried (pairwise_sort sources)]
        refine ⟨_, rfl, h.merge hgroup (pairwise_sort _) (fun u hu => ?_) le_rfl (fun hnil => ?_)
          fun _ => ⟨hsources, fun s hs _ => mem_union.2 (.inr (mem_sort.2 hs)), fun u hu => ?_⟩⟩
        · have := hdeadline u hu
          omega
        · obtain ⟨s, hs⟩ := List.exists_mem_of_ne_nil _ hqueried
          have hmem : s ∈ sort (g.queriedSources ++ (sort sources).diff g.queriedSources) :=
            mem_union.2 (.inl hs)
          rw [hnil] at hmem
          cases hmem
        · obtain ⟨hne, hmerged⟩ := h.merged hqueried u hu
          exact ⟨hne, fun s hs hadmits => mem_union.2 (.inl (hmerged s hs hadmits))⟩
      · have hg : g = { g with queriedSources := g.queriedSources, timer := some arrival } := by
          rw [← htimer]
        rw [if_neg hlater]
        refine ⟨g, rfl, ?_⟩
        rw [hg]
        refine h.merge hgroup h.pairwise_queried hdeadline (not_lt.1 hlater)
          (fun hnil => .inr (h.whole ?_ hnil)) fun hne => ⟨hsources, ?_, h.merged hne⟩
        · rw [htimer]
          rfl
        · rw [if_neg hne] at hmerge
          exact hmerge.resolve_left (not_lt.2 (not_lt.1 hlater))

theorem exists_admittedSources (hsources : g.sourceAddressList.Pairwise (· ≤ ·))
    (hqueried : g.queriedSources.Pairwise (· ≤ ·)) : ∃ l, g.admittedSources = .ok l ∧
      ∀ s ∈ g.queriedSources, g.Admits s → s ∈ l := by
  unfold admittedSources Admits
  cases g.filter with
  | fmInclude =>
    exact ⟨_, set_intersection_eq hsources hqueried, fun s hs hadmits =>
      List.mem_bagInter.2 ⟨hadmits, hs⟩⟩
  | fmExclude =>
    exact ⟨_, set_complement_eq hqueried hsources, fun s hs hadmits =>
      List.mem_diff_of_mem hs hadmits⟩

theorem Valid.exists_report (h : g.Valid group unanswered)
    (htimer : g.timer.isSome = true) : ∃ g' record,
      g.processHostGroupQueryTimer = .ok (g', record) ∧ g.Covers unanswered record ∧
        g'.Valid group [] := by
  have hsend : ∀ record : GroupRecord, record.groupAddress = g.groupAddr →
      sendGroupReport [record] = .ok () := by
    intro record hrecord
    refine Error.assert_of_pos (List.forall_mem_singleton.2 ?_)
    rw [hrecord, h.groupAddr]
    exact h.reported htimer
  have hvalid : Valid { g with timer := none, queriedSources := [] } group [] :=
    ⟨h.groupAddr, h.pairwise_sources, .nil, fun _ => rfl, nofun, nofun, nofun,
      fun hne => absurd rfl hne⟩
  rw [processHostGroupQueryTimer]
  by_cases hqueried : g.queriedSources = []
  · obtain ⟨u, hu, hnil⟩ := h.whole htimer hqueried
    rw [if_pos (List.isEmpty_iff.2 hqueried)]
    refine ⟨_, g.currentState, Error.bind_of_eq_ok rfl (Error.bind_of_eq_ok (hsend _ rfl) rfl),
      ⟨rfl, fun _ => rfl, fun hne => absurd hnil (hne u hu)⟩, hvalid⟩
  · obtain ⟨l, hl, hmem⟩ := exists_admittedSources h.pairwise_sources h.pairwise_queried
    rw [if_neg (by rwa [List.isEmpty_iff]), hl]
    refine ⟨_, ⟨g.groupAddr, .isIn, l⟩,
      Error.bind_of_eq_ok rfl (Error.bind_of_eq_ok rfl (Error.bind_of_eq_ok (hsend _ rfl) rfl)),
      ⟨rfl, ?_, fun _ => ⟨rfl, ?_⟩⟩, hvalid⟩
    · rintro ⟨u, hu, hnil⟩
      exact absurd hnil (h.merged hqueried u hu).1
    · exact fun u hu s hs hadmits => hmem s ((h.merged hqueried u hu).2 s hs hadmits) hadmits

end HostGroupTimerData

namespace Host

variable {h : Host} {group : Ipv4Address} {e : HostEvent}

/-- The data of every group is valid, and no query waits for a group without data. -/
structure Valid (h : Host) : Prop where
  groups : ∀ group g, h.interface.groups[group]? = some g →
    HostGroupTimerData.Valid g group (h.unanswered group)
  absent : ∀ group, h.interface.groups[group]? = none → h.unanswered group = []

theorem Valid.put (hvalid : h.Valid) {g : HostGroupTimerData} {unanswered : List Unanswered}
    (hg : g.Valid group unanswered) {i : HostInterfaceData}
    (hi : ∀ group' ≠ group, i.groups[group']? = h.interface.groups[group']?) :
    Valid ⟨h.now, i.putGroupData group g, Function.update h.unanswered group unanswered⟩ where
  groups := by
    intro group' g' hg'
    rw [HostInterfaceData.putGroupData, OrderedMap.getElem?_insert] at hg'
    dsimp only
    by_cases heq : group' = group
    · subst heq
      rw [if_pos rfl] at hg'
      cases hg'
      rwa [Function.update_self]
    · rw [if_neg heq, hi group' heq] at hg'
      rw [Function.update_of_ne heq]
      exact hvalid.groups group' g' hg'
  absent := by
    intro group' hg'
    rw [HostInterfaceData.putGroupData, OrderedMap.getElem?_insert] at hg'
    dsimp only
    by_cases heq : group' = group
    · rw [if_pos heq] at hg'
      cases hg'
    · rw [if_neg heq, hi group' heq] at hg'
      rw [Function.update_of_ne heq]
      exact hvalid.absent group' hg'

theorem Valid.exists_groupData (hvalid : h.Valid) (hgroup : group.isMulticast = true) :
    ∃ g i, h.interface.getOrCreateGroupData group = .ok (g, i) ∧
      g.Valid group (h.unanswered group) ∧
      (∀ group' ≠ group, i.groups[group']? = h.interface.groups[group']?) ∧
      (g.timer = none ∨ h.interface.groups[group]? = some g) := by
  rw [HostInterfaceData.getOrCreateGroupData]
  cases hg : h.interface.groups[group]? with
  | some g => exact ⟨g, h.interface, rfl, hvalid.groups group g hg, fun _ _ => rfl, .inr rfl⟩
  | none =>
    have hnew : HostGroupTimerData.new group =
        .ok { HostGroupData.new group with timer := none, queriedSources := [] } :=
      Error.bind_of_eq_ok (Error.assert_of_pos hgroup) rfl
    refine ⟨_, _, Error.bind_of_eq_ok hnew rfl, ?_, fun group' hne => ?_, .inl rfl⟩
    · rw [hvalid.absent group hg]
      exact ⟨rfl, .nil, .nil, fun _ => rfl, nofun, nofun, nofun, fun hne => absurd rfl hne⟩
    · rw [HostInterfaceData.putGroupData, OrderedMap.getElem?_insert, if_neg hne]

/-- A query keeps the invariant. -/
theorem Valid.query (hvalid : h.Valid) {query : Igmpv3Query} {delay : ℕ}
    (hmerges : h.Merges (.query query delay)) :
    ∃ h', h.step (.query query delay) = .ok h' ∧ h'.Valid := by
  rw [step, receive, HostInterfaceData.processQuery]
  by_cases hsooner : h.interface.respondsSooner h.now delay = true
  · rw [if_pos hsooner, if_pos (by rw [hsooner]; rfl)]
    exact ⟨_, rfl, hvalid⟩
  rw [if_neg hsooner]
  by_cases hunspecified : query.groupAddress.isUnspecified = true
  · rw [hunspecified, Bool.or_true, if_pos rfl, Bool.true_and]
    by_cases hgeneral : query.sourceList.isEmpty = true
    · rw [if_pos hgeneral]
      exact ⟨_, rfl, hvalid.groups, hvalid.absent⟩
    · rw [if_neg hgeneral]
      exact ⟨_, rfl, hvalid⟩
  · have hspecific : (h.interface.respondsSooner h.now delay ||
        query.groupAddress.isUnspecified) = false := by
      rw [Bool.eq_false_of_not_eq_true hsooner, Bool.eq_false_of_not_eq_true hunspecified]
      rfl
    obtain ⟨hmulticast, hlocal, hmerges⟩ := hmerges hspecific
    obtain ⟨g, i, hdata, hg, hi, htimer⟩ := hvalid.exists_groupData hmulticast
    have hmerge : g.Merges h.now query.sourceList delay := by
      rcases htimer with hnone | hsome
      · intro _ arrival harrival
        rw [hnone] at harrival
        cases harrival
      · exact hmerges g hsome
    obtain ⟨g', hprocess, hg'⟩ := hg.exists_processQuery ⟨hmulticast, hlocal⟩ hmerge
    rw [hspecific, Bool.eq_false_of_not_eq_true hunspecified]
    exact ⟨_, Error.bind_of_eq_ok (Error.bind_of_eq_ok hdata (Error.bind_of_eq_ok hprocess rfl))
      rfl,
      hvalid.put hg' hi⟩

/-- An event that is merged returns, answers the queries, and keeps the invariant. -/
theorem Valid.step_of_merges (hvalid : h.Valid) (henabled : h.Enabled e) (hmerges : h.Merges e) :
    h.Answers e ∧ ∃ h', h.step e = .ok h' ∧ h'.Valid := by
  cases e with
  | advance time => exact ⟨trivial, _, rfl, hvalid.groups, hvalid.absent⟩
  | query query delay => exact ⟨trivial, hvalid.query hmerges⟩
  | generalTimer => exact ⟨trivial, _, rfl, hvalid.groups, hvalid.absent⟩
  | groupTimer group =>
    obtain ⟨g, hg, htimer⟩ := henabled
    have hvalidGroup := hvalid.groups group g hg
    obtain ⟨g', record, hprocess, hcovers, hg'⟩ :=
      hvalidGroup.exists_report (by rw [htimer]; rfl)
    constructor
    · intro g₁ hg₁
      cases hg.symm.trans hg₁
      exact ⟨g', record, hprocess, hcovers, hvalidGroup.deadline h.now htimer⟩
    · have hfound : h.interface.groups[group]? = some g := hg
      rw [step, hfound]
      exact ⟨_, Error.bind_of_eq_ok hprocess rfl, hvalid.put hg' fun _ _ => rfl⟩

theorem Valid.answersRun (hvalid : h.Valid) {es : List HostEvent} (hmerges : h.MergesRun es) :
    h.AnswersRun es := by
  induction es generalizing h with
  | nil => trivial
  | cons e es ih =>
    intro henabled
    obtain ⟨hmerge, hrest⟩ := hmerges henabled
    obtain ⟨hanswers, h', hstep, hvalid'⟩ := hvalid.step_of_merges henabled hmerge
    refine ⟨hanswers, h', hstep, ih hvalid' (hrest h' ?_)⟩
    rw [hstep]
    rfl

/-- A host interface with its memberships, on which no query has been received. -/
def initial (now : ℤ)
    (memberships : Std.ExtTreeMap Ipv4Address (FilterMode × List Ipv4Address)) : Host where
  now := now
  interface :=
    { generalQueryTimer := none
      groups := memberships.map fun group membership =>
        { HostGroupData.new group with
          filter := membership.1
          sourceAddressList := sort membership.2
          timer := none
          queriedSources := [] } }
  unanswered _ := []

theorem valid_initial (now : ℤ)
    (memberships : Std.ExtTreeMap Ipv4Address (FilterMode × List Ipv4Address)) :
    (initial now memberships).Valid where
  groups := by
    intro group g hg
    rw [initial, Std.ExtTreeMap.getElem?_map, Option.map_eq_some_iff] at hg
    obtain ⟨membership, -, rfl⟩ := hg
    exact ⟨rfl, pairwise_sort _, .nil, fun _ => rfl, nofun, nofun, nofun, fun hne => absurd rfl hne⟩
  absent _ _ := rfl

/-- In a run where every query is merged with the pending response of its group, every report
answers the queries before it in time. -/
theorem answers_of_mergesRun (now : ℤ)
    (memberships : Std.ExtTreeMap Ipv4Address (FilterMode × List Ipv4Address))
    {es : List HostEvent} (hmerges : (initial now memberships).MergesRun es) :
    (initial now memberships).AnswersRun es :=
  (valid_initial now memberships).answersRun hmerges

/-- A host that has joined a group for all sources. -/
def joined : Host := initial 0 (.insert ∅ 0xE1000001#32 (.fmExclude, []))

def querySources (sources : List Ipv4Address) (delay : ℕ) : HostEvent :=
  .query ⟨0xE1000001#32, false, sources⟩ delay

/-- A later query that is answered sooner is merged. -/
theorem answers_later_query :
    joined.AnswersRun [querySources [0x0A000001#32] 10, querySources [0x0A000002#32] 5,
      .advance 5, .groupTimer 0xE1000001#32] :=
  answers_of_mergesRun 0 _ (by decide +kernel)

theorem AnswersRun.of_run {h' : Host} {es es' : List HostEvent} (h₀ : h.AnswersRun (es ++ es'))
    (hrun : h.run es = some h') : h'.AnswersRun es' := by
  induction es generalizing h with
  | nil =>
    cases hrun
    exact h₀
  | cons e es ih =>
    rw [run] at hrun
    split at hrun
    · rename_i henabled
      obtain ⟨-, h₁, hstep, hanswers⟩ := h₀ henabled
      rw [hstep] at hrun
      exact ih hanswers hrun
    · cases hrun

/-- The sources of a later query that is not to be answered sooner are not reported. -/
theorem later_sources_not_reported :
    ¬ ∀ now memberships es, (initial now memberships).AnswersRun es := by
  intro h
  have hstate : (joined.run [querySources [0x0A000001#32] 5, querySources [0x0A000002#32] 10,
      .advance 5]).map (fun h => (h.unanswered 0xE1000001#32,
        decide (h.Enabled (.groupTimer 0xE1000001#32)),
        (h.interface.groups[0xE1000001#32]?).map fun g => (decide (g.Admits 0x0A000002#32),
          g.processHostGroupQueryTimer.toOption.map (·.2)))) =
      some ([⟨[0x0A000002#32], 10⟩, ⟨[0x0A000001#32], 5⟩], true,
        some (true, some ⟨0xE1000001#32, .isIn, [0x0A000001#32]⟩)) := by
    decide +kernel
  obtain ⟨h', hrun, hh'⟩ := Option.map_eq_some_iff.1 hstate
  obtain ⟨hunanswered, hh'⟩ := Prod.mk.inj hh'
  obtain ⟨henabled, hgroup⟩ := Prod.mk.inj hh'
  obtain ⟨g, hg, hg'⟩ := Option.map_eq_some_iff.1 hgroup
  obtain ⟨hadmits, hrecord⟩ := Prod.mk.inj hg'
  have hanswers := (h 0 _ (_ ++ [.groupTimer 0xE1000001#32])).of_run hrun
  obtain ⟨g', record, hprocess, hcovers, -⟩ := (hanswers (of_decide_eq_true henabled)).1 g hg
  rw [hprocess] at hrecord
  cases hrecord
  rw [hunanswered] at hcovers
  obtain ⟨-, hsources⟩ := hcovers.sources (by decide)
  have hmem := hsources _ List.mem_cons_self _ List.mem_cons_self (of_decide_eq_true hadmits)
  exact absurd hmem (by decide)

end Host

end Inet.Ipv4.Igmpv3
