import Inet.Ipv4.Igmpv3Table

/-! # Listeners of an interface

The list of forwarded sources of a group is computed from the router's data of
the group, and is also kept with the interface. A report updates both. Timers
change the data of a group, and update the list only where the group goes away.
-/

namespace Inet.Ipv4

namespace RouterMulticastData

/-- The list that is kept for the group. -/
def listenerOf (groups : RouterMulticastData) (group : Ipv4Address) : Ipv4MulticastSourceList :=
  ((groups.findRouterGroupData group).map (·.sourceList)).getD .empty

/-- No group has two entries. -/
def Distinct (groups : RouterMulticastData) : Prop := (groups.map (·.multicastGroup)).Nodup

variable {groups : RouterMulticastData} {group other : Ipv4Address}

theorem listenerOf_eq {entry : RouterMulticastGroupData}
    (h : groups.findRouterGroupData group = some entry) :
    groups.listenerOf group = entry.sourceList := by
  rw [listenerOf, h]
  rfl

theorem listenerOf_congr {groups' : RouterMulticastData}
    (h : groups'.findRouterGroupData group = groups.findRouterGroupData group) :
    groups'.listenerOf group = groups.listenerOf group := by
  rw [listenerOf, h, listenerOf]

theorem removeRouterGroupData_spec (group : Ipv4Address) (h : groups.Distinct) :
    (groups.removeRouterGroupData group).Distinct ∧
      (groups.removeRouterGroupData group).listenerOf group = .empty ∧
      ∀ other ≠ group,
        (groups.removeRouterGroupData group).listenerOf other = groups.listenerOf other := by
  refine ⟨Keyed.nodup_erase h, ?_, fun other hne => ?_⟩
  · have hnone : (groups.removeRouterGroupData group).findRouterGroupData group = none :=
      Keyed.find_erase_self h
    rw [listenerOf, hnone]
    rfl
  · exact listenerOf_congr (Keyed.find_erase_ne hne.symm)

theorem removeMulticastListener_spec (group : Ipv4Address) (h : groups.Distinct) :
    (groups.removeMulticastListener group).1.Distinct ∧
      (groups.removeMulticastListener group).1.listenerOf group = .empty ∧
      ∀ other ≠ group,
        (groups.removeMulticastListener group).1.listenerOf other = groups.listenerOf other := by
  unfold removeMulticastListener
  split
  · rename_i hnone
    refine ⟨h, ?_, fun _ _ => rfl⟩
    rw [listenerOf, hnone]
    rfl
  · exact removeRouterGroupData_spec _ h

theorem getOrCreateGroupData_spec (group : Ipv4Address) (h : groups.Distinct) :
    (groups.getOrCreateGroupData group).2.Distinct ∧
      (groups.getOrCreateGroupData group).2.findRouterGroupData group =
        some (groups.getOrCreateGroupData group).1 ∧
      (groups.getOrCreateGroupData group).1.multicastGroup = group ∧
      ∀ other, (groups.getOrCreateGroupData group).2.listenerOf other =
        groups.listenerOf other := by
  unfold getOrCreateGroupData
  split
  · rename_i entry hsome
    exact ⟨h, hsome, Keyed.key_of_find hsome, fun _ => rfl⟩
  · rename_i hnone
    have hfind : (groups ++ [⟨group, .empty⟩] : RouterMulticastData).findRouterGroupData group =
        some ⟨group, .empty⟩ := Keyed.find_append_self hnone
    refine ⟨Keyed.nodup_append h hnone, hfind, rfl, fun other => ?_⟩
    by_cases hother : other = group
    · dsimp only
      rw [hother, listenerOf_eq hfind, listenerOf, hnone]
      rfl
    · exact listenerOf_congr (Keyed.find_append_ne fun heq => hother heq.symm)

theorem setMulticastListeners_spec (h : groups.Distinct) (hgroup : group.isMulticast = true)
    (filterMode : McastSourceFilterMode) (sourceList : List Ipv4Address) :
    ∃ groups' notifications,
      groups.setMulticastListeners group filterMode sourceList = .ok (groups', notifications) ∧
      groups'.Distinct ∧ groups'.listenerOf group = ⟨filterMode, sourceList⟩ ∧
      ∀ other ≠ group, groups'.listenerOf other = groups.listenerOf other := by
  unfold setMulticastListeners
  rw [hgroup]
  obtain ⟨hdistinct, hfind, hentry, hlisteners⟩ := getOrCreateGroupData_spec group h
  generalize groups.getOrCreateGroupData group = r at hdistinct hfind hentry hlisteners
  obtain ⟨entry, groups₁⟩ := r
  dsimp only at hdistinct hfind hentry hlisteners
  by_cases hchanged : filterMode ≠ entry.sourceList.filterMode ∨
      sourceList ≠ entry.sourceList.sources
  · by_cases hlist : filterMode ≠ .includeSources ∨ sourceList ≠ []
    · have hreplaced : RouterMulticastData.findRouterGroupData (Keyed.replace (·.multicastGroup)
          groups₁ { entry with sourceList := ⟨filterMode, sourceList⟩ }) group =
          some { entry with sourceList := ⟨filterMode, sourceList⟩ } := by
        rw [← hentry] at hfind ⊢
        exact Keyed.find_replace_self hfind
      refine ⟨_, _, (if_pos hchanged).trans (if_pos hlist), Keyed.nodup_replace hdistinct, ?_,
        fun other hne => ?_⟩
      · exact listenerOf_eq hreplaced
      · rw [← hlisteners other]
        exact listenerOf_congr (Keyed.find_replace_ne fun heq => hne (heq.symm.trans hentry))
    · obtain ⟨hmode, hsources⟩ := not_or.1 hlist
      obtain ⟨hdistinct', hremoved, hothers⟩ := removeRouterGroupData_spec group hdistinct
      refine ⟨_, _, (if_pos hchanged).trans (if_neg hlist), hdistinct', ?_, fun other hne => ?_⟩
      · rw [hremoved, not_not.1 hmode, not_not.1 hsources]
        rfl
      · rw [hothers other hne, hlisteners other]
  · obtain ⟨hmode, hsources⟩ := not_or.1 hchanged
    refine ⟨_, _, if_neg hchanged, hdistinct, ?_, fun other _ => hlisteners other⟩
    rw [listenerOf_eq hfind, not_not.1 hmode, not_not.1 hsources]

end RouterMulticastData

namespace Igmpv3

/-! ## Runs -/

/-- A router interface at a time. -/
structure Router where
  now : ℤ
  interface : RouterInterface

/-- What happens on the interface: a report is received, a timer expires, or time passes. -/
inductive Event where
  | advance (time : ℤ)
  | report (records : List GroupRecord)
  | groupTimer (group : Ipv4Address)
  | sourceTimer (group source : Ipv4Address)
  deriving DecidableEq, Repr

/-- The data of the group. -/
def Router.group? (r : Router) (group : Ipv4Address) : Option RouterGroupData :=
  r.interface.data.groups[group]?

def RouterInterface.putGroupData (i : RouterInterface) (group : Ipv4Address)
    (g : RouterGroupData) : RouterInterface :=
  { i with data := i.data.putGroupData group g }

/-! A timer that expires is not scheduled any more. -/

def stopGroupTimer (g : RouterGroupData) : RouterGroupData := { g with timer := none }

def stopSourceTimer (g : RouterGroupData) (source : Ipv4Address) : RouterGroupData :=
  { g with sources := g.sources.insert source none }

def step (p : Parameters) (r : Router) : Event → Except Error Router
  | .advance time => pure { r with now := time }
  | .report records => do
    let (interface, _, _) ← processReport p r.now r.interface records
    pure { r with interface }
  | .groupTimer group =>
    match r.group? group with
    | none => pure r
    | some g => do
      let g := stopGroupTimer g
      let (interface, _) ← processRouterGroupTimer (r.interface.putGroupData group g) g
      pure { r with interface }
  | .sourceTimer group source =>
    match r.group? group with
    | none => pure r
    | some g =>
      let g := stopSourceTimer g source
      let (interface, _) := processRouterSourceTimer (r.interface.putGroupData group g) g source
      pure { r with interface }

/-- Time does not pass a scheduled timer of a group or source, a timer expires at its time, and a
report is processed without undefined behaviour. -/
def Enabled (p : Parameters) (r : Router) : Event → Prop
  | .advance time => r.now ≤ time ∧ ∀ group ∈ r.interface.data.groups.toList,
      (∀ arrival ∈ group.2.timer, time ≤ arrival) ∧
      ∀ source ∈ group.2.sources.toList, ∀ arrival ∈ source.2, time ≤ arrival
  | .report records => (processReport p r.now r.interface records).isOk = true
  | .groupTimer group => ∃ g ∈ r.group? group, g.timer = some r.now
  | .sourceTimer group source => ∃ g ∈ r.group? group, g.sources[source]? = some (some r.now)

instance (p : Parameters) (r : Router) (e : Event) : Decidable (Enabled p r e) :=
  match e with
  | .advance _ => inferInstanceAs (Decidable (_ ∧ _))
  | .report _ => inferInstanceAs (Decidable (_ = true))
  | .groupTimer group => inferInstanceAs (Decidable (∃ g ∈ r.group? group, _))
  | .sourceTimer group _ => inferInstanceAs (Decidable (∃ g ∈ r.group? group, _))

/-- The state after a run in which every event can happen. -/
def run (p : Parameters) (r : Router) : List Event → Option Router
  | [] => some r
  | e :: es => if Enabled p r e then (step p r e).toOption.bind (run p · es) else none

/-- The forwarded sources by the router's data of the group. -/
def RouterInterface.forwarded (i : RouterInterface) (group : Ipv4Address) :
    Ipv4MulticastSourceList :=
  ((i.data.groups[group]?).map (·.collectForwardedSources)).getD .empty

/-- The interface keeps the list of forwarded sources of each group. -/
def RouterInterface.Agrees (i : RouterInterface) : Prop :=
  ∀ group, i.listeners.listenerOf group = i.forwarded group

/-- What the expiration of a timer of a group in EXCLUDE mode does to the group. -/
def Expires (r r' : Router) : Event → Prop
  | .advance _ | .report _ => True
  | .groupTimer group => ∀ g, r.group? group = some g → g.filter = .fmExclude →
      if g.running = ∅ then r'.group? group = none
      else ∃ g', r'.group? group = some g' ∧ g'.groupFilter = .including g.running
  | .sourceTimer group source => ∀ g, r.group? group = some g → g.filter = .fmExclude →
      g.timer.isSome = true → ∃ g', r'.group? group = some g' ∧
        g'.groupFilter = .excluding (g.running \ {source}) (g.idle ∪ {source})

/-- In every state of the run the interface agrees with the router, and every event that can
happen there returns and does to the group what it should. -/
def Correct (p : Parameters) (r : Router) : List Event → Prop
  | [] => r.interface.Agrees
  | e :: es => r.interface.Agrees ∧ (Enabled p r e → ∃ r', step p r e = .ok r' ∧
      Expires r r' e ∧ Correct p r' es)

/-- A group timer of EXCLUDE mode expires when there are no source records. A source timer expires
in INCLUDE mode when there is no other source record. -/
def Plain (r : Router) : Event → Prop
  | .advance _ | .report _ => True
  | .groupTimer group => ∀ g, r.group? group = some g → g.filter = .fmExclude →
      ∀ s, s ∉ g.sources
  | .sourceTimer group source => ∀ g, r.group? group = some g →
      g.filter = .fmInclude ∧ ∀ s ∈ g.sources, s = source

def PlainRun (p : Parameters) (r : Router) : List Event → Prop
  | [] => True
  | e :: es => Enabled p r e → Plain r e ∧ ∀ r', step p r e = .ok r' → PlainRun p r' es

/-! ## The invariant -/

/-- The group data of a router that has heard of no older-version host. -/
structure GroupValid (group : Ipv4Address) (g : RouterGroupData) : Prop where
  groupAddr : g.groupAddr = group
  isMulticast : group.isMulticast = true
  wellFormed : g.WellFormed
  compat : g.olderVersionCompat = .none

structure RouterInterface.Valid (i : RouterInterface) : Prop where
  distinct : i.listeners.Distinct
  groups : ∀ group g, i.data.groups[group]? = some g → GroupValid group g
  agrees : i.Agrees

variable {p : Parameters} {now : ℤ} {i i' : RouterInterface} {r r' : Router}
  {g g' : RouterGroupData} {group : Ipv4Address}

theorem RouterInterface.forwarded_eq (h : i.data.groups[group]? = some g) :
    i.forwarded group = g.collectForwardedSources := by
  rw [forwarded, h]
  rfl

theorem forwarded_congr (h : i'.data.groups[group]? = i.data.groups[group]?) :
    i'.forwarded group = i.forwarded group := by
  rw [RouterInterface.forwarded, h, RouterInterface.forwarded]

theorem RouterInterface.Valid.change (h : i.Valid) (group : Ipv4Address)
    (o : Option RouterGroupData) (ho : ∀ g, o = some g → GroupValid group g)
    (hdata : ∀ other, i'.data.groups[other]? = if other = group then o else i.data.groups[other]?)
    (hdistinct : i'.listeners.Distinct)
    (hgroup : i'.listeners.listenerOf group = (o.map (·.collectForwardedSources)).getD .empty)
    (hothers : ∀ other ≠ group, i'.listeners.listenerOf other = i.listeners.listenerOf other) :
    i'.Valid := by
  refine ⟨hdistinct, fun other g' hg' => ?_, fun other => ?_⟩
  · rw [hdata] at hg'
    by_cases hother : other = group
    · rw [if_pos hother] at hg'
      exact hother ▸ ho g' hg'
    · rw [if_neg hother] at hg'
      exact h.groups other g' hg'
  · by_cases hother : other = group
    · rw [hother, hgroup, forwarded, hdata, if_pos rfl]
    · rw [hothers other hother, h.agrees other]
      exact (forwarded_congr ((hdata other).trans (if_neg hother))).symm

theorem groups_putGroupData (data : RouterInterfaceData) (group other : Ipv4Address)
    (g : RouterGroupData) : (data.putGroupData group g).groups[other]? =
      if other = group then some g else data.groups[other]? :=
  OrderedMap.getElem?_insert data.groups group other g

theorem groups_deleteGroupData (data : RouterInterfaceData) (group other : Ipv4Address) :
    (data.deleteGroupData group).groups[other]? =
      if other = group then none else data.groups[other]? :=
  OrderedMap.getElem?_erase data.groups group other

theorem RouterInterface.Valid.deleteGroup (h : i.Valid) (hg : g.groupAddr = group)
    (g' : RouterGroupData) :
    (deleteGroup (i.putGroupData group g') g).1.Valid := by
  obtain ⟨hdistinct, hgroup, hothers⟩ :=
    RouterMulticastData.removeMulticastListener_spec group h.distinct
  unfold Igmpv3.deleteGroup
  rw [hg]
  refine h.change group none (fun g hg => by cases hg) (fun other => ?_) hdistinct hgroup hothers
  rw [groups_deleteGroupData]
  split
  · rfl
  · rename_i hother
    exact (groups_putGroupData i.data group other g').trans (if_neg hother)

/-! ## Reports -/

theorem new_spec (h : RouterGroupData.new group = .ok g) :
    GroupValid group g ∧ g.collectForwardedSources = .empty := by
  obtain ⟨u, hassert, hg⟩ := Error.exists_of_bind_eq_ok h
  cases hg
  refine ⟨⟨rfl, Error.of_assert_eq_ok hassert, ⟨fun _ => ?_, fun h => by cases h⟩, rfl⟩, ?_⟩
  · ext s
    simp [RouterGroupData.idle]
  · simp [RouterGroupData.collectForwardedSources, Ipv4MulticastSourceList.empty]

theorem getOrCreateGroupData_spec (h : i.Valid) {data : RouterInterfaceData}
    (hok : i.data.getOrCreateGroupData group = .ok (g, data)) :
    GroupValid group g ∧ i.forwarded group = g.collectForwardedSources ∧
      data.groups[group]? = some g ∧
      ∀ other ≠ group, data.groups[other]? = i.data.groups[other]? := by
  unfold RouterInterfaceData.getOrCreateGroupData at hok
  split at hok
  · rename_i hsome
    cases hok
    exact ⟨h.groups group g hsome, RouterInterface.forwarded_eq hsome, hsome, fun _ _ => rfl⟩
  · rename_i hnone
    obtain ⟨g₁, hnew, hg₁⟩ := Error.exists_of_bind_eq_ok hok
    cases hg₁
    obtain ⟨hvalid, hempty⟩ := new_spec hnew
    refine ⟨hvalid, ?_, ?_, fun other hne => ?_⟩
    · rw [RouterInterface.forwarded, hnone, hempty]
      rfl
    · exact (groups_putGroupData i.data group group g).trans (if_pos rfl)
    · exact (groups_putGroupData i.data group other g).trans (if_neg hne)

theorem updateListeners_spec {listeners listeners' : RouterMulticastData}
    {notifications : List Notification} {oldSourceList newSourceList : Ipv4MulticastSourceList}
    (h : listeners.Distinct) (hgroup : group.isMulticast = true)
    (hold : listeners.listenerOf group = oldSourceList)
    (hok : updateListeners listeners group oldSourceList newSourceList =
      .ok (listeners', notifications)) :
    listeners'.Distinct ∧ listeners'.listenerOf group = newSourceList ∧
      ∀ other ≠ group, listeners'.listenerOf other = listeners.listenerOf other := by
  unfold updateListeners at hok
  split at hok
  · obtain ⟨groups', notifications', hset, hspec⟩ := RouterMulticastData.setMulticastListeners_spec
      h hgroup newSourceList.filterMode newSourceList.sources
    rw [hset] at hok
    cases hok
    exact hspec
  · rename_i heq
    cases hok
    exact ⟨h, hold.trans (not_not.1 heq).symm, fun _ _ => rfl⟩

theorem processReportRecord_spec (h : i.Valid) {gr : GroupRecord} {queries : List Igmpv3Query}
    {notifications : List Notification}
    (hok : processReportRecord p now i gr = .ok (i', queries, notifications)) :
    i'.Valid ∧ ∃ g g', g.WellFormed ∧ WellDefined g gr.recordType gr.sourceList ∧
      Becomes g g' (newFilter gr.recordType g.filter) (newTimer p now gr.recordType g)
        (newSource p now gr.recordType g gr.sourceList) ∧
      i.forwarded gr.groupAddress = g.collectForwardedSources ∧
      i'.forwarded gr.groupAddress = g'.collectForwardedSources := by
  obtain ⟨⟨g, data⟩, hcreate, hok⟩ := Error.exists_of_bind_eq_ok hok
  obtain ⟨hvalid, hforwarded, hdata, hothers⟩ := getOrCreateGroupData_spec h hcreate
  dsimp only at hok
  rw [if_neg fun hcompat => hcompat.1 hvalid.compat] at hok
  obtain ⟨⟨g', queries'⟩, hrecord, hok⟩ := Error.exists_of_bind_eq_ok hok
  obtain ⟨⟨listeners, notifications'⟩, hupdate, hok⟩ := Error.exists_of_bind_eq_ok hok
  cases hok
  have hdefined := wellDefined_of_processGroupRecord hrecord
  obtain ⟨g'', queries'', hrecord', hb, -⟩ := processGroupRecord_spec p now data.state hdefined
  rw [hrecord] at hrecord'
  cases hrecord'
  have hgroup : g'.groupAddr = gr.groupAddress := by
    have hframe := congrArg RouterGroupData.groupAddr hb.frame
    exact hframe.trans hvalid.groupAddr
  have hcompat : g'.olderVersionCompat = .none := by
    have hframe := congrArg RouterGroupData.olderVersionCompat hb.frame
    exact hframe.trans hvalid.compat
  rw [hgroup] at hupdate
  obtain ⟨hdistinct, hlistener, hlisteners⟩ := updateListeners_spec h.distinct hvalid.isMulticast
    ((h.agrees _).trans hforwarded) hupdate
  have hput : (data.putGroupData gr.groupAddress g').groups[gr.groupAddress]? = some g' :=
    (groups_putGroupData _ _ _ _).trans (if_pos rfl)
  refine ⟨h.change gr.groupAddress (some g') ?_ (fun other => ?_) hdistinct hlistener hlisteners,
    g, g', hvalid.wellFormed, hdefined, hb, hforwarded, RouterInterface.forwarded_eq hput⟩
  · intro g₁ hg₁
    cases hg₁
    exact ⟨hgroup, hvalid.isMulticast, hb.wellFormed hvalid.wellFormed, hcompat⟩
  · rw [groups_putGroupData]
    split
    · rfl
    · rename_i hother
      exact hothers other hother

theorem processReport_valid (h : i.Valid) {records : List GroupRecord}
    {queries : List Igmpv3Query} {notifications : List Notification}
    (hok : processReport p now i records = .ok (i', queries, notifications)) : i'.Valid := by
  induction records generalizing i queries notifications with
  | nil =>
    cases hok
    exact h
  | cons gr records ih =>
    obtain ⟨⟨i₁, queries₁, notifications₁⟩, hrecord, hok⟩ := Error.exists_of_bind_eq_ok hok
    obtain ⟨⟨i₂, queries₂, notifications₂⟩, hrecords, hok⟩ := Error.exists_of_bind_eq_ok hok
    cases hok
    exact ih (processReportRecord_spec h hrecord).1 hrecords

/-! ## Timers -/

variable {source : Ipv4Address} {notifications : List Notification}

theorem any_running_iff :
    g.sources.keys.any g.sourceTimerRunning = true ↔ g.running.Nonempty := by
  rw [List.any_eq_true]
  constructor
  · rintro ⟨s, -, hs⟩
    exact ⟨s, RouterGroupData.sourceTimerRunning_iff.1 hs⟩
  · rintro ⟨s, hs⟩
    exact ⟨s, Std.ExtTreeMap.mem_keys.2 (RouterGroupData.mem_iff.2 (Or.inl hs)),
      RouterGroupData.sourceTimerRunning_iff.2 hs⟩

theorem collectForwardedSources_of_include (h : g.filter = .fmInclude) :
    g.collectForwardedSources.filterMode = .includeSources ∧
      ∀ s, s ∈ g.collectForwardedSources.sources ↔ s ∈ g.running := by
  unfold RouterGroupData.collectForwardedSources
  rw [h]
  refine ⟨rfl, fun s => ?_⟩
  rw [List.mem_filter, Std.ExtTreeMap.mem_keys]
  exact (and_iff_right_of_imp RouterGroupData.mem_of_sourceTimerRunning).trans
    RouterGroupData.sourceTimerRunning_iff

theorem collectForwardedSources_of_exclude (h : g.filter = .fmExclude) :
    g.collectForwardedSources.filterMode = .excludeSources ∧
      ∀ s, s ∈ g.collectForwardedSources.sources ↔ s ∈ g.idle := by
  unfold RouterGroupData.collectForwardedSources
  rw [h]
  exact ⟨rfl, fun s => mem_notRunning_iff⟩

theorem processRouterGroupTimer_of_include (hfilter : g.filter = .fmInclude) :
    processRouterGroupTimer i g = .ok (i, []) := by
  unfold processRouterGroupTimer
  rw [hfilter]
  rfl

theorem processRouterGroupTimer_of_empty (hfilter : g.filter = .fmExclude)
    (h : ∀ s, s ∉ g.sources) : processRouterGroupTimer i g =
      .ok (deleteGroup i { g with filter := .fmInclude }) := by
  have hkeys : g.sources.keys = [] :=
    List.eq_nil_iff_forall_not_mem.2 fun s hs => h s (Std.ExtTreeMap.mem_keys.1 hs)
  unfold processRouterGroupTimer
  rw [hfilter]
  dsimp only
  rw [hkeys]
  rfl

theorem of_processRouterGroupTimer_eq_ok (hfilter : g.filter = .fmExclude) {s : Ipv4Address}
    (hs : s ∈ g.sources) (hok : processRouterGroupTimer i g = .ok (i', notifications)) :
    i' = i.putGroupData g.groupAddr { g with filter := .fmInclude } := by
  unfold processRouterGroupTimer at hok
  rw [hfilter] at hok
  obtain ⟨_, hloop, hok⟩ := Error.exists_of_bind_eq_ok hok
  have hrunning := of_deleteInLoop_eq_ok hloop s (Std.ExtTreeMap.mem_keys.2 hs)
  rw [Bool.not_eq_false'] at hrunning
  have hany : g.sources.keys.any
      ({ g with filter := .fmInclude } : RouterGroupData).sourceTimerRunning = true :=
    List.any_eq_true.2 ⟨s, Std.ExtTreeMap.mem_keys.2 hs, hrunning⟩
  dsimp only at hok
  rw [if_pos hany] at hok
  cases hok
  rfl

/-- The group data without the source in INCLUDE mode, where the handler deletes its record. -/
def expireSource (g : RouterGroupData) (source : Ipv4Address) : RouterGroupData :=
  match g.filter with
  | .fmInclude => g.deleteSourceRecord source
  | .fmExclude => g

theorem processRouterSourceTimer_of_nonempty (h : (expireSource g source).running.Nonempty) :
    processRouterSourceTimer i g source =
      (i.putGroupData (expireSource g source).groupAddr (expireSource g source), []) :=
  if_pos (any_running_iff.2 h)

theorem processRouterSourceTimer_of_empty (h : ¬ (expireSource g source).running.Nonempty) :
    processRouterSourceTimer i g source = deleteGroup i (expireSource g source) :=
  if_neg fun hany => h (any_running_iff.1 hany)

theorem groupAddr_expireSource : (expireSource g source).groupAddr = g.groupAddr := by
  unfold expireSource
  split <;> rfl

theorem filter_expireSource : (expireSource g source).filter = g.filter := by
  unfold expireSource
  split <;> rfl

theorem RouterInterface.Valid.not_agrees (h : i.Valid) (hg : i.data.groups[group]? = some g)
    (hg' : i'.data.groups[group]? = some g') (hlisteners : i'.listeners = i.listeners)
    (hne : g'.collectForwardedSources ≠ g.collectForwardedSources) : ¬ i'.Agrees := by
  intro hagrees
  have hnew := hagrees group
  have hold := h.agrees group
  rw [forwarded_eq hg', hlisteners] at hnew
  rw [forwarded_eq hg] at hold
  exact hne (hnew.symm.trans hold)

/-! ## Steps -/

variable {e : Event}

theorem RouterInterface.Valid.clearTimer (h : i.Valid) (hg : i.data.groups[group]? = some g)
    (hfilter : g.filter = .fmInclude) : (i.putGroupData group (stopGroupTimer g)).Valid := by
  have hvalid := h.groups group g hg
  refine h.change group (some (stopGroupTimer g)) ?_ (groups_putGroupData i.data group · _)
    h.distinct ?_ (fun _ _ => rfl)
  · intro g' hg'
    cases hg'
    refine ⟨hvalid.groupAddr, hvalid.isMulticast, ⟨hvalid.wellFormed.idle_eq, fun hexclude => ?_⟩,
      hvalid.compat⟩
    exact absurd (hfilter.symm.trans hexclude) (by decide)
  · rw [putGroupData, h.agrees, forwarded_eq hg]
    rfl

theorem step_groupTimer (p : Parameters) (hg : r.group? group = some g) {n : List Notification}
    (h : processRouterGroupTimer (r.interface.putGroupData group (stopGroupTimer g))
      (stopGroupTimer g) = .ok (i, n)) :
    step p r (.groupTimer group) = .ok { r with interface := i } := by
  unfold step
  dsimp only
  rw [hg]
  exact Error.bind_of_eq_ok h rfl

theorem of_step_groupTimer (hg : r.group? group = some g)
    (h : step p r (.groupTimer group) = .ok r') :
    ∃ n, processRouterGroupTimer (r.interface.putGroupData group (stopGroupTimer g))
      (stopGroupTimer g) = .ok (r'.interface, n) := by
  unfold step at h
  dsimp only at h
  rw [hg] at h
  obtain ⟨⟨i, n⟩, hok, h⟩ := Error.exists_of_bind_eq_ok h
  cases h
  exact ⟨n, hok⟩

theorem step_sourceTimer (p : Parameters) (hg : r.group? group = some g) :
    step p r (.sourceTimer group source) = .ok { r with
      interface := (processRouterSourceTimer
        (r.interface.putGroupData group (stopSourceTimer g source))
        (stopSourceTimer g source) source).1 } := by
  unfold step
  dsimp only
  rw [hg]
  rfl

theorem idle_stopSourceTimer : (stopSourceTimer g source).idle = g.idle ∪ {source} := by
  ext s
  simp only [stopSourceTimer, RouterGroupData.idle, OrderedMap.getElem?_insert, Set.mem_ofPred_eq,
    Set.mem_union, Set.mem_singleton_iff]
  by_cases hs : s = source
  · simp [hs]
  · simp [hs]

theorem running_stopSourceTimer : (stopSourceTimer g source).running = g.running \ {source} := by
  ext s
  simp only
    [stopSourceTimer, RouterGroupData.running, OrderedMap.getElem?_insert, Set.mem_ofPred_eq,
    Set.mem_sdiff, Set.mem_singleton_iff]
  by_cases hs : s = source
  · simp [hs]
  · simp [hs]

theorem running_deleteSourceRecord :
    (g.deleteSourceRecord source).running = g.running \ {source} := by
  ext s
  simp only [RouterGroupData.deleteSourceRecord, RouterGroupData.running, OrderedMap.getElem?_erase,
    Set.mem_ofPred_eq, Set.mem_sdiff, Set.mem_singleton_iff]
  by_cases hs : s = source
  · simp [hs]
  · simp [hs]

theorem running_expireSource :
    (expireSource (stopSourceTimer g source) source).running = g.running \ {source} := by
  unfold expireSource
  split
  · rw [running_deleteSourceRecord, running_stopSourceTimer, Set.sdiff_sdiff, Set.union_self]
  · exact running_stopSourceTimer

theorem step_of_plain (p : Parameters) (h : r.interface.Valid) (henabled : Enabled p r e)
    (hplain : Plain r e) :
    ∃ r', step p r e = .ok r' ∧ Expires r r' e ∧ r'.interface.Valid := by
  cases e with
  | advance time => exact ⟨_, rfl, trivial, h⟩
  | report records =>
    cases hok : processReport p r.now r.interface records with
    | error error =>
      rw [Enabled, hok] at henabled
      cases henabled
    | ok result => exact ⟨_, Error.bind_of_eq_ok hok rfl, trivial, processReport_valid h hok⟩
  | groupTimer group =>
    obtain ⟨g, hg, -⟩ := henabled
    have hvalid := h.groups group g hg
    cases hfilter : g.filter with
    | fmInclude =>
      refine ⟨_, step_groupTimer p hg (processRouterGroupTimer_of_include hfilter), ?_,
        h.clearTimer hg hfilter⟩
      intro g' hg' hexclude
      rw [hg] at hg'
      cases hg'
      exact absurd (hfilter.symm.trans hexclude) (by decide)
    | fmExclude =>
      have hempty := hplain g hg hfilter
      refine ⟨_, step_groupTimer p hg (processRouterGroupTimer_of_empty hfilter hempty), ?_,
        h.deleteGroup hvalid.groupAddr _⟩
      intro g' hg' _
      rw [hg] at hg'
      cases hg'
      rw [if_pos (Set.eq_empty_of_forall_notMem fun s hs =>
        hempty s (RouterGroupData.mem_iff.2 (Or.inl hs)))]
      exact (groups_deleteGroupData _ _ _).trans (if_pos hvalid.groupAddr.symm)
  | sourceTimer group source =>
    obtain ⟨g, hg, -⟩ := henabled
    have hvalid := h.groups group g hg
    obtain ⟨hfilter, honly⟩ := hplain g hg
    have hempty : ¬ (expireSource (stopSourceTimer g source) source).running.Nonempty := by
      rw [running_expireSource]
      rintro ⟨s, hs, hne⟩
      exact hne (honly s (RouterGroupData.mem_iff.2 (Or.inl hs)))
    refine ⟨_, step_sourceTimer p hg, ?_, ?_⟩
    · intro g' hg' hexclude
      rw [hg] at hg'
      cases hg'
      exact absurd (hfilter.symm.trans hexclude) (by decide)
    · rw [processRouterSourceTimer_of_empty hempty]
      have hgroup : (expireSource (stopSourceTimer g source) source).groupAddr = group :=
        groupAddr_expireSource.trans hvalid.groupAddr
      exact h.deleteGroup hgroup _

theorem plain_of_groupTimer (h : r.interface.Valid) (hg : r.group? group = some g)
    (hok : step p r (.groupTimer group) = .ok r') (hagrees : r'.interface.Agrees)
    (hfilter : g.filter = .fmExclude) (s : Ipv4Address) : s ∉ g.sources := by
  intro hs
  have hvalid := h.groups group g hg
  obtain ⟨n, hok⟩ := of_step_groupTimer hg hok
  have hstopped : (stopGroupTimer g).filter = .fmExclude := hfilter
  have hinterface := of_processRouterGroupTimer_eq_ok hstopped hs hok
  have hgroup : r'.interface.data.groups[group]? =
      some { stopGroupTimer g with filter := .fmInclude } := by
    rw [hinterface]
    exact (groups_putGroupData _ _ _ _).trans (if_pos hvalid.groupAddr.symm)
  refine h.not_agrees hg hgroup (by rw [hinterface]; rfl) (fun heq => ?_) hagrees
  have hmode := congrArg (·.filterMode) heq
  dsimp only at hmode
  rw [(collectForwardedSources_of_exclude hfilter).1,
    (collectForwardedSources_of_include rfl).1] at hmode
  cases hmode

theorem collectForwardedSources_eq_of_agrees (h : i.Valid) (hg : i.data.groups[group]? = some g)
    (hne : (g.running \ {source}).Nonempty)
    (hagrees : (processRouterSourceTimer (i.putGroupData group (stopSourceTimer g source))
      (stopSourceTimer g source) source).1.Agrees) :
    (expireSource (stopSourceTimer g source) source).collectForwardedSources =
      g.collectForwardedSources := by
  have hgroup : (expireSource (stopSourceTimer g source) source).groupAddr = group :=
    groupAddr_expireSource.trans (h.groups group g hg).groupAddr
  rw [← running_expireSource] at hne
  rw [processRouterSourceTimer_of_nonempty hne, hgroup] at hagrees
  by_contra hlists
  have hput : ((i.putGroupData group (stopSourceTimer g source)).putGroupData group
      (expireSource (stopSourceTimer g source) source)).data.groups[group]? =
        some (expireSource (stopSourceTimer g source) source) :=
    (groups_putGroupData _ _ _ _).trans (if_pos rfl)
  exact h.not_agrees hg hput rfl hlists hagrees

theorem plain_of_sourceTimer (h : r.interface.Valid) (hg : r.group? group = some g)
    (htimer : g.sources[source]? = some (some r.now))
    (hok : step p r (.sourceTimer group source) = .ok r')
    (hexpires : Expires r r' (.sourceTimer group source)) (hagrees : r'.interface.Agrees) :
    g.filter = .fmInclude ∧ ∀ s ∈ g.sources, s = source := by
  have hvalid := h.groups group g hg
  have hsource : source ∈ g.running := ⟨_, htimer⟩
  rw [step_sourceTimer p hg] at hok
  cases hok
  cases hfilter : g.filter with
  | fmInclude =>
    refine ⟨rfl, fun s hs => ?_⟩
    by_contra hne
    have hs : s ∈ g.running := by
      rcases RouterGroupData.mem_iff.1 hs with hs | hs
      · exact hs
      · rw [hvalid.wellFormed.idle_eq hfilter] at hs
        exact hs.elim
    have hexpired : (expireSource (stopSourceTimer g source) source).filter = .fmInclude :=
      filter_expireSource.trans hfilter
    have hmem := ((collectForwardedSources_of_include hfilter).2 source).2 hsource
    rw [← collectForwardedSources_eq_of_agrees h hg ⟨s, hs, hne⟩ hagrees,
      (collectForwardedSources_of_include hexpired).2, running_expireSource] at hmem
    exact hmem.2 rfl
  | fmExclude =>
    have hstopped : (stopSourceTimer g source).filter = .fmExclude := hfilter
    have hexpired : expireSource (stopSourceTimer g source) source = stopSourceTimer g source := by
      unfold expireSource
      rw [hstopped]
    by_cases hne : (g.running \ {source}).Nonempty
    · have hmem := (collectForwardedSources_of_exclude hstopped).2 source
      rw [← hexpired, collectForwardedSources_eq_of_agrees h hg hne hagrees, hexpired,
        (collectForwardedSources_of_exclude hfilter).2, idle_stopSourceTimer] at hmem
      have hidle := hmem.2 (Or.inr rfl)
      exact absurd (htimer.symm.trans hidle) (by simp)
    · obtain ⟨g', hg', -⟩ := hexpires g hg hfilter (hvalid.wellFormed.timer hfilter)
      rw [← running_expireSource] at hne
      dsimp only [Router.group?] at hg'
      rw [processRouterSourceTimer_of_empty hne] at hg'
      have hgroup : (expireSource (stopSourceTimer g source) source).groupAddr = group :=
        groupAddr_expireSource.trans hvalid.groupAddr
      have hdeleted := groups_deleteGroupData
        (r.interface.putGroupData group (stopSourceTimer g source)).data
        (expireSource (stopSourceTimer g source) source).groupAddr group
      rw [if_pos hgroup.symm] at hdeleted
      exact absurd (hdeleted.symm.trans hg') (by simp)

theorem plain_of_step (h : r.interface.Valid) (henabled : Enabled p r e)
    (hok : step p r e = .ok r') (hexpires : Expires r r' e) (hagrees : r'.interface.Agrees) :
    Plain r e := by
  cases e with
  | advance time => trivial
  | report records => trivial
  | groupTimer group =>
    intro g hg hfilter
    exact plain_of_groupTimer h hg hok hagrees hfilter
  | sourceTimer group source =>
    obtain ⟨g, hg, htimer⟩ := henabled
    intro g' hg'
    rw [hg] at hg'
    cases hg'
    exact plain_of_sourceTimer h hg htimer hok hexpires hagrees

/-! ## Runs of an interface -/

theorem Correct.agrees {es : List Event} (h : Correct p r es) : r.interface.Agrees := by
  cases es with
  | nil => exact h
  | cons e es => exact h.1

theorem correct_iff (p : Parameters) (es : List Event) (h : r.interface.Valid) :
    Correct p r es ↔ PlainRun p r es := by
  induction es generalizing r with
  | nil => exact iff_of_true h.agrees trivial
  | cons e es ih =>
    constructor
    · rintro ⟨-, hstep⟩ henabled
      obtain ⟨r', hok, hexpires, hcorrect⟩ := hstep henabled
      have hplain := plain_of_step h henabled hok hexpires hcorrect.agrees
      refine ⟨hplain, fun r'' hok' => ?_⟩
      rw [hok] at hok'
      cases hok'
      obtain ⟨r'', hok', -, hvalid⟩ := step_of_plain p h henabled hplain
      rw [hok] at hok'
      cases hok'
      exact (ih hvalid).1 hcorrect
    · intro hrun
      refine ⟨h.agrees, fun henabled => ?_⟩
      obtain ⟨hplain, hrest⟩ := hrun henabled
      obtain ⟨r', hok, hexpires, hvalid⟩ := step_of_plain p h henabled hplain
      exact ⟨r', hok, hexpires, (ih hvalid).2 (hrest r' hok)⟩

/-- An interface on which no group has been reported. -/
def Router.initial (state : RouterState) (now : ℤ) : Router := ⟨now, ⟨⟨state, ∅⟩, []⟩⟩

theorem valid_initial (state : RouterState) (now : ℤ) :
    (Router.initial state now).interface.Valid := by
  refine ⟨List.nodup_nil, fun group g hg => ?_, fun group => ?_⟩
  · simp [Router.initial] at hg
  · simp [Router.initial, RouterInterface.forwarded, RouterMulticastData.listenerOf,
      RouterMulticastData.findRouterGroupData]

/-- The interface follows the router through a run exactly when no group changes its list by a
timer alone. -/
theorem listeners_follow_iff (p : Parameters) (state : RouterState) (now : ℤ) (es : List Event) :
    Correct p (.initial state now) es ↔ PlainRun p (.initial state now) es :=
  correct_iff p es (valid_initial state now)

theorem Correct.agrees_of_run {es : List Event} (h : Correct p r es) (hrun : run p r es = some r') :
    r'.interface.Agrees := by
  induction es generalizing r with
  | nil =>
    cases hrun
    exact h
  | cons e es ih =>
    rw [run] at hrun
    split at hrun
    · rename_i henabled
      obtain ⟨r₁, hok, -, hcorrect⟩ := h.2 henabled
      rw [hok] at hrun
      exact ih hcorrect hrun
    · cases hrun

/-- Two sources of a group are reported, and the timer of the first of them expires. -/
def oneSourceExpires : List Event :=
  [.report [⟨0xE1000001#32, .isIn, [0x0A000001#32, 0x0A000002#32]⟩],
    .advance 260000000000000, .sourceTimer 0xE1000001#32 0x0A000001#32]

/-- The interface keeps the source that has expired. -/
theorem listener_keeps_expired_source :
    ¬ ∀ es, Correct .standard (.initial .querier 0) es := by
  intro h
  have hlists : (run .standard (.initial .querier 0) oneSourceExpires).map (fun r =>
      (r.interface.listeners.listenerOf 0xE1000001#32, r.interface.forwarded 0xE1000001#32)) =
      some (⟨.includeSources, [0x0A000001#32, 0x0A000002#32]⟩,
        ⟨.includeSources, [0x0A000002#32]⟩) := by
    decide +kernel
  obtain ⟨r', hrun, hr'⟩ := Option.map_eq_some_iff.1 hlists
  have hagrees := (h oneSourceExpires).agrees_of_run hrun 0xE1000001#32
  rw [Prod.mk.injEq] at hr'
  rw [hr'.1, hr'.2] at hagrees
  exact absurd hagrees (by decide)

end Igmpv3

end Inet.Ipv4
