import Inet.Ipv4.Igmpv3Forwarding

/-! # State-change reports over a link that loses packets

A host reports each change of its filter as a difference, and sends the report
again a number of times. A new change takes the place of the report that is
still being sent. The router ends up admitting what the host admits if nothing
that both filters admit has been lost for good by then.
-/

namespace Inet.Ipv4

namespace Igmpv3

/-! ## The host -/

/-- The retransmission timer is scheduled at a random time. -/
structure HostGroupData where
  groupAddr : Ipv4Address
  filter : FilterMode
  sourceAddressList : List Ipv4Address
  pendingRecords : List GroupRecord
  retransmitCount : ℤ
  retransmitTimer : Bool
  deriving DecidableEq, Repr

def HostGroupData.new (group : Ipv4Address) : HostGroupData := ⟨group, .fmInclude, [], [], 0, false⟩

def isEmptyRecord (record : GroupRecord) : Bool := record.sourceList.isEmpty

/-- The records that report the change from one filter to another. -/
def stateChangeRecords (group : Ipv4Address) :
    FilterMode → List Ipv4Address → FilterMode → List Ipv4Address → Except Error (List GroupRecord)
  | .fmInclude, old, .fmInclude, new =>
    if old ≠ new then do
      let allow ← set_complement new old
      let block ← set_complement old new
      pure ([⟨group, .allow, allow⟩, ⟨group, .block, block⟩].filter fun r => !isEmptyRecord r)
    else pure []
  | .fmExclude, old, .fmExclude, new =>
    if old ≠ new then do
      let allow ← set_complement old new
      let block ← set_complement new old
      pure ([⟨group, .allow, allow⟩, ⟨group, .block, block⟩].filter fun r => !isEmptyRecord r)
    else pure []
  | .fmInclude, _, .fmExclude, new => pure [⟨group, .toEx, new⟩]
  | .fmExclude, _, .fmInclude, new => pure [⟨group, .toIn, new⟩]

/-- The checks of `sendGroupReport`. -/
def sendGroupReport (records : List GroupRecord) : Except Error Unit :=
  assert (∀ r ∈ records, r.groupAddress.isMulticast = true ∧
    r.groupAddress.isLinkLocalMulticast = false)
    "group.isMulticast() && !group.isLinkLocalMulticast()"

/-- The reports that are sent come with the new data. No older-version querier is present. -/
def multicastSourceListChanged (p : Parameters) (h : HostGroupData) (filter : FilterMode)
    (sources : List Ipv4Address) : Except Error (HostGroupData × List (List GroupRecord)) := do
  assert (isSorted sources = true) "isSorted(sourceList.sources)"
  if !p.enabled || h.groupAddr.isLinkLocalMulticast then pure (h, [])
  else if h.filter ≠ filter ∨ h.sourceAddressList ≠ sources then do
    let records ← stateChangeRecords h.groupAddr h.filter h.sourceAddressList filter sources
    if records ≠ [] then do
      sendGroupReport records
      pure ({ h with
        filter := filter
        sourceAddressList := sort sources
        pendingRecords := records
        retransmitCount := p.robustnessVariable - 1
        retransmitTimer := decide (p.robustnessVariable - 1 > 0) }, [records])
    else pure ({ h with filter := filter, sourceAddressList := sort sources }, [])
  else pure (h, [])

/-- The report that is sent comes with the new data. -/
def processHostStateChangeTimer (h : HostGroupData) :
    Except Error (HostGroupData × List GroupRecord) := do
  assert (h.retransmitCount > 0) "group->retransmitCount > 0"
  assert (h.pendingRecords ≠ []) "!group->pendingRecords.empty()"
  sendGroupReport h.pendingRecords
  if h.retransmitCount - 1 > 0 then
    pure ({ h with retransmitCount := h.retransmitCount - 1, retransmitTimer := true },
      h.pendingRecords)
  else
    pure ({ h with
      retransmitCount := h.retransmitCount - 1
      retransmitTimer := false
      pendingRecords := [] }, h.pendingRecords)

/-! ## A host and a router on a link -/

structure Link where
  host : HostGroupData
  router : RouterInterface
  /-- The reports that are on their way to the router. -/
  inFlight : List (List GroupRecord)
  /-- How many transmissions have been lost since the last one that was not. -/
  lost : ℕ

/-- The filter of the host, a retransmission, or the arrival of a report at a time. -/
inductive LinkEvent where
  | change (filter : FilterMode) (sources : List Ipv4Address) (arrives : Bool)
  | retransmit (arrives : Bool)
  | deliver (now : ℤ)
  deriving DecidableEq, Repr

def Link.send (link : Link) (arrives : Bool) (report : List GroupRecord) : Link :=
  if arrives then { link with inFlight := link.inFlight ++ [report], lost := 0 }
  else { link with lost := link.lost + 1 }

def Link.step (p : Parameters) (link : Link) : LinkEvent → Except Error Link
  | .change filter sources arrives => do
    let (host, reports) ← multicastSourceListChanged p link.host filter sources
    pure (reports.foldl (Link.send · arrives) { link with host })
  | .retransmit arrives => do
    let (host, report) ← processHostStateChangeTimer link.host
    pure ({ link with host }.send arrives report)
  | .deliver now =>
    match link.inFlight with
    | [] => pure link
    | report :: inFlight => do
      let (router, _, _) ← processReport p now link.router report
      pure { link with router, inFlight }

/-- No `robustnessVariable` transmissions in a row are lost. -/
def Link.MayLose (p : Parameters) (link : Link) (arrives : Bool) : Prop :=
  arrives = false → (link.lost : ℤ) + 1 < p.robustnessVariable

/-- The source lists of a change are sorted, and the group is a multicast group. -/
def Link.Enabled (p : Parameters) (link : Link) : LinkEvent → Prop
  | .change _ sources arrives => link.host.groupAddr.isMulticast = true ∧
      isSorted sources = true ∧ link.MayLose p arrives
  | .retransmit arrives => link.host.retransmitTimer = true ∧ link.MayLose p arrives
  | .deliver _ => link.inFlight ≠ []

instance (p : Parameters) (link : Link) (arrives : Bool) : Decidable (link.MayLose p arrives) :=
  inferInstanceAs (Decidable (_ → _))

instance (p : Parameters) (link : Link) (e : LinkEvent) : Decidable (link.Enabled p e) :=
  match e with
  | .change _ _ _ => inferInstanceAs (Decidable (_ ∧ _))
  | .retransmit _ => inferInstanceAs (Decidable (_ ∧ _))
  | .deliver _ => inferInstanceAs (Decidable (_ ≠ _))

/-- The state after a run in which every event can happen. -/
def Link.run (p : Parameters) (link : Link) : List LinkEvent → Option Link
  | [] => some link
  | e :: es => if link.Enabled p e then (link.step p e).toOption.bind (Link.run p · es) else none

/-! ## Admitted sources -/

end Igmpv3

def Ipv4MulticastSourceList.admitted (list : Ipv4MulticastSourceList) : Set Ipv4Address :=
  {s | list.contains s = true}

namespace Igmpv3

def FilterMode.toMcast : FilterMode → McastSourceFilterMode
  | .fmInclude => .includeSources
  | .fmExclude => .excludeSources

def HostGroupData.sourceList (h : HostGroupData) : Ipv4MulticastSourceList :=
  ⟨h.filter.toMcast, h.sourceAddressList⟩

/-- The sources that a router admits once it has got the record. -/
def GroupRecord.allowed (gr : GroupRecord) : Set Ipv4Address :=
  match gr.recordType with
  | .isIn | .allow | .toIn => {s | s ∈ gr.sourceList}
  | .isEx | .toEx => {s | s ∉ gr.sourceList}
  | .block => ∅

def reportAllowed (report : List GroupRecord) : Set Ipv4Address :=
  {s | ∃ gr ∈ report, s ∈ gr.allowed}

/-- What the router admits, and what it will admit when the reports in flight have arrived. -/
def Link.promised (link : Link) : Set Ipv4Address :=
  (link.router.forwarded link.host.groupAddr).admitted ∪
    {s | ∃ report ∈ link.inFlight, s ∈ reportAllowed report}

/-- No retransmission is pending, and no report is on its way. -/
def Link.Quiet (link : Link) : Prop := link.host.retransmitTimer = false ∧ link.inFlight = []

/-- The router admits what the host admits. -/
def Link.Admits (link : Link) : Prop :=
  link.host.sourceList.admitted ⊆ (link.router.forwarded link.host.groupAddr).admitted

/-- In every quiet state of the run the router admits what the host admits, and every event that
can happen returns. -/
def Survives (p : Parameters) (link : Link) : List LinkEvent → Prop
  | [] => link.Quiet → link.Admits
  | e :: es => (link.Quiet → link.Admits) ∧
      (link.Enabled p e → ∃ link', link.step p e = .ok link' ∧ Survives p link' es)

/-- A change that keeps the filter mode finds the sources of both filters promised by the router.
A `TO_EX` record that arrives in EXCLUDE mode finds no source records. -/
def Careful (link : Link) : LinkEvent → Prop
  | .change filter sources _ => link.host.filter = filter → link.host.sourceAddressList ≠ sources →
      link.host.sourceList.admitted ∩
        Ipv4MulticastSourceList.admitted ⟨filter.toMcast, sources⟩ ⊆ link.promised
  | .retransmit _ => True
  | .deliver _ => ∀ gr ∈ link.inFlight.head?.getD [], gr.recordType = .toEx →
      ∀ g, link.router.data.groups[gr.groupAddress]? = some g → g.filter = .fmExclude →
      ∀ s, s ∉ g.sources

def CarefulRun (p : Parameters) (link : Link) : List LinkEvent → Prop
  | [] => True
  | e :: es => link.Enabled p e → Careful link e ∧
      ∀ link', link.step p e = .ok link' → CarefulRun p link' es

variable {p : Parameters} {now : ℤ} {i i' : RouterInterface} {g g' : RouterGroupData}
  {gr : GroupRecord} {report : List GroupRecord} {group s : Ipv4Address} {l : List Ipv4Address}

theorem mem_admitted_of_include {list : Ipv4MulticastSourceList}
    (h : list.filterMode = .includeSources) : s ∈ list.admitted ↔ s ∈ list.sources := by
  simp [Ipv4MulticastSourceList.admitted, Ipv4MulticastSourceList.contains, h]

theorem mem_admitted_of_exclude {list : Ipv4MulticastSourceList}
    (h : list.filterMode = .excludeSources) : s ∈ list.admitted ↔ s ∉ list.sources := by
  simp [Ipv4MulticastSourceList.admitted, Ipv4MulticastSourceList.contains, h]

/-- The sources that a filter admits. -/
def GroupFilter.admitted : GroupFilter → Set Ipv4Address
  | including a => a
  | excluding _ y => yᶜ

theorem admitted_collectForwardedSources (g : RouterGroupData) :
    g.collectForwardedSources.admitted = g.groupFilter.admitted := by
  ext s
  unfold RouterGroupData.groupFilter
  cases hfilter : g.filter with
  | fmInclude =>
    obtain ⟨hmode, hmem⟩ := collectForwardedSources_of_include hfilter
    exact (mem_admitted_of_include hmode).trans (hmem s)
  | fmExclude =>
    obtain ⟨hmode, hmem⟩ := collectForwardedSources_of_exclude hfilter
    exact (mem_admitted_of_exclude hmode).trans (not_congr (hmem s))

theorem admitted_receive (f : GroupFilter) (gr : GroupRecord) :
    (f.receive {s | s ∈ gr.sourceList} gr.recordType).admitted = f.admitted ∪ gr.allowed := by
  unfold GroupRecord.allowed
  cases gr.recordType with
  | isIn | allow | toIn =>
    cases f with
    | including a => rfl
    | excluding x y => exact Set.compl_sdiff.trans (Set.union_comm _ _)
  | isEx | toEx =>
    cases f with
    | including a => exact Set.compl_sdiff
    | excluding x y => exact Set.compl_inter _ _
  | block =>
    cases f with
    | including a => exact (Set.union_empty a).symm
    | excluding x y => exact (Set.union_empty yᶜ).symm

theorem Becomes.admitted (hg : g.WellFormed) (h : WellDefined g gr.recordType gr.sourceList)
    (hb : Becomes g g' (newFilter gr.recordType g.filter) (newTimer p now gr.recordType g)
      (newSource p now gr.recordType g gr.sourceList)) :
    g'.groupFilter.admitted = g.groupFilter.admitted ∪ gr.allowed := by
  have hfilter' : g'.filter = newFilter gr.recordType g.filter := by
    have h := congrArg RouterGroupData.filter hb.frame
    exact h
  by_cases hblock : gr.recordType = .block
  · have hlookup := hb.lookup
    rw [hblock] at hfilter' hlookup
    have hsame : g'.groupFilter = g.groupFilter := by
      unfold RouterGroupData.groupFilter
      rw [hfilter', running_congr hlookup, idle_congr hlookup]
      rfl
    unfold GroupRecord.allowed
    rw [hsame, hblock]
    exact (Set.union_empty _).symm
  · rw [hb.groupFilter hg (h.sourcesCovered hblock), admitted_receive]

theorem processReportRecord_admitted (h : i.Valid) {queries : List Igmpv3Query}
    {notifications : List Notification}
    (hok : processReportRecord p now i gr = .ok (i', queries, notifications)) :
    i'.Valid ∧ (i'.forwarded gr.groupAddress).admitted =
      (i.forwarded gr.groupAddress).admitted ∪ gr.allowed := by
  obtain ⟨hvalid, g, g', hg, hdefined, hb, hold, hnew⟩ := processReportRecord_spec h hok
  refine ⟨hvalid, ?_⟩
  rw [hold, hnew, admitted_collectForwardedSources, admitted_collectForwardedSources]
  exact hb.admitted hg hdefined

theorem reportAllowed_cons (gr : GroupRecord) (report : List GroupRecord) :
    reportAllowed (gr :: report) = gr.allowed ∪ reportAllowed report := by
  ext s
  simp only [reportAllowed, List.mem_cons, exists_eq_or_imp, Set.mem_ofPred_eq, Set.mem_union]

theorem processReport_admitted (h : i.Valid) (hgroup : ∀ gr ∈ report, gr.groupAddress = group)
    {queries : List Igmpv3Query} {notifications : List Notification}
    (hok : processReport p now i report = .ok (i', queries, notifications)) :
    (i'.forwarded group).admitted = (i.forwarded group).admitted ∪ reportAllowed report := by
  induction report generalizing i queries notifications with
  | nil =>
    cases hok
    simp [reportAllowed]
  | cons gr report ih =>
    obtain ⟨⟨i₁, queries₁, notifications₁⟩, hrecord, hok⟩ := Error.exists_of_bind_eq_ok hok
    obtain ⟨⟨i₂, queries₂, notifications₂⟩, hrecords, hok⟩ := Error.exists_of_bind_eq_ok hok
    cases hok
    obtain ⟨hvalid, hadmitted⟩ := processReportRecord_admitted h hrecord
    rw [hgroup gr List.mem_cons_self] at hadmitted
    rw [ih hvalid (fun r hr => hgroup r (List.mem_cons_of_mem gr hr)) hrecords, hadmitted,
      reportAllowed_cons, Set.union_assoc]

theorem processReportRecord_returns (p : Parameters) (now : ℤ) (h : i.Valid)
    (hgroup : gr.groupAddress.isMulticast = true)
    (hdefined : ∀ g, i.data.groups[gr.groupAddress]? = some g →
      WellDefined g gr.recordType gr.sourceList) :
    ∃ r, processReportRecord p now i gr = .ok r := by
  have hcreate : ∃ g data, i.data.getOrCreateGroupData gr.groupAddress = .ok (g, data) ∧
      WellDefined g gr.recordType gr.sourceList := by
    unfold RouterInterfaceData.getOrCreateGroupData
    cases hg : i.data.groups[gr.groupAddress]? with
    | some g => exact ⟨g, i.data, rfl, hdefined g hg⟩
    | none =>
      refine ⟨_, _, Error.bind_of_eq_ok
        (Error.bind_of_eq_ok (Error.assert_of_pos hgroup) rfl) rfl, ?_⟩
      unfold WellDefined
      cases gr.recordType with
      | isEx => exact fun s hs => absurd hs Std.ExtTreeMap.not_mem_empty
      | _ => trivial
  obtain ⟨g, data, hcreate, hdefined⟩ := hcreate
  obtain ⟨hvalid, hforwarded, -, -⟩ := getOrCreateGroupData_spec h hcreate
  obtain ⟨g', queries, hrecord, hb, -⟩ := processGroupRecord_spec p now data.state hdefined
  have hgroup' : g'.groupAddr = gr.groupAddress := by
    have hframe := congrArg RouterGroupData.groupAddr hb.frame
    exact hframe.trans hvalid.groupAddr
  have hupdate : ∃ r, updateListeners i.listeners g'.groupAddr g.collectForwardedSources
      g'.collectForwardedSources = .ok r := by
    unfold updateListeners
    split
    · obtain ⟨groups', notifications, hset, -⟩ := RouterMulticastData.setMulticastListeners_spec
        h.distinct (hgroup' ▸ hgroup) g'.collectForwardedSources.filterMode
        g'.collectForwardedSources.sources
      exact ⟨_, hset⟩
    · exact ⟨_, rfl⟩
  obtain ⟨r, hupdate⟩ := hupdate
  refine ⟨(⟨data.putGroupData gr.groupAddress g', r.1⟩, queries, r.2),
    Error.bind_of_eq_ok hcreate ?_⟩
  dsimp only
  rw [if_neg fun hcompat => hcompat.1 hvalid.compat]
  exact Error.bind_of_eq_ok hrecord (Error.bind_of_eq_ok hupdate rfl)

/-! ## Reports of a change -/

/-- The records of a change: of one group, and no other record with a `TO_EX`. -/
structure ChangeReport (group : Ipv4Address) (report : List GroupRecord) : Prop where
  isMulticast : group.isMulticast = true
  not_linkLocal : group.isLinkLocalMulticast = false
  groupAddress : ∀ gr ∈ report, gr.groupAddress = group
  recordType : (∃ gr, report = [gr] ∧ gr.recordType = .toEx) ∨
    ∀ gr ∈ report, gr.recordType ≠ .isEx ∧ gr.recordType ≠ .toEx

theorem ChangeReport.sendGroupReport_eq (h : ChangeReport group report) :
    sendGroupReport report = .ok () := by
  apply Error.assert_of_pos
  intro gr hgr
  rw [h.groupAddress gr hgr]
  exact ⟨h.isMulticast, h.not_linkLocal⟩

theorem processReport_returns_of_types (p : Parameters) (now : ℤ) (h : i.Valid)
    (hgroups : ∀ gr ∈ report, gr.groupAddress.isMulticast = true)
    (htypes : ∀ gr ∈ report, gr.recordType ≠ .isEx ∧ gr.recordType ≠ .toEx) :
    ∃ r, processReport p now i report = .ok r := by
  induction report generalizing i with
  | nil => exact ⟨_, rfl⟩
  | cons gr report ih =>
    obtain ⟨hisEx, htoEx⟩ := htypes gr List.mem_cons_self
    have hdefined : ∀ g, WellDefined g gr.recordType gr.sourceList := by
      intro g
      unfold WellDefined
      split
      · exact absurd ‹_› hisEx
      · exact absurd ‹_› htoEx
      · trivial
    obtain ⟨⟨i₁, queries₁, notifications₁⟩, hrecord⟩ := processReportRecord_returns p now h
      (hgroups gr List.mem_cons_self) fun g _ => hdefined g
    obtain ⟨r, hr⟩ := ih (processReportRecord_admitted h hrecord).1
      (fun r hr => hgroups r (List.mem_cons_of_mem gr hr))
      (fun r hr => htypes r (List.mem_cons_of_mem gr hr))
    exact ⟨_, Error.bind_of_eq_ok hrecord (Error.bind_of_eq_ok hr rfl)⟩

theorem processReport_returns (p : Parameters) (now : ℤ) (h : i.Valid)
    (hreport : ChangeReport group report)
    (hcareful : ∀ gr ∈ report, gr.recordType = .toEx →
      ∀ g, i.data.groups[gr.groupAddress]? = some g → g.filter = .fmExclude → ∀ s, s ∉ g.sources) :
    ∃ r, processReport p now i report = .ok r := by
  rcases hreport.recordType with ⟨gr, rfl, htype⟩ | htypes
  · have hmem : gr ∈ [gr] := List.mem_singleton_self gr
    have hmulticast : gr.groupAddress.isMulticast = true := by
      rw [hreport.groupAddress gr hmem]
      exact hreport.isMulticast
    obtain ⟨r, hr⟩ := processReportRecord_returns p now h hmulticast fun g hg => by
      rw [htype]
      unfold WellDefined
      cases hfilter : g.filter with
      | fmInclude => trivial
      | fmExclude => exact hcareful gr hmem htype g hg hfilter
    exact ⟨_, Error.bind_of_eq_ok hr rfl⟩
  · refine processReport_returns_of_types p now h (fun gr hgr => ?_) htypes
    rw [hreport.groupAddress gr hgr]
    exact hreport.isMulticast

theorem allowAndBlock_spec (hmulticast : group.isMulticast = true)
    (hlocal : group.isLinkLocalMulticast = false) (allow block : List Ipv4Address) :
    ChangeReport group ([⟨group, .allow, allow⟩, ⟨group, .block, block⟩].filter fun r =>
      !isEmptyRecord r) ∧
      ∀ s ∈ allow, s ∈ reportAllowed ([⟨group, .allow, allow⟩, ⟨group, .block, block⟩].filter
        fun r => !isEmptyRecord r) := by
  have hcases : ∀ gr ∈ [⟨group, .allow, allow⟩, ⟨group, .block, block⟩].filter
      (fun r => !isEmptyRecord r), gr = ⟨group, .allow, allow⟩ ∨ gr = ⟨group, .block, block⟩ := by
    intro gr hgr
    simpa using List.mem_of_mem_filter hgr
  refine ⟨⟨hmulticast, hlocal, fun gr hgr => ?_, Or.inr fun gr hgr => ?_⟩, fun s hs => ?_⟩
  · rcases hcases gr hgr with rfl | rfl
    · rfl
    · rfl
  · rcases hcases gr hgr with rfl | rfl
    · exact ⟨nofun, nofun⟩
    · exact ⟨nofun, nofun⟩
  · refine ⟨⟨group, .allow, allow⟩, List.mem_filter.2 ⟨List.mem_cons_self, ?_⟩, hs⟩
    cases allow with
    | nil => exact absurd hs List.not_mem_nil
    | cons a l => rfl

theorem stateChangeRecords_spec {old new : List Ipv4Address} (hold : old.Pairwise (· ≤ ·))
    (hnew : new.Pairwise (· ≤ ·)) (hmulticast : group.isMulticast = true)
    (hlocal : group.isLinkLocalMulticast = false) (oldFilter newFilter : FilterMode) :
    ∃ records, stateChangeRecords group oldFilter old newFilter new = .ok records ∧
      ChangeReport group records ∧
      ∀ s ∈ Ipv4MulticastSourceList.admitted ⟨newFilter.toMcast, new⟩, s ∈ reportAllowed records ∨
        oldFilter = newFilter ∧
          s ∈ Ipv4MulticastSourceList.admitted ⟨oldFilter.toMcast, old⟩ := by
  have hempty : ChangeReport group [] :=
    ⟨hmulticast, hlocal, nofun, Or.inr fun gr hgr => absurd hgr List.not_mem_nil⟩
  cases oldFilter with
  | fmInclude =>
    cases newFilter with
    | fmInclude =>
      obtain ⟨hreport, hallowed⟩ :=
        allowAndBlock_spec hmulticast hlocal (new.diff old) (old.diff new)
      by_cases hne : old ≠ new
      · refine ⟨_, (if_pos hne).trans (Error.bind_of_eq_ok (set_complement_eq hnew hold)
          (Error.bind_of_eq_ok (set_complement_eq hold hnew) rfl)), hreport, fun s hs => ?_⟩
        rw [mem_admitted_of_include rfl] at hs ⊢
        by_cases hmem : s ∈ old
        · exact Or.inr ⟨rfl, hmem⟩
        · exact Or.inl (hallowed s (List.mem_diff_of_mem hs hmem))
      · rw [not_not.1 hne]
        exact ⟨[], if_neg fun h => h rfl, hempty, fun s hs => Or.inr ⟨rfl, hs⟩⟩
    | fmExclude =>
      refine ⟨_, rfl, ⟨hmulticast, hlocal, ?_, Or.inl ⟨_, rfl, rfl⟩⟩, fun s hs => Or.inl ?_⟩
      · intro gr hgr
        rw [List.mem_singleton.1 hgr]
      · rw [mem_admitted_of_exclude rfl] at hs
        exact ⟨_, List.mem_singleton_self _, hs⟩
  | fmExclude =>
    cases newFilter with
    | fmInclude =>
      refine ⟨_, rfl, ⟨hmulticast, hlocal, ?_, Or.inr ?_⟩, fun s hs => Or.inl ?_⟩
      · intro gr hgr
        rw [List.mem_singleton.1 hgr]
      · intro gr hgr
        rw [List.mem_singleton.1 hgr]
        exact ⟨nofun, nofun⟩
      · rw [mem_admitted_of_include rfl] at hs
        exact ⟨_, List.mem_singleton_self _, hs⟩
    | fmExclude =>
      obtain ⟨hreport, hallowed⟩ :=
        allowAndBlock_spec hmulticast hlocal (old.diff new) (new.diff old)
      by_cases hne : old ≠ new
      · refine ⟨_, (if_pos hne).trans (Error.bind_of_eq_ok (set_complement_eq hold hnew)
          (Error.bind_of_eq_ok (set_complement_eq hnew hold) rfl)), hreport, fun s hs => ?_⟩
        rw [mem_admitted_of_exclude rfl] at hs ⊢
        by_cases hmem : s ∈ old
        · exact Or.inl (hallowed s (List.mem_diff_of_mem hmem hs))
        · exact Or.inr ⟨rfl, hmem⟩
      · rw [not_not.1 hne]
        exact ⟨[], if_neg fun h => h rfl, hempty, fun s hs => Or.inr ⟨rfl, hs⟩⟩

/-! ## The invariant -/

/-- The router will come to admit what the host admits: by the reports that are on their way, or by
the records that are still being sent. In the latter case no transmission of them has arrived. -/
structure Link.Valid (p : Parameters) (link : Link) : Prop where
  router : link.router.Valid
  sorted : link.host.sourceAddressList.Pairwise (· ≤ ·)
  inFlight : ∀ report ∈ link.inFlight, ChangeReport link.host.groupAddr report
  pending : link.host.retransmitTimer = true → 0 < link.host.retransmitCount ∧
    link.host.pendingRecords ≠ [] ∧ ChangeReport link.host.groupAddr link.host.pendingRecords
  covered : link.host.sourceList.admitted ⊆ link.promised ∨
    link.host.retransmitTimer = true ∧
      p.robustnessVariable ≤ link.lost + link.host.retransmitCount ∧
      link.host.sourceList.admitted ⊆ link.promised ∪ reportAllowed link.host.pendingRecords

variable {link link' : Link} {h h' : HostGroupData} {arrives : Bool} {e : LinkEvent}

theorem Link.Valid.admits (hv : link.Valid p) (hquiet : link.Quiet) : link.Admits := by
  rcases hv.covered with hcovered | ⟨htimer, -⟩
  · refine hcovered.trans ?_
    rintro s (hs | ⟨report, hreport, -⟩)
    · exact hs
    · rw [hquiet.2] at hreport
      exact absurd hreport List.not_mem_nil
  · exact absurd (htimer.symm.trans hquiet.1) (by decide)

@[simp] theorem host_send : (link.send arrives report).host = link.host := by
  unfold Link.send
  split <;> rfl

@[simp] theorem router_send : (link.send arrives report).router = link.router := by
  unfold Link.send
  split <;> rfl

theorem promised_send_true :
    (link.send true report).promised = link.promised ∪ reportAllowed report := by
  unfold Link.promised Link.send
  ext s
  simp only [if_true, List.mem_append, List.mem_singleton, Set.mem_union, Set.mem_ofPred_eq]
  constructor
  · rintro (hs | ⟨r, hr | rfl, hs⟩)
    · exact Or.inl (Or.inl hs)
    · exact Or.inl (Or.inr ⟨r, hr, hs⟩)
    · exact Or.inr hs
  · rintro ((hs | ⟨r, hr, hs⟩) | hs)
    · exact Or.inl hs
    · exact Or.inr ⟨r, Or.inl hr, hs⟩
    · exact Or.inr ⟨report, Or.inr rfl, hs⟩

theorem inFlight_send (hinFlight : ∀ r ∈ link.inFlight, ChangeReport group r)
    (hreport : ChangeReport group report) :
    ∀ r ∈ (link.send arrives report).inFlight, ChangeReport group r := by
  unfold Link.send
  split
  · intro r hr
    rcases List.mem_append.1 hr with hr | hr
    · exact hinFlight r hr
    · rw [List.mem_singleton.1 hr]
      exact hreport
  · exact hinFlight

/-! ## Changes of the filter -/

theorem multicastSourceListChanged_spec (p : Parameters) (filter : FilterMode)
    {sources : List Ipv4Address} (hold : h.sourceAddressList.Pairwise (· ≤ ·))
    (hnew : isSorted sources = true) (hmulticast : h.groupAddr.isMulticast = true) :
    ∃ h' reports, multicastSourceListChanged p h filter sources = .ok (h', reports) ∧
      (h' = h ∧ reports = [] ∨
      (h.filter ≠ filter ∨ h.sourceAddressList ≠ sources) ∧ ∃ records,
        ChangeReport h.groupAddr records ∧
        (∀ s ∈ Ipv4MulticastSourceList.admitted ⟨filter.toMcast, sources⟩,
          s ∈ reportAllowed records ∨ h.filter = filter ∧ s ∈ h.sourceList.admitted) ∧
        (records = [] ∧ reports = [] ∧
            h' = { h with filter := filter, sourceAddressList := sort sources } ∨
          records ≠ [] ∧ reports = [records] ∧ h' = { h with
            filter := filter
            sourceAddressList := sort sources
            pendingRecords := records
            retransmitCount := p.robustnessVariable - 1
            retransmitTimer := decide (p.robustnessVariable - 1 > 0) })) := by
  unfold multicastSourceListChanged
  by_cases hidle : (!p.enabled || h.groupAddr.isLinkLocalMulticast) = true
  · exact ⟨h, [], Error.bind_of_eq_ok (Error.assert_of_pos hnew) (if_pos hidle), Or.inl ⟨rfl, rfl⟩⟩
  by_cases hchanged : h.filter ≠ filter ∨ h.sourceAddressList ≠ sources
  · have hlocal : h.groupAddr.isLinkLocalMulticast = false := by
      rw [Bool.or_eq_true, not_or] at hidle
      exact Bool.eq_false_of_not_eq_true hidle.2
    obtain ⟨records, hrecords, hreport, hallowed⟩ := stateChangeRecords_spec hold
      (pairwise_of_isSorted hnew) hmulticast hlocal h.filter filter
    by_cases hnonempty : records ≠ []
    · refine ⟨_, [records], Error.bind_of_eq_ok (Error.assert_of_pos hnew) ((if_neg hidle).trans
        ((if_pos hchanged).trans (Error.bind_of_eq_ok hrecords ((if_pos hnonempty).trans
          (Error.bind_of_eq_ok hreport.sendGroupReport_eq rfl))))), Or.inr ⟨hchanged, records,
            hreport, hallowed, Or.inr ⟨hnonempty, rfl, rfl⟩⟩⟩
    · refine ⟨_, [], Error.bind_of_eq_ok (Error.assert_of_pos hnew) ((if_neg hidle).trans
        ((if_pos hchanged).trans (Error.bind_of_eq_ok hrecords (if_neg hnonempty)))),
          Or.inr ⟨hchanged, records, hreport, hallowed, Or.inl ⟨not_not.1 hnonempty, rfl, rfl⟩⟩⟩
  · exact ⟨h, [], Error.bind_of_eq_ok (Error.assert_of_pos hnew) ((if_neg hidle).trans
      (if_neg hchanged)), Or.inl ⟨rfl, rfl⟩⟩

theorem admitted_sort (filter : FilterMode) (sources : List Ipv4Address) :
    Ipv4MulticastSourceList.admitted ⟨filter.toMcast, sort sources⟩ =
      Ipv4MulticastSourceList.admitted ⟨filter.toMcast, sources⟩ := by
  ext s
  cases filter with
  | fmInclude => rw [mem_admitted_of_include rfl, mem_admitted_of_include rfl, mem_sort]
  | fmExclude => rw [mem_admitted_of_exclude rfl, mem_admitted_of_exclude rfl, mem_sort]

theorem Link.Valid.sendChange (hv : link.Valid p) (hgroup : h.groupAddr = link.host.groupAddr)
    (hsorted : h.sourceAddressList.Pairwise (· ≤ ·)) (hreport : ChangeReport h.groupAddr report)
    (hnonempty : report ≠ []) (hpending : h.pendingRecords = report)
    (hcount : h.retransmitCount = p.robustnessVariable - 1)
    (htimer : h.retransmitTimer = decide (p.robustnessVariable - 1 > 0))
    (hlose : link.MayLose p arrives)
    (hadmitted : h.sourceList.admitted ⊆ link.promised ∪ reportAllowed report) :
    ({ link with host := h }.send arrives report).Valid p := by
  have hpromised : Link.promised { link with host := h } = link.promised := by
    unfold Link.promised
    rw [hgroup]
  refine ⟨?_, ?_, ?_, fun hscheduled => ?_, ?_⟩
  · rw [router_send]
    exact hv.router
  · rw [host_send]
    exact hsorted
  · rw [host_send]
    refine inFlight_send (fun r hr => ?_) hreport
    dsimp only
    rw [hgroup]
    exact hv.inFlight r hr
  · rw [host_send] at hscheduled ⊢
    dsimp only at hscheduled ⊢
    rw [htimer, decide_eq_true_eq] at hscheduled
    rw [hcount, hpending]
    exact ⟨hscheduled, hnonempty, hreport⟩
  · cases arrives with
    | true =>
      left
      rw [host_send, promised_send_true, hpromised]
      exact hadmitted
    | false =>
      right
      have hlost := hlose rfl
      have hzero : (0 : ℤ) ≤ link.lost := Int.natCast_nonneg _
      refine ⟨?_, ?_, ?_⟩
      · rw [host_send]
        dsimp only
        rw [htimer, decide_eq_true_eq]
        omega
      · rw [host_send]
        dsimp only [Link.send]
        rw [hcount]
        simp only [Bool.false_eq_true, if_false, Nat.cast_add, Nat.cast_one]
        omega
      · rw [host_send]
        dsimp only
        rw [hpending]
        exact hadmitted.trans (Set.union_subset_union_left _ hpromised.ge)

theorem step_change (hv : link.Valid p) {filter : FilterMode} {sources : List Ipv4Address}
    (henabled : link.Enabled p (.change filter sources arrives))
    (hcareful : Careful link (.change filter sources arrives)) :
    ∃ link', link.step p (.change filter sources arrives) = .ok link' ∧ link'.Valid p := by
  obtain ⟨hmulticast, hsorted, hlose⟩ := henabled
  obtain ⟨h', reports, hok, hspec⟩ :=
    multicastSourceListChanged_spec p filter hv.sorted hsorted hmulticast
  refine ⟨_, Error.bind_of_eq_ok hok rfl, ?_⟩
  rcases hspec with ⟨rfl, rfl⟩ | ⟨hchanged, records, hreport, hallowed, hspec⟩
  · exact hv
  have hadmitted : Ipv4MulticastSourceList.admitted ⟨filter.toMcast, sources⟩ ⊆
      link.promised ∪ reportAllowed records := by
    intro s hs
    rcases hallowed s hs with hs' | ⟨hfilter, hs'⟩
    · exact Or.inr hs'
    · have hne := hchanged.resolve_left (not_not.2 hfilter)
      exact Or.inl (hcareful hfilter hne ⟨hs', hs⟩)
  rw [← admitted_sort] at hadmitted
  rcases hspec with ⟨rfl, rfl, rfl⟩ | ⟨hnonempty, rfl, rfl⟩
  · refine ⟨hv.router, pairwise_sort sources, hv.inFlight, hv.pending, Or.inl ?_⟩
    have hnone : reportAllowed [] = ∅ := by
      simp [reportAllowed]
    rw [hnone, Set.union_empty] at hadmitted
    exact hadmitted
  · exact hv.sendChange rfl (pairwise_sort sources) hreport hnonempty rfl rfl rfl hlose hadmitted

/-! ## Retransmissions and arrivals -/

/-- The host's data after a retransmission. -/
def afterRetransmit (h : HostGroupData) : HostGroupData :=
  if h.retransmitCount - 1 > 0 then
    { h with retransmitCount := h.retransmitCount - 1, retransmitTimer := true }
  else
    { h with
      retransmitCount := h.retransmitCount - 1
      retransmitTimer := false
      pendingRecords := [] }

theorem processHostStateChangeTimer_eq (hcount : 0 < h.retransmitCount)
    (hnonempty : h.pendingRecords ≠ []) (hreport : ChangeReport group h.pendingRecords) :
    processHostStateChangeTimer h = .ok (afterRetransmit h, h.pendingRecords) := by
  refine Error.bind_of_eq_ok (Error.assert_of_pos hcount)
    (Error.bind_of_eq_ok (Error.assert_of_pos hnonempty)
      (Error.bind_of_eq_ok hreport.sendGroupReport_eq ?_))
  unfold afterRetransmit
  split <;> rfl

theorem groupAddr_afterRetransmit : (afterRetransmit h).groupAddr = h.groupAddr := by
  unfold afterRetransmit
  split <;> rfl

theorem sourceAddressList_afterRetransmit :
    (afterRetransmit h).sourceAddressList = h.sourceAddressList := by
  unfold afterRetransmit
  split <;> rfl

theorem sourceList_afterRetransmit : (afterRetransmit h).sourceList = h.sourceList := by
  unfold afterRetransmit
  split <;> rfl

theorem step_retransmit (hv : link.Valid p) (henabled : link.Enabled p (.retransmit arrives)) :
    ∃ link', link.step p (.retransmit arrives) = .ok link' ∧ link'.Valid p := by
  obtain ⟨htimer, hlose⟩ := henabled
  obtain ⟨hcount, hnonempty, hreport⟩ := hv.pending htimer
  have hpromised : Link.promised { link with host := afterRetransmit link.host } =
      link.promised := by
    unfold Link.promised
    rw [groupAddr_afterRetransmit]
  refine ⟨_, Error.bind_of_eq_ok (processHostStateChangeTimer_eq hcount hnonempty hreport) rfl,
    ?_, ?_, ?_, fun hscheduled => ?_, ?_⟩
  · rw [router_send]
    exact hv.router
  · rw [host_send]
    dsimp only
    rw [sourceAddressList_afterRetransmit]
    exact hv.sorted
  · rw [host_send]
    dsimp only
    rw [groupAddr_afterRetransmit]
    exact inFlight_send hv.inFlight hreport
  · rw [host_send] at hscheduled ⊢
    dsimp only at hscheduled ⊢
    rw [groupAddr_afterRetransmit]
    unfold afterRetransmit at hscheduled ⊢
    split at hscheduled
    · rename_i hleft
      rw [if_pos hleft]
      exact ⟨hleft, hnonempty, hreport⟩
    · cases hscheduled
  · rw [host_send]
    dsimp only
    rw [sourceList_afterRetransmit]
    cases arrives with
    | true =>
      left
      rw [promised_send_true, hpromised]
      rcases hv.covered with hcovered | ⟨-, -, hcovered⟩
      · exact hcovered.trans Set.subset_union_left
      · exact hcovered
    | false =>
      have hunchanged : ({ link with host := afterRetransmit link.host }.send false
          link.host.pendingRecords).promised = link.promised := hpromised
      rw [hunchanged]
      rcases hv.covered with hcovered | ⟨-, hlost, hcovered⟩
      · exact Or.inl hcovered
      · right
        have hmay := hlose rfl
        -- as the last transmissions were all lost, this is not the last one
        have hleft : link.host.retransmitCount - 1 > 0 := by omega
        unfold afterRetransmit
        rw [if_pos hleft]
        refine ⟨rfl, ?_, hcovered⟩
        dsimp only [Link.send]
        simp only [Bool.false_eq_true, if_false, Nat.cast_add, Nat.cast_one]
        omega

theorem step_deliver (hv : link.Valid p) (henabled : link.Enabled p (.deliver now))
    (hcareful : Careful link (.deliver now)) :
    ∃ link', link.step p (.deliver now) = .ok link' ∧ link'.Valid p := by
  obtain ⟨report, inFlight, hinFlight⟩ := List.exists_cons_of_ne_nil henabled
  have hreport := hv.inFlight report (hinFlight ▸ List.mem_cons_self)
  unfold Careful at hcareful
  rw [hinFlight] at hcareful
  obtain ⟨⟨router, queries, notifications⟩, hok⟩ :=
    processReport_returns p now hv.router hreport hcareful
  have hadmitted := processReport_admitted hv.router hreport.groupAddress hok
  have hpromised : Link.promised { link with router, inFlight } = link.promised := by
    unfold Link.promised
    dsimp only
    rw [hadmitted, hinFlight, Set.union_assoc]
    congr 1
    ext s
    simp only [List.mem_cons, exists_eq_or_imp, Set.mem_ofPred_eq, Set.mem_union]
  refine ⟨{ link with router, inFlight }, ?_, ?_⟩
  · unfold Link.step
    dsimp only
    rw [hinFlight]
    exact Error.bind_of_eq_ok hok rfl
  · refine ⟨processReport_valid hv.router hok, hv.sorted, fun r hr => ?_, hv.pending, ?_⟩
    · exact hv.inFlight r (hinFlight ▸ List.mem_cons_of_mem report hr)
    · rw [hpromised]
      exact hv.covered

theorem step_valid (hv : link.Valid p) (henabled : link.Enabled p e) (hcareful : Careful link e) :
    ∃ link', link.step p e = .ok link' ∧ link'.Valid p := by
  cases e with
  | change filter sources arrives => exact step_change hv henabled hcareful
  | retransmit arrives => exact step_retransmit hv henabled
  | deliver now => exact step_deliver hv henabled hcareful

theorem survives_of_valid (p : Parameters) (es : List LinkEvent) (hv : link.Valid p)
    (hrun : CarefulRun p link es) : Survives p link es := by
  induction es generalizing link with
  | nil => exact hv.admits
  | cons e es ih =>
    refine ⟨hv.admits, fun henabled => ?_⟩
    obtain ⟨hcareful, hrest⟩ := hrun henabled
    obtain ⟨link', hok, hv'⟩ := step_valid hv henabled hcareful
    exact ⟨link', hok, ih hv' (hrest link' hok)⟩

/-- A host that has not joined the group, and a router that has heard of no group. -/
def Link.initial (state : RouterState) (group : Ipv4Address) : Link :=
  ⟨.new group, (Router.initial state 0).interface, [], 0⟩

theorem valid_link_initial (p : Parameters) (state : RouterState) (group : Ipv4Address) :
    (Link.initial state group).Valid p := by
  refine ⟨valid_initial state 0, List.Pairwise.nil, fun r hr => absurd hr List.not_mem_nil,
    nofun, Or.inl fun s hs => ?_⟩
  exact absurd ((mem_admitted_of_include rfl).1 hs) List.not_mem_nil

/-- In a careful run the router admits what the host admits whenever nothing is pending. -/
theorem state_changes_survive (p : Parameters) (state : RouterState) (group : Ipv4Address)
    (es : List LinkEvent) (hrun : CarefulRun p (.initial state group) es) :
    Survives p (.initial state group) es :=
  survives_of_valid p es (valid_link_initial p state group) hrun

/-- A first report that is lost and sent again, and a second change once it has arrived. -/
def lossyJoins : List LinkEvent :=
  [.change .fmInclude [0x0A000001#32] false, .retransmit true, .deliver 0,
    .change .fmInclude [0x0A000001#32, 0x0A000002#32] true, .retransmit false, .deliver 1]

theorem Link.run_cons (he : link.Enabled p e) (hok : link.step p e = .ok link')
    (es : List LinkEvent) : link.run p (e :: es) = link'.run p es := by
  rw [Link.run, if_pos he, hok]
  rfl

theorem carefulRun_lossyJoins :
    CarefulRun .standard (.initial .querier 0xE1000001#32) lossyJoins := by
  have hone : ((Link.initial .querier 0xE1000001#32).run .standard (lossyJoins.take 2)).map
      Link.inFlight = some [[⟨0xE1000001#32, .allow, [0x0A000001#32]⟩]] := by
    decide +kernel
  have hjoined : ((Link.initial .querier 0xE1000001#32).run .standard (lossyJoins.take 3)).map
      (fun link => (link.host.sourceList, link.router.forwarded link.host.groupAddr)) =
      some (⟨.includeSources, [0x0A000001#32]⟩, ⟨.includeSources, [0x0A000001#32]⟩) := by
    decide +kernel
  have htwo : ((Link.initial .querier 0xE1000001#32).run .standard (lossyJoins.take 5)).map
      Link.inFlight = some [[⟨0xE1000001#32, .allow, [0x0A000002#32]⟩]] := by
    decide +kernel
  have hallow : ∀ {link : Link} now s,
      some link.inFlight = some [[⟨0xE1000001#32, .allow, [s]⟩]] → Careful link (.deliver now) := by
    rintro link now s h gr hgr
    rw [Option.some.inj h] at hgr
    rw [List.mem_singleton.1 hgr]
    exact nofun
  refine fun he₁ => ⟨fun _ _ s hs => absurd hs.1 nofun, fun link₁ h₁ he₂ =>
    ⟨trivial, fun link₂ h₂ he₃ => ?_⟩⟩
  rw [lossyJoins, List.take, Link.run_cons he₁ h₁, List.take, Link.run_cons he₂ h₂] at hone
  refine ⟨hallow 0 _ hone, fun link₃ h₃ he₄ => ?_⟩
  rw [lossyJoins, List.take, Link.run_cons he₁ h₁, List.take, Link.run_cons he₂ h₂, List.take,
    Link.run_cons he₃ h₃] at hjoined
  obtain ⟨hhost, hrouter⟩ := Prod.mk.inj (Option.some.inj hjoined)
  refine ⟨fun _ _ s hs => Or.inl ?_, fun link₄ h₄ he₅ => ⟨trivial, fun link₅ h₅ he₆ =>
    ⟨hallow 1 0x0A000002#32 ?_, fun _ _ => trivial⟩⟩⟩
  · rw [hrouter, ← hhost]
    exact hs.1
  · rw [lossyJoins, List.take, Link.run_cons he₁ h₁, List.take, Link.run_cons he₂ h₂, List.take,
      Link.run_cons he₃ h₃, List.take, Link.run_cons he₄ h₄, List.take, Link.run_cons he₅ h₅]
      at htwo
    exact htwo

theorem state_changes_survive_lossyJoins :
    Survives .standard (.initial .querier 0xE1000001#32) lossyJoins :=
  state_changes_survive .standard .querier 0xE1000001#32 lossyJoins carefulRun_lossyJoins

theorem Survives.admits_of_run {es : List LinkEvent} (h : Survives p link es)
    (hrun : link.run p es = some link') (hquiet : link'.Quiet) : link'.Admits := by
  induction es generalizing link with
  | nil =>
    cases hrun
    exact h hquiet
  | cons e es ih =>
    rw [Link.run] at hrun
    split at hrun
    · rename_i henabled
      obtain ⟨link₁, hok, hsurvives⟩ := h.2 henabled
      rw [hok] at hrun
      exact ih hsurvives hrun
    · cases hrun

/-- A host that joins the group for one source, and then for another one as well. -/
def twoJoins : List LinkEvent :=
  [.change .fmInclude [0x0A000001#32] false, .change .fmInclude [0x0A000001#32, 0x0A000002#32] true,
    .retransmit true, .deliver 0, .deliver 1]

/-- One lost report out of three is enough for the router not to hear of the first source. -/
theorem first_join_lost : ¬ ∀ group es, Survives .standard (.initial .querier group) es := by
  intro h
  have hstate : ((Link.initial .querier 0xE1000001#32).run .standard twoJoins).map (fun link =>
      ((link.host.retransmitTimer, link.inFlight), (link.host.sourceList,
        link.router.forwarded link.host.groupAddr))) = some ((false, []),
      (⟨.includeSources, [0x0A000001#32, 0x0A000002#32]⟩, ⟨.includeSources, [0x0A000002#32]⟩)) := by
    decide +kernel
  obtain ⟨link', hrun, hlink'⟩ := Option.map_eq_some_iff.1 hstate
  obtain ⟨hquiet, hlists⟩ := Prod.mk.inj hlink'
  obtain ⟨hhost, hrouter⟩ := Prod.mk.inj hlists
  have hadmits := (h 0xE1000001#32 twoJoins).admits_of_run hrun (Prod.mk.inj hquiet)
  unfold Link.Admits at hadmits
  rw [hhost, hrouter] at hadmits
  have hmem := hadmits ((mem_admitted_of_include rfl).2 List.mem_cons_self)
  exact absurd ((mem_admitted_of_include rfl).1 hmem) (by decide)

end Igmpv3

end Inet.Ipv4
