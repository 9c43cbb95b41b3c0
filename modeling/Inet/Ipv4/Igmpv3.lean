import Inet.Ipv4.InterfaceData

/-! # The router part of IGMPv3

A router keeps a filter for each group that hosts report on a link. Each group
record of a report changes the filter, and may make the router ask the hosts
about the sources that some of them gave up.
-/

namespace Inet.Ipv4.Igmpv3

inductive FilterMode where
  | fmInclude
  | fmExclude
  deriving DecidableEq, Repr

inductive ReportType where
  | isIn
  | isEx
  | toIn
  | toEx
  | allow
  | block
  deriving DecidableEq, Repr

structure GroupRecord where
  groupAddress : Ipv4Address
  recordType : ReportType
  sourceList : List Ipv4Address
  deriving DecidableEq, Repr

structure Igmpv3Query where
  groupAddress : Ipv4Address
  suppressRouterProc : Bool
  sourceList : List Ipv4Address
  deriving DecidableEq, Repr

inductive RouterState where
  | initial
  | querier
  | nonQuerier
  deriving DecidableEq, Repr

inductive CompatVersion where
  | none
  | v1
  | v2
  deriving DecidableEq, Repr

/-- The parameters of the module. Intervals are in picoseconds. -/
structure Parameters where
  enabled : Bool
  robustnessVariable : ℤ
  groupMembershipInterval : ℕ
  lastMemberQueryInterval : ℕ
  lastMemberQueryCount : ℕ
  groupMembershipInterval_pos : 0 < groupMembershipInterval

def Parameters.lastMemberQueryTime (p : Parameters) : ℕ :=
  p.lastMemberQueryInterval * p.lastMemberQueryCount

/-! ## Sorted address vectors -/

def isSorted : List Ipv4Address → Bool
  | a :: b :: l => !decide (a > b) && isSorted (b :: l)
  | _ => true

def sort (l : List Ipv4Address) : List Ipv4Address := l.insertionSort (· ≤ ·)

def set_complement (first second : List Ipv4Address) : Except Error (List Ipv4Address) := do
  assert (isSorted first = true) "isSorted(first)"
  assert (isSorted second = true) "isSorted(second)"
  pure (first.diff second)

def set_intersection (first second : List Ipv4Address) : Except Error (List Ipv4Address) := do
  assert (isSorted first = true) "isSorted(first)"
  assert (isSorted second = true) "isSorted(second)"
  pure (first.bagInter second)

/-! ## Group data -/

/-- A source record holds the arrival time of its timer while that is scheduled. -/
abbrev SourceMap := Std.ExtTreeMap Ipv4Address (Option ℤ)

/-- A timer is its arrival time while it is scheduled. -/
structure RouterGroupData where
  groupAddr : Ipv4Address
  filter : FilterMode
  timer : Option ℤ
  sources : SourceMap
  rexmtTimer : Option ℤ
  rexmtCount : ℤ
  rexmtGroupAndSource : Bool
  rexmtSources : List Ipv4Address
  olderVersionCompat : CompatVersion
  olderVersionTimer : Option ℤ

namespace RouterGroupData

def new (group : Ipv4Address) : Except Error RouterGroupData := do
  assert (group.isMulticast = true) "groupAddr.isMulticast()"
  pure ⟨group, .fmInclude, none, ∅, none, 0, false, [], .none, none⟩

def hasSourceRecord (g : RouterGroupData) (source : Ipv4Address) : Bool :=
  g.sources.contains source

/-- `sourceTimer->isScheduled()` of a source record. -/
def sourceTimerRunning (g : RouterGroupData) (source : Ipv4Address) : Bool :=
  (g.sources[source]?.bind id).isSome

def createSourceRecord (g : RouterGroupData) (source : Ipv4Address) :
    Except Error RouterGroupData := do
  assert (g.hasSourceRecord source = false) "!containsKey(sources, source)"
  pure { g with sources := g.sources.insert source none }

def getOrCreateSourceRecord (g : RouterGroupData) (source : Ipv4Address) :
    Except Error RouterGroupData :=
  if g.hasSourceRecord source then pure g else g.createSourceRecord source

def deleteSourceRecord (g : RouterGroupData) (source : Ipv4Address) : RouterGroupData :=
  { g with sources := g.sources.erase source }

/-- `startTimer(record->sourceTimer, interval)` -/
def startSourceTimer (g : RouterGroupData) (source : Ipv4Address) (now : ℤ) (interval : ℕ) :
    RouterGroupData :=
  { g with sources := g.sources.insert source (some (now + interval)) }

/-- `startTimer(groupData->timer, interval)` -/
def startGroupTimer (g : RouterGroupData) (now : ℤ) (interval : ℕ) : RouterGroupData :=
  { g with timer := some (now + interval) }

/-- The sources that the filter names: those with a running timer in INCLUDE mode, and those
without one in EXCLUDE mode. -/
def collectForwardedSources (g : RouterGroupData) : Ipv4MulticastSourceList :=
  match g.filter with
  | .fmInclude => ⟨.includeSources, g.sources.keys.filter g.sourceTimerRunning⟩
  | .fmExclude => ⟨.excludeSources, g.sources.keys.filter fun source =>
      !g.sourceTimerRunning source⟩

end RouterGroupData

section Processing

variable (p : Parameters) (now : ℤ) (state : RouterState)

/-! ## Queries -/

/-- The end of the two functions that send a query: the query is sent again later. -/
def armRexmt (g : RouterGroupData) (groupAndSource : Bool) (sources : List Ipv4Address) :
    RouterGroupData :=
  let rexmtCount : ℤ := p.lastMemberQueryCount - 1
  if rexmtCount > 0 ∧ p.lastMemberQueryInterval > 0 then
    { g with
      rexmtGroupAndSource := groupAndSource
      rexmtSources := sources
      rexmtCount := rexmtCount
      rexmtTimer := some (now + p.lastMemberQueryInterval) }
  else
    { g with
      rexmtGroupAndSource := groupAndSource
      rexmtSources := sources
      rexmtCount := 0
      rexmtTimer := none }

/-- Only the querier sends. -/
def sendQuery (query : Igmpv3Query) : List Igmpv3Query :=
  if state = .querier then [query] else []

def sendGroupSpecificQuery (g : RouterGroupData) : RouterGroupData × List Igmpv3Query :=
  let suppressFlag := g.timer.any fun arrival => arrival > now + p.lastMemberQueryTime
  (armRexmt p now (g.startGroupTimer now p.lastMemberQueryTime) false [],
    sendQuery state ⟨g.groupAddr, suppressFlag, []⟩)

def sendGroupAndSourceSpecificQuery (g : RouterGroupData) (sources : List Ipv4Address) :
    Except Error (RouterGroupData × List Igmpv3Query) := do
  assert (sources ≠ []) "!sources.empty()"
  pure (armRexmt p now g true (sort sources), sendQuery state ⟨g.groupAddr, false, sources⟩)

/-- The query is sent if it has sources. -/
def querySources (g : RouterGroupData) (sources : List Ipv4Address) :
    Except Error (RouterGroupData × List Igmpv3Query) :=
  if sources.isEmpty then pure (g, []) else sendGroupAndSourceSpecificQuery p now state g sources

/-! ## Group records -/

/-- The loop over received sources of the record types that turn sources on. -/
def startSourceTimers (g : RouterGroupData) (receivedSources : List Ipv4Address) :
    Except Error RouterGroupData :=
  receivedSources.foldlM (fun g source => do
    let g ← g.getOrCreateSourceRecord source
    pure (g.startSourceTimer source now p.groupMembershipInterval)) g

/-- The loop over received sources that creates the missing records. -/
def createSourceRecords (g : RouterGroupData) (start : Bool) (receivedSources : List Ipv4Address) :
    Except Error RouterGroupData :=
  receivedSources.foldlM (fun g source =>
    if g.hasSourceRecord source then pure g else do
      let g ← g.createSourceRecord source
      pure (if start then g.startSourceTimer source now p.groupMembershipInterval else g)) g

/-- A loop over the source records that deletes the record its iterator is at, and then advances
the iterator. -/
def deleteInLoop (delete : Ipv4Address → Bool) : List Ipv4Address → Except Error Unit
  | [] => pure ()
  | source :: rest =>
    if delete source then throw (.undefinedBehavior "++it after the erase of it")
    else deleteInLoop delete rest

def processIsEx (g : RouterGroupData) (receivedSources : List Ipv4Address) :
    Except Error (RouterGroupData × List Igmpv3Query) := do
  let g := g.startGroupTimer now p.groupMembershipInterval
  deleteInLoop (fun source => !receivedSources.contains source) g.sources.keys
  let timerValue : ℕ := match g.filter with
    | .fmInclude => 0
    | .fmExclude => p.groupMembershipInterval
  let g ← createSourceRecords p now g (timerValue > 0) receivedSources
  pure ({ g with filter := .fmExclude }, [])

/-- The loop of EXCLUDE mode over its own source records. A source without a record would get a
timer that arrives with that of the group. -/
def blockLoop (g : RouterGroupData) : Except Error RouterGroupData :=
  g.sources.keys.foldlM (fun g source =>
    if g.hasSourceRecord source then pure g else do
      let g ← g.createSourceRecord source
      pure { g with sources := g.sources.insert source g.timer }) g

def processBlock (g : RouterGroupData) (receivedSources : List Ipv4Address) :
    Except Error (RouterGroupData × List Igmpv3Query) := do
  match g.filter with
  | .fmInclude =>
    let aIntersectB ← set_intersection g.sources.keys receivedSources
    querySources p now state g aIntersectB
  | .fmExclude =>
    let g ← blockLoop g
    let ySources := g.sources.keys.filter fun source => !g.sourceTimerRunning source
    let aMinusY ← set_complement receivedSources ySources
    querySources p now state g aMinusY

def processToIn (g : RouterGroupData) (receivedSources : List Ipv4Address) :
    Except Error (RouterGroupData × List Igmpv3Query) := do
  match g.filter with
  | .fmInclude =>
    let g ← startSourceTimers p now g receivedSources
    let aMinusB ← set_complement g.sources.keys receivedSources
    querySources p now state g aMinusB
  | .fmExclude =>
    let sourcesX := g.sources.keys.filter g.sourceTimerRunning
    let g ← startSourceTimers p now g receivedSources
    let xMinusA ← set_complement sourcesX receivedSources
    let (g, sourceQueries) ← querySources p now state g xMinusA
    let (g, groupQueries) := sendGroupSpecificQuery p now state g
    pure (g, sourceQueries ++ groupQueries)

/-- The loop of EXCLUDE mode over the source records. The iterator is advanced before the source
it is at is looked up. -/
def toExLoop (receivedSources : List Ipv4Address) (g : RouterGroupData) :
    List Ipv4Address → Except Error RouterGroupData
  | [] => pure g
  | [_] => throw (.undefinedBehavior "it->first of the end iterator")
  | source :: next :: rest =>
    toExLoop receivedSources
      (if receivedSources.contains next then g else g.deleteSourceRecord source) (next :: rest)

def processToEx (g : RouterGroupData) (receivedSources : List Ipv4Address) :
    Except Error (RouterGroupData × List Igmpv3Query) := do
  match g.filter with
  | .fmInclude =>
    let g := { g.startGroupTimer now p.groupMembershipInterval with filter := .fmExclude }
    let sourcesA := g.sources.keys
    let g ← createSourceRecords p now g false receivedSources
    let g := (sourcesA.filter fun source => !receivedSources.contains source).foldl
      RouterGroupData.deleteSourceRecord g
    let aIntersectB ← set_intersection sourcesA receivedSources
    querySources p now state g aIntersectB
  | .fmExclude =>
    let g := g.startGroupTimer now p.groupMembershipInterval
    let sourcesY := g.sources.keys.filter fun source => !g.sourceTimerRunning source
    let g ← toExLoop receivedSources g g.sources.keys
    let g ← createSourceRecords p now g true receivedSources
    let aMinusY ← set_complement receivedSources sourcesY
    querySources p now state g aMinusY

/-- A new report ends the retransmission of a query. -/
def cancelRexmt (g : RouterGroupData) : RouterGroupData :=
  if g.rexmtCount > 0 then { g with rexmtCount := 0, rexmtSources := [], rexmtTimer := none }
  else g

/-- The record types, with the sources sorted. -/
def processRecordType (g : RouterGroupData) (recordType : ReportType)
    (receivedSources : List Ipv4Address) : Except Error (RouterGroupData × List Igmpv3Query) :=
  match recordType with
  | .isIn | .allow => do
    let g ← startSourceTimers p now g receivedSources
    pure (g, [])
  | .isEx => processIsEx p now g receivedSources
  | .block => processBlock p now state g receivedSources
  | .toIn => processToIn p now state g receivedSources
  | .toEx => processToEx p now state g receivedSources

/-- What `processReport` does with a record of a group for which no older-version host is
present, up to the update of the interface. -/
def processGroupRecord (g : RouterGroupData) (recordType : ReportType)
    (receivedSources : List Ipv4Address) : Except Error (RouterGroupData × List Igmpv3Query) :=
  processRecordType p now state (cancelRexmt g) recordType (sort receivedSources)

end Processing

/-! ## The interface -/

structure RouterInterfaceData where
  state : RouterState
  groups : Std.ExtTreeMap Ipv4Address RouterGroupData

namespace RouterInterfaceData

/-- The data of the group, and the interface data with it. -/
def getOrCreateGroupData (r : RouterInterfaceData) (group : Ipv4Address) :
    Except Error (RouterGroupData × RouterInterfaceData) :=
  match r.groups[group]? with
  | some g => pure (g, r)
  | none => do
    let g ← RouterGroupData.new group
    pure (g, { r with groups := r.groups.insert group g })

def putGroupData (r : RouterInterfaceData) (group : Ipv4Address) (g : RouterGroupData) :
    RouterInterfaceData :=
  { r with groups := r.groups.insert group g }

def deleteGroupData (r : RouterInterfaceData) (group : Ipv4Address) : RouterInterfaceData :=
  { r with groups := r.groups.erase group }

end RouterInterfaceData

/-- The router data of an interface, and the listeners in its IPv4 data. -/
structure RouterInterface where
  data : RouterInterfaceData
  listeners : RouterMulticastData

section Events

variable (p : Parameters) (now : ℤ)

/-- The update of the interface after a group record. -/
def updateListeners (listeners : RouterMulticastData) (group : Ipv4Address)
    (oldSourceList newSourceList : Ipv4MulticastSourceList) :
    Except Error (RouterMulticastData × List Notification) :=
  if newSourceList ≠ oldSourceList then
    listeners.setMulticastListeners group newSourceList.filterMode newSourceList.sources
  else pure (listeners, [])

/-- One turn of the loop over the group records. -/
def processReportRecord (i : RouterInterface) (gr : GroupRecord) :
    Except Error (RouterInterface × List Igmpv3Query × List Notification) := do
  let (g, data) ← i.data.getOrCreateGroupData gr.groupAddress
  if g.olderVersionCompat ≠ .none ∧ g.olderVersionTimer.isSome then
    pure ({ i with data }, [], [])
  else do
    let (g', queries) ← processGroupRecord p now data.state g gr.recordType gr.sourceList
    let (listeners, notifications) ← updateListeners i.listeners g'.groupAddr
      g.collectForwardedSources g'.collectForwardedSources
    pure (⟨data.putGroupData gr.groupAddress g', listeners⟩, queries, notifications)

/-- `report` holds the group records of the message. -/
def processReport (i : RouterInterface) : List GroupRecord →
    Except Error (RouterInterface × List Igmpv3Query × List Notification)
  | [] => pure (i, [], [])
  | gr :: report => do
    let (i, queries, notifications) ← processReportRecord p now i gr
    let (i, queries', notifications') ← processReport i report
    pure (i, queries ++ queries', notifications ++ notifications')

/-- The end of the timer handlers: the group has no running source timer. -/
def deleteGroup (i : RouterInterface) (g : RouterGroupData) : RouterInterface × List Notification :=
  let (listeners, notifications) := i.listeners.removeMulticastListener g.groupAddr
  (⟨i.data.deleteGroupData g.groupAddr, listeners⟩, notifications)

/-- `g` is the data of the group whose timer has expired. -/
def processRouterGroupTimer (i : RouterInterface) (g : RouterGroupData) :
    Except Error (RouterInterface × List Notification) := do
  match g.filter with
  | .fmInclude => pure (i, [])
  | .fmExclude =>
    deleteInLoop (fun source => !g.sourceTimerRunning source) g.sources.keys
    let g := { g with filter := .fmInclude }
    if g.sources.keys.any g.sourceTimerRunning then
      pure ({ i with data := i.data.putGroupData g.groupAddr g }, [])
    else pure (deleteGroup i g)

/-- `g` is the data of the group, and the timer of `source` has expired. -/
def processRouterSourceTimer (i : RouterInterface) (g : RouterGroupData) (source : Ipv4Address) :
    RouterInterface × List Notification :=
  let g := match g.filter with
    | .fmInclude => g.deleteSourceRecord source
    | .fmExclude => g
  if g.sources.keys.any g.sourceTimerRunning then
    ({ i with data := i.data.putGroupData g.groupAddr g }, [])
  else deleteGroup i g

end Events

end Inet.Ipv4.Igmpv3
