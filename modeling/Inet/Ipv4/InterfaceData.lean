import Inet.Common.Error
import Inet.Lib.Keyed
import Mathlib.Data.BitVec
import Mathlib.Data.List.Sort

/-! # Multicast data of an IPv4 interface

The groups that the sockets of a host join, with the counts of the sockets that
include or exclude a source, and the groups that the hosts on the link report
to a router.
-/

namespace Inet.Ipv4

abbrev Ipv4Address := BitVec 32

instance : LawfulBEq Ipv4Address := inferInstance

instance : Std.TransCmp (compare : Ipv4Address → Ipv4Address → Ordering) := inferInstance

def Ipv4Address.isMulticast (address : Ipv4Address) : Bool := address &&& 0xF0000000 == 0xE0000000

def Ipv4Address.isLinkLocalMulticast (address : Ipv4Address) : Bool :=
  address &&& 0xFFFFFF00 == 0xE0000000

inductive McastSourceFilterMode where
  | includeSources
  | excludeSources
  deriving DecidableEq, Repr

structure Ipv4MulticastSourceList where
  filterMode : McastSourceFilterMode
  sources : List Ipv4Address
  deriving DecidableEq, Repr

namespace Ipv4MulticastSourceList

def empty : Ipv4MulticastSourceList := ⟨.includeSources, []⟩

def isEmpty (list : Ipv4MulticastSourceList) : Bool :=
  decide (list.filterMode = .includeSources) && list.sources.isEmpty

def contains (list : Ipv4MulticastSourceList) (source : Ipv4Address) : Bool :=
  (decide (list.filterMode = .includeSources) && decide (source ∈ list.sources)) ||
    (decide (list.filterMode = .excludeSources) && !decide (source ∈ list.sources))

end Ipv4MulticastSourceList

/-- The signals that the interface table emits. -/
inductive Notification where
  | multicastChange (group : Ipv4Address) (sourceList : Ipv4MulticastSourceList)
  | multicastGroupJoined (group : Ipv4Address)
  | multicastGroupLeft (group : Ipv4Address)
  | multicastListenerChange (group : Ipv4Address) (sourceList : Ipv4MulticastSourceList)
  | multicastGroupRegistered (group : Ipv4Address)
  | multicastGroupUnregistered (group : Ipv4Address)
  deriving DecidableEq, Repr

/-! ## The groups that the host has joined -/

/-- `std::map<Ipv4Address, int>` -/
abbrev Counts := Std.ExtTreeMap Ipv4Address ℤ

structure HostMulticastGroupData where
  multicastGroup : Ipv4Address
  includeCounts : Counts
  excludeCounts : Counts
  numOfExcludeModeSockets : ℤ
  sourceList : Ipv4MulticastSourceList

namespace HostMulticastGroupData

def new (multicastGroup : Ipv4Address) : HostMulticastGroupData :=
  ⟨multicastGroup, ∅, ∅, 0, .empty⟩

def counts (entry : HostMulticastGroupData) : McastSourceFilterMode → Counts
  | .includeSources => entry.includeCounts
  | .excludeSources => entry.excludeCounts

def setCounts (entry : HostMulticastGroupData) (counts : Counts) :
    McastSourceFilterMode → HostMulticastGroupData
  | .includeSources => { entry with includeCounts := counts }
  | .excludeSources => { entry with excludeCounts := counts }

/-- The loop over the old source list. -/
def removeCounts (counts : Counts) : List Ipv4Address → Except Error Counts
  | [] => pure counts
  | source :: sources =>
    match counts[source]? with
    | none => throw (.runtime "Inconsistent reference counts in Ipv4InterfaceData.")
    | some count =>
      removeCounts (if count = 1 then counts.erase source else counts.insert source (count - 1))
        sources

/-- The loop over the new source list. -/
def addCounts (counts : Counts) : List Ipv4Address → Counts
  | [] => counts
  | source :: sources =>
    match counts[source]? with
    | none => addCounts (counts.insert source 1) sources
    | some count => addCounts (counts.insert source (count + 1)) sources

/-- The change of the number of EXCLUDE mode sockets. -/
def excludeModeChange : McastSourceFilterMode → McastSourceFilterMode → ℤ
  | .includeSources, .excludeSources => 1
  | .excludeSources, .includeSources => -1
  | _, _ => 0

/-- The list that `updateSourceList` computes from the counts. -/
def computeSourceList (entry : HostMulticastGroupData) : Ipv4MulticastSourceList :=
  if entry.numOfExcludeModeSockets = 0 then ⟨.includeSources, entry.includeCounts.keys⟩
  else ⟨.excludeSources, (entry.excludeCounts.keys.filter fun source =>
    entry.excludeCounts[source]? == some entry.numOfExcludeModeSockets &&
      !entry.includeCounts.contains source)⟩

def updateSourceList (entry : HostMulticastGroupData) : HostMulticastGroupData × Bool :=
  let sourceList := entry.computeSourceList
  if entry.sourceList ≠ sourceList then ({ entry with sourceList }, true) else (entry, false)

/-- The entry with the filter of one socket replaced, before the source list is updated. -/
def changeSocket (entry : HostMulticastGroupData) (old new : Ipv4MulticastSourceList) :
    Except Error HostMulticastGroupData := do
  let counts ← removeCounts (entry.counts old.filterMode) old.sources
  let entry := entry.setCounts counts old.filterMode
  let entry := entry.setCounts (addCounts (entry.counts new.filterMode) new.sources) new.filterMode
  pure { entry with numOfExcludeModeSockets :=
    entry.numOfExcludeModeSockets + excludeModeChange old.filterMode new.filterMode }

end HostMulticastGroupData

/-- `HostMulticastData::joinedMulticastGroups` -/
abbrev HostMulticastData := List HostMulticastGroupData

namespace HostMulticastData

def findHostGroupData (groups : HostMulticastData) (multicastAddress : Ipv4Address) :
    Option HostMulticastGroupData :=
  Keyed.find (·.multicastGroup) groups multicastAddress

def removeHostGroupData (groups : HostMulticastData) (multicastAddress : Ipv4Address) :
    HostMulticastData :=
  Keyed.erase (·.multicastGroup) groups multicastAddress

def isMemberOfMulticastGroup (groups : HostMulticastData) (multicastAddress : Ipv4Address) : Bool :=
  (groups.findHostGroupData multicastAddress).isSome

/-- The entry of the group, and the groups with it. -/
def getOrCreateGroupData (groups : HostMulticastData) (multicastAddress : Ipv4Address)
    (old : Ipv4MulticastSourceList) : Except Error (HostMulticastGroupData × HostMulticastData) :=
  match groups.findHostGroupData multicastAddress with
  | some entry => pure (entry, groups)
  | none => do
    assert (old.filterMode = .includeSources ∧ old.sources = [])
      "oldFilterMode == MCAST_INCLUDE_SOURCES && oldSourceList.empty()"
    let entry := HostMulticastGroupData.new multicastAddress
    pure (entry, groups ++ [entry])

/-- The signals of a change of the source list. -/
def changeNotifications (multicastAddress : Ipv4Address) (old new : Ipv4MulticastSourceList)
    (sourceList : Ipv4MulticastSourceList) : List Notification :=
  .multicastChange multicastAddress sourceList ::
    if old.filterMode ≠ new.filterMode ∧ old.sources = [] ∧ new.sources = [] then
      [if new.filterMode = .excludeSources then .multicastGroupJoined multicastAddress
        else .multicastGroupLeft multicastAddress]
    else []

/-- `isMulticast` tells if the interface supports multicast. -/
def changeMulticastGroupMembership (groups : HostMulticastData) (isMulticast : Bool)
    (multicastAddress : Ipv4Address) (old new : Ipv4MulticastSourceList) :
    Except Error (HostMulticastData × List Notification) := do
  if !isMulticast then
    throw (.runtime ("Ipv4InterfaceData::changeMulticastGroupMembership(): " ++
      "multicast interface expected, received %s."))
  if !multicastAddress.isMulticast then
    throw (.runtime ("Ipv4InterfaceData::changeMulticastGroupMembership(): " ++
      "multicast address expected, received %s."))
  let (entry, groups) ← groups.getOrCreateGroupData multicastAddress old
  let entry ← entry.changeSocket old new
  let (entry, changed) := entry.updateSourceList
  let groups := Keyed.replace (·.multicastGroup) groups entry
  if changed then
    let notifications := changeNotifications multicastAddress old new entry.sourceList
    if entry.sourceList.isEmpty then
      pure (removeHostGroupData groups multicastAddress, notifications)
    else pure (groups, notifications)
  else pure (groups, [])

end HostMulticastData

/-! ## The groups that are reported to a router -/

structure RouterMulticastGroupData where
  multicastGroup : Ipv4Address
  sourceList : Ipv4MulticastSourceList
  deriving DecidableEq, Repr

/-- `RouterMulticastData::reportedMulticastGroups` -/
abbrev RouterMulticastData := List RouterMulticastGroupData

namespace RouterMulticastData

def findRouterGroupData (groups : RouterMulticastData) (multicastAddress : Ipv4Address) :
    Option RouterMulticastGroupData :=
  Keyed.find (·.multicastGroup) groups multicastAddress

def removeRouterGroupData (groups : RouterMulticastData) (multicastAddress : Ipv4Address) :
    RouterMulticastData :=
  Keyed.erase (·.multicastGroup) groups multicastAddress

def removeMulticastListener (groups : RouterMulticastData) (multicastAddress : Ipv4Address) :
    RouterMulticastData × List Notification :=
  match groups.findRouterGroupData multicastAddress with
  | none => (groups, [])
  | some _ => (groups.removeRouterGroupData multicastAddress,
      [.multicastGroupUnregistered multicastAddress])

/-- The entry of the group, and the groups with it. -/
def getOrCreateGroupData (groups : RouterMulticastData) (multicastAddress : Ipv4Address) :
    RouterMulticastGroupData × RouterMulticastData :=
  match groups.findRouterGroupData multicastAddress with
  | some entry => (entry, groups)
  | none =>
    let entry : RouterMulticastGroupData := ⟨multicastAddress, .empty⟩
    (entry, groups ++ [entry])

def setMulticastListeners (groups : RouterMulticastData) (multicastAddress : Ipv4Address)
    (filterMode : McastSourceFilterMode) (sourceList : List Ipv4Address) :
    Except Error (RouterMulticastData × List Notification) := do
  if !multicastAddress.isMulticast then
    throw (.runtime ("Ipv4InterfaceData::setMulticastListeners(): " ++
      "multicast address expected, received %s."))
  let (entry, groups) := groups.getOrCreateGroupData multicastAddress
  if filterMode ≠ entry.sourceList.filterMode ∨ sourceList ≠ entry.sourceList.sources then
    let notifications := [.multicastListenerChange multicastAddress ⟨filterMode, sourceList⟩]
    if filterMode ≠ .includeSources ∨ sourceList ≠ [] then
      pure (Keyed.replace (·.multicastGroup) groups
        { entry with sourceList := ⟨filterMode, sourceList⟩ }, notifications)
    else pure (groups.removeRouterGroupData multicastAddress, notifications)
  else pure (groups, [])

end RouterMulticastData

end Inet.Ipv4
