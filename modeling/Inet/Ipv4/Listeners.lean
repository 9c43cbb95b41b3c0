import Inet.Ipv4.InterfaceData
import Mathlib.Data.Set.Insert

/-! # The listeners of a router interface

The record of a group stands for the set of the sources that have a listener,
which is finite in one mode and cofinite in the other. The query for a source
negates what the record says, so that it is wrong for every group that has a
record.
-/

namespace Inet.Ipv4

namespace Ipv4MulticastSourceList

/-- `ALL_SOURCES` -/
def allSources : Ipv4MulticastSourceList := ⟨.excludeSources, []⟩

def containsAll (list : Ipv4MulticastSourceList) : Bool :=
  decide (list.filterMode = .excludeSources) && list.sources.isEmpty

/-- The insertion of a source at its `std::lower_bound`, unless the source is there. -/
def insertSource (source : Ipv4Address) : List Ipv4Address → List Ipv4Address
  | [] => [source]
  | s :: sources =>
    if s < source then s :: insertSource source sources
    else if s = source then s :: sources
    else source :: s :: sources

/-- The erasure of a source with `std::remove`. -/
def eraseSource (source : Ipv4Address) (sources : List Ipv4Address) : List Ipv4Address :=
  sources.filter (· ≠ source)

def add (list : Ipv4MulticastSourceList) (source : Ipv4Address) : Ipv4MulticastSourceList :=
  match list.filterMode with
  | .includeSources => { list with sources := insertSource source list.sources }
  | .excludeSources => { list with sources := eraseSource source list.sources }

def remove (list : Ipv4MulticastSourceList) (source : Ipv4Address) : Ipv4MulticastSourceList :=
  match list.filterMode with
  | .includeSources => { list with sources := eraseSource source list.sources }
  | .excludeSources => { list with sources := insertSource source list.sources }

end Ipv4MulticastSourceList

namespace RouterMulticastData

def hasMulticastListener (groups : RouterMulticastData) (multicastAddress : Ipv4Address) :
    Except Error Bool := do
  assert (multicastAddress.isMulticast = true) "multicastAddress.isMulticast()"
  match groups.findRouterGroupData multicastAddress with
  | none => pure false
  | some groupData => pure (!groupData.sourceList.isEmpty)

/-- `hasMulticastListener` of a source -/
def hasMulticastSourceListener (groups : RouterMulticastData)
    (multicastAddress sourceAddress : Ipv4Address) : Except Error Bool := do
  assert (multicastAddress.isMulticast = true) "multicastAddress.isMulticast()"
  match groups.findRouterGroupData multicastAddress with
  | none => pure false
  | some groupData => pure (!groupData.sourceList.contains sourceAddress)

/-- The signal of a group that gets a record. -/
def registration (groups : RouterMulticastData) (multicastAddress : Ipv4Address) :
    List Notification :=
  match groups.findRouterGroupData multicastAddress with
  | none => [.multicastGroupRegistered multicastAddress]
  | some _ => []

/-- The two overloads of `addMulticastListener`, which differ in the change of the record. -/
def addListener (groups : RouterMulticastData) (multicastAddress : Ipv4Address)
    (present : Ipv4MulticastSourceList → Bool)
    (change : Ipv4MulticastSourceList → Ipv4MulticastSourceList) :
    Except Error (RouterMulticastData × List Notification) := do
  if !multicastAddress.isMulticast then
    throw (.runtime ("Ipv4InterfaceData::addMulticastListener(): " ++
      "multicast address expected, received %s."))
  let notifications := groups.registration multicastAddress
  let (groupData, groups) := groups.getOrCreateGroupData multicastAddress
  if !present groupData.sourceList then
    pure (Keyed.replace (·.multicastGroup) groups
      { groupData with sourceList := change groupData.sourceList }, notifications)
  else pure (groups, notifications)

def addMulticastListener (groups : RouterMulticastData) (multicastAddress : Ipv4Address) :
    Except Error (RouterMulticastData × List Notification) :=
  groups.addListener multicastAddress (·.containsAll) fun _ => .allSources

/-- `addMulticastListener` of a source -/
def addMulticastSourceListener (groups : RouterMulticastData)
    (multicastAddress sourceAddress : Ipv4Address) :
    Except Error (RouterMulticastData × List Notification) :=
  groups.addListener multicastAddress (·.contains sourceAddress) (·.add sourceAddress)

/-- `removeMulticastListener` of a source -/
def removeMulticastSourceListener (groups : RouterMulticastData)
    (multicastAddress sourceAddress : Ipv4Address) : RouterMulticastData × List Notification :=
  match groups.findRouterGroupData multicastAddress with
  | none => (groups, [])
  | some groupData =>
    let sourceList := groupData.sourceList.remove sourceAddress
    if sourceList.isEmpty then
      (groups.removeRouterGroupData multicastAddress,
        [.multicastGroupUnregistered multicastAddress])
    else (Keyed.replace (·.multicastGroup) groups { groupData with sourceList }, [])

end RouterMulticastData

inductive ListenerCall where
  | addMulticastListener (group : Ipv4Address)
  | addMulticastSourceListener (group source : Ipv4Address)
  | removeMulticastListener (group : Ipv4Address)
  | removeMulticastSourceListener (group source : Ipv4Address)
  | setMulticastListeners (group : Ipv4Address) (filterMode : McastSourceFilterMode)
      (sourceList : List Ipv4Address)
  deriving DecidableEq, Repr

def RouterMulticastData.call (groups : RouterMulticastData) :
    ListenerCall → Except Error (RouterMulticastData × List Notification)
  | .addMulticastListener group => groups.addMulticastListener group
  | .addMulticastSourceListener group source => groups.addMulticastSourceListener group source
  | .removeMulticastListener group => pure (groups.removeMulticastListener group)
  | .removeMulticastSourceListener group source =>
    pure (groups.removeMulticastSourceListener group source)
  | .setMulticastListeners group filterMode sourceList =>
    groups.setMulticastListeners group filterMode sourceList

/-! ## The sources that have a listener -/

/-- The sources of each group that have a listener. -/
abbrev Listeners := Ipv4Address → Set Ipv4Address

/-- The sources that a list admits. -/
def Ipv4MulticastSourceList.listenedSources (list : Ipv4MulticastSourceList) : Set Ipv4Address :=
  {source | list.contains source = true}

def Listeners.call (listeners : Listeners) : ListenerCall → Listeners
  | .addMulticastListener group => Function.update listeners group Set.univ
  | .addMulticastSourceListener group source =>
    Function.update listeners group (insert source (listeners group))
  | .removeMulticastListener group => Function.update listeners group ∅
  | .removeMulticastSourceListener group source =>
    Function.update listeners group (listeners group \ {source})
  | .setMulticastListeners group filterMode sourceList =>
    Function.update listeners group
      (⟨filterMode, sourceList⟩ : Ipv4MulticastSourceList).listenedSources

/-- The source list of a call is sorted. -/
def ListenerCall.Sorted : ListenerCall → Prop
  | .setMulticastListeners _ _ sourceList => sourceList.Pairwise (· ≤ ·)
  | _ => True

/-- The records that calls leave when they return, each with the listeners. -/
inductive Listening : RouterMulticastData → Listeners → Prop
  | initial : Listening [] fun _ => ∅
  | call {groups groups' : RouterMulticastData} {listeners : Listeners}
      {notifications : List Notification} (c : ListenerCall) (h : Listening groups listeners)
      (hsorted : c.Sorted) (hcall : groups.call c = .ok (groups', notifications)) :
      Listening groups' (listeners.call c)

/-! ## The records hold the listeners -/

namespace Ipv4MulticastSourceList

variable {source s : Ipv4Address} {sources : List Ipv4Address} {list : Ipv4MulticastSourceList}

theorem mem_insertSource : s ∈ insertSource source sources ↔ s = source ∨ s ∈ sources := by
  induction sources with
  | nil => exact List.mem_singleton.trans (or_iff_left List.not_mem_nil).symm
  | cons a sources ih =>
    rw [insertSource]
    split_ifs with hlt heq
    · rw [List.mem_cons, ih, List.mem_cons, or_left_comm]
    · rw [heq, List.mem_cons, or_self_left]
    · exact List.mem_cons

theorem pairwise_insertSource (h : sources.Pairwise (· ≤ ·)) :
    (insertSource source sources).Pairwise (· ≤ ·) := by
  induction sources with
  | nil => exact List.pairwise_singleton _ _
  | cons a sources ih =>
    rw [List.pairwise_cons] at h
    rw [insertSource]
    split_ifs with hlt heq
    · refine List.pairwise_cons.2 ⟨fun s hs => ?_, ih h.2⟩
      rcases mem_insertSource.1 hs with rfl | hs
      · exact BitVec.le_of_lt hlt
      · exact h.1 s hs
    · exact List.pairwise_cons.2 h
    · have hle : source ≤ a := BitVec.not_lt.1 hlt
      refine List.pairwise_cons.2 ⟨fun s hs => ?_, List.pairwise_cons.2 h⟩
      rcases List.mem_cons.1 hs with rfl | hs
      · exact hle
      · exact BitVec.le_trans hle (h.1 s hs)

theorem mem_eraseSource : s ∈ eraseSource source sources ↔ s ∈ sources ∧ s ≠ source := by
  rw [eraseSource, List.mem_filter, decide_eq_true_iff]

theorem mem_listenedSources_include : s ∈ listenedSources ⟨.includeSources, sources⟩ ↔ s ∈
    sources := by
  simp [listenedSources, contains]

theorem mem_listenedSources_exclude : s ∈ listenedSources ⟨.excludeSources, sources⟩ ↔
    s ∉ sources := by
  simp [listenedSources, contains]

theorem listenedSources_add :
    (list.add source).listenedSources = insert source list.listenedSources := by
  ext s
  rcases list with ⟨_ | _, sources⟩
  · exact mem_listenedSources_include.trans
      (mem_insertSource.trans (or_congr_right mem_listenedSources_include.symm))
  · rw [Set.mem_insert_iff, mem_listenedSources_exclude]
    refine mem_listenedSources_exclude.trans ?_
    rw [mem_eraseSource, not_and_or, not_not, or_comm]

theorem listenedSources_remove :
    (list.remove source).listenedSources = list.listenedSources \ {source} := by
  ext s
  rw [Set.mem_sdiff, Set.mem_singleton_iff]
  rcases list with ⟨_ | _, sources⟩
  · rw [mem_listenedSources_include]
    exact mem_listenedSources_include.trans mem_eraseSource
  · rw [mem_listenedSources_exclude]
    refine mem_listenedSources_exclude.trans ?_
    rw [mem_insertSource, not_or, and_comm]

theorem sorted_add (h : list.sources.Pairwise (· ≤ ·)) :
    (list.add source).sources.Pairwise (· ≤ ·) := by
  rcases list with ⟨_ | _, sources⟩
  · exact pairwise_insertSource h
  · exact h.filter _

theorem sorted_remove (h : list.sources.Pairwise (· ≤ ·)) :
    (list.remove source).sources.Pairwise (· ≤ ·) := by
  rcases list with ⟨_ | _, sources⟩
  · exact h.filter _
  · exact pairwise_insertSource h

theorem listenedSources_of_isEmpty (h : list.isEmpty = true) : list.listenedSources = ∅ := by
  rcases list with ⟨_ | _, _ | ⟨a, sources⟩⟩
  · exact Set.eq_empty_iff_forall_notMem.2 fun s hs =>
      List.not_mem_nil (mem_listenedSources_include.1 hs)
  all_goals cases h

theorem listenedSources_allSources : allSources.listenedSources = Set.univ :=
  Set.eq_univ_iff_forall.2 fun _ => mem_listenedSources_exclude.2 List.not_mem_nil

theorem listenedSources_of_containsAll (h : list.containsAll = true) :
    list.listenedSources = Set.univ := by
  rcases list with ⟨_ | _, _ | ⟨a, sources⟩⟩
  case excludeSources.nil => exact listenedSources_allSources
  all_goals cases h

end Ipv4MulticastSourceList

/-- The record of a group, if there is one, stands for its listeners. -/
inductive RecordFor : Option RouterMulticastGroupData → Set Ipv4Address → Prop
  | none : RecordFor none ∅
  | some {groupData : RouterMulticastGroupData} {set : Set Ipv4Address}
      (hsorted : groupData.sourceList.sources.Pairwise (· ≤ ·))
      (hset : groupData.sourceList.listenedSources = set) : RecordFor (some groupData) set

/-- The invariant of the calls: a group has at most one record, which stands for its listeners. -/
structure RouterMulticastData.Holds (groups : RouterMulticastData) (listeners : Listeners) :
    Prop where
  nodup : (groups.map (·.multicastGroup)).Nodup
  records : ∀ group, RecordFor (groups.findRouterGroupData group) (listeners group)

namespace RouterMulticastData.Holds

variable {groups groups' : RouterMulticastData} {listeners : Listeners} {group : Ipv4Address}
  {groupData : RouterMulticastGroupData} {notifications : List Notification}

theorem listenedSources (h : groups.Holds listeners)
    (hfind : groups.findRouterGroupData group = some groupData) :
    groupData.sourceList.sources.Pairwise (· ≤ ·) ∧
      groupData.sourceList.listenedSources = listeners group := by
  have hrecord := h.records group
  rw [hfind] at hrecord
  cases hrecord with
  | some hsorted hset => exact ⟨hsorted, hset⟩

theorem eq_empty (h : groups.Holds listeners) (hfind : groups.findRouterGroupData group = none) :
    listeners group = ∅ := by
  have hrecord := h.records group
  rw [hfind] at hrecord
  generalize listeners group = set at hrecord
  cases hrecord
  rfl

theorem getOrCreate (h : groups.Holds listeners) (group : Ipv4Address) :
    (groups.getOrCreateGroupData group).2.Holds listeners ∧
      (groups.getOrCreateGroupData group).2.findRouterGroupData group =
        some (groups.getOrCreateGroupData group).1 := by
  rw [getOrCreateGroupData]
  cases hfind : groups.findRouterGroupData group with
  | some groupData => exact ⟨h, hfind⟩
  | none =>
    have hnone : Keyed.find RouterMulticastGroupData.multicastGroup groups
        (RouterMulticastGroupData.multicastGroup ⟨group, .empty⟩) = none := hfind
    have hself : findRouterGroupData (groups ++ [⟨group, .empty⟩]) group =
        some ⟨group, .empty⟩ := Keyed.find_append_self hnone
    refine ⟨⟨Keyed.nodup_append h.nodup hnone, fun group' => ?_⟩, hself⟩
    by_cases heq : group = group'
    · subst heq
      show RecordFor (findRouterGroupData (groups ++ [⟨group, .empty⟩]) group) _
      rw [hself, h.eq_empty hfind]
      exact .some .nil (Ipv4MulticastSourceList.listenedSources_of_isEmpty rfl)
    · have hother : findRouterGroupData (groups ++ [⟨group, .empty⟩]) group' =
          findRouterGroupData groups group' := Keyed.find_append_ne heq
      exact hother ▸ h.records group'

theorem replace (h : groups.Holds listeners)
    (hfind : groups.findRouterGroupData group = some groupData)
    {sourceList : Ipv4MulticastSourceList} (hsorted : sourceList.sources.Pairwise (· ≤ ·)) :
    Holds (Keyed.replace (·.multicastGroup) groups { groupData with sourceList })
      (Function.update listeners group sourceList.listenedSources) := by
  have hkey : groupData.multicastGroup = group := Keyed.key_of_find hfind
  refine ⟨Keyed.nodup_replace h.nodup, fun group' => ?_⟩
  by_cases heq : group = group'
  · subst heq
    have hself : findRouterGroupData (Keyed.replace (·.multicastGroup) groups
        { groupData with sourceList }) groupData.multicastGroup =
          some { groupData with sourceList } := Keyed.find_replace_self (hkey.symm ▸ hfind)
    rw [Function.update_self, ← hkey, hself]
    exact .some hsorted rfl
  · have hother : findRouterGroupData (Keyed.replace (·.multicastGroup) groups
        { groupData with sourceList }) group' = findRouterGroupData groups group' :=
      Keyed.find_replace_ne (hkey.trans_ne heq)
    rw [Function.update_of_ne (Ne.symm heq), hother]
    exact h.records group'

theorem erase (h : groups.Holds listeners) :
    (groups.removeRouterGroupData group).Holds (Function.update listeners group ∅) := by
  refine ⟨Keyed.nodup_erase h.nodup, fun group' => ?_⟩
  by_cases heq : group = group'
  · subst heq
    rw [Function.update_self, findRouterGroupData, removeRouterGroupData,
      Keyed.find_erase_self h.nodup]
    exact .none
  · rw [Function.update_of_ne (Ne.symm heq), findRouterGroupData, removeRouterGroupData,
      Keyed.find_erase_ne heq]
    exact h.records group'

theorem addListener (h : groups.Holds listeners) {present : Ipv4MulticastSourceList → Bool}
    {change : Ipv4MulticastSourceList → Ipv4MulticastSourceList}
    {set : Set Ipv4Address}
    (hsorted : ∀ list : Ipv4MulticastSourceList, list.sources.Pairwise (· ≤ ·) →
      (change list).sources.Pairwise (· ≤ ·))
    (hset : ∀ list : Ipv4MulticastSourceList, list.listenedSources = listeners group →
      (change list).listenedSources = set ∧ (present list = true → list.listenedSources = set))
    (hadd : groups.addListener group present change = .ok (groups', notifications)) :
    groups'.Holds (Function.update listeners group set) := by
  rw [RouterMulticastData.addListener] at hadd
  have hmulticast : ¬ (!group.isMulticast) = true := fun hnot => by
    rw [if_pos hnot] at hadd
    cases hadd
  rw [if_neg hmulticast] at hadd
  obtain ⟨hcreated, hfind⟩ := h.getOrCreate group
  dsimp only at hadd
  generalize groups.getOrCreateGroupData group = created at hcreated hfind hadd
  obtain ⟨groupData, groups⟩ := created
  obtain ⟨hlist, hlistened⟩ := hcreated.listenedSources hfind
  obtain ⟨hchange, hpresent⟩ := hset _ hlistened
  dsimp only at hadd
  split_ifs at hadd with hnot
  · cases hadd
    exact hchange ▸ hcreated.replace hfind (hsorted _ hlist)
  · cases hadd
    rw [Bool.not_eq_true', Bool.not_eq_false] at hnot
    have hsame : listeners group = set := hlistened.symm.trans (hpresent hnot)
    rw [← hsame, Function.update_eq_self]
    exact hcreated

theorem removeMulticastListener (h : groups.Holds listeners) :
    (groups.removeMulticastListener group).1.Holds (Function.update listeners group ∅) := by
  rw [RouterMulticastData.removeMulticastListener]
  cases hfind : groups.findRouterGroupData group with
  | none =>
    rw [← h.eq_empty hfind, Function.update_eq_self]
    exact h
  | some groupData => exact h.erase

theorem removeMulticastSourceListener (h : groups.Holds listeners) {source : Ipv4Address} :
    (groups.removeMulticastSourceListener group source).1.Holds
      (Function.update listeners group (listeners group \ {source})) := by
  rw [RouterMulticastData.removeMulticastSourceListener]
  cases hfind : groups.findRouterGroupData group with
  | none =>
    rw [h.eq_empty hfind, Set.empty_sdiff, ← h.eq_empty hfind, Function.update_eq_self]
    exact h
  | some groupData =>
    obtain ⟨hsorted, hlistened⟩ := h.listenedSources hfind
    rw [← hlistened, ← Ipv4MulticastSourceList.listenedSources_remove]
    dsimp only
    split_ifs with hempty
    · rw [Ipv4MulticastSourceList.listenedSources_of_isEmpty hempty]
      exact h.erase
    · exact h.replace hfind (Ipv4MulticastSourceList.sorted_remove hsorted)

theorem setMulticastListeners (h : groups.Holds listeners) {filterMode : McastSourceFilterMode}
    {sourceList : List Ipv4Address} (hsorted : sourceList.Pairwise (· ≤ ·))
    (hset : groups.setMulticastListeners group filterMode sourceList =
      .ok (groups', notifications)) :
    groups'.Holds (Function.update listeners group
      (⟨filterMode, sourceList⟩ : Ipv4MulticastSourceList).listenedSources) := by
  rw [RouterMulticastData.setMulticastListeners] at hset
  have hmulticast : ¬ (!group.isMulticast) = true := fun hnot => by
    rw [if_pos hnot] at hset
    cases hset
  rw [if_neg hmulticast] at hset
  obtain ⟨hcreated, hfind⟩ := h.getOrCreate group
  dsimp only at hset
  generalize groups.getOrCreateGroupData group = created at hcreated hfind hset
  obtain ⟨groupData, groups⟩ := created
  dsimp only at hset
  split_ifs at hset with hdiffers hfull
  · cases hset
    exact hcreated.replace hfind hsorted
  · cases hset
    obtain ⟨rfl, rfl⟩ : filterMode = .includeSources ∧ sourceList = [] := by
      simpa only [not_or, not_not] using hfull
    rw [Ipv4MulticastSourceList.listenedSources_of_isEmpty rfl]
    exact hcreated.erase
  · cases hset
    obtain ⟨rfl, rfl⟩ : filterMode = groupData.sourceList.filterMode ∧
        sourceList = groupData.sourceList.sources := by
      simpa only [not_or, not_not] using hdiffers
    rw [(hcreated.listenedSources hfind).2, Function.update_eq_self]
    exact hcreated

theorem call (h : groups.Holds listeners) {c : ListenerCall} (hsorted : c.Sorted)
    (hcall : groups.call c = .ok (groups', notifications)) : groups'.Holds (listeners.call c) := by
  cases c with
  | addMulticastListener group =>
    rw [RouterMulticastData.call, addMulticastListener] at hcall
    refine h.addListener (fun _ _ => .nil) (fun list _ => ?_) hcall
    exact ⟨Ipv4MulticastSourceList.listenedSources_allSources,
      Ipv4MulticastSourceList.listenedSources_of_containsAll⟩
  | addMulticastSourceListener group source =>
    rw [RouterMulticastData.call, addMulticastSourceListener] at hcall
    refine h.addListener (fun _ => Ipv4MulticastSourceList.sorted_add) (fun list hlist => ?_) hcall
    constructor
    · rw [Ipv4MulticastSourceList.listenedSources_add, hlist]
    · intro hpresent
      have hmem : source ∈ list.listenedSources := hpresent
      rw [← hlist, Set.insert_eq_of_mem hmem]
  | removeMulticastListener group =>
    have hgroups : (groups.removeMulticastListener group).1 = groups' :=
      congrArg Prod.fst (Except.ok.inj hcall)
    exact hgroups ▸ h.removeMulticastListener
  | removeMulticastSourceListener group source =>
    have hgroups : (groups.removeMulticastSourceListener group source).1 = groups' :=
      congrArg Prod.fst (Except.ok.inj hcall)
    exact hgroups ▸ h.removeMulticastSourceListener
  | setMulticastListeners group filterMode sourceList => exact h.setMulticastListeners hsorted hcall

end RouterMulticastData.Holds

theorem Listening.holds {groups : RouterMulticastData} {listeners : Listeners}
    (h : Listening groups listeners) : groups.Holds listeners := by
  induction h with
  | initial => exact ⟨.nil, fun _ => .none⟩
  | call c _ hsorted hcall ih => exact ih.call hsorted hcall

/-! ## What the queries answer -/

section Queries

variable {groups : RouterMulticastData} {listeners : Listeners} {group : Ipv4Address}

theorem hasMulticastListener_of_none (hmulticast : group.isMulticast = true)
    (hfind : groups.findRouterGroupData group = none) :
    groups.hasMulticastListener group = .ok false := by
  rw [RouterMulticastData.hasMulticastListener, Error.assert_of_pos hmulticast, hfind]
  rfl

theorem hasMulticastSourceListener_of_none (hmulticast : group.isMulticast = true)
    (hfind : groups.findRouterGroupData group = none) (source : Ipv4Address) :
    groups.hasMulticastSourceListener group source = .ok false := by
  rw [RouterMulticastData.hasMulticastSourceListener, Error.assert_of_pos hmulticast, hfind]
  rfl

theorem hasMulticastSourceListener_of_some (h : groups.Holds listeners)
    (hmulticast : group.isMulticast = true) {groupData : RouterMulticastGroupData}
    (hfind : groups.findRouterGroupData group = some groupData) (source : Ipv4Address) :
    groups.hasMulticastSourceListener group source = .ok true ↔ source ∉ listeners group := by
  rw [RouterMulticastData.hasMulticastSourceListener, Error.assert_of_pos hmulticast, hfind,
    ← (h.listenedSources hfind).2]
  change Except.ok (!groupData.sourceList.contains source) = Except.ok true ↔
    ¬ groupData.sourceList.contains source = true
  rw [Except.ok.injEq, Bool.not_eq_true', Bool.not_eq_true]

theorem hasMulticastListener_iff (h : Listening groups listeners)
    (hmulticast : group.isMulticast = true) (hsome : ∀ groupData : RouterMulticastGroupData,
      groups.findRouterGroupData group = some groupData →
      groupData.sourceList.filterMode = .excludeSources →
      ∃ source, source ∉ groupData.sourceList.sources) :
    groups.hasMulticastListener group = .ok true ↔ (listeners group).Nonempty := by
  cases hfind : groups.findRouterGroupData group with
  | none =>
    rw [hasMulticastListener_of_none hmulticast hfind, h.holds.eq_empty hfind]
    simp
  | some groupData =>
    rw [RouterMulticastData.hasMulticastListener, Error.assert_of_pos hmulticast, hfind,
      ← (h.holds.listenedSources hfind).2]
    change Except.ok (!groupData.sourceList.isEmpty) = Except.ok true ↔ _
    rw [Except.ok.injEq, Bool.not_eq_true']
    obtain ⟨group', ⟨mode, sources⟩⟩ := groupData
    cases mode with
    | includeSources =>
      constructor
      · intro hne
        cases sources with
        | nil => cases hne
        | cons source sources =>
          exact ⟨source, Ipv4MulticastSourceList.mem_listenedSources_include.2 List.mem_cons_self⟩
      · rintro ⟨source, hsource⟩
        have hmem := Ipv4MulticastSourceList.mem_listenedSources_include.1 hsource
        cases sources with
        | nil => cases hmem
        | cons source' sources => rfl
    | excludeSources =>
      obtain ⟨source, hsource⟩ := hsome _ hfind rfl
      exact iff_of_true rfl ⟨source, Ipv4MulticastSourceList.mem_listenedSources_exclude.2 hsource⟩

/-- The queries about a group answer its listeners just when it has no record. -/
theorem queries_right_iff_no_record (h : Listening groups listeners)
    (hmulticast : group.isMulticast = true) :
    ((∀ source, groups.hasMulticastSourceListener group source = .ok true ↔
        source ∈ listeners group) ∧
      (groups.hasMulticastListener group = .ok true ↔ (listeners group).Nonempty)) ↔
      groups.findRouterGroupData group = none := by
  constructor
  · rintro ⟨hsource, -⟩
    cases hfind : groups.findRouterGroupData group with
    | none => rfl
    | some groupData =>
      have hanswer := hasMulticastSourceListener_of_some h.holds hmulticast hfind 0
      exact absurd ((hsource 0).symm.trans hanswer) (iff_not_self)
  · intro hfind
    refine ⟨fun source => ?_, hasMulticastListener_iff h hmulticast fun groupData hsome => ?_⟩
    · rw [hasMulticastSourceListener_of_none hmulticast hfind, h.holds.eq_empty hfind]
      simp
    · rw [hfind] at hsome
      cases hsome

end Queries

/-- A removal takes the record away with the last source. -/
theorem queries_right_after_remove :
    (∀ source, RouterMulticastData.hasMulticastSourceListener [] 0xE0010101#32 source = .ok true ↔
        source ∈ Listeners.call (Listeners.call (fun _ => ∅)
          (.addMulticastSourceListener 0xE0010101#32 0x0A000001#32))
          (.removeMulticastSourceListener 0xE0010101#32 0x0A000001#32) 0xE0010101#32) ∧
      (RouterMulticastData.hasMulticastListener [] 0xE0010101#32 = .ok true ↔
        (Listeners.call (Listeners.call (fun _ => ∅)
          (.addMulticastSourceListener 0xE0010101#32 0x0A000001#32))
          (.removeMulticastSourceListener 0xE0010101#32 0x0A000001#32)
            0xE0010101#32).Nonempty) := by
  have hadded := Listening.initial.call (.addMulticastSourceListener 0xE0010101#32 0x0A000001#32)
    trivial rfl
  have hremoved := hadded.call (.removeMulticastSourceListener 0xE0010101#32 0x0A000001#32)
    trivial rfl
  exact (queries_right_iff_no_record hremoved (by decide)).2 rfl

/-- A group with a listener for one source: the query says no for that source and yes for
another. -/
theorem queries_wrong_after_add : ∃ groups listeners, Listening groups listeners ∧
    listeners = Listeners.call (fun _ => ∅)
      (.addMulticastSourceListener 0xE0010101#32 0x0A000001#32) ∧
    ¬ ∀ source, groups.hasMulticastSourceListener 0xE0010101#32 source = .ok true ↔
      source ∈ listeners 0xE0010101#32 := by
  have hadded := Listening.initial.call (.addMulticastSourceListener 0xE0010101#32 0x0A000001#32)
    trivial rfl
  refine ⟨_, _, hadded, rfl, fun hright => ?_⟩
  have hmem : 0x0A000001#32 ∈ Listeners.call (fun _ => ∅)
      (.addMulticastSourceListener 0xE0010101#32 0x0A000001#32) 0xE0010101#32 := by
    simp [Listeners.call]
  exact absurd ((hright 0x0A000001#32).2 hmem) (by decide)

end Inet.Ipv4
