import Inet.Ipv4.InterfaceData
import Inet.Lib.OrderedMap
import Mathlib.Algebra.BigOperators.Group.Finset.Basic
import Mathlib.Algebra.Order.BigOperators.Group.Finset
import Mathlib.Tactic.Ring
import Mathlib.Tactic.SplitIfs

/-! # The multicast filter of an interface

The counts of an entry are the numbers of sockets that include or exclude a
source, so the list computed from them admits what some socket admits. A group
has an entry as long as some socket has a filter of its own, unless a socket
replaces an empty filter by an empty one where there is no entry.
-/

namespace Inet.Ipv4

open HostMulticastGroupData HostMulticastData

/-! ## Maps that count -/

/-- The map holds the numbers that are not zero. -/
def Represents (counts : Counts) (t : Ipv4Address → ℤ) : Prop :=
  ∀ s, counts[s]? = if t s = 0 then none else some (t s)

section Represents

variable {counts : Counts} {t : Ipv4Address → ℤ} {s : Ipv4Address}

theorem Represents.mem_iff (h : Represents counts t) : s ∈ counts ↔ t s ≠ 0 := by
  rw [OrderedMap.mem_iff_ne_none, h s]
  split_ifs with hs
  · exact iff_of_false (not_not.2 rfl) (not_not.2 hs)
  · exact iff_of_true (Option.some_ne_none _) hs

theorem Represents.insert (h : Represents counts t) {n : ℤ} (hn : n ≠ 0) :
    Represents (counts.insert s n) (Function.update t s n) := by
  intro s'
  rw [OrderedMap.getElem?_insert, Function.update_apply]
  by_cases hs : s' = s
  · rw [if_pos hs, if_pos hs, if_neg hn]
  · rw [if_neg hs, if_neg hs]
    exact h s'

theorem Represents.erase (h : Represents counts t) :
    Represents (counts.erase s) (Function.update t s 0) := by
  intro s'
  rw [OrderedMap.getElem?_erase, Function.update_apply]
  by_cases hs : s' = s
  · rw [if_pos hs, if_pos hs, if_pos rfl]
  · rw [if_neg hs, if_neg hs]
    exact h s'

theorem Represents.congr (h : Represents counts t) {t' : Ipv4Address → ℤ} (heq : ∀ s, t s = t' s) :
    Represents counts t' :=
  (funext heq : t = t') ▸ h

theorem Represents.removeCounts {l : List Ipv4Address} (hl : l.Nodup) (h : Represents counts t)
    (hpos : ∀ s ∈ l, 0 < t s) : ∃ counts', removeCounts counts l = .ok counts' ∧
      Represents counts' fun s => t s - if s ∈ l then 1 else 0 := by
  induction l generalizing counts t with
  | nil => exact ⟨counts, rfl, h.congr fun s => by simp⟩
  | cons a l ih =>
    rw [List.nodup_cons] at hl
    have ha : 0 < t a := hpos a List.mem_cons_self
    have hget : counts[a]? = some (t a) := (h a).trans (if_neg ha.ne')
    have hnext : Represents
        (if t a = 1 then counts.erase a else counts.insert a (t a - 1))
        (Function.update t a (t a - 1)) := by
      split_ifs with hone
      · rw [hone]
        exact h.erase
      · exact h.insert (by omega)
    obtain ⟨counts', hcounts', hrep⟩ := ih hl.2 hnext fun s hs => by
      rw [Function.update_of_ne (ne_of_mem_of_not_mem hs hl.1)]
      exact hpos s (List.mem_cons_of_mem a hs)
    refine ⟨counts', ?_, hrep.congr fun s => ?_⟩
    · rw [HostMulticastGroupData.removeCounts, hget]
      exact hcounts'
    · by_cases hs : s = a
      · rw [hs, Function.update_self, if_neg hl.1, if_pos List.mem_cons_self, sub_zero]
      · rw [Function.update_of_ne hs]
        simp only [List.mem_cons, hs, false_or]

theorem Represents.addCounts {l : List Ipv4Address} (hl : l.Nodup) (h : Represents counts t)
    (hpos : ∀ s, 0 ≤ t s) :
    Represents (addCounts counts l) fun s => t s + if s ∈ l then 1 else 0 := by
  induction l generalizing counts t with
  | nil => exact h.congr fun s => by simp
  | cons a l ih =>
    rw [List.nodup_cons] at hl
    have hadd : addCounts counts (a :: l) =
        HostMulticastGroupData.addCounts (counts.insert a (t a + 1)) l := by
      rw [HostMulticastGroupData.addCounts, h a]
      split_ifs with hzero
      · rw [hzero]
        rfl
      · rfl
    have ha := hpos a
    have hnext : Represents (counts.insert a (t a + 1)) (Function.update t a (t a + 1)) :=
      h.insert (by omega)
    rw [hadd]
    refine (ih hl.2 hnext fun s => ?_).congr fun s => ?_
    · rw [Function.update_apply]
      split_ifs
      · omega
      · exact hpos s
    · by_cases hs : s = a
      · rw [hs, Function.update_self, if_neg hl.1, if_pos List.mem_cons_self, add_zero]
      · rw [Function.update_of_ne hs]
        simp only [List.mem_cons, hs, false_or]

end Represents

/-! ## Counting sockets -/

variable {ι : Type} [Fintype ι]

/-- Whether a filter of the given mode lists the source. -/
def Ipv4MulticastSourceList.count (list : Ipv4MulticastSourceList) (mode : McastSourceFilterMode)
    (s : Ipv4Address) : ℤ :=
  if list.filterMode = mode ∧ s ∈ list.sources then 1 else 0

/-- Whether the filter is an EXCLUDE filter. -/
def Ipv4MulticastSourceList.excludes (list : Ipv4MulticastSourceList) : ℤ :=
  if list.filterMode = .excludeSources then 1 else 0

/-- The number of sockets of the given mode that list the source. -/
def tally (filters : ι → Ipv4MulticastSourceList) (mode : McastSourceFilterMode) (s : Ipv4Address) :
    ℤ := ∑ i, (filters i).count mode s

def excludeTally (filters : ι → Ipv4MulticastSourceList) : ℤ := ∑ i, (filters i).excludes

section Tally

variable {filters : ι → Ipv4MulticastSourceList} {mode : McastSourceFilterMode} {s : Ipv4Address}
  {i : ι} {list new : Ipv4MulticastSourceList}

theorem count_nonneg (list : Ipv4MulticastSourceList) (mode : McastSourceFilterMode)
    (s : Ipv4Address) : 0 ≤ list.count mode s := by
  unfold Ipv4MulticastSourceList.count
  split_ifs <;> decide

theorem excludes_nonneg (list : Ipv4MulticastSourceList) : 0 ≤ list.excludes := by
  unfold Ipv4MulticastSourceList.excludes
  split_ifs <;> decide

theorem count_eq_zero_iff :
    list.count mode s = 0 ↔ ¬ (list.filterMode = mode ∧ s ∈ list.sources) := by
  unfold Ipv4MulticastSourceList.count
  split_ifs with h <;> simp [h]

theorem count_self (list : Ipv4MulticastSourceList) (s : Ipv4Address) :
    list.count list.filterMode s = if s ∈ list.sources then 1 else 0 := by
  simp [Ipv4MulticastSourceList.count]

theorem count_of_ne (h : list.filterMode ≠ mode) : list.count mode s = 0 :=
  count_eq_zero_iff.2 fun hc => h hc.1

theorem tally_ne_zero_iff :
    tally filters mode s ≠ 0 ↔ ∃ i, (filters i).filterMode = mode ∧ s ∈ (filters i).sources := by
  rw [tally, Ne, Finset.sum_eq_zero_iff_of_nonneg fun i _ => count_nonneg (filters i) mode s]
  simp only [Finset.mem_univ, true_implies, not_forall, count_eq_zero_iff, not_not]

theorem count_le_tally (filters : ι → Ipv4MulticastSourceList) (i : ι)
    (mode : McastSourceFilterMode) (s : Ipv4Address) :
    (filters i).count mode s ≤ tally filters mode s :=
  Finset.single_le_sum (fun j _ => count_nonneg (filters j) mode s) (Finset.mem_univ i)

theorem sum_update [DecidableEq ι] (f : Ipv4MulticastSourceList → ℤ) :
    ∑ j, f (Function.update filters i new j) = ∑ j, f (filters j) - f (filters i) + f new := by
  rw [← Finset.add_sum_erase _ _ (Finset.mem_univ i),
    ← Finset.add_sum_erase (a := i) _ (fun j => f (filters j)) (Finset.mem_univ i),
    Function.update_self]
  have hrest : ∑ j ∈ Finset.univ.erase i, f (Function.update filters i new j) =
      ∑ j ∈ Finset.univ.erase i, f (filters j) :=
    Finset.sum_congr rfl fun j hj => by rw [Function.update_of_ne (Finset.ne_of_mem_erase hj)]
  rw [hrest]
  ring

theorem tally_update [DecidableEq ι] : tally (Function.update filters i new) mode s =
    tally filters mode s - (filters i).count mode s + new.count mode s :=
  sum_update fun list => list.count mode s

theorem excludeTally_eq_zero_iff :
    excludeTally filters = 0 ↔ ∀ i, (filters i).filterMode = .includeSources := by
  rw [excludeTally, Finset.sum_eq_zero_iff_of_nonneg fun i _ => excludes_nonneg (filters i)]
  simp only [Finset.mem_univ, true_implies, Ipv4MulticastSourceList.excludes]
  refine forall_congr' fun i => ?_
  cases (filters i).filterMode <;> simp

theorem tally_eq_excludeTally_iff : tally filters .excludeSources s = excludeTally filters ↔
    ∀ i, (filters i).filterMode = .excludeSources → s ∈ (filters i).sources := by
  rw [tally, excludeTally, Finset.sum_eq_sum_iff_of_le fun i _ => ?_]
  · refine ⟨fun h i => ?_, fun h i _ => ?_⟩
    · have hi := h i (Finset.mem_univ i)
      intro hmode
      by_contra hs
      simp [Ipv4MulticastSourceList.count, Ipv4MulticastSourceList.excludes, hmode, hs] at hi
    · have hi := h i
      by_cases hmode : (filters i).filterMode = .excludeSources
      · simp [Ipv4MulticastSourceList.count, Ipv4MulticastSourceList.excludes, hmode, hi hmode]
      · simp [Ipv4MulticastSourceList.count, Ipv4MulticastSourceList.excludes, hmode]
  · unfold Ipv4MulticastSourceList.count Ipv4MulticastSourceList.excludes
    split_ifs with h₁ h₂ h₂
    · exact le_rfl
    · exact absurd h₁.1 h₂
    · decide
    · exact le_rfl

theorem contains_iff : list.contains s = true ↔
    (list.filterMode = .includeSources ∧ s ∈ list.sources) ∨
      (list.filterMode = .excludeSources ∧ s ∉ list.sources) := by
  simp [Ipv4MulticastSourceList.contains]

end Tally

/-! ## Entries -/

/-- The entry counts the sockets. -/
structure Counted (entry : HostMulticastGroupData) (filters : ι → Ipv4MulticastSourceList) :
    Prop where
  counts : ∀ mode, Represents (entry.counts mode) (tally filters mode)
  exclude : entry.numOfExcludeModeSockets = excludeTally filters

section Entry

variable {entry : HostMulticastGroupData} {filters : ι → Ipv4MulticastSourceList} {s : Ipv4Address}

theorem Counted.congr {entry' : HostMulticastGroupData} (h : Counted entry filters)
    (hcounts : ∀ mode, entry'.counts mode = entry.counts mode)
    (hexclude : entry'.numOfExcludeModeSockets = entry.numOfExcludeModeSockets) :
    Counted entry' filters :=
  ⟨fun mode => hcounts mode ▸ h.counts mode, hexclude.trans h.exclude⟩

theorem Counted.new (g : Ipv4Address) (h : ∀ i, filters i = .empty) :
    Counted (HostMulticastGroupData.new g) filters := by
  constructor
  · intro mode s
    have hzero : tally filters mode s = 0 := by
      by_contra hne
      obtain ⟨i, -, hs⟩ := tally_ne_zero_iff.1 hne
      rw [h i] at hs
      cases hs
    rw [if_pos hzero]
    cases mode <;> exact Std.ExtTreeMap.getElem?_empty
  · refine (excludeTally_eq_zero_iff.2 fun i => ?_).symm
    rw [h i]
    rfl

theorem counts_setCounts (entry : HostMulticastGroupData) (counts : Counts)
    (mode mode' : McastSourceFilterMode) : (entry.setCounts counts mode).counts mode' =
      if mode' = mode then counts else entry.counts mode' := by
  cases mode <;> cases mode' <;> rfl

theorem sourceList_setCounts (entry : HostMulticastGroupData) (counts : Counts)
    (mode : McastSourceFilterMode) : (entry.setCounts counts mode).sourceList = entry.sourceList ∧
      (entry.setCounts counts mode).multicastGroup = entry.multicastGroup ∧
      (entry.setCounts counts mode).numOfExcludeModeSockets = entry.numOfExcludeModeSockets := by
  cases mode <;> exact ⟨rfl, rfl, rfl⟩

theorem excludeModeChange_eq (old new : Ipv4MulticastSourceList) :
    excludeModeChange old.filterMode new.filterMode = new.excludes - old.excludes := by
  unfold Ipv4MulticastSourceList.excludes
  cases old.filterMode <;> cases new.filterMode <;> rfl

theorem Counted.changeSocket [DecidableEq ι] (h : Counted entry filters) {i : ι}
    {new : Ipv4MulticastSourceList} (hold : (filters i).sources.Nodup) (hnew : new.sources.Nodup) :
    ∃ entry', entry.changeSocket (filters i) new = .ok entry' ∧
      Counted entry' (Function.update filters i new) ∧
      entry'.multicastGroup = entry.multicastGroup ∧ entry'.sourceList = entry.sourceList := by
  have hpos : ∀ s ∈ (filters i).sources, 0 < tally filters (filters i).filterMode s := by
    intro s hs
    have hle := count_le_tally filters i (filters i).filterMode s
    rw [count_self, if_pos hs] at hle
    omega
  obtain ⟨counts, hremove, hcounts⟩ := (h.counts (filters i).filterMode).removeCounts hold hpos
  set removed := entry.setCounts counts (filters i).filterMode with hremoved
  have hremovedCounts : ∀ mode, Represents (removed.counts mode) fun s =>
      tally filters mode s - (filters i).count mode s := by
    intro mode
    rw [hremoved, counts_setCounts]
    split_ifs with hmode
    · rw [hmode]
      exact hcounts.congr fun s => by rw [count_self]
    · exact (h.counts mode).congr fun s => by rw [count_of_ne (Ne.symm hmode), sub_zero]
  have hadd := (hremovedCounts new.filterMode).addCounts hnew fun s => by
    have := count_le_tally filters i new.filterMode s
    omega
  set added := removed.setCounts (addCounts (removed.counts new.filterMode) new.sources)
    new.filterMode with hadded
  refine ⟨{ added with
    numOfExcludeModeSockets := added.numOfExcludeModeSockets +
      excludeModeChange (filters i).filterMode new.filterMode }, ?_, ?_, ?_, ?_⟩
  · unfold HostMulticastGroupData.changeSocket
    rw [hremove]
    rfl
  · constructor
    · intro mode
      have hmodeCounts : Represents (added.counts mode)
          (tally (Function.update filters i new) mode) := by
        rw [hadded, counts_setCounts]
        split_ifs with hmode
        · rw [hmode]
          exact hadd.congr fun s => by rw [tally_update, count_self]
        · exact (hremovedCounts mode).congr fun s => by
            rw [tally_update, count_of_ne (Ne.symm hmode), add_zero]
      cases mode <;> exact hmodeCounts
    · have hsum : ∑ j, (Function.update filters i new j).excludes = _ := sum_update (·.excludes)
      dsimp only
      rw [excludeModeChange_eq, hadded, (sourceList_setCounts _ _ _).2.2, hremoved,
        (sourceList_setCounts _ _ _).2.2, h.exclude]
      unfold excludeTally
      omega
  · exact (sourceList_setCounts _ _ _).2.1.trans (sourceList_setCounts _ _ _).2.1
  · exact (sourceList_setCounts _ _ _).1.trans (sourceList_setCounts _ _ _).1

theorem strictlySorted_computeSourceList (entry : HostMulticastGroupData) :
    OrderedMap.StrictlySorted entry.computeSourceList.sources := by
  unfold computeSourceList
  split_ifs
  · exact OrderedMap.strictlySorted_keys _
  · exact (OrderedMap.strictlySorted_keys _).filter _

theorem Counted.contains_computeSourceList (h : Counted entry filters) :
    entry.computeSourceList.contains s = true ↔ ∃ i, (filters i).contains s = true := by
  have hinclude : s ∈ entry.includeCounts ↔
      ∃ i, (filters i).filterMode = .includeSources ∧ s ∈ (filters i).sources :=
    (h.counts .includeSources).mem_iff.trans tally_ne_zero_iff
  simp only [contains_iff]
  unfold computeSourceList
  split_ifs with hzero
  · rw [h.exclude, excludeTally_eq_zero_iff] at hzero
    simp only [Std.ExtTreeMap.mem_keys, hinclude, hzero]
    simp
  · have hexclude : entry.excludeCounts[s]? = some entry.numOfExcludeModeSockets ↔
        ∀ i, (filters i).filterMode = .excludeSources → s ∈ (filters i).sources := by
      rw [← tally_eq_excludeTally_iff, h.exclude, show entry.excludeCounts[s]? = _ from
        h.counts .excludeSources s]
      rw [h.exclude] at hzero
      split_ifs with htally
      · refine iff_of_false nofun ?_
        rw [htally]
        exact Ne.symm hzero
      · rw [Option.some_inj]
    have hkeys : entry.excludeCounts[s]? = some entry.numOfExcludeModeSockets →
        s ∈ entry.excludeCounts.keys := by
      intro hs
      rw [Std.ExtTreeMap.mem_keys, OrderedMap.mem_iff_ne_none, hs]
      exact Option.some_ne_none _
    have hlisted : s ∈ (entry.excludeCounts.keys.filter fun source =>
          entry.excludeCounts[source]? == some entry.numOfExcludeModeSockets &&
            !entry.includeCounts.contains source) ↔
        (∀ i, (filters i).filterMode = .excludeSources → s ∈ (filters i).sources) ∧
          ¬ ∃ i, (filters i).filterMode = .includeSources ∧ s ∈ (filters i).sources := by
      rw [List.mem_filter, Bool.and_eq_true, beq_iff_eq, hexclude, Bool.not_eq_true',
        Bool.eq_false_iff, Ne, Std.ExtTreeMap.contains_iff_mem, hinclude]
      exact ⟨And.right, fun hs => ⟨hkeys (hexclude.2 hs.1), hs⟩⟩
    simp only [hlisted, false_and, true_and, false_or]
    constructor
    · intro hs
      by_contra hnone
      refine hs ⟨fun i hi => ?_, fun ⟨i, hi⟩ => hnone ⟨i, .inl hi⟩⟩
      by_contra hsource
      exact hnone ⟨i, .inr ⟨hi, hsource⟩⟩
    · rintro ⟨i, hi | hi⟩ ⟨hall, hnone⟩
      · exact hnone ⟨i, hi⟩
      · exact hi.2 (hall i hi.1)

theorem Counted.filterMode_computeSourceList (h : Counted entry filters) :
    entry.computeSourceList.filterMode = .includeSources ↔
      ∀ i, (filters i).filterMode = .includeSources := by
  rw [← excludeTally_eq_zero_iff, ← h.exclude]
  unfold computeSourceList
  split_ifs with hzero
  · exact iff_of_true rfl hzero
  · exact iff_of_false nofun hzero

theorem Counted.isEmpty_computeSourceList (h : Counted entry filters) :
    entry.computeSourceList.isEmpty = true ↔ ∀ i, filters i = .empty := by
  have hempty : entry.computeSourceList.isEmpty = true ↔
      entry.computeSourceList.filterMode = .includeSources ∧
        entry.computeSourceList.sources = [] := by
    simp [Ipv4MulticastSourceList.isEmpty]
  rw [hempty]
  constructor
  · rintro ⟨hmode, hnil⟩ i
    have hi := h.filterMode_computeSourceList.1 hmode i
    have hsources : (filters i).sources = [] := by
      rw [List.eq_nil_iff_forall_not_mem]
      intro s hs
      have hcontains := h.contains_computeSourceList.2 ⟨i, contains_iff.2 (.inl ⟨hi, hs⟩)⟩
      rw [contains_iff, hnil, hmode] at hcontains
      simp at hcontains
    rw [Ipv4MulticastSourceList.empty, ← hi, ← hsources]
  · intro hall
    have hmode := h.filterMode_computeSourceList.2 fun i => by rw [hall i]; rfl
    refine ⟨hmode, List.eq_nil_iff_forall_not_mem.2 fun s hs => ?_⟩
    obtain ⟨i, hi⟩ := h.contains_computeSourceList.1 (contains_iff.2 (.inl ⟨hmode, hs⟩))
    rw [hall i] at hi
    cases hi

end Entry

/-! ## Groups -/

/-- The data of a group; no entry stands for one that no socket has changed. -/
def entryAt (groups : HostMulticastData) (g : Ipv4Address) : HostMulticastGroupData :=
  (groups.findHostGroupData g).getD (.new g)

/-- The source list of the interface for the group. -/
def interfaceList (groups : HostMulticastData) (g : Ipv4Address) : Ipv4MulticastSourceList :=
  (entryAt groups g).sourceList

/-- The entries of the interface follow the filters of the sockets. -/
structure Tracks (groups : HostMulticastData)
    (filters : Ipv4Address → ι → Ipv4MulticastSourceList) :
    Prop where
  distinct : (groups.map (·.multicastGroup)).Nodup
  counted : ∀ g, Counted (entryAt groups g) (filters g)
  current : ∀ g, (entryAt groups g).sourceList = (entryAt groups g).computeSourceList
  member : ∀ g, groups.isMemberOfMulticastGroup g = true ↔ ∃ i, filters g i ≠ .empty
  nodup : ∀ g i, (filters g i).sources.Nodup

section Groups

variable {groups groups' : HostMulticastData} {g : Ipv4Address}
  {filters : Ipv4Address → ι → Ipv4MulticastSourceList}

theorem entryAt_of_some {entry : HostMulticastGroupData}
    (h : groups.findHostGroupData g = some entry) : entryAt groups g = entry := by
  rw [entryAt, h]
  rfl

theorem entryAt_of_none (h : groups.findHostGroupData g = none) : entryAt groups g = .new g := by
  rw [entryAt, h]
  rfl

theorem entryAt_congr (h : groups'.findHostGroupData g = groups.findHostGroupData g) :
    entryAt groups' g = entryAt groups g := by
  rw [entryAt, entryAt, h]

theorem multicastGroup_entryAt (groups : HostMulticastData) (g : Ipv4Address) :
    (entryAt groups g).multicastGroup = g := by
  cases h : groups.findHostGroupData g with
  | none =>
    rw [entryAt_of_none h]
    rfl
  | some entry =>
    rw [entryAt_of_some h]
    exact Keyed.key_of_find h

/-- What a call does to the entry of its group, given the entry `counted` with the new counts. -/
structure Changes (groups : HostMulticastData) (g : Ipv4Address) (counted : HostMulticastGroupData)
    (r : HostMulticastData × List Notification) : Prop where
  distinct : (r.1.map (·.multicastGroup)).Nodup
  other : ∀ g', g ≠ g' → r.1.findHostGroupData g' = groups.findHostGroupData g'
  removed : counted.sourceList ≠ counted.computeSourceList →
    counted.computeSourceList.isEmpty = true → r.1.findHostGroupData g = none
  kept : ¬ (counted.sourceList ≠ counted.computeSourceList ∧
      counted.computeSourceList.isEmpty = true) →
    r.1.findHostGroupData g = some { counted with sourceList := counted.computeSourceList }
  notified : (∃ list, .multicastChange g list ∈ r.2) ↔
    counted.sourceList ≠ counted.computeSourceList

theorem exists_getOrCreateGroupData (hdistinct : (groups.map (·.multicastGroup)).Nodup)
    {old : Ipv4MulticastSourceList} (hold : groups.findHostGroupData g = none → old = .empty) :
    ∃ groups₁, groups.getOrCreateGroupData g old = .ok (entryAt groups g, groups₁) ∧
      (groups₁.map (·.multicastGroup)).Nodup ∧
      groups₁.findHostGroupData g = some (entryAt groups g) ∧
      ∀ g', g ≠ g' → groups₁.findHostGroupData g' = groups.findHostGroupData g' := by
  unfold getOrCreateGroupData
  cases hfind : groups.findHostGroupData g with
  | some entry =>
    rw [entryAt_of_some hfind]
    exact ⟨groups, rfl, hdistinct, hfind, fun _ _ => rfl⟩
  | none =>
    rw [entryAt_of_none hfind]
    refine ⟨groups ++ [.new g], ?_, ?_, ?_, ?_⟩
    · dsimp only
      rw [hold hfind, assert, if_pos ⟨rfl, rfl⟩]
      rfl
    · exact Keyed.nodup_append (a := HostMulticastGroupData.new g) hdistinct hfind
    · exact Keyed.find_append_self hfind
    · intro g' hne
      exact Keyed.find_append_ne hne

theorem exists_changes (hdistinct : (groups.map (·.multicastGroup)).Nodup)
    (hg : g.isMulticast = true) {old new : Ipv4MulticastSourceList}
    (hold : groups.findHostGroupData g = none → old = .empty) {counted : HostMulticastGroupData}
    (hcounted : (entryAt groups g).changeSocket old new = .ok counted)
    (hgroup : counted.multicastGroup = g) :
    ∃ r, groups.changeMulticastGroupMembership true g old new = .ok r ∧
      Changes groups g counted r := by
  obtain ⟨groups₁, hcreate, hdistinct₁, hfind₁, hother₁⟩ :=
    exists_getOrCreateGroupData hdistinct hold
  have hupdated : counted.updateSourceList =
      ({ counted with sourceList := counted.computeSourceList },
        decide (counted.sourceList ≠ counted.computeSourceList)) := by
    unfold updateSourceList
    dsimp only
    split_ifs with hne
    · rw [decide_eq_true hne]
    · rw [decide_eq_false hne, ← not_not.1 hne]
  set updated : HostMulticastGroupData :=
    { counted with sourceList := counted.computeSourceList } with hupdatedDef
  have hkey : updated.multicastGroup = g := hgroup
  have hreplaced : Keyed.find (·.multicastGroup)
      (Keyed.replace (·.multicastGroup) groups₁ updated) g = some updated := by
    rw [← hkey]
    refine Keyed.find_replace_self (b := entryAt groups g) ?_
    rw [hkey]
    exact hfind₁
  have hotherReplaced : ∀ g', g ≠ g' → Keyed.find (·.multicastGroup)
      (Keyed.replace (·.multicastGroup) groups₁ updated) g' = groups.findHostGroupData g' := by
    intro g' hne
    rw [Keyed.find_replace_ne (by rwa [hkey])]
    exact hother₁ g' hne
  have hdistinctReplaced := Keyed.nodup_replace (a := updated) hdistinct₁
  have hcall : groups.changeMulticastGroupMembership true g old new =
      if decide (counted.sourceList ≠ counted.computeSourceList) = true then
        if counted.computeSourceList.isEmpty = true then
          .ok (removeHostGroupData (Keyed.replace (·.multicastGroup) groups₁ updated) g,
            changeNotifications g old new counted.computeSourceList)
        else .ok (Keyed.replace (·.multicastGroup) groups₁ updated,
          changeNotifications g old new counted.computeSourceList)
      else .ok (Keyed.replace (·.multicastGroup) groups₁ updated, []) := by
    unfold changeMulticastGroupMembership
    simp only [hg, hcreate, hcounted, hupdated, Bool.not_true, Bool.false_eq_true, if_false,
      Error.ok_bind, Error.pure_eq_ok]
    rfl
  have hnotified : ∃ list, Notification.multicastChange g list ∈
      changeNotifications g old new counted.computeSourceList :=
    ⟨counted.computeSourceList, List.mem_cons_self⟩
  rw [hcall]
  by_cases hchanged : counted.sourceList ≠ counted.computeSourceList
  · rw [if_pos (decide_eq_true hchanged)]
    by_cases hempty : counted.computeSourceList.isEmpty = true
    · rw [if_pos hempty]
      refine ⟨_, rfl, Keyed.nodup_erase hdistinctReplaced, ?_, ?_, ?_, ?_⟩
      · intro g' hne
        exact (Keyed.find_erase_ne hne).trans (hotherReplaced g' hne)
      · exact fun _ _ => Keyed.find_erase_self hdistinctReplaced
      · exact fun hkept => absurd ⟨hchanged, hempty⟩ hkept
      · exact iff_of_true hnotified hchanged
    · rw [if_neg hempty]
      refine ⟨_, rfl, hdistinctReplaced, hotherReplaced, ?_, fun _ => hreplaced, ?_⟩
      · exact fun _ h => absurd h hempty
      · exact iff_of_true hnotified hchanged
  · rw [if_neg (by rwa [decide_eq_true_iff])]
    refine ⟨_, rfl, hdistinctReplaced, hotherReplaced, ?_, fun _ => hreplaced, ?_⟩
    · exact fun h => absurd h hchanged
    · refine iff_of_false ?_ hchanged
      rintro ⟨list, hlist⟩
      cases hlist

end Groups

/-! ## Runs -/

section Run

variable [DecidableEq ι]

/-- A socket has a new filter for a group. -/
def setFilter (filters : Ipv4Address → ι → Ipv4MulticastSourceList) (g : Ipv4Address) (i : ι)
    (new : Ipv4MulticastSourceList) : Ipv4Address → ι → Ipv4MulticastSourceList :=
  Function.update filters g (Function.update (filters g) i new)

/-- The entries and filters that the sockets reach, where an empty filter does not replace an empty
one of a group without entry. -/
inductive Joined : HostMulticastData → (Ipv4Address → ι → Ipv4MulticastSourceList) → Prop
  | initial : Joined [] fun _ _ => .empty
  | change {groups groups' : HostMulticastData}
      {filters : Ipv4Address → ι → Ipv4MulticastSourceList} {notifications : List Notification}
      (g : Ipv4Address) (i : ι) (new : Ipv4MulticastSourceList) (h : Joined groups filters)
      (hg : g.isMulticast = true) (hnodup : new.sources.Nodup)
      (hnew : groups.findHostGroupData g = none → new ≠ .empty)
      (hchange : groups.changeMulticastGroupMembership true g (filters g i) new =
        .ok (groups', notifications)) :
      Joined groups' (setFilter filters g i new)

variable {groups groups' : HostMulticastData} {g : Ipv4Address} {i : ι}
  {filters : Ipv4Address → ι → Ipv4MulticastSourceList} {new : Ipv4MulticastSourceList}

omit [Fintype ι] in
theorem setFilter_self (filters : Ipv4Address → ι → Ipv4MulticastSourceList) (g : Ipv4Address)
    (i : ι) (new : Ipv4MulticastSourceList) :
    setFilter filters g i new g = Function.update (filters g) i new :=
  Function.update_self g _ filters

omit [Fintype ι] in
theorem setFilter_of_ne {g' : Ipv4Address} (h : g ≠ g') :
    setFilter filters g i new g' = filters g' :=
  Function.update_of_ne (Ne.symm h) _ filters

omit [DecidableEq ι] in
theorem Tracks.findHostGroupData_eq_none (h : Tracks groups filters) :
    groups.findHostGroupData g = none ↔ ∀ i, filters g i = .empty := by
  rw [← Option.not_isSome_iff_eq_none, ← isMemberOfMulticastGroup, h.member]
  simp

theorem Tracks.exists_changes (h : Tracks groups filters) (hg : g.isMulticast = true) (i : ι)
    (hnodup : new.sources.Nodup) : ∃ counted r,
      groups.changeMulticastGroupMembership true g (filters g i) new = .ok r ∧
        Changes groups g counted r ∧ Counted counted (setFilter filters g i new g) ∧
        counted.sourceList = (entryAt groups g).sourceList := by
  obtain ⟨counted, hsocket, hcounted, hgroup, hlist⟩ :=
    (h.counted g).changeSocket (h.nodup g i) hnodup
  rw [multicastGroup_entryAt] at hgroup
  obtain ⟨r, hr, hchanges⟩ := Ipv4.exists_changes h.distinct hg
    (fun hnone => h.findHostGroupData_eq_none.1 hnone i) hsocket hgroup
  exact ⟨counted, r, hr, hchanges, (setFilter_self filters g i new).symm ▸ hcounted, hlist⟩

/-- The entry of the group is kept, or it is removed because no socket has a filter any more. -/
theorem Changes.entry_cases {counted : HostMulticastGroupData}
    {r : HostMulticastData × List Notification} (h : Changes groups g counted r)
    (hcounted : Counted counted (setFilter filters g i new g)) :
    (r.1.findHostGroupData g = none ∧ ∀ j, setFilter filters g i new g j = .empty) ∨
    (r.1.findHostGroupData g = some { counted with sourceList := counted.computeSourceList } ∧
      (counted.sourceList = counted.computeSourceList ∨
        ∃ j, setFilter filters g i new g j ≠ .empty)) := by
  by_cases hremoved : counted.sourceList ≠ counted.computeSourceList ∧
      counted.computeSourceList.isEmpty = true
  · exact .inl ⟨h.removed hremoved.1 hremoved.2,
      hcounted.isEmpty_computeSourceList.1 hremoved.2⟩
  · refine .inr ⟨h.kept hremoved, ?_⟩
    by_cases hsame : counted.sourceList = counted.computeSourceList
    · exact .inl hsame
    · refine .inr ?_
      by_contra hnone
      refine hremoved ⟨hsame, hcounted.isEmpty_computeSourceList.2 fun j => ?_⟩
      by_contra hj
      exact hnone ⟨j, hj⟩

theorem Tracks.change (h : Tracks groups filters) {notifications : List Notification}
    (hg : g.isMulticast = true) (hnodup : new.sources.Nodup)
    (hnew : groups.findHostGroupData g = none → new ≠ .empty)
    (hchange : groups.changeMulticastGroupMembership true g (filters g i) new =
      .ok (groups', notifications)) : Tracks groups' (setFilter filters g i new) := by
  obtain ⟨counted, r, hr, hchanges, hcounted, hlist⟩ := h.exists_changes hg i hnodup
  rw [hchange] at hr
  obtain rfl := Except.ok.inj hr
  have hcases := hchanges.entry_cases hcounted
  have hother : ∀ g', g ≠ g' → entryAt groups' g' = entryAt groups g' :=
    fun g' hne => entryAt_congr (hchanges.other g' hne)
  constructor
  · exact hchanges.distinct
  · intro g'
    by_cases hne : g = g'
    · rw [← hne]
      rcases hcases with ⟨hfind, hempty⟩ | ⟨hfind, -⟩
      · rw [entryAt_of_none hfind]
        exact .new g hempty
      · rw [entryAt_of_some hfind]
        exact hcounted.congr (fun mode => by cases mode <;> rfl) rfl
    · rw [hother g' hne, setFilter_of_ne hne]
      exact h.counted g'
  · intro g'
    by_cases hne : g = g'
    · rw [← hne]
      rcases hcases with ⟨hfind, -⟩ | ⟨hfind, -⟩
      · rw [entryAt_of_none hfind]
        rfl
      · rw [entryAt_of_some hfind]
        rfl
    · rw [hother g' hne]
      exact h.current g'
  · intro g'
    by_cases hne : g = g'
    · rw [← hne, isMemberOfMulticastGroup]
      rcases hcases with ⟨hfind, hempty⟩ | ⟨hfind, hsome⟩
      · rw [hfind]
        exact iff_of_false nofun fun ⟨j, hj⟩ => hj (hempty j)
      · rw [hfind]
        refine iff_of_true rfl ?_
        rcases hsome with hsame | hsome
        · by_contra hnone
          have hall : ∀ j, setFilter filters g i new g j = .empty := fun j =>
            not_not.1 fun hj => hnone ⟨j, hj⟩
          -- the list was empty before, so the group had no entry
          have hbefore := hcounted.isEmpty_computeSourceList.2 hall
          rw [← hsame, hlist, h.current g, (h.counted g).isEmpty_computeSourceList] at hbefore
          refine hnew (h.findHostGroupData_eq_none.2 hbefore) ?_
          have hi := hall i
          rwa [setFilter_self, Function.update_self] at hi
        · exact hsome
    · rw [setFilter_of_ne hne, ← h.member g', isMemberOfMulticastGroup, isMemberOfMulticastGroup,
        hchanges.other g' hne]
  · intro g' j
    by_cases hne : g = g'
    · rw [← hne, setFilter_self]
      by_cases hj : j = i
      · rw [hj, Function.update_self]
        exact hnodup
      · rw [Function.update_of_ne hj]
        exact h.nodup g j
    · rw [setFilter_of_ne hne]
      exact h.nodup g' j

theorem Joined.tracks (h : Joined groups filters) : Tracks groups filters := by
  induction h with
  | initial =>
    constructor
    · exact List.nodup_nil
    · exact fun g => .new g fun _ => rfl
    · exact fun _ => rfl
    · exact fun g => iff_of_false nofun fun ⟨i, hi⟩ => hi rfl
    · exact fun _ _ => List.nodup_nil
  | change g i new _ hg hnodup hnew hchange ih => exact ih.change hg hnodup hnew hchange

theorem computeSourceList_eq_iff {entry entry' : HostMulticastGroupData} :
    entry.computeSourceList = entry'.computeSourceList ↔
      entry.computeSourceList.filterMode = entry'.computeSourceList.filterMode ∧
        ∀ s, entry.computeSourceList.contains s = entry'.computeSourceList.contains s := by
  refine ⟨fun h => ⟨congrArg _ h, fun s => by rw [h]⟩, ?_⟩
  rintro ⟨hmode, hcontains⟩
  have hsources : entry.computeSourceList.sources = entry'.computeSourceList.sources := by
    refine (strictlySorted_computeSourceList entry).ext (strictlySorted_computeSourceList entry') ?_
    intro s
    have hs := hcontains s
    rw [Bool.eq_iff_iff, contains_iff, contains_iff, hmode] at hs
    cases hmode' : entry'.computeSourceList.filterMode with
    | includeSources => simpa [hmode'] using hs
    | excludeSources =>
      rw [hmode'] at hs
      exact not_iff_not.1 (by simpa using hs)
  calc entry.computeSourceList
      = ⟨entry.computeSourceList.filterMode, entry.computeSourceList.sources⟩ := rfl
    _ = ⟨entry'.computeSourceList.filterMode, entry'.computeSourceList.sources⟩ := by
      rw [hmode, hsources]

/-- As long as no empty filter replaces an empty one of a group without entry, the interface admits
the sources that some socket admits and is a member where some socket has a filter; every call
returns, and it notifies exactly of the changes of the mode or of the admitted sources. -/
theorem interface_filter_is_union (h : Joined groups filters) :
    (∀ g, (∀ s, (interfaceList groups g).contains s = true ↔ ∃ i, (filters g i).contains s = true) ∧
      (groups.isMemberOfMulticastGroup g = true ↔ ∃ i, filters g i ≠ .empty)) ∧
    ∀ g i new, g.isMulticast = true → new.sources.Nodup → ∃ r,
      groups.changeMulticastGroupMembership true g (filters g i) new = .ok r ∧
        ((∃ list, .multicastChange g list ∈ r.2) ↔
          (interfaceList r.1 g).filterMode ≠ (interfaceList groups g).filterMode ∨
            ∃ s, (interfaceList r.1 g).contains s ≠ (interfaceList groups g).contains s) := by
  have htracks := h.tracks
  refine ⟨fun g => ⟨fun s => ?_, htracks.member g⟩, ?_⟩
  · rw [interfaceList, htracks.current g]
    exact (htracks.counted g).contains_computeSourceList
  · intro g i new hg hnodup
    obtain ⟨counted, r, hr, hchanges, hcounted, hlist⟩ := htracks.exists_changes hg i hnodup
    refine ⟨r, hr, ?_⟩
    have hafter : interfaceList r.1 g = counted.computeSourceList := by
      rw [interfaceList]
      rcases hchanges.entry_cases hcounted with ⟨hfind, hempty⟩ | ⟨hfind, -⟩
      · rw [entryAt_of_none hfind]
        have hcomputed := hcounted.isEmpty_computeSourceList.2 hempty
        simp only [Ipv4MulticastSourceList.isEmpty, Bool.and_eq_true, decide_eq_true_eq,
          List.isEmpty_iff] at hcomputed
        calc Ipv4MulticastSourceList.empty = ⟨.includeSources, []⟩ := rfl
          _ = ⟨counted.computeSourceList.filterMode, counted.computeSourceList.sources⟩ := by
            rw [hcomputed.1, hcomputed.2]
      · rw [entryAt_of_some hfind]
    rw [hchanges.notified, hafter, hlist, interfaceList, htracks.current g, Ne, eq_comm,
      computeSourceList_eq_iff, not_and_or, not_forall]

end Run

/-! A group, and a source in it. -/

def sampleGroup : Ipv4Address := 0xE1020304

def sampleSource : Ipv4Address := 0x0A000001

/-- One socket excludes the source and another one includes it. -/
theorem interface_filter_of_two_sockets : ∃ groups : HostMulticastData,
    (interfaceList groups sampleGroup).contains sampleSource = true ↔
      ∃ i : Fin 2, (setFilter (setFilter (fun _ _ => .empty) sampleGroup 0
        ⟨.excludeSources, [sampleSource]⟩) sampleGroup 1 ⟨.includeSources, [sampleSource]⟩
          sampleGroup i).contains sampleSource = true := by
  have h₁ := (@Joined.initial (Fin 2) _).change sampleGroup 0
    ⟨.excludeSources, [sampleSource]⟩ (by decide) (by decide) (fun _ => by decide) rfl
  have h₂ := h₁.change sampleGroup 1
    ⟨.includeSources, [sampleSource]⟩ (by decide) (by decide) (fun _ => by decide) rfl
  exact ⟨_, ((interface_filter_is_union h₂).1 sampleGroup).1 sampleSource⟩

/-- An empty filter that replaces an empty one leaves an entry without a filter. -/
theorem member_without_filter : ∃ groups notifications,
    changeMulticastGroupMembership [] true sampleGroup .empty .empty = .ok (groups, notifications) ∧
      ¬ (groups.isMemberOfMulticastGroup sampleGroup = true ↔
        ∃ i : Unit, setFilter (fun _ _ => .empty) sampleGroup i .empty sampleGroup i ≠ .empty) := by
  refine ⟨_, _, rfl, fun h => ?_⟩
  obtain ⟨i, hi⟩ := h.1 rfl
  exact hi rfl

end Inet.Ipv4
