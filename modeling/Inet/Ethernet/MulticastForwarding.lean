import Inet.Ethernet.MacForwardingTable
import Mathlib.Data.List.Nodup
import Mathlib.Data.Set.Insert

/-! # The multicast addresses of an Ethernet switch

Interfaces are added to the entry of a multicast address and removed from it.
The guard of the removal is the wrong way round, so that a removal never takes
anything away. As long as interfaces are only removed from addresses that have
none, the table holds the set of the interfaces that were added.
-/

namespace Inet.Ethernet

/-- The interfaces of each entry. -/
abbrev MulticastForwardingTable := ForwardingTableKey → Option (List ℤ)

/-- A call on a table, which leaves a table also when it throws. -/
abbrev MulticastM := ExceptT Error (StateM MulticastForwardingTable)

namespace MulticastForwardingTable

def getMulticastAddressForwardingInterfaces (key : ForwardingTableKey) : MulticastM (List ℤ) := do
  assert (key.address.isMulticast = true) "address.isMulticast()"
  match (← get) key with
  | none => pure []
  | some interfaceIds => pure interfaceIds

def addMulticastAddressForwardingInterface (interfaceId : ℤ) (key : ForwardingTableKey) :
    MulticastM Unit := do
  assert (key.address.isMulticast = true) "address.isMulticast()"
  match (← get) key with
  | none => modify fun table => Function.update table key (some [interfaceId])
  | some interfaceIds =>
    if interfaceId ∈ interfaceIds then
      throw (Error.runtime "Already contains interface")
    modify fun table => Function.update table key (some (interfaceIds ++ [interfaceId]))

/-- `remove(interfaceIds, interfaceId)` -/
def removeInterface (interfaceIds : List ℤ) (interfaceId : ℤ) : List ℤ :=
  interfaceIds.filter (· ≠ interfaceId)

def removeMulticastAddressForwardingInterface (interfaceId : ℤ) (key : ForwardingTableKey) :
    MulticastM Unit := do
  assert (key.address.isMulticast = true) "address.isMulticast()"
  match (← get) key with
  | none => throw (Error.runtime "Cannot find entry")
  | some interfaceIds =>
    if interfaceId ∈ interfaceIds then
      throw (Error.runtime "Cannot find interface")
    modify fun table => Function.update table key (some (removeInterface interfaceIds interfaceId))

/-- The entry that the loop of `receiveSignal` leaves for an entry. -/
def entryWithout (interfaceId : ℤ) (interfaceIds : List ℤ) : Option (List ℤ) :=
  if removeInterface interfaceIds interfaceId = [] then none
  else some (removeInterface interfaceIds interfaceId)

/-- `receiveSignal` for the signal of a deleted interface. -/
def interfaceDeleted (interfaceId : ℤ) : MulticastM Unit :=
  modify fun table key => (table key).bind (entryWithout interfaceId)

end MulticastForwardingTable

inductive MulticastCall where
  | addMulticastAddressForwardingInterface (interfaceId : ℤ) (key : ForwardingTableKey)
  | removeMulticastAddressForwardingInterface (interfaceId : ℤ) (key : ForwardingTableKey)
  | interfaceDeleted (interfaceId : ℤ)
  deriving DecidableEq, Repr

namespace MulticastCall

def run : MulticastCall → MulticastM Unit
  | addMulticastAddressForwardingInterface interfaceId key =>
    MulticastForwardingTable.addMulticastAddressForwardingInterface interfaceId key
  | removeMulticastAddressForwardingInterface interfaceId key =>
    MulticastForwardingTable.removeMulticastAddressForwardingInterface interfaceId key
  | interfaceDeleted interfaceId => MulticastForwardingTable.interfaceDeleted interfaceId

/-- The address of the call passes the `ASSERT` of its function. -/
def Asserted : MulticastCall → Prop
  | addMulticastAddressForwardingInterface _ key => key.address.isMulticast = true
  | removeMulticastAddressForwardingInterface _ key => key.address.isMulticast = true
  | interfaceDeleted _ => True

/-- An interface is removed from an address that has no entry. -/
def RemovesFromNone (table : MulticastForwardingTable) : MulticastCall → Prop
  | removeMulticastAddressForwardingInterface _ key => table key = none
  | _ => True

end MulticastCall

namespace MulticastForwardingTable

def Throws {α : Type} (table : MulticastForwardingTable) (x : MulticastM α) : Prop :=
  ∃ error, (x.run.run table).1 = .error error

def after {α : Type} (table : MulticastForwardingTable) (x : MulticastM α) :
    MulticastForwardingTable :=
  (x.run.run table).2

/-- The table after a run of calls. -/
def run (table : MulticastForwardingTable) (calls : List MulticastCall) :
    MulticastForwardingTable :=
  calls.foldl (fun table c => table.after c.run) table

end MulticastForwardingTable

/-! ## The interfaces of an address -/

/-- The interfaces that were added for each address and neither removed nor deleted since. -/
abbrev Members := ForwardingTableKey → Set ℤ

namespace Members

def call (members : Members) : MulticastCall → Members
  | .addMulticastAddressForwardingInterface interfaceId key =>
    Function.update members key (insert interfaceId (members key))
  | .removeMulticastAddressForwardingInterface interfaceId key =>
    Function.update members key (members key \ {interfaceId})
  | .interfaceDeleted interfaceId => fun key => members key \ {interfaceId}

def run (members : Members) (calls : List MulticastCall) : Members := calls.foldl call members

/-- The calls that have to throw. -/
def Refuses (members : Members) : MulticastCall → Prop
  | .addMulticastAddressForwardingInterface interfaceId key => interfaceId ∈ members key
  | .removeMulticastAddressForwardingInterface interfaceId key => interfaceId ∉ members key
  | .interfaceDeleted _ => False

end Members

/-- A lookup of a multicast address returns its interfaces without duplicates. -/
def Answers (table : MulticastForwardingTable) (members : Members) : Prop :=
  ∀ key, key.address.isMulticast = true → ∃ interfaceIds,
    ((MulticastForwardingTable.getMulticastAddressForwardingInterfaces key).run.run table).1 =
        .ok interfaceIds ∧
      interfaceIds.Nodup ∧ ∀ interfaceId, interfaceId ∈ interfaceIds ↔ interfaceId ∈ members key

/-- A call throws when it has to, changes nothing when it throws, and the lookups after it answer
what they have to. -/
def Follows (table : MulticastForwardingTable) (members : Members) (c : MulticastCall) : Prop :=
  (table.Throws c.run ↔ members.Refuses c) ∧
    (table.Throws c.run → table.after c.run = table) ∧
    Answers (table.after c.run) (members.call c)

/-- Every removal of a run is from an address that has no entry. -/
def RemovesFromNone (table : MulticastForwardingTable) : List MulticastCall → Prop
  | [] => True
  | c :: calls => c.RemovesFromNone table ∧ RemovesFromNone (table.after c.run) calls

/-! ## The entries hold the members -/

/-- An entry for the interfaces of a set: there is one just for a set that is not empty. -/
inductive EntryFor : Option (List ℤ) → Set ℤ → Prop
  | none : EntryFor none ∅
  | some {interfaceIds : List ℤ} {members : Set ℤ} (hne : interfaceIds ≠ [])
      (hnodup : interfaceIds.Nodup) (hmem : ∀ i, i ∈ interfaceIds ↔ i ∈ members) :
      EntryFor (some interfaceIds) members

namespace EntryFor

open MulticastForwardingTable

variable {members : Set ℤ} {interfaceIds : List ℤ} {interfaceId : ℤ}

theorem eq_empty (h : EntryFor Option.none members) : members = ∅ := by
  cases h
  rfl

theorem mem_iff (h : EntryFor (.some interfaceIds) members) (i : ℤ) :
    i ∈ interfaceIds ↔ i ∈ members := by
  cases h with
  | some _ _ hmem => exact hmem i

theorem nodup (h : EntryFor (.some interfaceIds) members) : interfaceIds.Nodup := by
  cases h with
  | some _ hnodup _ => exact hnodup

theorem singleton (h : EntryFor Option.none members) :
    EntryFor (.some [interfaceId]) (insert interfaceId members) := by
  rw [h.eq_empty]
  constructor
  · exact List.cons_ne_nil _ _
  · exact List.nodup_singleton _
  · intro i
    simp

theorem append (h : EntryFor (.some interfaceIds) members) (hnot : interfaceId ∉ interfaceIds) :
    EntryFor (.some (interfaceIds ++ [interfaceId])) (insert interfaceId members) := by
  constructor
  · exact List.append_ne_nil_of_right_ne_nil _ (List.cons_ne_nil _ _)
  · apply List.Nodup.append h.nodup (List.nodup_singleton _)
    simpa using hnot
  · intro i
    rw [List.mem_append, List.mem_singleton, Set.mem_insert_iff, h.mem_iff, or_comm]

theorem bind_entryWithout {entry : Option (List ℤ)} (h : EntryFor entry members) :
    EntryFor (entry.bind (entryWithout interfaceId)) (members \ {interfaceId}) := by
  cases h with
  | none =>
    rw [Set.empty_sdiff]
    exact .none
  | some hne hnodup hmem =>
    rename_i interfaceIds
    have hleft (i : ℤ) :
        i ∈ removeInterface interfaceIds interfaceId ↔ i ∈ members \ {interfaceId} := by
      rw [removeInterface, List.mem_filter, hmem, decide_eq_true_iff]
      rfl
    rw [Option.bind_some, entryWithout]
    split
    · rename_i hnil
      have hempty : members \ {interfaceId} = ∅ := by
        ext i
        rw [← hleft, hnil]
        simp
      rw [hempty]
      exact .none
    · rename_i hnil
      exact .some hnil (hnodup.filter _) hleft

end EntryFor

/-- The invariant of the runs. -/
def Holds (table : MulticastForwardingTable) (members : Members) : Prop :=
  ∀ key, EntryFor (table key) (members key)

namespace MulticastForwardingTable

variable {table : MulticastForwardingTable} {members : Members} {interfaceId : ℤ}
  {key : ForwardingTableKey}

theorem assert_run {condition : Prop} [Decidable condition] {text : String} (h : condition)
    {α : Type} (f : Unit → MulticastM α) :
    (assert condition text >>= f).run.run table = (f ()).run.run table := by
  rw [assert, if_pos h]
  rfl

theorem get_run {α : Type} (f : MulticastForwardingTable → MulticastM α) :
    (get >>= f).run.run table = (f table).run.run table := rfl

theorem add_cases (h : key.address.isMulticast = true) :
    (table key = none ∧
      (addMulticastAddressForwardingInterface interfaceId key).run.run table =
        (.ok (), Function.update table key (some [interfaceId]))) ∨
    (∃ interfaceIds, table key = some interfaceIds ∧ interfaceId ∈ interfaceIds ∧
      (addMulticastAddressForwardingInterface interfaceId key).run.run table =
        (.error (.runtime "Already contains interface"), table)) ∨
    (∃ interfaceIds, table key = some interfaceIds ∧ interfaceId ∉ interfaceIds ∧
      (addMulticastAddressForwardingInterface interfaceId key).run.run table =
        (.ok (), Function.update table key (some (interfaceIds ++ [interfaceId])))) := by
  rw [addMulticastAddressForwardingInterface, assert_run h, get_run]
  cases hentry : table key with
  | none => exact .inl ⟨rfl, rfl⟩
  | some interfaceIds =>
    by_cases hmem : interfaceId ∈ interfaceIds
    · refine .inr (.inl ⟨interfaceIds, rfl, hmem, ?_⟩)
      dsimp only
      rw [if_pos hmem]
      rfl
    · refine .inr (.inr ⟨interfaceIds, rfl, hmem, ?_⟩)
      dsimp only
      rw [if_neg hmem]
      rfl

theorem remove_cases (h : key.address.isMulticast = true) :
    (table key = none ∧
      (removeMulticastAddressForwardingInterface interfaceId key).run.run table =
        (.error (.runtime "Cannot find entry"), table)) ∨
    (∃ interfaceIds, table key = some interfaceIds ∧ interfaceId ∈ interfaceIds ∧
      (removeMulticastAddressForwardingInterface interfaceId key).run.run table =
        (.error (.runtime "Cannot find interface"), table)) ∨
    (∃ interfaceIds, table key = some interfaceIds ∧ interfaceId ∉ interfaceIds ∧
      (removeMulticastAddressForwardingInterface interfaceId key).run.run table =
        (.ok (), Function.update table key (some (removeInterface interfaceIds interfaceId)))) := by
  rw [removeMulticastAddressForwardingInterface, assert_run h, get_run]
  cases hentry : table key with
  | none => exact .inl ⟨rfl, rfl⟩
  | some interfaceIds =>
    by_cases hmem : interfaceId ∈ interfaceIds
    · refine .inr (.inl ⟨interfaceIds, rfl, hmem, ?_⟩)
      dsimp only
      rw [if_pos hmem]
      rfl
    · refine .inr (.inr ⟨interfaceIds, rfl, hmem, ?_⟩)
      dsimp only
      rw [if_neg hmem]
      rfl

theorem get_of_holds (h : Holds table members) (hmulticast : key.address.isMulticast = true) :
    ∃ interfaceIds,
      ((getMulticastAddressForwardingInterfaces key).run.run table).1 = .ok interfaceIds ∧
      interfaceIds.Nodup ∧ ∀ i, i ∈ interfaceIds ↔ i ∈ members key := by
  rw [getMulticastAddressForwardingInterfaces, assert_run hmulticast, get_run]
  have hentry := h key
  cases htable : table key with
  | none =>
    rw [htable] at hentry
    refine ⟨[], rfl, List.nodup_nil, fun i => ?_⟩
    rw [hentry.eq_empty]
    simp
  | some interfaceIds =>
    rw [htable] at hentry
    exact ⟨interfaceIds, rfl, hentry.nodup, hentry.mem_iff⟩

theorem throws_of_run {α : Type} {x : MulticastM α} {error : Error}
    {table' : MulticastForwardingTable} (h : x.run.run table = (.error error, table')) :
    table.Throws x := by
  use error
  rw [h]

theorem not_throws_of_run {α : Type} {x : MulticastM α} {a : α} {table' : MulticastForwardingTable}
    (h : x.run.run table = (.ok a, table')) : ¬ table.Throws x := by
  rintro ⟨error, herror⟩
  rw [h] at herror
  cases herror

theorem after_of_run {α : Type} {x : MulticastM α} {r : Except Error α}
    {table' : MulticastForwardingTable} (h : x.run.run table = (r, table')) :
    table.after x = table' := by
  rw [after, h]

end MulticastForwardingTable

namespace Holds

open MulticastForwardingTable

variable {table : MulticastForwardingTable} {members : Members}

theorem answers (h : Holds table members) : Answers table members :=
  fun _ hmulticast => get_of_holds h hmulticast

theorem update (h : Holds table members) {key : ForwardingTableKey} {entry : Option (List ℤ)}
    {set : Set ℤ} (hentry : EntryFor entry set) :
    Holds (Function.update table key entry) (Function.update members key set) := by
  intro key'
  by_cases heq : key' = key
  · rw [heq, Function.update_self, Function.update_self]
    exact hentry
  · rw [Function.update_of_ne heq, Function.update_of_ne heq]
    exact h key'

theorem call (h : Holds table members) {c : MulticastCall} (hasserted : c.Asserted)
    (hnone : c.RemovesFromNone table) :
    (table.Throws c.run ↔ members.Refuses c) ∧
      (table.Throws c.run → table.after c.run = table) ∧
      Holds (table.after c.run) (members.call c) := by
  cases c with
  | addMulticastAddressForwardingInterface interfaceId key =>
    have hentry := h key
    rcases @add_cases table interfaceId key hasserted with
      ⟨hkey, hrun⟩ | ⟨ids, hkey, hmem, hrun⟩ | ⟨ids, hkey, hmem, hrun⟩
    · rw [hkey] at hentry
      refine ⟨iff_of_false (not_throws_of_run hrun) ?_, fun hthrows =>
        absurd hthrows (not_throws_of_run hrun), ?_⟩
      · rw [Members.Refuses, hentry.eq_empty]
        exact Set.notMem_empty interfaceId
      · exact (after_of_run hrun).symm ▸ h.update hentry.singleton
    · rw [hkey] at hentry
      refine ⟨iff_of_true (throws_of_run hrun) ((hentry.mem_iff _).1 hmem), fun _ =>
        after_of_run hrun, ?_⟩
      have hsame : insert interfaceId (members key) = members key :=
        Set.insert_eq_of_mem ((hentry.mem_iff _).1 hmem)
      rw [MulticastCall.run, after_of_run hrun, Members.call, hsame, Function.update_eq_self]
      exact h
    · rw [hkey] at hentry
      refine ⟨iff_of_false (not_throws_of_run hrun) fun hin => hmem ((hentry.mem_iff _).2 hin),
        fun hthrows => absurd hthrows (not_throws_of_run hrun), ?_⟩
      exact (after_of_run hrun).symm ▸ h.update (hentry.append hmem)
  | removeMulticastAddressForwardingInterface interfaceId key =>
    have hentry := h key
    have hkey : table key = none := hnone
    rw [hkey] at hentry
    obtain ⟨-, hrun⟩ | ⟨ids, hids, -⟩ | ⟨ids, hids, -⟩ :=
      @remove_cases table interfaceId key hasserted
    · refine ⟨iff_of_true (throws_of_run hrun) ?_, fun _ => after_of_run hrun, ?_⟩
      · rw [Members.Refuses, hentry.eq_empty]
        exact Set.notMem_empty interfaceId
      · have hsame : members key \ {interfaceId} = members key := by
          rw [hentry.eq_empty, Set.empty_sdiff]
        rw [MulticastCall.run, after_of_run hrun, Members.call, hsame, Function.update_eq_self]
        exact h
    · rw [hkey] at hids
      cases hids
    · rw [hkey] at hids
      cases hids
  | interfaceDeleted interfaceId =>
    refine ⟨iff_of_false ?_ id, ?_, fun key => (h key).bind_entryWithout⟩
    · rintro ⟨error, herror⟩
      cases herror
    · rintro ⟨error, herror⟩
      cases herror

theorem removesFromNone_of_follows (h : Holds table members) {c : MulticastCall}
    (hasserted : c.Asserted) (hfollows : Follows table members c) : c.RemovesFromNone table := by
  cases c with
  | addMulticastAddressForwardingInterface interfaceId key => trivial
  | interfaceDeleted interfaceId => trivial
  | removeMulticastAddressForwardingInterface interfaceId key =>
    obtain ⟨hthrows, -, -⟩ := hfollows
    have hentry := h key
    rcases @remove_cases table interfaceId key hasserted with
      ⟨hkey, -⟩ | ⟨ids, hkey, hmem, hrun⟩ | ⟨ids, hkey, hmem, hrun⟩
    · exact hkey
    · rw [hkey] at hentry
      exact absurd ((hentry.mem_iff _).1 hmem) (hthrows.1 (throws_of_run hrun))
    · rw [hkey] at hentry
      have hrefuses : interfaceId ∉ members key := fun hin => hmem ((hentry.mem_iff _).2 hin)
      exact absurd (hthrows.2 hrefuses) (not_throws_of_run hrun)

theorem run (h : Holds table members) {calls : List MulticastCall}
    (hasserted : ∀ c ∈ calls, c.Asserted) (hnone : RemovesFromNone table calls) :
    Holds (table.run calls) (members.run calls) := by
  induction calls generalizing table members with
  | nil => exact h
  | cons c calls ih =>
    obtain ⟨hfirst, hrest⟩ := hnone
    have hcall := h.call (hasserted c List.mem_cons_self) hfirst
    exact ih hcall.2.2 (fun c' hc' => hasserted c' (List.mem_cons_of_mem c hc')) hrest

end Holds

/-- While every removal is from an address that has no entry, the lookups answer the members, and a
call follows them just when it does not remove from an entry. -/
theorem follows_iff_removesFromNone {calls : List MulticastCall}
    (hasserted : ∀ c ∈ calls, c.Asserted) (hnone : RemovesFromNone (fun _ => none) calls) :
    Answers (MulticastForwardingTable.run (fun _ => none) calls) (Members.run (fun _ => ∅) calls) ∧
      ∀ c : MulticastCall, c.Asserted →
        (Follows (MulticastForwardingTable.run (fun _ => none) calls)
            (Members.run (fun _ => ∅) calls) c ↔
          c.RemovesFromNone (MulticastForwardingTable.run (fun _ => none) calls)) := by
  have hinitial : Holds (fun _ => none) fun _ => ∅ := fun _ => .none
  have hholds := hinitial.run hasserted hnone
  refine ⟨hholds.answers, fun c hc => ?_⟩
  constructor
  · exact hholds.removesFromNone_of_follows hc
  · intro hfirst
    obtain ⟨hthrows, hsame, hafter⟩ := hholds.call hc hfirst
    exact ⟨hthrows, hsame, hafter.answers⟩

/-! A multicast address of VLAN 1. -/

def sampleGroup : ForwardingTableKey := ⟨1, 0x01005E000001#48⟩

theorem follows_after_add_and_delete :
    Follows (MulticastForwardingTable.run (fun _ => none)
        [.addMulticastAddressForwardingInterface 7 sampleGroup, .interfaceDeleted 7])
      (Members.run (fun _ => ∅)
        [.addMulticastAddressForwardingInterface 7 sampleGroup, .interfaceDeleted 7])
      (.removeMulticastAddressForwardingInterface 7 sampleGroup) := by
  have hasserted (c : MulticastCall) (hc : c ∈
      [.addMulticastAddressForwardingInterface 7 sampleGroup, .interfaceDeleted 7]) :
      c.Asserted := by
    rcases List.mem_pair.1 hc with rfl | rfl
    · exact show sampleGroup.address.isMulticast = true by decide
    · trivial
  refine ((follows_iff_removesFromNone hasserted ⟨trivial, trivial, trivial⟩).2 _ ?_).2 rfl
  exact show sampleGroup.address.isMulticast = true by decide

/-- The interface that was added cannot be removed, and stays in the entry. -/
theorem not_follows_remove_after_add :
    (sampleGroup.address.isMulticast = true) ∧
      ¬ Follows (MulticastForwardingTable.run (fun _ => none)
          [.addMulticastAddressForwardingInterface 7 sampleGroup])
        (Members.run (fun _ => ∅) [.addMulticastAddressForwardingInterface 7 sampleGroup])
        (.removeMulticastAddressForwardingInterface 7 sampleGroup) := by
  refine ⟨by decide, fun hfollows => ?_⟩
  have hmem : (7 : ℤ) ∈ Members.run (fun _ => ∅)
      [.addMulticastAddressForwardingInterface 7 sampleGroup] sampleGroup := by
    simp [Members.run, Members.call]
  exact hfollows.1.1 ⟨.runtime "Cannot find interface", by decide⟩ hmem

end Inet.Ethernet
