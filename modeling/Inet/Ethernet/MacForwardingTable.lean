import Inet.Common.Error
import Mathlib.Data.BitVec
import Mathlib.Logic.Function.Basic
import Mathlib.Tactic.SplitIfs

/-! # The forwarding table of an Ethernet switch

Unicast entries are set by hand or learned. A lookup ignores an entry that has
aged, and learning removes aged entries now and then. The table answers as if
nothing were ever purged, as long as a manual entry is set over an entry that
is there: a new one gets an insertion time in the past.
-/

namespace Inet.Ethernet

/-- The bits of an address, the first byte on top. -/
abbrev MacAddress := BitVec 48

def MacAddress.isMulticast (address : MacAddress) : Bool := address.getLsbD 40

/-! Simulation times are in picoseconds. -/

/-- `SimTime(seconds, SIMTIME_S)` -/
def simTimeOfSeconds (seconds : ℤ) : ℤ := seconds * 1000000000000

/-- `SimTime::getMaxTime()` -/
def getMaxTime : ℤ := 2 ^ 63 - 1

structure ForwardingTableKey where
  vid : UInt32
  address : MacAddress
  deriving DecidableEq, Repr

structure AddressEntry where
  interfaceId : ℤ
  insertionTime : ℤ
  deriving DecidableEq, Repr

structure MacForwardingTable where
  agingTime : ℤ
  lastPurge : ℤ
  forwardingTable : ForwardingTableKey → Option AddressEntry

namespace MacForwardingTable

def initial (agingTime : ℤ) : MacForwardingTable := ⟨agingTime, 0, fun _ => none⟩

def checkUnicast (key : ForwardingTableKey) : Except Error Unit :=
  assert (key.address.isMulticast = false) "!address.isMulticast()"

/-- The entry is too old to be used. -/
def aged (table : MacForwardingTable) (now : ℤ) (entry : AddressEntry) : Bool :=
  decide (entry.insertionTime ≤ now - table.agingTime)

/-- The interface that a lookup takes from what it finds. -/
def foundInterface (table : MacForwardingTable) (now : ℤ) : Option AddressEntry → ℤ
  | none => -1
  | some entry => if table.aged now entry then -1 else entry.interfaceId

def getUnicastAddressForwardingInterface (table : MacForwardingTable) (now : ℤ)
    (key : ForwardingTableKey) : Except Error ℤ := do
  checkUnicast key
  pure (table.foundInterface now (table.forwardingTable key))

def put (table : MacForwardingTable) (key : ForwardingTableKey) (entry : Option AddressEntry) :
    MacForwardingTable :=
  { table with forwardingTable := Function.update table.forwardingTable key entry }

def setUnicastAddressForwardingInterface (table : MacForwardingTable) (interfaceId : ℤ)
    (key : ForwardingTableKey) : Except Error MacForwardingTable := do
  checkUnicast key
  match table.forwardingTable key with
  | none => pure (table.put key (some ⟨interfaceId, simTimeOfSeconds (-1)⟩))
  | some _ => pure (table.put key (some ⟨interfaceId, getMaxTime⟩))

/-- The interface of the call is not compared with that of the entry. -/
def removeUnicastAddressForwardingInterface (table : MacForwardingTable)
    (key : ForwardingTableKey) : Except Error MacForwardingTable := do
  checkUnicast key
  match table.forwardingTable key with
  | none => throw (.runtime "Cannot find entry")
  | some _ => pure (table.put key none)

/-- The loops that erase all entries of a kind. -/
def eraseEntries (table : MacForwardingTable) (kind : AddressEntry → Bool) : MacForwardingTable :=
  { table with forwardingTable := fun key =>
      (table.forwardingTable key).filter fun entry => !kind entry }

def removeForwardingInterface (table : MacForwardingTable) (interfaceId : ℤ) :
    MacForwardingTable :=
  table.eraseEntries fun entry => entry.interfaceId = interfaceId

def removeAgedEntriesFromAllVlans (table : MacForwardingTable) (now : ℤ) :
    MacForwardingTable :=
  table.eraseEntries (table.aged now)

def removeAgedEntriesIfNeeded (table : MacForwardingTable) (now : ℤ) :
    MacForwardingTable :=
  { (if now ≥ table.lastPurge + simTimeOfSeconds 1 then table.removeAgedEntriesFromAllVlans now
    else table) with lastPurge := now }

/-- The part of `learnUnicastAddressForwardingInterface` after the purge. -/
def learnEntry (table : MacForwardingTable) (now interfaceId : ℤ) (key : ForwardingTableKey) :
    Except Error MacForwardingTable :=
  match table.forwardingTable key with
  | none => pure (table.put key (some ⟨interfaceId, now⟩))
  | some entry =>
    if entry.insertionTime ≠ getMaxTime then pure (table.put key (some ⟨interfaceId, now⟩))
    else pure table

def learnUnicastAddressForwardingInterface (table : MacForwardingTable) (now interfaceId : ℤ)
    (key : ForwardingTableKey) : Except Error MacForwardingTable := do
  checkUnicast key
  (table.removeAgedEntriesIfNeeded now).learnEntry now interfaceId key

end MacForwardingTable

/-- A call that may change the table. The purge is also a call, so that it can run at any time. -/
inductive Call where
  | setUnicastAddressForwardingInterface (interfaceId : ℤ) (key : ForwardingTableKey)
  | learnUnicastAddressForwardingInterface (interfaceId : ℤ) (key : ForwardingTableKey)
  | removeUnicastAddressForwardingInterface (key : ForwardingTableKey)
  | removeForwardingInterface (interfaceId : ℤ)
  | removeAgedEntriesFromAllVlans
  deriving DecidableEq, Repr

def MacForwardingTable.call (table : MacForwardingTable) (now : ℤ) :
    Call → Except Error MacForwardingTable
  | .setUnicastAddressForwardingInterface interfaceId key =>
    table.setUnicastAddressForwardingInterface interfaceId key
  | .learnUnicastAddressForwardingInterface interfaceId key =>
    table.learnUnicastAddressForwardingInterface now interfaceId key
  | .removeUnicastAddressForwardingInterface key =>
    table.removeUnicastAddressForwardingInterface key
  | .removeForwardingInterface interfaceId => pure (table.removeForwardingInterface interfaceId)
  | .removeAgedEntriesFromAllVlans => pure (table.removeAgedEntriesFromAllVlans now)

/-! ## What is known about an address -/

/-- The abstract state of an address in a VLAN, which never ages. -/
inductive Known where
  | nothing
  | manual (interfaceId : ℤ)
  | learned (interfaceId : ℤ) (time : ℤ)
  deriving DecidableEq, Repr

namespace Known

def learn (now : ℤ) (interfaceId : ℤ) : Known → Known
  | manual i => manual i
  | _ => learned interfaceId now

def dropInterface (interfaceId : ℤ) : Known → Known
  | nothing => nothing
  | manual i => if i = interfaceId then nothing else manual i
  | learned i time => if i = interfaceId then nothing else learned i time

/-- What a lookup has to answer. -/
def answer (agingTime now : ℤ) : Known → ℤ
  | nothing => -1
  | manual i => i
  | learned i time => if now - time < agingTime then i else -1

/-- The state of an address after a call. The purge means nothing. -/
def call (now : ℤ) (key : ForwardingTableKey) (known : Known) : Call → Known
  | .setUnicastAddressForwardingInterface interfaceId key' =>
    if key' = key then manual interfaceId else known
  | .learnUnicastAddressForwardingInterface interfaceId key' =>
    if key' = key then known.learn now interfaceId else known
  | .removeUnicastAddressForwardingInterface key' => if key' = key then nothing else known
  | .removeForwardingInterface interfaceId => known.dropInterface interfaceId
  | .removeAgedEntriesFromAllVlans => known

end Known

/-- The entry of an address, if there is one, stands for what is known. -/
def Stands (agingTime now : ℤ) : Option AddressEntry → Known → Prop
  | entry, .nothing => entry = none
  | entry, .manual i => entry = some ⟨i, getMaxTime⟩
  | entry, .learned i time => time < getMaxTime ∧
      (entry = some ⟨i, time⟩ ∨ (entry = none ∧ agingTime ≤ now - time))

/-- A manual entry replaces one that is in the table. -/
def Call.Marked (table : MacForwardingTable) : Call → Prop
  | .setUnicastAddressForwardingInterface _ key => (table.forwardingTable key).isSome
  | _ => True

/-- The states that a table reaches while time passes and calls return, each with what is known. -/
inductive Reached (agingTime : ℤ) :
    ℤ → MacForwardingTable → (ForwardingTableKey → Known) → Prop
  | initial : Reached agingTime 0 (.initial agingTime) fun _ => .nothing
  | elapse {now later : ℤ} {table : MacForwardingTable} {known : ForwardingTableKey → Known}
      (h : Reached agingTime now table known) (hle : now ≤ later) (hmax : later < getMaxTime) :
      Reached agingTime later table known
  | call {now : ℤ} {table table' : MacForwardingTable} {known : ForwardingTableKey → Known}
      (c : Call) (h : Reached agingTime now table known) (hmarked : c.Marked table)
      (hcall : table.call now c = .ok table') :
      Reached agingTime now table' fun key => (known key).call now key c

/-! ## The table stands for what is known -/

@[simp] theorem MacForwardingTable.aged_mk (table : MacForwardingTable) (now interfaceId time : ℤ) :
    table.aged now ⟨interfaceId, time⟩ = true ↔ time ≤ now - table.agingTime := decide_eq_true_iff

section Stands

variable {agingTime now : ℤ} {entry : Option AddressEntry} {known : Known}

theorem Stands.elapse (h : Stands agingTime now entry known) {later : ℤ}
    (hle : now ≤ later) : Stands agingTime later entry known := by
  cases known with
  | nothing => exact h
  | manual i => exact h
  | learned i time =>
    obtain ⟨hlt, heq | ⟨heq, hold⟩⟩ := h
    · exact ⟨hlt, .inl heq⟩
    · exact ⟨hlt, .inr ⟨heq, by omega⟩⟩

/-- A purge takes away what is aged, and a manual entry never is. -/
theorem Stands.purge (h : Stands agingTime now entry known) (haging : 0 < agingTime)
    (hmax : now < getMaxTime) {table : MacForwardingTable} (htable : table.agingTime = agingTime) :
    Stands agingTime now (entry.filter fun e => !table.aged now e) known := by
  cases known with
  | nothing =>
    obtain rfl : entry = none := h
    rfl
  | manual i =>
    obtain rfl : entry = some ⟨i, getMaxTime⟩ := h
    refine Option.filter_eq_some_iff.2 ⟨rfl, ?_⟩
    rw [Bool.not_eq_true', Bool.eq_false_iff, Ne, MacForwardingTable.aged_mk, htable]
    omega
  | learned i time =>
    obtain ⟨hlt, rfl | ⟨rfl, hold⟩⟩ := h
    · refine ⟨hlt, ?_⟩
      by_cases haged : table.aged now ⟨i, time⟩ = true
      · refine .inr ⟨by simp [haged], ?_⟩
        rw [MacForwardingTable.aged_mk, htable] at haged
        omega
      · exact .inl (by simp [haged])
    · exact ⟨hlt, .inr ⟨rfl, hold⟩⟩

theorem Stands.dropInterface (h : Stands agingTime now entry known) (interfaceId : ℤ) :
    Stands agingTime now (entry.filter fun e => !decide (e.interfaceId = interfaceId))
      (known.dropInterface interfaceId) := by
  cases known with
  | nothing =>
    obtain rfl : entry = none := h
    rfl
  | manual i =>
    obtain rfl : entry = some ⟨i, getMaxTime⟩ := h
    by_cases hi : i = interfaceId <;> simp [Known.dropInterface, Stands, hi]
  | learned i time =>
    obtain ⟨hlt, rfl | ⟨rfl, hold⟩⟩ := h
    · by_cases hi : i = interfaceId <;> simp [Known.dropInterface, Stands, hi, hlt]
    · by_cases hi : i = interfaceId <;> simp [Known.dropInterface, Stands, hi, hlt, hold]

theorem Stands.answer (h : Stands agingTime now entry known) (haging : 0 < agingTime)
    (hmax : now < getMaxTime) {table : MacForwardingTable} (htable : table.agingTime = agingTime) :
    table.foundInterface now entry = known.answer agingTime now := by
  cases known with
  | nothing =>
    obtain rfl : entry = none := h
    rfl
  | manual i =>
    obtain rfl : entry = some ⟨i, getMaxTime⟩ := h
    refine if_neg ?_
    rw [MacForwardingTable.aged_mk, htable]
    omega
  | learned i time =>
    obtain ⟨hlt, rfl | ⟨rfl, hold⟩⟩ := h
    · rw [MacForwardingTable.foundInterface, Known.answer]
      by_cases hfresh : now - time < agingTime
      · rw [if_pos hfresh, if_neg]
        rw [MacForwardingTable.aged_mk, htable]
        omega
      · rw [if_neg hfresh, if_pos]
        rw [MacForwardingTable.aged_mk, htable]
        omega
    · exact (if_neg (by omega)).symm

end Stands

/-- The invariant of the runs. -/
structure Faithful (agingTime now : ℤ) (table : MacForwardingTable)
    (known : ForwardingTableKey → Known) : Prop where
  aging : table.agingTime = agingTime
  now_lt : now < getMaxTime
  stands : ∀ key, Stands agingTime now (table.forwardingTable key) (known key)

namespace Faithful

variable {agingTime now : ℤ} {table table' : MacForwardingTable}
  {known : ForwardingTableKey → Known}

theorem put (h : Faithful agingTime now table known) {key : ForwardingTableKey}
    {entry : Option AddressEntry} {known' : ForwardingTableKey → Known}
    (hentry : Stands agingTime now entry (known' key))
    (hother : ∀ key', key ≠ key' → known' key' = known key') :
    Faithful agingTime now (table.put key entry) known' := by
  refine ⟨h.aging, h.now_lt, ?_⟩
  intro key'
  dsimp only [MacForwardingTable.put]
  by_cases heq : key = key'
  · rw [← heq, Function.update_self]
    exact hentry
  · rw [Function.update_of_ne (Ne.symm heq), hother key' heq]
    exact h.stands key'

theorem removeAgedEntriesFromAllVlans (h : Faithful agingTime now table known)
    (haging : 0 < agingTime) :
    Faithful agingTime now (table.removeAgedEntriesFromAllVlans now) known :=
  ⟨h.aging, h.now_lt, fun key => (h.stands key).purge haging h.now_lt h.aging⟩

theorem removeAgedEntriesIfNeeded (h : Faithful agingTime now table known)
    (haging : 0 < agingTime) :
    Faithful agingTime now (table.removeAgedEntriesIfNeeded now) known := by
  unfold MacForwardingTable.removeAgedEntriesIfNeeded
  split
  · have hpurged := h.removeAgedEntriesFromAllVlans haging
    exact ⟨hpurged.aging, h.now_lt, hpurged.stands⟩
  · exact ⟨h.aging, h.now_lt, h.stands⟩

theorem set (h : Faithful agingTime now table known) {interfaceId : ℤ} {key : ForwardingTableKey}
    (hmarked : (table.forwardingTable key).isSome)
    (hset : table.setUnicastAddressForwardingInterface interfaceId key = .ok table') :
    Faithful agingTime now table' fun key' =>
      (known key').call now key' (.setUnicastAddressForwardingInterface interfaceId key) := by
  obtain ⟨-, -, hset⟩ := Error.exists_of_bind_eq_ok hset
  obtain ⟨entry, hentry⟩ := Option.isSome_iff_exists.1 hmarked
  rw [hentry] at hset
  cases hset
  refine h.put ?_ fun key' hne => ?_
  · rw [Known.call, if_pos rfl]
    rfl
  · rw [Known.call, if_neg hne]

theorem remove (h : Faithful agingTime now table known) {key : ForwardingTableKey}
    (hremove : table.removeUnicastAddressForwardingInterface key = .ok table') :
    Faithful agingTime now table' fun key' =>
      (known key').call now key' (.removeUnicastAddressForwardingInterface key) := by
  obtain ⟨-, -, hremove⟩ := Error.exists_of_bind_eq_ok hremove
  split at hremove
  · cases hremove
  · cases hremove
    refine h.put ?_ fun key' hne => ?_
    · rw [Known.call, if_pos rfl]
      rfl
    · rw [Known.call, if_neg hne]

theorem learn (h : Faithful agingTime now table known) (haging : 0 < agingTime)
    {interfaceId : ℤ} {key : ForwardingTableKey}
    (hlearn : table.learnUnicastAddressForwardingInterface now interfaceId key = .ok table') :
    Faithful agingTime now table' fun key' =>
      (known key').call now key' (.learnUnicastAddressForwardingInterface interfaceId key) := by
  obtain ⟨-, -, hlearn⟩ := Error.exists_of_bind_eq_ok hlearn
  have hpurged := h.removeAgedEntriesIfNeeded haging
  have hstands := hpurged.stands key
  generalize table.removeAgedEntriesIfNeeded now = purged at hpurged hstands hlearn
  unfold MacForwardingTable.learnEntry at hlearn
  have hother : ∀ key', key ≠ key' → (known key').call now key'
      (.learnUnicastAddressForwardingInterface interfaceId key) = known key' :=
    fun key' hne => if_neg hne
  have hput (hnot : ∀ i, known key ≠ .manual i) :
      Faithful agingTime now (purged.put key (some ⟨interfaceId, now⟩)) fun key' =>
        (known key').call now key' (.learnUnicastAddressForwardingInterface interfaceId key) := by
    refine hpurged.put ?_ hother
    rw [Known.call, if_pos rfl]
    cases hknown : known key with
    | nothing => exact ⟨h.now_lt, .inl rfl⟩
    | manual i => exact absurd hknown (hnot i)
    | learned i time => exact ⟨h.now_lt, .inl rfl⟩
  cases hknown : known key with
  | nothing =>
    rw [hknown] at hstands
    rw [show purged.forwardingTable key = none from hstands] at hlearn
    cases hlearn
    exact hput fun i => by rw [hknown]; nofun
  | manual i =>
    rw [hknown] at hstands
    rw [show purged.forwardingTable key = some ⟨i, getMaxTime⟩ from hstands] at hlearn
    cases hlearn
    refine ⟨hpurged.aging, hpurged.now_lt, fun key' => ?_⟩
    by_cases hne : key = key'
    · rw [← hne, Known.call, if_pos rfl, hknown, Known.learn, ← hknown]
      exact hpurged.stands key
    · rw [hother key' hne]
      exact hpurged.stands key'
  | learned i time =>
    rw [hknown] at hstands
    have hnot : ∀ i, known key ≠ .manual i := fun i => by rw [hknown]; nofun
    obtain ⟨hlt, heq | ⟨heq, -⟩⟩ := hstands
    · rw [heq] at hlearn
      dsimp only at hlearn
      rw [if_pos hlt.ne] at hlearn
      cases hlearn
      exact hput hnot
    · rw [heq] at hlearn
      cases hlearn
      exact hput hnot

theorem call (h : Faithful agingTime now table known) (haging : 0 < agingTime) {c : Call}
    (hmarked : c.Marked table) (hcall : table.call now c = .ok table') :
    Faithful agingTime now table' fun key => (known key).call now key c := by
  cases c with
  | setUnicastAddressForwardingInterface interfaceId key => exact h.set hmarked hcall
  | learnUnicastAddressForwardingInterface interfaceId key => exact h.learn haging hcall
  | removeUnicastAddressForwardingInterface key => exact h.remove hcall
  | removeForwardingInterface interfaceId =>
    cases hcall
    exact ⟨h.aging, h.now_lt, fun key => (h.stands key).dropInterface interfaceId⟩
  | removeAgedEntriesFromAllVlans =>
    cases hcall
    exact h.removeAgedEntriesFromAllVlans haging

end Faithful

theorem Reached.faithful {agingTime now : ℤ} {table : MacForwardingTable}
    {known : ForwardingTableKey → Known} (haging : 0 < agingTime)
    (h : Reached agingTime now table known) : Faithful agingTime now table known := by
  induction h with
  | initial => exact ⟨rfl, by decide, fun _ => rfl⟩
  | elapse _ hle hmax ih => exact ⟨ih.aging, hmax, fun key => (ih.stands key).elapse hle⟩
  | call c _ hmarked hcall ih => exact ih.call haging hmarked hcall

/-- As long as manual entries are set over entries of the table, every lookup answers what is known,
whenever the table is purged. -/
theorem lookup_answers_known {agingTime now : ℤ} {table : MacForwardingTable}
    {known : ForwardingTableKey → Known} (haging : 0 < agingTime)
    (h : Reached agingTime now table known) {key : ForwardingTableKey}
    (hunicast : key.address.isMulticast = false) :
    table.getUnicastAddressForwardingInterface now key =
      .ok ((known key).answer agingTime now) := by
  have hfaithful := h.faithful haging
  have hanswer := (hfaithful.stands key).answer haging hfaithful.now_lt hfaithful.aging
  unfold MacForwardingTable.getUnicastAddressForwardingInterface MacForwardingTable.checkUnicast
  rw [assert, if_pos hunicast, ← hanswer]
  rfl

/-! An address of VLAN 1. -/

def sampleKey : ForwardingTableKey := ⟨1, 0x0AAA00000001#48⟩

/-- An address that is learned and set stays in the table for good. -/
theorem lookup_after_learn_and_set :
    ∃ table, Reached (simTimeOfSeconds 120) (simTimeOfSeconds 500) table
        (fun key => ((Known.nothing.call 0 key
          (.learnUnicastAddressForwardingInterface 7 sampleKey)).call 0 key
          (.setUnicastAddressForwardingInterface 5 sampleKey))) ∧
      table.getUnicastAddressForwardingInterface (simTimeOfSeconds 500) sampleKey = .ok 5 := by
  have h₁ := (@Reached.initial (simTimeOfSeconds 120)).call
    (.learnUnicastAddressForwardingInterface 7 sampleKey) trivial rfl
  have h₂ := h₁.call (.setUnicastAddressForwardingInterface 5 sampleKey) rfl rfl
  have h₃ := h₂.elapse (show (0 : ℤ) ≤ simTimeOfSeconds 500 by decide) (by decide)
  exact ⟨_, h₃, lookup_answers_known (by decide) h₃ (by decide)⟩

/-- An address that is set while the table has no entry for it is forgotten like a learned one. -/
theorem lookup_after_set : ∃ table,
    (MacForwardingTable.initial (simTimeOfSeconds 120)).call 0
        (.setUnicastAddressForwardingInterface 5 sampleKey) = .ok table ∧
      table.getUnicastAddressForwardingInterface (simTimeOfSeconds 500) sampleKey = .ok (-1) ∧
      (Known.nothing.call 0 sampleKey (.setUnicastAddressForwardingInterface 5 sampleKey)).answer
        (simTimeOfSeconds 120) (simTimeOfSeconds 500) = 5 :=
  ⟨_, rfl, rfl, rfl⟩

end Inet.Ethernet
