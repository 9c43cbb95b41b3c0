import Inet.Queueing.PacketQueue
import Mathlib.Algebra.BigOperators.Group.Finset.Piecewise
import Mathlib.Data.Fintype.Basic
import Mathlib.Data.Multiset.AddSub

/-! # A packet buffer that queues share

The buffer records the packets of its queues, and drops one from any of them
when it is full. In every run the record agrees with the queues. Removing a
packet of a queue leaves the other queues alone, but `removeAllPackets` of one
queue empties the buffer, and with it all of them.
-/

namespace Inet.Queueing

variable {ι : Type}

/-- A dropper function of the buffer. It may look at the owners of the packets. -/
structure BufferDropper (ι : Type) where
  selectPacket : List QueuedPacket → (QueuedPacket → Option ι) → QueuedPacket
  selectPacket_mem : ∀ packets owner, packets ≠ [] → selectPacket packets owner ∈ packets

/-- The parameters of the buffer; a capacity of `-1` stands for no limit. -/
structure PacketBuffer (ι : Type) where
  packetCapacity : ℤ
  dataCapacity : ℤ
  dropper : Option (BufferDropper ι)
  packetCapacity_ge : -1 ≤ packetCapacity
  dataCapacity_ge : -1 ≤ dataCapacity

/-- The buffer and the queues that use it. -/
structure SharedBuffer (ι : Type) where
  buffer : PacketBuffer ι
  queue : ι → PacketQueue

/-- `packets` are those of the buffer. The owner of a packet is the queue that stores it. -/
structure BufferState (ι : Type) where
  packets : List QueuedPacket
  queues : ι → List QueuedPacket
  owner : QueuedPacket → Option ι

namespace BufferState

def initial : BufferState ι := ⟨[], fun _ => [], fun _ => none⟩

variable [DecidableEq ι] (s : BufferState ι)

/-- `cPacketQueue::remove` of the queue `i`. -/
def remove (i : ι) (packet : QueuedPacket) : BufferState ι :=
  if packet ∈ s.queues i then
    { s with
      queues := Function.update s.queues i ((s.queues i).erase packet)
      owner := Function.update s.owner packet none }
  else s

/-- The callback of the buffer to the queue that owns a packet. -/
def handlePacketRemoved (packet : QueuedPacket) : BufferState ι :=
  match s.owner packet with
  | none => s
  | some i => s.remove i packet

/-- The buffer loses a packet and tells its owner. -/
def forget (packet : QueuedPacket) : BufferState ι :=
  { s with packets := s.packets.erase packet }.handlePacketRemoved packet

/-- `PacketBuffer::removePacket` -/
def removeFromBuffer (packet : QueuedPacket) : Except Error (BufferState ι) :=
  if packet ∈ s.packets then pure (s.forget packet)
  else throw (.undefinedBehavior "erase of the end iterator")

/-- `PacketBuffer::removeAllPackets`: the packets leave from the front. -/
def removeAllFromBuffer : BufferState ι :=
  s.packets.foldl handlePacketRemoved { s with packets := [] }

end BufferState

namespace PacketBuffer

def isOverloaded (buffer : PacketBuffer ι) (packets : List QueuedPacket) : Bool :=
  (buffer.packetCapacity ≠ -1 ∧ buffer.packetCapacity < packets.length) ∨
    (buffer.dataCapacity ≠ -1 ∧ buffer.dataCapacity < getBitLength packets)

variable [DecidableEq ι] (buffer : PacketBuffer ι)

/-- The loop of `addPacket`. -/
def dropPackets (dropper : BufferDropper ι) : ℕ → BufferState ι → BufferState ι
  | 0, s => s
  | fuel + 1, s =>
    if s.packets ≠ [] ∧ buffer.isOverloaded s.packets then
      dropPackets dropper fuel (s.forget (dropper.selectPacket s.packets s.owner))
    else s

def addPacket (s : BufferState ι) (packet : QueuedPacket) : Except Error (BufferState ι) :=
  let s := { s with packets := s.packets ++ [packet] }
  if buffer.isOverloaded s.packets then
    match buffer.dropper with
    | some dropper => pure (buffer.dropPackets dropper s.packets.length s)
    | none => throw (.runtime "Buffer is overloaded but packet dropper function is not specified")
  else pure s

end PacketBuffer

namespace SharedBuffer

/-- A call of one of the queues. -/
inductive Call (ι : Type) where
  | pushPacket (i : ι) (packet : QueuedPacket)
  | pullPacket (i : ι) (filter : QueuedPacket → Bool)
  | removePacket (i : ι) (packet : QueuedPacket)
  | removeAllPackets (i : ι)

variable [DecidableEq ι] (shared : SharedBuffer ι)

def pushPacket (s : BufferState ι) (i : ι) (packet : QueuedPacket) :
    Except Error (BufferState ι) := do
  if (s.owner packet).isSome then throw (.runtime "take: the packet is owned by a queue")
  let s ← shared.buffer.addPacket
    { s with
      queues := Function.update s.queues i
        (insertPacket (shared.queue i).comparator packet (s.queues i))
      owner := Function.update s.owner packet (some i) } packet
  if (shared.queue i).isOverloaded (s.queues i) then
    throw (.runtime "Queue is overloaded while using a packet buffer")
  pure s

def call (s : BufferState ι) : Call ι → Except Error (BufferState ι)
  | .pushPacket i packet => shared.pushPacket s i packet
  | .pullPacket i filter =>
    match PacketQueue.canPullPacket (s.queues i) filter with
    | none => throw (.runtime "Cannot pull packet, the filter matches no packet")
    | some packet => (s.remove i packet).removeFromBuffer packet
  | .removePacket i packet => (s.remove i packet).removeFromBuffer packet
  | .removeAllPackets i =>
    let (queue, popped) := PacketQueue.removeAllPackets (s.queues i)
    pure { s with
      queues := Function.update s.queues i queue
      owner := fun packet => if packet ∈ popped then none else s.owner packet }.removeAllFromBuffer

def run (s : BufferState ι) (calls : List (Call ι)) : Except Error (BufferState ι) :=
  calls.foldlM shared.call s

end SharedBuffer

namespace BufferState

variable [DecidableEq ι] {s : BufferState ι} {i : ι} {packet : QueuedPacket}

/-! ## The owners -/

/-- A packet is stored where its owner says, once. -/
structure Owned (s : BufferState ι) : Prop where
  owner_iff : ∀ packet i, s.owner packet = some i ↔ packet ∈ s.queues i
  nodup : ∀ i, (s.queues i).Nodup

omit [DecidableEq ι] in
theorem Owned.owner_eq_none_iff (h : s.Owned) :
    s.owner packet = none ↔ ∀ i, packet ∉ s.queues i := by
  constructor
  · intro hnone i hmem
    rw [(h.owner_iff packet i).mpr hmem] at hnone
    cases hnone
  · intro hall
    cases howner : s.owner packet with
    | none => rfl
    | some i => exact absurd ((h.owner_iff packet i).mp howner) (hall i)

theorem remove_of_mem (h : packet ∈ s.queues i) : s.remove i packet =
    { s with
      queues := Function.update s.queues i ((s.queues i).erase packet)
      owner := Function.update s.owner packet none } := if_pos h

theorem remove_of_notMem (h : packet ∉ s.queues i) : s.remove i packet = s := if_neg h

theorem packets_remove : (s.remove i packet).packets = s.packets := by
  unfold remove
  split <;> rfl

theorem Owned.remove (h : s.Owned) (i : ι) (packet : QueuedPacket) : (s.remove i packet).Owned := by
  by_cases hmem : packet ∈ s.queues i
  · rw [remove_of_mem hmem]
    constructor
    · intro p j
      have howner := (h.owner_iff packet i).mpr hmem
      dsimp only
      by_cases hp : p = packet
      · subst hp
        rw [Function.update_self]
        constructor
        · exact nofun
        · intro hj
          by_cases hji : j = i
          · subst hji
            rw [Function.update_self] at hj
            exact absurd hj (h.nodup j).not_mem_erase
          · rw [Function.update_of_ne hji] at hj
            rw [(h.owner_iff p j).mpr hj] at howner
            exact absurd (Option.some.inj howner) hji
      · rw [Function.update_of_ne hp]
        by_cases hji : j = i
        · subst hji
          rw [Function.update_self, List.mem_erase_of_ne hp]
          exact h.owner_iff p j
        · rw [Function.update_of_ne hji]
          exact h.owner_iff p j
    · intro j
      dsimp only
      by_cases hji : j = i
      · subst hji
        rw [Function.update_self]
        exact (h.nodup j).erase packet
      · rw [Function.update_of_ne hji]
        exact h.nodup j
  · rw [remove_of_notMem hmem]
    exact h

theorem handlePacketRemoved_of_owner (h : s.owner packet = some i) :
    s.handlePacketRemoved packet = s.remove i packet := by
  rw [handlePacketRemoved, h]

theorem handlePacketRemoved_of_none (h : s.owner packet = none) :
    s.handlePacketRemoved packet = s := by
  rw [handlePacketRemoved, h]

theorem Owned.handlePacketRemoved (h : s.Owned) (packet : QueuedPacket) :
    (s.handlePacketRemoved packet).Owned ∧
      (s.handlePacketRemoved packet).packets = s.packets ∧
      ∀ p, (s.handlePacketRemoved packet).owner p = if p = packet then none else s.owner p := by
  cases howner : s.owner packet with
  | none =>
    rw [handlePacketRemoved_of_none howner]
    refine ⟨h, rfl, ?_⟩
    intro p
    split_ifs with hp
    · rw [hp, howner]
    · rfl
  | some i =>
    have hmem := (h.owner_iff packet i).mp howner
    rw [handlePacketRemoved_of_owner howner]
    refine ⟨h.remove i packet, packets_remove, ?_⟩
    intro p
    rw [remove_of_mem hmem]
    exact Function.update_apply _ _ _ _

/-! ## The record of the buffer -/

/-- The buffer records the packets that have an owner. -/
structure Consistent (s : BufferState ι) : Prop extends Owned s where
  recorded : ∀ packet, packet ∈ s.packets ↔ s.owner packet ≠ none
  nodup_packets : s.packets.Nodup

omit [DecidableEq ι] in
theorem consistent_initial : (initial : BufferState ι).Consistent where
  owner_iff := by simp [initial]
  nodup := by simp [initial]
  recorded := by simp [initial]
  nodup_packets := .nil

theorem Consistent.forget (h : s.Consistent) (packet : QueuedPacket) :
    (s.forget packet).Consistent ∧ (s.forget packet).packets = s.packets.erase packet := by
  have howned : { s with packets := s.packets.erase packet }.Owned := ⟨h.owner_iff, h.nodup⟩
  obtain ⟨howned', hpackets, howner⟩ := howned.handlePacketRemoved packet
  refine ⟨⟨howned', ?_, ?_⟩, hpackets⟩
  · intro p
    rw [BufferState.forget, hpackets, howner]
    split_ifs with hp
    · subst hp
      simp [h.nodup_packets.not_mem_erase]
    · rw [List.mem_erase_of_ne hp]
      exact h.recorded p
  · rw [BufferState.forget, hpackets]
    exact h.nodup_packets.erase packet

theorem Consistent.packets_eq_sum [Fintype ι] (h : s.Consistent) :
    (s.packets : Multiset QueuedPacket) = ∑ i, (s.queues i : Multiset QueuedPacket) := by
  ext p
  rw [Multiset.count_sum', Multiset.coe_count, h.nodup_packets.count]
  simp only [Multiset.coe_count, (h.nodup _).count]
  cases howner : s.owner p with
  | none =>
    have hnot := h.owner_eq_none_iff.mp howner
    rw [if_neg (by rw [h.recorded p, howner]; simp)]
    simp [hnot]
  | some i =>
    rw [if_pos (by rw [h.recorded p, howner]; simp)]
    have hiff : ∀ j, p ∈ s.queues j ↔ j = i := by
      intro j
      rw [← h.owner_iff p j, howner, Option.some.injEq, eq_comm]
    simp [hiff]

/-! ## The calls -/

theorem Owned.forget_eq (h : s.Owned) (howner : s.owner packet = some i) :
    s.forget packet =
      { packets := s.packets.erase packet
        queues := Function.update s.queues i ((s.queues i).erase packet)
        owner := Function.update s.owner packet none } := by
  have howner' : { s with packets := s.packets.erase packet }.owner packet = some i := howner
  have hmem : packet ∈ { s with packets := s.packets.erase packet }.queues i :=
    (h.owner_iff packet i).mp howner
  rw [BufferState.forget, handlePacketRemoved_of_owner howner', remove_of_mem hmem]

theorem Consistent.remove_removeFromBuffer (h : s.Consistent) :
    (s.remove i packet).removeFromBuffer packet =
      if packet ∈ s.packets then .ok (s.forget packet)
      else .error (.undefinedBehavior "erase of the end iterator") := by
  by_cases hmem : packet ∈ s.queues i
  · have howner := (h.owner_iff packet i).mpr hmem
    have hpackets : packet ∈ s.packets := by rw [h.recorded, howner]; simp
    rw [h.forget_eq howner, remove_of_mem hmem, removeFromBuffer, if_pos hpackets,
      if_pos hpackets, BufferState.forget, handlePacketRemoved_of_none (Function.update_self _ _ _)]
    rfl
  · rw [remove_of_notMem hmem]
    rfl

theorem Owned.pop (h : s.Owned) {queue popped : List QueuedPacket}
    (hpop : popped ++ queue = s.queues i) :
    Owned { s with
      queues := Function.update s.queues i queue
      owner := fun packet => if packet ∈ popped then none else s.owner packet } := by
  have hnodup := hpop ▸ h.nodup i
  constructor <;> dsimp only
  · intro p j
    have hiff := h.owner_iff p j
    rw [Function.update_apply]
    by_cases hp : p ∈ popped
    · have howner : s.owner p = some i := (h.owner_iff p i).mpr (hpop ▸ List.mem_append_left _ hp)
      rw [if_pos hp]
      constructor
      · exact nofun
      · split_ifs with hj
        · exact fun hmem => absurd rfl ((List.nodup_append.mp hnodup).2.2 p hp p hmem)
        · rw [← hiff, howner]
          exact fun heq => absurd (Option.some.inj heq).symm hj
    · rw [if_neg hp]
      split_ifs with hj
      · subst hj
        rw [hiff, ← hpop, List.mem_append]
        exact or_iff_right hp
      · exact hiff
  · intro j
    rw [Function.update_apply]
    split_ifs with hj
    · exact hnodup.of_append_right
    · exact h.nodup j

theorem Owned.foldl_handlePacketRemoved (packets : List QueuedPacket) :
    ∀ {s : BufferState ι}, s.Owned → (packets.foldl BufferState.handlePacketRemoved s).Owned ∧
      (packets.foldl BufferState.handlePacketRemoved s).packets = s.packets ∧
      ∀ p, (packets.foldl BufferState.handlePacketRemoved s).owner p =
        if p ∈ packets then none else s.owner p := by
  induction packets with
  | nil => exact fun h => ⟨h, rfl, fun p => rfl⟩
  | cons packet packets ih =>
    intro s h
    obtain ⟨howned, hpackets, howner⟩ := h.handlePacketRemoved packet
    obtain ⟨howned', hpackets', howner'⟩ := ih howned
    refine ⟨howned', hpackets'.trans hpackets, ?_⟩
    intro p
    rw [List.foldl_cons, howner', howner]
    by_cases hp : p = packet
    · simp [hp]
    · simp [hp]

theorem Owned.removeAllFromBuffer (h : s.Owned)
    (hrecorded : ∀ packet, s.owner packet ≠ none → packet ∈ s.packets) :
    s.removeAllFromBuffer.Consistent ∧ s.removeAllFromBuffer.packets = [] ∧
      ∀ i, s.removeAllFromBuffer.queues i = [] := by
  have howned : { s with packets := [] }.Owned := ⟨h.owner_iff, h.nodup⟩
  obtain ⟨howned', hpackets, howner⟩ := howned.foldl_handlePacketRemoved s.packets
  rw [← BufferState.removeAllFromBuffer] at howned' hpackets howner
  have hnone : ∀ p, s.removeAllFromBuffer.owner p = none := by
    intro p
    rw [howner]
    split_ifs with hp
    · rfl
    · by_contra hne
      exact hp (hrecorded p hne)
  refine ⟨⟨howned', ?_, ?_⟩, hpackets, ?_⟩
  · intro p
    simp [hpackets, hnone]
  · rw [hpackets]
    exact .nil
  · intro i
    apply List.eq_nil_iff_forall_not_mem.mpr
    exact fun p => howned'.owner_eq_none_iff.mp (hnone p) i

end BufferState

namespace PacketBuffer

variable [DecidableEq ι] {buffer : PacketBuffer ι} {s s' : BufferState ι}

omit [DecidableEq ι] in
theorem isOverloaded_nil : buffer.isOverloaded [] = false :=
  PacketQueue.decide_exceeds_nil buffer.packetCapacity_ge buffer.dataCapacity_ge

theorem dropPackets_spec (dropper : BufferDropper ι) {fuel : ℕ} (h : s.Consistent)
    (hfuel : s.packets.length ≤ fuel) :
    (buffer.dropPackets dropper fuel s).Consistent ∧
      buffer.isOverloaded (buffer.dropPackets dropper fuel s).packets = false := by
  induction fuel generalizing s with
  | zero =>
    obtain hnil := List.length_eq_zero_iff.mp (Nat.le_zero.mp hfuel)
    rw [dropPackets, hnil]
    exact ⟨h, isOverloaded_nil⟩
  | succ fuel ih =>
    rw [dropPackets]
    split_ifs with hloop
    · have hmem := dropper.selectPacket_mem s.packets s.owner hloop.1
      obtain ⟨hconsistent, hpackets⟩ := h.forget (dropper.selectPacket s.packets s.owner)
      apply ih hconsistent
      rw [hpackets, List.length_erase_of_mem hmem]
      omega
    · refine ⟨h, ?_⟩
      by_cases hnil : s.packets = []
      · rw [hnil]
        exact isOverloaded_nil
      · simpa using fun hover => hloop ⟨hnil, hover⟩

omit [DecidableEq ι] in
theorem isOverloaded_erase {packets : List QueuedPacket} {packet : QueuedPacket}
    (h : buffer.isOverloaded packets = false) (hmem : packet ∈ packets) :
    buffer.isOverloaded (packets.erase packet) = false := by
  have hperm := List.perm_cons_erase hmem
  have hlength := hperm.length_eq
  have hsum := (hperm.map (·.dataLength)).sum_eq
  simp only [List.length_cons, List.map_cons, List.sum_cons] at hlength hsum
  unfold isOverloaded getBitLength at h ⊢
  rw [decide_eq_false_iff_not] at h ⊢
  omega

theorem addPacket_spec {packet : QueuedPacket}
    (h : { s with packets := s.packets ++ [packet] }.Consistent)
    (hadd : buffer.addPacket s packet = .ok s') :
    s'.Consistent ∧ buffer.isOverloaded s'.packets = false := by
  unfold addPacket at hadd
  simp only at hadd
  split at hadd
  · split at hadd
    · cases hadd
      exact dropPackets_spec _ h le_rfl
    · cases hadd
  · rename_i hnot
    cases hadd
    exact ⟨h, by simpa using hnot⟩

end PacketBuffer

namespace SharedBuffer

open BufferState

variable [DecidableEq ι] {shared : SharedBuffer ι} {s s' : BufferState ι}

/-- A removal leaves the contents of the other queues unchanged. -/
def LeavesOthers (s s' : BufferState ι) : Call ι → Prop
  | .removePacket i _ | .removeAllPackets i => ∀ j, j ≠ i → s'.queues j = s.queues j
  | _ => True

/-- A packet is removed from the queue that holds it, and all packets only when there are none
in other queues. -/
def Confined (s : BufferState ι) : Call ι → Prop
  | .removePacket i packet => packet ∈ s.queues i
  | .removeAllPackets i => ∀ j, j ≠ i → s.queues j = []
  | _ => True

theorem consistent_pushed (shared : SharedBuffer ι) (h : s.Consistent) {i : ι}
    {packet : QueuedPacket}
    (howner : s.owner packet = none) :
    BufferState.Consistent
      { packets := s.packets ++ [packet]
        queues := Function.update s.queues i
          (insertPacket (shared.queue i).comparator packet (s.queues i))
        owner := Function.update s.owner packet (some i) } := by
  have hperm := @PacketQueue.insertPacket_perm (s.queues i) packet (shared.queue i).comparator
  have hnot := h.owner_eq_none_iff.mp howner
  have hnew : packet ∉ s.packets := by simp [h.recorded, howner]
  refine ⟨⟨?_, ?_⟩, ?_, ?_⟩ <;> dsimp only
  · intro p j
    rw [Function.update_apply, Function.update_apply]
    by_cases hp : p = packet
    · subst hp
      by_cases hj : j = i
      · subst hj
        simp [hperm.mem_iff]
      · simp [hj, Ne.symm hj, hnot j]
    · by_cases hj : j = i
      · subst hj
        simp [hp, hperm.mem_iff, h.owner_iff p j]
      · simp [hp, hj, h.owner_iff p j]
  · intro j
    rw [Function.update_apply]
    split_ifs with hj
    · exact hperm.nodup_iff.mpr (List.nodup_cons.mpr ⟨hnot i, h.nodup i⟩)
    · exact h.nodup j
  · intro p
    rw [Function.update_apply, List.mem_append, List.mem_singleton, h.recorded]
    split_ifs with hp <;> simp [hp]
  · exact List.nodup_append.mpr ⟨h.nodup_packets, List.nodup_singleton _, by
      rintro p hp _ hpacket rfl
      exact hnew (List.mem_singleton.mp hpacket ▸ hp)⟩

/-- The record agrees with the queues and is within the capacities. -/
structure Agrees (shared : SharedBuffer ι) (s : BufferState ι) : Prop where
  consistent : s.Consistent
  withinCapacity : shared.buffer.isOverloaded s.packets = false

theorem pushPacket_spec (h : shared.Agrees s) {i : ι} {packet : QueuedPacket}
    (hpush : shared.pushPacket s i packet = .ok s') : shared.Agrees s' := by
  unfold pushPacket at hpush
  split at hpush
  · cases hpush
  rename_i howner
  obtain ⟨s₁, hadd, hpush⟩ := Error.exists_of_bind_eq_ok hpush
  have hnone : s.owner packet = none := by simpa using howner
  obtain ⟨hconsistent, hcapacity⟩ :=
    PacketBuffer.addPacket_spec (consistent_pushed shared h.consistent hnone) hadd
  split at hpush
  · cases hpush
  · cases hpush
    exact ⟨hconsistent, hcapacity⟩

theorem removePacket_spec (h : shared.Agrees s) {i : ι} {packet : QueuedPacket}
    (hremove : (s.remove i packet).removeFromBuffer packet = .ok s') :
    shared.Agrees s' ∧ ((∀ j, j ≠ i → s'.queues j = s.queues j) ↔ packet ∈ s.queues i) := by
  rw [h.consistent.remove_removeFromBuffer] at hremove
  split at hremove
  · rename_i hmem
    cases hremove
    obtain ⟨hconsistent, hpackets⟩ := h.consistent.forget packet
    refine ⟨⟨hconsistent, ?_⟩, ?_⟩
    · rw [hpackets]
      exact PacketBuffer.isOverloaded_erase h.withinCapacity hmem
    · obtain ⟨k, howner⟩ := Option.ne_none_iff_exists'.mp ((h.consistent.recorded packet).mp hmem)
      have hk := (h.consistent.owner_iff packet k).mp howner
      rw [h.consistent.forget_eq howner]
      dsimp only
      constructor
      · intro hothers
        by_contra hnot
        have hne : k ≠ i := by
          rintro rfl
          exact hnot hk
        have hsame := hothers k hne
        rw [Function.update_self] at hsame
        exact (h.consistent.nodup k).not_mem_erase (hsame ▸ hk)
      · intro hi j hj
        have hki : k = i := by
          rw [← h.consistent.owner_iff, howner] at hi
          exact Option.some.inj hi
        rw [Function.update_of_ne (hki ▸ hj)]
  · cases hremove

theorem removeAllPackets_spec (h : shared.Agrees s) (i : ι)
    (hremove : shared.call s (.removeAllPackets i) = .ok s') :
    shared.Agrees s' ∧ ∀ j, s'.queues j = [] := by
  have hpop : (PacketQueue.removeAllPackets (s.queues i)).2 ++
      (PacketQueue.removeAllPackets (s.queues i)).1 = s.queues i :=
    (PacketQueue.popPackets_spec 0 (s.queues i)).1
  simp only [call] at hremove
  generalize PacketQueue.removeAllPackets (s.queues i) = r at hpop hremove
  obtain ⟨queue, popped⟩ := r
  have hrecorded : ∀ packet, (if packet ∈ popped then none else s.owner packet) ≠ none →
      packet ∈ s.packets := by
    intro packet hne
    rw [h.consistent.recorded]
    split at hne
    · exact absurd rfl hne
    · exact hne
  obtain ⟨hconsistent, hpackets, hqueues⟩ :=
    (h.consistent.pop hpop).removeAllFromBuffer hrecorded
  cases hremove
  refine ⟨⟨hconsistent, ?_⟩, hqueues⟩
  rw [hpackets]
  exact PacketBuffer.isOverloaded_nil

theorem call_spec (h : shared.Agrees s) {c : Call ι} (hcall : shared.call s c = .ok s') :
    shared.Agrees s' ∧ (LeavesOthers s s' c ↔ Confined s c) := by
  cases c with
  | pushPacket i packet => exact ⟨pushPacket_spec h hcall, Iff.rfl⟩
  | pullPacket i filter =>
    simp only [call] at hcall
    split at hcall
    · cases hcall
    · exact ⟨(removePacket_spec h hcall).1, Iff.rfl⟩
  | removePacket i packet => exact removePacket_spec h hcall
  | removeAllPackets i =>
    obtain ⟨hagrees, hqueues⟩ := removeAllPackets_spec h i hcall
    refine ⟨hagrees, ?_⟩
    simp only [LeavesOthers, Confined, hqueues]
    exact forall₂_congr fun _ _ => eq_comm

theorem agrees_run {calls : List (Call ι)} (h : shared.Agrees s)
    (hrun : shared.run s calls = .ok s') : shared.Agrees s' := by
  induction calls generalizing s with
  | nil =>
    cases hrun
    exact h
  | cons c calls ih =>
    rw [run, List.foldlM_cons] at hrun
    obtain ⟨s₁, hcall, hrun⟩ := Error.exists_of_bind_eq_ok hrun
    exact ih (call_spec h hcall).1 hrun

omit [DecidableEq ι] in
theorem agrees_initial (shared : SharedBuffer ι) : shared.Agrees .initial :=
  ⟨consistent_initial, PacketBuffer.isOverloaded_nil⟩

/-- In every run the packets of the buffer are those of the queues, each of them once, and within
the capacities; and the next removal leaves the other queues alone exactly when it is confined. -/
theorem buffer_agrees [Fintype ι] (shared : SharedBuffer ι) (calls : List (Call ι))
    {s : BufferState ι} (hrun : shared.run .initial calls = .ok s) :
    (s.packets : Multiset QueuedPacket) = ∑ i, (s.queues i : Multiset QueuedPacket) ∧
      s.packets.Nodup ∧ shared.buffer.isOverloaded s.packets = false ∧
      ∀ c s', shared.call s c = .ok s' → (LeavesOthers s s' c ↔ Confined s c) := by
  have h := agrees_run (agrees_initial shared) hrun
  exact ⟨h.consistent.packets_eq_sum, h.consistent.nodup_packets, h.withinCapacity,
    fun c s' hcall => (call_spec h hcall).2⟩

/-- Two queues, and a buffer for two packets that drops the first one. -/
def twoQueues : SharedBuffer (Fin 2) where
  buffer :=
    { packetCapacity := 2
      dataCapacity := -1
      dropper := some
        { selectPacket := fun packets _ => packets.headD ⟨0, 0⟩
          selectPacket_mem := by
            rintro (_ | ⟨packet, packets⟩) _ h
            · exact absurd rfl h
            · exact List.mem_cons_self }
      packetCapacity_ge := capacity_two
      dataCapacity_ge := capacity_unlimited }
  queue := fun _ =>
    { packetCapacity := -1
      dataCapacity := -1
      comparator := none
      dropper := none
      packetCapacity_ge := by decide
      dataCapacity_ge := by decide }

/-- The third packet drops the first one, which is of the other queue. -/
theorem buffer_agrees_twoQueues :
    ∃ s, twoQueues.run .initial [.pushPacket 0 ⟨1, 8⟩, .pushPacket 1 ⟨2, 8⟩,
        .pushPacket 1 ⟨3, 8⟩] = .ok s ∧ s.queues 0 = [] ∧ s.queues 1 = [⟨2, 8⟩, ⟨3, 8⟩] ∧
      (s.packets : Multiset QueuedPacket) = ∑ i, (s.queues i : Multiset QueuedPacket) := by
  refine ⟨_, rfl, by decide, by decide, ?_⟩
  exact (buffer_agrees twoQueues [.pushPacket 0 ⟨1, 8⟩, .pushPacket 1 ⟨2, 8⟩,
    .pushPacket 1 ⟨3, 8⟩] rfl).1

/-- `removeAllPackets` of one queue takes the packet of the other. -/
theorem other_queue_emptied :
    ∃ (calls : List (Call (Fin 2))) (s s' : BufferState (Fin 2)),
      twoQueues.run .initial calls = .ok s ∧ twoQueues.call s (.removeAllPackets 0) = .ok s' ∧
      s.queues 1 = [⟨2, 8⟩] ∧ s'.queues 1 = [] :=
  ⟨[.pushPacket 0 ⟨1, 8⟩, .pushPacket 1 ⟨2, 8⟩], _, _, rfl, rfl, by decide, by decide⟩

end SharedBuffer

end Inet.Queueing
