import Inet.Common.Error
import Mathlib.Algebra.BigOperators.Group.List.Basic
import Mathlib.Data.List.DropRight
import Mathlib.Data.List.Perm.Basic

/-! # The packet queue

`PacketQueue` without a buffer module. In every run each pushed packet is
queued, pulled, dropped or removed, a push leaves the queue within its
capacities, and pulls follow the order of the queue. `removeAllPackets` counts
up to the length of the queue while it takes packets out, and so removes all
of them only if there is at most one.
-/

namespace Inet.Queueing

/-- A packet, which is known by its place in memory. -/
structure QueuedPacket where
  address : ℕ
  dataLength : ℕ
  deriving DecidableEq, Repr

/-- An `IPacketComparatorFunction` that orders the packets. -/
structure PacketComparator where
  comparePackets : QueuedPacket → QueuedPacket → ℤ
  total : ∀ a b, ¬ comparePackets b a < 0 ∨ ¬ comparePackets a b < 0
  trans : ∀ a b c, ¬ comparePackets b a < 0 → ¬ comparePackets c b < 0 → ¬ comparePackets c a < 0

namespace PacketComparator

def less (comparator : PacketComparator) (a b : QueuedPacket) : Bool :=
  comparator.comparePackets a b < 0

end PacketComparator

/-- The registered dropper functions that take a packet from an end of the collection. -/
inductive PacketDropper where
  | packetAtCollectionEnd
  | packetAtCollectionBegin
  deriving DecidableEq, Repr

/-- The parameters of the queue; a capacity of `-1` stands for no limit. -/
structure PacketQueue where
  packetCapacity : ℤ
  dataCapacity : ℤ
  comparator : Option PacketComparator
  dropper : Option PacketDropper
  packetCapacity_ge : -1 ≤ packetCapacity
  dataCapacity_ge : -1 ≤ dataCapacity

theorem capacity_two : (-1 : ℤ) ≤ 2 := by decide

theorem capacity_unlimited : (-1 : ℤ) ≤ -1 := by decide

/-- `cQueue::insert`: at the back, or behind the last packet that the new one is not less than. -/
def insertPacket (comparator : Option PacketComparator) (packet : QueuedPacket)
    (queue : List QueuedPacket) : List QueuedPacket :=
  match comparator with
  | none => queue ++ [packet]
  | some comparator =>
    queue.rdropWhile (comparator.less packet) ++
      packet :: queue.rtakeWhile (comparator.less packet)

/-- `cPacketQueue::getBitLength`. -/
def getBitLength (queue : List QueuedPacket) : ℤ := ((queue.map (·.dataLength)).sum : ℕ)

/-- `IPacketDropperFunction::selectPacket`. -/
def PacketDropper.selectPacket (queue : List QueuedPacket) :
    PacketDropper → Except Error QueuedPacket
  | packetAtCollectionEnd =>
    match queue.getLast? with
    | some packet => .ok packet
    | none => .error (.runtime "index %i out of range")
  | packetAtCollectionBegin =>
    match queue.head? with
    | some packet => .ok packet
    | none => .error (.runtime "index %i out of range")

namespace PacketQueue

variable (pq : PacketQueue)

def isOverloaded (queue : List QueuedPacket) : Bool :=
  (pq.packetCapacity ≠ -1 ∧ pq.packetCapacity < queue.length) ∨
    (pq.dataCapacity ≠ -1 ∧ pq.dataCapacity < getBitLength queue)

def canPushPacket (queue : List QueuedPacket) (packet : QueuedPacket) : Bool :=
  pq.dropper.isSome ||
    (!decide (pq.packetCapacity ≠ -1 ∧ pq.packetCapacity ≤ queue.length) &&
      !decide (pq.dataCapacity ≠ -1 ∧
        pq.dataCapacity - getBitLength queue < packet.dataLength))

/-- The loop of `pushPacket`: the queue after it, and the dropped packets. -/
def dropPackets (dropper : PacketDropper) :
    ℕ → List QueuedPacket → Except Error (List QueuedPacket × List QueuedPacket)
  | 0, queue => .ok (queue, [])
  | fuel + 1, queue =>
    if pq.isOverloaded queue then do
      let packet ← dropper.selectPacket queue
      let (queue, dropped) ← dropPackets dropper fuel (queue.erase packet)
      pure (queue, packet :: dropped)
    else .ok (queue, [])

def pushPacket (queue : List QueuedPacket) (packet : QueuedPacket) :
    Except Error (List QueuedPacket × List QueuedPacket) :=
  let queue := insertPacket pq.comparator packet queue
  match pq.dropper with
  | some dropper => pq.dropPackets dropper queue.length queue
  | none =>
    if pq.isOverloaded queue then
      .error (.runtime "Queue is overloaded without a packet dropper")
    else .ok (queue, [])

/-- `canPullPacket` with a filter. -/
def canPullPacket (queue : List QueuedPacket) (filter : QueuedPacket → Bool) :
    Option QueuedPacket :=
  queue.find? filter

/-- `pullPacket` with a filter. -/
def pullPacket (queue : List QueuedPacket) (filter : QueuedPacket → Bool) :
    Except Error (List QueuedPacket × QueuedPacket) :=
  match canPullPacket queue filter with
  | none => .error (.runtime "Cannot pull packet, the filter matches no packet")
  | some packet => .ok (queue.erase packet, packet)

def anyPacket : QueuedPacket → Bool := fun _ => true

def removePacket (queue : List QueuedPacket) (packet : QueuedPacket) : List QueuedPacket :=
  queue.erase packet

/-- The loop of `removeAllPackets` from the given index on: the queue after it, and the packets that
were popped. -/
def popPackets (index : ℕ) : List QueuedPacket → List QueuedPacket × List QueuedPacket
  | [] => ([], [])
  | packet :: queue =>
    if index < (packet :: queue).length then
      let (queue, popped) := popPackets (index + 1) queue
      (queue, packet :: popped)
    else (packet :: queue, [])

def removeAllPackets (queue : List QueuedPacket) : List QueuedPacket × List QueuedPacket :=
  popPackets 0 queue

/-- A call of the queue. The pull without a filter is the one with `anyPacket`. -/
inductive Call where
  | pushPacket (packet : QueuedPacket)
  | pullPacket (filter : QueuedPacket → Bool)
  | removePacket (packet : QueuedPacket)
  | removeAllPackets

/-- The queue, and the packets that were pushed, and that left it, in order. -/
structure Ledger where
  queue : List QueuedPacket
  pushed : List QueuedPacket
  pulled : List QueuedPacket
  dropped : List QueuedPacket
  removed : List QueuedPacket
  deriving DecidableEq, Repr

def Ledger.empty : Ledger := ⟨[], [], [], [], []⟩

def call (ledger : Ledger) : Call → Except Error Ledger
  | .pushPacket packet => do
    let (queue, dropped) ← pq.pushPacket ledger.queue packet
    pure { ledger with
      queue := queue
      pushed := ledger.pushed ++ [packet]
      dropped := ledger.dropped ++ dropped }
  | .pullPacket filter => do
    let (queue, packet) ← pullPacket ledger.queue filter
    pure { ledger with queue := queue, pulled := ledger.pulled ++ [packet] }
  | .removePacket packet =>
    pure { ledger with
      queue := removePacket ledger.queue packet
      removed := ledger.removed ++ [packet] }
  | .removeAllPackets =>
    let (queue, popped) := removeAllPackets ledger.queue
    pure { ledger with queue := queue, removed := ledger.removed ++ popped }

def run (ledger : Ledger) (calls : List Call) : Except Error Ledger :=
  calls.foldlM pq.call ledger

/-- What the interfaces ask of the callers: a packet is pushed when the queue accepts it, pulled
when the filter matches a queued packet, and removed when it is queued. -/
def Allowed (ledger : Ledger) : Call → Prop
  | .pushPacket packet => pq.canPushPacket ledger.queue packet
  | .pullPacket filter => ∃ packet ∈ ledger.queue, filter packet
  | .removePacket packet => packet ∈ ledger.queue
  | .removeAllPackets => True

def AllowedRun (ledger : Ledger) : List Call → Prop
  | [] => True
  | c :: calls => pq.Allowed ledger c ∧
      ∀ ledger', pq.call ledger c = .ok ledger' → AllowedRun ledger' calls

variable {pq} {queue queue' : List QueuedPacket} {packet : QueuedPacket}

theorem insertPacket_perm (comparator : Option PacketComparator) :
    (insertPacket comparator packet queue).Perm (packet :: queue) := by
  cases comparator with
  | none => exact List.perm_append_singleton _ _
  | some comparator =>
    refine List.perm_middle.trans ?_
    rw [List.rdropWhile_append_rtakeWhile]

/-- No capacity is exceeded by nothing, `-1` standing for an unlimited one. -/
theorem decide_exceeds_nil {packetCapacity dataCapacity : ℤ} (hp : -1 ≤ packetCapacity)
    (hd : -1 ≤ dataCapacity) :
    decide ((packetCapacity ≠ -1 ∧ packetCapacity < ([] : List QueuedPacket).length) ∨
      (dataCapacity ≠ -1 ∧ dataCapacity < getBitLength [])) = false := by
  simp only [List.length_nil, getBitLength, List.map_nil, List.sum_nil, decide_eq_false_iff_not]
  push_cast
  omega

theorem isOverloaded_nil : pq.isOverloaded [] = false :=
  decide_exceeds_nil pq.packetCapacity_ge pq.dataCapacity_ge

theorem not_isOverloaded_of_canPushPacket (hdropper : pq.dropper = none)
    (h : pq.canPushPacket queue packet) :
    pq.isOverloaded (insertPacket pq.comparator packet queue) = false := by
  have hperm := @insertPacket_perm queue packet pq.comparator
  have hlength : getBitLength (insertPacket pq.comparator packet queue) =
      packet.dataLength + getBitLength queue := by
    unfold getBitLength
    rw [(hperm.map _).sum_eq, List.map_cons, List.sum_cons]
    push_cast
    rfl
  simp only [canPushPacket, hdropper, Option.isSome_none, Bool.false_or, Bool.and_eq_true,
    Bool.not_eq_true', decide_eq_false_iff_not] at h
  simp only [isOverloaded, hlength, hperm.length_eq, List.length_cons, decide_eq_false_iff_not]
  push_cast
  omega

theorem dropPackets_spec (dropper : PacketDropper) {fuel : ℕ} (hfuel : queue.length ≤ fuel) :
    ∃ queue' dropped, pq.dropPackets dropper fuel queue = .ok (queue', dropped) ∧
      pq.isOverloaded queue' = false ∧ (queue' ++ dropped).Perm queue ∧
      queue'.Sublist queue := by
  induction fuel generalizing queue with
  | zero =>
    obtain rfl := List.length_eq_zero_iff.1 (Nat.le_zero.1 hfuel)
    exact ⟨[], [], rfl, isOverloaded_nil, .nil, .slnil⟩
  | succ fuel ih =>
    rw [dropPackets]
    by_cases hover : pq.isOverloaded queue = true
    · obtain ⟨p, hselect, hp⟩ : ∃ p, dropper.selectPacket queue = .ok p ∧ p ∈ queue := by
        have hne : queue ≠ [] := by
          rintro rfl
          rw [isOverloaded_nil] at hover
          cases hover
        cases dropper with
        | packetAtCollectionEnd =>
          rw [PacketDropper.selectPacket, List.getLast?_eq_some_getLast hne]
          exact ⟨_, rfl, List.getLast_mem hne⟩
        | packetAtCollectionBegin =>
          rw [PacketDropper.selectPacket, List.head?_eq_some_head hne]
          exact ⟨_, rfl, List.head_mem hne⟩
      have hlen := List.length_erase_of_mem hp
      obtain ⟨queue', dropped, hdrop, hnot, hperm, hsub⟩ :=
        ih (show (queue.erase p).length ≤ fuel by omega)
      refine ⟨queue', p :: dropped, ?_, hnot, ?_, hsub.trans List.erase_sublist⟩
      · rw [if_pos hover, hselect]
        simp only [Error.ok_bind, hdrop, Error.pure_eq_ok]
      · exact List.perm_middle.trans ((hperm.cons p).trans (List.perm_cons_erase hp).symm)
    · refine ⟨queue, [], if_neg hover, by simpa using hover, by simp, .refl _⟩

theorem pushPacket_spec (h : pq.canPushPacket queue packet) :
    ∃ queue' dropped, pq.pushPacket queue packet = .ok (queue', dropped) ∧
      pq.isOverloaded queue' = false ∧ (queue' ++ dropped).Perm (packet :: queue) ∧
      queue'.Sublist (insertPacket pq.comparator packet queue) := by
  rw [pushPacket]
  cases hdropper : pq.dropper with
  | some dropper =>
    obtain ⟨queue', dropped, hdrop, hnot, hperm, hsub⟩ :=
      @dropPackets_spec pq (insertPacket pq.comparator packet queue) dropper _ le_rfl
    exact ⟨queue', dropped, hdrop, hnot, hperm.trans (insertPacket_perm _), hsub⟩
  | none =>
    have hnot := not_isOverloaded_of_canPushPacket hdropper h
    refine ⟨_, [], if_neg (by simp [hnot]), hnot, ?_, .refl _⟩
    rw [List.append_nil]
    exact insertPacket_perm _

theorem pullPacket_spec {filter : QueuedPacket → Bool} (h : ∃ packet ∈ queue, filter packet) :
    ∃ front packet back, queue = front ++ packet :: back ∧ (∀ p ∈ front, filter p = false) ∧
      filter packet = true ∧ pullPacket queue filter = .ok (front ++ back, packet) := by
  obtain ⟨packet, hfind⟩ := Option.isSome_iff_exists.1 (List.find?_isSome.2 h)
  obtain ⟨hpacket, front, back, rfl, hfront⟩ := List.find?_eq_some_iff_append.1 hfind
  have hfront' : ∀ p ∈ front, filter p = false := by simpa using hfront
  refine ⟨front, packet, back, rfl, hfront', hpacket, ?_⟩
  have hnotin : packet ∉ front := by
    intro hmem
    simp [hfront' packet hmem] at hpacket
  rw [pullPacket, canPullPacket, hfind]
  simp only
  rw [List.erase_append_right _ hnotin, List.erase_cons_head]

theorem popPackets_spec (index : ℕ) (queue : List QueuedPacket) :
    (popPackets index queue).2 ++ (popPackets index queue).1 = queue ∧
      (popPackets index queue).1.length = queue.length - (queue.length - index + 1) / 2 := by
  induction queue generalizing index with
  | nil => simp [popPackets]
  | cons packet queue ih =>
    obtain ⟨happend, hlength⟩ := ih (index + 1)
    rw [popPackets]
    split
    next hlt =>
      rw [List.length_cons] at hlt
      refine ⟨by simp only [List.cons_append, happend], ?_⟩
      simp only [hlength, List.length_cons]
      omega
    next hge =>
      rw [List.length_cons] at hge
      refine ⟨rfl, ?_⟩
      simp only [List.length_cons]
      omega

theorem removeAllPackets_eq_nil_iff :
    (removeAllPackets queue).1 = [] ↔ queue.length ≤ 1 := by
  rw [← List.length_eq_zero_iff, removeAllPackets, (popPackets_spec 0 queue).2]
  omega

/-- Each pushed packet is in one of the four places. -/
def Ledger.Conserved (ledger : Ledger) : Prop :=
  (ledger.queue ++ (ledger.pulled ++ (ledger.dropped ++ ledger.removed))).Perm ledger.pushed

/-- The order of the queue: that of the comparator, or that of the pushes. -/
def Ordered (pq : PacketQueue) (ledger : Ledger) : Prop :=
  match pq.comparator with
  | none => ledger.queue.Sublist ledger.pushed
  | some comparator => ledger.queue.Pairwise fun a b => comparator.less b a = false

theorem PacketComparator.pairwise_insertPacket (comparator : PacketComparator)
    (h : queue.Pairwise fun a b => comparator.less b a = false) :
    (insertPacket (some comparator) packet queue).Pairwise
      fun a b => comparator.less b a = false := by
  have happend := @List.rdropWhile_append_rtakeWhile _ (comparator.less packet) queue
  have hlater : ∀ p ∈ queue.rtakeWhile (comparator.less packet),
      comparator.less p packet = false := by
    intro p hp
    have hless := List.mem_rtakeWhile_imp hp
    have htotal := comparator.total packet p
    simp only [PacketComparator.less, decide_eq_true_eq, decide_eq_false_iff_not] at hless ⊢
    exact htotal.resolve_right (not_not.2 hless)
  have hearlier : ∀ p ∈ queue.rdropWhile (comparator.less packet),
      comparator.less packet p = false := by
    intro p hp
    -- The last packet that stays in front is not greater, and the ones before it are not either.
    have hne : queue.rdropWhile (comparator.less packet) ≠ [] := List.ne_nil_of_mem hp
    have hlast := List.rdropWhile_last_not (comparator.less packet) queue hne
    have hpair := h.sublist (List.rdropWhile_prefix (comparator.less packet) queue).sublist
    rw [← List.dropLast_append_getLast hne] at hp hpair
    rcases List.mem_append.1 hp with hp | hp
    · have hle := (List.pairwise_append.1 hpair).2.2 p hp _ (List.mem_singleton_self _)
      simp only [PacketComparator.less, decide_eq_true_eq, decide_eq_false_iff_not] at hlast hle ⊢
      exact comparator.trans _ _ _ hle hlast
    · rw [List.mem_singleton.1 hp]
      simpa using hlast
  rw [← happend, List.pairwise_append] at h
  obtain ⟨hfront, hback, hcross⟩ := h
  refine List.pairwise_append.2 ⟨hfront, List.pairwise_cons.2 ⟨hlater, hback⟩, ?_⟩
  intro a ha b hb
  rcases List.mem_cons.1 hb with rfl | hb
  · exact hearlier a ha
  · exact hcross a ha b hb

theorem Ordered.sublist {ledger ledger' : Ledger} (h : pq.Ordered ledger)
    (hsub : ledger'.queue.Sublist ledger.queue) (hpushed : ledger'.pushed = ledger.pushed) :
    pq.Ordered ledger' := by
  unfold Ordered at h ⊢
  split at h
  · rw [hpushed]
    exact hsub.trans h
  · exact h.sublist hsub

theorem Ordered.push {ledger ledger' : Ledger} (h : pq.Ordered ledger)
    (hsub : ledger'.queue.Sublist (insertPacket pq.comparator packet ledger.queue))
    (hpushed : ledger'.pushed = ledger.pushed ++ [packet]) : pq.Ordered ledger' := by
  unfold Ordered at h ⊢
  split at h
  next hnone =>
    rw [hnone, insertPacket] at hsub
    rw [hpushed]
    exact hsub.trans (h.append (.refl _))
  next comparator hsome =>
    rw [hsome] at hsub
    exact (PacketComparator.pairwise_insertPacket comparator h).sublist hsub

/-- What is expected of a call, as the interfaces describe it. -/
def Fulfils (pq : PacketQueue) (ledger ledger' : Ledger) : Call → Prop
  | .pushPacket _ => pq.isOverloaded ledger'.queue = false
  | .pullPacket filter => ∃ front packet back, ledger.queue = front ++ packet :: back ∧
      (∀ p ∈ front, filter p = false) ∧ filter packet = true ∧
      ledger'.queue = front ++ back ∧ ledger'.pulled = ledger.pulled ++ [packet]
  | .removePacket packet => ledger'.removed = ledger.removed ++ [packet]
  | .removeAllPackets => ledger'.queue = [] ∧ ledger'.removed = ledger.removed ++ ledger.queue

theorem call_spec {ledger : Ledger} (hconserved : ledger.Conserved) (hordered : pq.Ordered ledger)
    {c : Call} (h : pq.Allowed ledger c) :
    ∃ ledger', pq.call ledger c = .ok ledger' ∧ ledger'.Conserved ∧ pq.Ordered ledger' ∧
      (pq.Fulfils ledger ledger' c ↔ (c = .removeAllPackets → ledger.queue.length ≤ 1)) := by
  unfold Ledger.Conserved at *
  cases c with
  | pushPacket packet =>
    obtain ⟨queue', dropped, hpush, hnot, hperm, hsub⟩ := pushPacket_spec h
    refine ⟨_, by rw [call, hpush]; rfl, ?_, hordered.push hsub rfl, ?_⟩
    · rw [List.perm_iff_count] at *
      intro p
      have h₁ := hconserved p
      have h₂ := hperm p
      simp only [List.count_append, List.count_cons, List.count_nil] at h₁ h₂ ⊢
      omega
    · simpa [Fulfils] using hnot
  | pullPacket filter =>
    obtain ⟨front, packet, back, hqueue, hfront, hpacket, hpull⟩ := pullPacket_spec h
    refine ⟨{ ledger with queue := front ++ back, pulled := ledger.pulled ++ [packet] },
      by rw [call, hpull]; rfl, ?_, hordered.sublist ?_ rfl, ?_⟩
    · rw [List.perm_iff_count] at *
      intro p
      have h₁ := hconserved p
      rw [hqueue] at h₁
      simp only [List.count_append, List.count_cons, List.count_nil] at h₁ ⊢
      omega
    · rw [hqueue]
      exact (List.Sublist.refl _).append (List.sublist_cons_self _ _)
    · simp only [Fulfils, reduceCtorEq, false_implies, iff_true]
      exact ⟨front, packet, back, hqueue, hfront, hpacket, rfl, rfl⟩
  | removePacket packet =>
    refine ⟨_, rfl, ?_, hordered.sublist List.erase_sublist rfl, by simp [Fulfils]⟩
    have hperm := List.perm_cons_erase (show packet ∈ ledger.queue from h)
    rw [List.perm_iff_count] at *
    intro p
    have h₁ := hconserved p
    have h₂ := hperm p
    simp only [removePacket, List.count_append, List.count_cons, List.count_nil] at h₁ h₂ ⊢
    omega
  | removeAllPackets =>
    have hnil := @removeAllPackets_eq_nil_iff ledger.queue
    have happend := (popPackets_spec 0 ledger.queue).1
    rw [← removeAllPackets] at happend
    refine ⟨{ ledger with
      queue := (removeAllPackets ledger.queue).1
      removed := ledger.removed ++ (removeAllPackets ledger.queue).2 }, rfl, ?_,
      hordered.sublist ?_ rfl, ?_⟩
    · rw [List.perm_iff_count] at *
      intro p
      have h₁ := hconserved p
      nth_rewrite 1 [← happend] at h₁
      simp only [List.count_append] at h₁ ⊢
      omega
    · have hsub := List.sublist_append_right (removeAllPackets ledger.queue).2
        (removeAllPackets ledger.queue).1
      rwa [happend] at hsub
    · simp only [Fulfils, true_implies, ← hnil]
      constructor
      · exact And.left
      · intro hempty
        rw [hempty, List.append_nil] at happend
        exact ⟨hempty, by rw [happend]⟩

/-- In every allowed run no call fails, each pushed packet is in one place, the queue is in order,
and the next call does what is expected of it, unless it is a removal of all of several packets. -/
theorem queue_conserves (pq : PacketQueue) (calls : List Call)
    (h : pq.AllowedRun Ledger.empty calls) :
    ∃ ledger, pq.run Ledger.empty calls = .ok ledger ∧
      (∀ packet, ledger.queue.count packet + ledger.pulled.count packet +
        ledger.dropped.count packet + ledger.removed.count packet = ledger.pushed.count packet) ∧
      pq.Ordered ledger ∧
      ∀ c, pq.Allowed ledger c → ∃ ledger', pq.call ledger c = .ok ledger' ∧
        (pq.Fulfils ledger ledger' c ↔ (c = .removeAllPackets → ledger.queue.length ≤ 1)) := by
  have hrun : ∀ {ledger : Ledger}, ledger.Conserved → pq.Ordered ledger →
      pq.AllowedRun ledger calls →
      ∃ ledger', pq.run ledger calls = .ok ledger' ∧ ledger'.Conserved ∧ pq.Ordered ledger' := by
    clear h
    induction calls with
    | nil => exact fun hconserved hordered _ => ⟨_, rfl, hconserved, hordered⟩
    | cons c calls ih =>
      rintro ledger hconserved hordered ⟨hallowed, hrest⟩
      obtain ⟨ledger', hcall, hconserved', hordered', -⟩ := call_spec hconserved hordered hallowed
      obtain ⟨final, hfinal, hspec⟩ := ih hconserved' hordered' (hrest ledger' hcall)
      refine ⟨final, ?_, hspec⟩
      rw [run, List.foldlM_cons, hcall]
      exact hfinal
  have hempty : pq.Ordered Ledger.empty := by
    unfold Ordered
    split
    · exact .refl _
    · exact List.Pairwise.nil
  obtain ⟨ledger, hok, hconserved, hordered⟩ :=
    hrun (by simp [Ledger.Conserved, Ledger.empty]) hempty h
  refine ⟨ledger, hok, fun packet => ?_, hordered, fun c hc => ?_⟩
  · have hcount := hconserved.count_eq packet
    simp only [List.count_append] at hcount
    omega
  · obtain ⟨ledger', hcall, -, -, hfulfils⟩ := call_spec hconserved hordered hc
    exact ⟨ledger', hcall, hfulfils⟩

/-- A queue for two packets that drops from its end. -/
def dropTail_2 : PacketQueue where
  packetCapacity := 2
  dataCapacity := -1
  comparator := none
  dropper := some .packetAtCollectionEnd
  packetCapacity_ge := capacity_two
  dataCapacity_ge := capacity_unlimited

/-- The third packet is dropped, the first is pulled, and the second can be pulled next. -/
theorem queue_conserves_dropTail_2 :
    dropTail_2.run Ledger.empty [.pushPacket ⟨1, 8⟩, .pushPacket ⟨2, 8⟩, .pushPacket ⟨3, 8⟩,
        .pullPacket anyPacket] =
      .ok ⟨[⟨2, 8⟩], [⟨1, 8⟩, ⟨2, 8⟩, ⟨3, 8⟩], [⟨1, 8⟩], [⟨3, 8⟩], []⟩ ∧
    ∃ ledger', dropTail_2.call
        ⟨[⟨2, 8⟩], [⟨1, 8⟩, ⟨2, 8⟩, ⟨3, 8⟩], [⟨1, 8⟩], [⟨3, 8⟩], []⟩ .removeAllPackets =
      .ok ledger' ∧ ledger'.queue = [] := by
  have hrun : dropTail_2.run Ledger.empty [.pushPacket ⟨1, 8⟩, .pushPacket ⟨2, 8⟩,
        .pushPacket ⟨3, 8⟩, .pullPacket anyPacket] =
      .ok ⟨[⟨2, 8⟩], [⟨1, 8⟩, ⟨2, 8⟩, ⟨3, 8⟩], [⟨1, 8⟩], [⟨3, 8⟩], []⟩ := by
    decide +kernel
  have hallowed : dropTail_2.AllowedRun Ledger.empty [.pushPacket ⟨1, 8⟩, .pushPacket ⟨2, 8⟩,
      .pushPacket ⟨3, 8⟩, .pullPacket anyPacket] := by
    refine ⟨rfl, fun _ h₁ => ⟨rfl, fun _ h₂ => ⟨rfl, fun _ h₃ => ⟨?_, fun _ _ => trivial⟩⟩⟩⟩
    obtain rfl := Except.ok.inj h₁
    obtain rfl := Except.ok.inj h₂
    obtain rfl := Except.ok.inj h₃
    exact ⟨⟨1, 8⟩, by decide, rfl⟩
  obtain ⟨ledger, hledger, -, -, hnext⟩ := queue_conserves dropTail_2 _ hallowed
  obtain rfl := Except.ok.inj (hrun.symm.trans hledger)
  obtain ⟨ledger', hcall, hfulfils⟩ := hnext .removeAllPackets trivial
  exact ⟨hrun, ledger', hcall, (hfulfils.2 fun _ => by decide).1⟩

/-- Of two packets only the first is removed. -/
theorem queue_not_emptied :
    ¬ ∀ (pq : PacketQueue) (calls : List Call) (ledger ledger' : Ledger),
      pq.AllowedRun Ledger.empty calls → pq.run Ledger.empty calls = .ok ledger →
      pq.call ledger .removeAllPackets = .ok ledger' → ledger'.queue = [] := by
  intro h
  have hqueue := h dropTail_2 [.pushPacket ⟨1, 8⟩, .pushPacket ⟨2, 8⟩]
    ⟨[⟨1, 8⟩, ⟨2, 8⟩], [⟨1, 8⟩, ⟨2, 8⟩], [], [], []⟩
    ⟨[⟨2, 8⟩], [⟨1, 8⟩, ⟨2, 8⟩], [], [], [⟨1, 8⟩]⟩
    ⟨rfl, fun _ _ => ⟨rfl, fun _ _ => trivial⟩⟩ (by decide +kernel) (by decide +kernel)
  cases hqueue

end PacketQueue

end Inet.Queueing
