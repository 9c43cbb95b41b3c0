import Inet.Common.Error
import Mathlib.Algebra.BigOperators.Fin
import Mathlib.Algebra.Order.BigOperators.Group.Finset
import Mathlib.Data.List.Count
import Mathlib.Logic.Function.Basic
import Mathlib.Tactic.SplitIfs

/-! # The weighted round robin scheduler

Each input has a bucket, which is filled to the weight of the input when a
round starts and loses one token for each packet. A round starts when a packet
is taken from an input with a weight whose bucket is empty, which happens only
when every other bucket that could be used is empty too.
-/

namespace Inet.Queueing

/-- What a passive packet source answers at one moment, without and with a filter: the queries
change nothing, and a packet that can be pulled is the one that a pull returns. -/
structure Provider (Packet Filter : Type) where
  canPullSomePacket : Bool
  canPullPacket : Option Filter → Option Packet
  pullPacket : Option Filter → Except Error Packet
  some_iff : canPullSomePacket = true ↔ (canPullPacket none).isSome = true
  pull_eq : ∀ filter packet, canPullPacket filter = some packet → pullPacket filter = .ok packet

/-- The test of the loop of `schedulePacket`. -/
def Provider.matches {Packet Filter : Type} (provider : Provider Packet Filter) :
    Option Filter → Bool
  | none => provider.canPullSomePacket
  | some filter => (provider.canPullPacket (some filter)).isSome

structure WrrScheduler (n : ℕ) where
  weights : Fin n → ℕ
  buckets : Fin n → ℕ
  inProgressStreamId : ℤ

namespace WrrScheduler

variable {n : ℕ} {Packet Filter : Type}

/-- `initialize` with the values of the `weights` parameter. -/
def initial (values : List ℕ) : Except Error (WrrScheduler n) :=
  if h : n ≤ values.length then
    if values.length > n then
      throw (.runtime "Too many values given in the weights parameter.")
    else
      let weights (i : Fin n) := values.get (i.castLE h)
      pure ⟨weights, weights, -1⟩
  else throw (.runtime "Too few values given in the weights parameter.")

section Schedule

variable (s : WrrScheduler n) (providers : Fin n → Provider Packet Filter)
  (filter : Option Filter)

/-- The loop of `schedulePacket` and what follows it. -/
def scheduleLoop (firstWeighted firstNonWeighted : ℤ) : List (Fin n) → ℤ
  | [] =>
    if firstWeighted ≠ -1 then firstWeighted
    else if firstNonWeighted ≠ -1 then firstNonWeighted
    else -1
  | i :: is =>
    if (providers i).matches filter then
      if s.buckets i > 0 then i
      else if firstWeighted = -1 ∧ s.weights i > 0 then scheduleLoop i firstNonWeighted is
      else if firstNonWeighted = -1 ∧ s.weights i = 0 then scheduleLoop firstWeighted i is
      else scheduleLoop firstWeighted firstNonWeighted is
    else scheduleLoop firstWeighted firstNonWeighted is

def schedulePacket : ℤ := s.scheduleLoop providers filter (-1) (-1) (List.finRange n)

/-- The gate of an index, if there is one. -/
def gate? (index : ℤ) : Option (Fin n) :=
  if h : 0 ≤ index ∧ index < n then some ⟨index.toNat, by omega⟩ else none

def callSchedulePacket : Except Error (Fin n) :=
  match gate? (s.schedulePacket providers filter) with
  | none => throw (.runtime "Scheduled packet from invalid input gate: %d")
  | some index => pure index

def handlePacketScheduled (index : Fin n) : WrrScheduler n :=
  if s.buckets index > 0 then
    { s with buckets := Function.update s.buckets index (s.buckets index - 1) }
  else if s.weights index > 0 then
    { s with buckets := Function.update s.weights index (s.weights index - 1) }
  else s

/-- `canPullPacket` without and with a filter. -/
def canPullPacket : Except Error (Option Packet) :=
  if filter.isSome = true ∧ s.inProgressStreamId ≠ -1 then
    throw (.runtime "Another packet streaming operation is already in progress")
  else match gate? (s.schedulePacket providers filter) with
    | none => pure none
    | some index => pure ((providers index).canPullPacket filter)

/-- `pullPacket` without and with a filter. -/
def pullPacket : Except Error (Packet × WrrScheduler n) := do
  if s.inProgressStreamId ≠ -1 then
    throw (.runtime "Another packet streaming operation is already in progress")
  let index ← s.callSchedulePacket providers filter
  let packet ← (providers index).pullPacket filter
  pure (packet, s.handlePacketScheduled index)

end Schedule

end WrrScheduler

/-- The sources that a pull finds, and its filter. -/
structure Pull (n : ℕ) (Packet Filter : Type) where
  providers : Fin n → Provider Packet Filter
  filter : Option Filter

/-- The input that a pull can get a packet from. -/
def Pull.Available {n : ℕ} {Packet Filter : Type} (pull : Pull n Packet Filter) (i : Fin n) :
    Prop :=
  ((pull.providers i).canPullPacket pull.filter).isSome = true

/-- Pulls that return, with the inputs that they serve. -/
inductive Serves {n : ℕ} {Packet Filter : Type} :
    WrrScheduler n → List (Pull n Packet Filter) → List (Fin n) → WrrScheduler n → Prop
  | nil (s : WrrScheduler n) : Serves s [] [] s
  | cons {s s' s'' : WrrScheduler n} {pull : Pull n Packet Filter} {index : Fin n}
      {packet : Packet} {pulls : List (Pull n Packet Filter)} {served : List (Fin n)}
      (hindex : s.schedulePacket pull.providers pull.filter = (index : ℕ))
      (hpull : s.pullPacket pull.providers pull.filter = .ok (packet, s'))
      (h : Serves s' pulls served s'') : Serves s (pull :: pulls) (index :: served) s''

/-! ## What is scheduled -/

section Scheduled

variable {n : ℕ} {Packet Filter : Type} {s s' : WrrScheduler n}
  {pull : Pull n Packet Filter} {packet : Packet}

theorem Pull.matches_iff (i : Fin n) :
    (pull.providers i).matches pull.filter = true ↔ pull.Available i := by
  obtain ⟨providers, filter⟩ := pull
  cases filter with
  | none => exact (providers i).some_iff
  | some filter => exact Iff.rfl

/-- The index that the loop returns, with the reason for it. -/
inductive Scheduled (s : WrrScheduler n) (pull : Pull n Packet Filter) : ℤ → Prop
  | nothing (h : ∀ i, ¬ pull.Available i) : Scheduled s pull (-1)
  | loaded (i : Fin n) (h : pull.Available i) (hbucket : 0 < s.buckets i) :
      Scheduled s pull (i : ℕ)
  | weighted (i : Fin n) (h : pull.Available i) (hweight : 0 < s.weights i)
      (hempty : ∀ j, pull.Available j → s.buckets j = 0) : Scheduled s pull (i : ℕ)
  | nonWeighted (i : Fin n) (h : pull.Available i) (hweight : s.weights i = 0)
      (hempty : ∀ j, pull.Available j → s.buckets j = 0 ∧ s.weights j = 0) :
      Scheduled s pull (i : ℕ)

/-- A variable of the loop holds an available input of a kind, or the loop has seen none. -/
def Seen (pull : Pull n Packet Filter) (kind : Fin n → Prop) (seen : List (Fin n)) (index : ℤ) :
    Prop :=
  (index = -1 ∧ ∀ j ∈ seen, pull.Available j → ¬ kind j) ∨
    ∃ i : Fin n, index = (i : ℕ) ∧ pull.Available i ∧ kind i

section Seen

variable {kind : Fin n → Prop} {seen : List (Fin n)} {index : ℤ} {i : Fin n}

theorem Seen.skip (h : Seen pull kind seen index) (hi : pull.Available i → ¬ kind i) :
    Seen pull kind (i :: seen) index := by
  rcases h with ⟨rfl, hnone⟩ | hsome
  · exact .inl ⟨rfl, List.forall_mem_cons.2 ⟨hi, hnone⟩⟩
  · exact .inr hsome

theorem Seen.keep (h : Seen pull kind seen index) (hne : index ≠ -1) :
    Seen pull kind (i :: seen) index := by
  rcases h with ⟨rfl, -⟩ | hsome
  · exact absurd rfl hne
  · exact .inr hsome

theorem Seen.first (h : pull.Available i) (hi : kind i) : Seen pull kind seen (i : ℕ) :=
  .inr ⟨i, rfl, h, hi⟩

end Seen

theorem scheduled_scheduleLoop {firstWeighted firstNonWeighted : ℤ} {is seen : List (Fin n)}
    (hall : ∀ i, i ∈ is ∨ i ∈ seen)
    (hempty : ∀ j ∈ seen, pull.Available j → s.buckets j = 0)
    (hweighted : Seen pull (fun j => 0 < s.weights j) seen firstWeighted)
    (hnonWeighted : Seen pull (fun j => s.weights j = 0) seen firstNonWeighted) :
    Scheduled s pull
      (s.scheduleLoop pull.providers pull.filter firstWeighted firstNonWeighted is) := by
  induction is generalizing seen firstWeighted firstNonWeighted with
  | nil =>
    have hseen (i : Fin n) : i ∈ seen := (hall i).resolve_left List.not_mem_nil
    rw [WrrScheduler.scheduleLoop]
    rcases hweighted with ⟨rfl, hweighted⟩ | ⟨i, rfl, hi, hweight⟩
    · rw [if_neg (not_not.2 rfl)]
      have hzero (j : Fin n) (hj : pull.Available j) : s.weights j = 0 :=
        Nat.eq_zero_of_not_pos (hweighted j (hseen j) hj)
      rcases hnonWeighted with ⟨rfl, hnone⟩ | ⟨i, rfl, hi, hweight⟩
      · rw [if_neg (not_not.2 rfl)]
        exact .nothing fun i hi => hnone i (hseen i) hi (hzero i hi)
      · rw [if_pos (by omega)]
        exact .nonWeighted i hi hweight fun j hj => ⟨hempty j (hseen j) hj, hzero j hj⟩
    · rw [if_pos (by omega)]
      exact .weighted i hi hweight fun j hj => hempty j (hseen j) hj
  | cons i is ih =>
    have hall' (j : Fin n) : j ∈ is ∨ j ∈ i :: seen := by
      rcases hall j with hj | hj
      · rcases List.mem_cons.1 hj with rfl | hj
        · exact .inr List.mem_cons_self
        · exact .inl hj
      · exact .inr (List.mem_cons_of_mem i hj)
    rw [WrrScheduler.scheduleLoop]
    by_cases havailable : (pull.providers i).matches pull.filter = true
    · rw [if_pos havailable]
      rw [Pull.matches_iff] at havailable
      by_cases hbucket : s.buckets i > 0
      · rw [if_pos hbucket]
        exact .loaded i havailable hbucket
      · rw [if_neg hbucket]
        have hempty' := List.forall_mem_cons.2
          ⟨fun (_ : pull.Available i) => Nat.eq_zero_of_not_pos hbucket, hempty⟩
        by_cases hfirst : firstWeighted = -1 ∧ s.weights i > 0
        · rw [if_pos hfirst]
          exact ih hall' hempty' (.first havailable hfirst.2)
            (hnonWeighted.skip fun _ => hfirst.2.ne')
        · rw [if_neg hfirst]
          have hweighted' : Seen pull (fun j => 0 < s.weights j) (i :: seen) firstWeighted := by
            by_cases hnone : firstWeighted = -1
            · exact hweighted.skip fun _ hweight => hfirst ⟨hnone, hweight⟩
            · exact hweighted.keep hnone
          by_cases hsecond : firstNonWeighted = -1 ∧ s.weights i = 0
          · rw [if_pos hsecond]
            exact ih hall' hempty' hweighted' (.first havailable hsecond.2)
          · rw [if_neg hsecond]
            refine ih hall' hempty' hweighted' ?_
            by_cases hnone : firstNonWeighted = -1
            · exact hnonWeighted.skip fun _ hweight => hsecond ⟨hnone, hweight⟩
            · exact hnonWeighted.keep hnone
    · rw [if_neg havailable]
      rw [Pull.matches_iff] at havailable
      refine ih hall' (List.forall_mem_cons.2 ⟨fun hi => absurd hi havailable, hempty⟩)
        (hweighted.skip fun hi => absurd hi havailable)
        (hnonWeighted.skip fun hi => absurd hi havailable)

theorem scheduled_schedulePacket (s : WrrScheduler n) (pull : Pull n Packet Filter) :
    Scheduled s pull (s.schedulePacket pull.providers pull.filter) :=
  scheduled_scheduleLoop (fun i => .inl (List.mem_finRange i)) (List.forall_mem_nil _)
    (.inl ⟨rfl, List.forall_mem_nil _⟩) (.inl ⟨rfl, List.forall_mem_nil _⟩)

theorem Scheduled.eq_neg_one_iff {index : ℤ} (h : Scheduled s pull index) :
    index = -1 ↔ ∀ i, ¬ pull.Available i := by
  cases h with
  | nothing h => exact iff_of_true rfl h
  | loaded i h => exact iff_of_false (by omega) fun hnone => hnone i h
  | weighted i h => exact iff_of_false (by omega) fun hnone => hnone i h
  | nonWeighted i h => exact iff_of_false (by omega) fun hnone => hnone i h

theorem Scheduled.available {i : Fin n} (h : Scheduled s pull (i : ℕ)) : pull.Available i := by
  generalize hindex : ((i : ℕ) : ℤ) = index at h
  cases h with
  | nothing => omega
  | loaded j h => exact Fin.ext (Int.ofNat.inj hindex) ▸ h
  | weighted j h => exact Fin.ext (Int.ofNat.inj hindex) ▸ h
  | nonWeighted j h => exact Fin.ext (Int.ofNat.inj hindex) ▸ h

theorem gate?_neg_one : WrrScheduler.gate? (-1) = (none : Option (Fin n)) := dif_neg (by omega)

theorem gate?_coe (i : Fin n) : WrrScheduler.gate? (i : ℕ) = some i := by
  rw [WrrScheduler.gate?, dif_pos ⟨by omega, by exact_mod_cast i.isLt⟩]
  rfl

theorem schedulePacket_cases (s : WrrScheduler n) (pull : Pull n Packet Filter) :
    (s.schedulePacket pull.providers pull.filter = -1 ∧ ∀ i, ¬ pull.Available i) ∨
      ∃ i : Fin n, s.schedulePacket pull.providers pull.filter = (i : ℕ) ∧ pull.Available i := by
  have h := scheduled_schedulePacket s pull
  generalize s.schedulePacket pull.providers pull.filter = index at h
  cases h with
  | nothing h => exact .inl ⟨rfl, h⟩
  | loaded i h => exact .inr ⟨i, rfl, h⟩
  | weighted i h => exact .inr ⟨i, rfl, h⟩
  | nonWeighted i h => exact .inr ⟨i, rfl, h⟩

theorem callSchedulePacket_of_schedule {i : Fin n}
    (hindex : s.schedulePacket pull.providers pull.filter = (i : ℕ)) :
    s.callSchedulePacket pull.providers pull.filter = .ok i := by
  rw [WrrScheduler.callSchedulePacket, hindex, gate?_coe]
  rfl

theorem pullPacket_of_schedule (hstream : s.inProgressStreamId = -1) {i : Fin n}
    (hindex : s.schedulePacket pull.providers pull.filter = (i : ℕ))
    (hpacket : (pull.providers i).canPullPacket pull.filter = some packet) :
    s.pullPacket pull.providers pull.filter = .ok (packet, s.handlePacketScheduled i) := by
  rw [WrrScheduler.pullPacket, if_neg (not_not.2 hstream)]
  exact Error.bind_of_eq_ok (callSchedulePacket_of_schedule hindex)
    (Error.bind_of_eq_ok ((pull.providers i).pull_eq _ _ hpacket) rfl)

theorem canPullPacket_of_schedule (hstream : s.inProgressStreamId = -1) {i : Fin n}
    (hindex : s.schedulePacket pull.providers pull.filter = (i : ℕ)) :
    s.canPullPacket pull.providers pull.filter =
      .ok ((pull.providers i).canPullPacket pull.filter) := by
  rw [WrrScheduler.canPullPacket, if_neg fun h => h.2 hstream, hindex, gate?_coe]
  rfl

theorem canPullPacket_eq_some_iff (hstream : s.inProgressStreamId = -1) (packet : Packet) :
    s.canPullPacket pull.providers pull.filter = .ok (some packet) ↔
      ∃ s', s.pullPacket pull.providers pull.filter = .ok (packet, s') := by
  rcases schedulePacket_cases s pull with ⟨hindex, -⟩ | ⟨i, hindex, havailable⟩
  · rw [WrrScheduler.canPullPacket, if_neg fun h => h.2 hstream, WrrScheduler.pullPacket,
      if_neg (not_not.2 hstream), WrrScheduler.callSchedulePacket, hindex, gate?_neg_one]
    constructor
    · intro h
      cases h
    · rintro ⟨s', h⟩
      cases h
  · obtain ⟨front, hfront⟩ := Option.isSome_iff_exists.1 havailable
    rw [canPullPacket_of_schedule hstream hindex, pullPacket_of_schedule hstream hindex hfront,
      hfront]
    constructor
    · intro h
      cases h
      exact ⟨_, rfl⟩
    · rintro ⟨s', h⟩
      cases h
      rfl

theorem canPullPacket_eq_none_iff (hstream : s.inProgressStreamId = -1) :
    s.canPullPacket pull.providers pull.filter = .ok none ↔
      ∃ error, s.pullPacket pull.providers pull.filter = .error error := by
  rcases schedulePacket_cases s pull with ⟨hindex, -⟩ | ⟨i, hindex, havailable⟩
  · rw [WrrScheduler.canPullPacket, if_neg fun h => h.2 hstream, WrrScheduler.pullPacket,
      if_neg (not_not.2 hstream), WrrScheduler.callSchedulePacket, hindex, gate?_neg_one]
    exact iff_of_true rfl ⟨_, rfl⟩
  · obtain ⟨front, hfront⟩ := Option.isSome_iff_exists.1 havailable
    rw [canPullPacket_of_schedule hstream hindex, pullPacket_of_schedule hstream hindex hfront,
      hfront]
    exact iff_of_false (fun h => by cases h) fun ⟨_, h⟩ => by cases h

theorem eq_of_pullPacket (hstream : s.inProgressStreamId = -1) {i : Fin n}
    (hindex : s.schedulePacket pull.providers pull.filter = (i : ℕ))
    (hpull : s.pullPacket pull.providers pull.filter = .ok (packet, s')) :
    s' = s.handlePacketScheduled i := by
  have havailable := (hindex ▸ scheduled_schedulePacket s pull).available
  obtain ⟨front, hfront⟩ := Option.isSome_iff_exists.1 havailable
  rw [pullPacket_of_schedule hstream hindex hfront] at hpull
  cases hpull
  rfl

end Scheduled

/-! ## Rounds -/

/-- The invariant of the pulls. -/
structure WrrScheduler.Bounded {n : ℕ} (s : WrrScheduler n) : Prop where
  stream : s.inProgressStreamId = -1
  le : ∀ i, s.buckets i ≤ s.weights i

section Rounds

variable {n : ℕ} {Packet Filter : Type} {s s' : WrrScheduler n}
  {pull : Pull n Packet Filter} {packet : Packet}

theorem bounded_initial {values : List ℕ} (h : WrrScheduler.initial values = .ok s) :
    s.Bounded ∧ s.buckets = s.weights := by
  rw [WrrScheduler.initial] at h
  split_ifs at h
  cases h
  exact ⟨⟨rfl, fun _ => le_rfl⟩, rfl⟩

theorem weights_handlePacketScheduled (s : WrrScheduler n) (i : Fin n) :
    (s.handlePacketScheduled i).weights = s.weights := by
  rw [WrrScheduler.handlePacketScheduled]
  split_ifs
  all_goals rfl

theorem WrrScheduler.Bounded.handlePacketScheduled (h : s.Bounded) (i : Fin n) :
    (s.handlePacketScheduled i).Bounded := by
  have hupdate {buckets : Fin n → ℕ} (hle : ∀ j, buckets j ≤ s.weights j) (j : Fin n) :
      Function.update buckets i (buckets i - 1) j ≤ s.weights j := by
    by_cases heq : j = i
    · subst heq
      rw [Function.update_self]
      exact (Nat.sub_le _ _).trans (hle j)
    · rw [Function.update_of_ne heq]
      exact hle j
  rw [WrrScheduler.handlePacketScheduled]
  split_ifs
  · exact ⟨h.stream, hupdate h.le⟩
  · exact ⟨h.stream, hupdate fun _ => le_rfl⟩
  · exact h

theorem Scheduled.not_available_of_weight {i : Fin n} (h : Scheduled s pull (i : ℕ))
    (hbounded : s.Bounded) (hweight : s.weights i = 0) :
    ∀ j, 0 < s.weights j → ¬ pull.Available j := by
  intro j hj havailable
  generalize hindex : ((i : ℕ) : ℤ) = index at h
  cases h with
  | nothing h => exact h j havailable
  | loaded k h hbucket =>
    obtain rfl : i = k := Fin.ext (Int.ofNat.inj hindex)
    exact absurd hweight (hbucket.trans_le (hbounded.le i)).ne'
  | weighted k h hweight' =>
    obtain rfl : i = k := Fin.ext (Int.ofNat.inj hindex)
    exact absurd hweight hweight'.ne'
  | nonWeighted k h _ hempty => exact absurd (hempty j havailable).2 hj.ne'

/-- Every input with a weight can be pulled from. -/
def Pull.Busy (pull : Pull n Packet Filter) (weights : Fin n → ℕ) : Prop :=
  ∀ i, 0 < weights i → pull.Available i

theorem handlePacketScheduled_of_pos {i : Fin n} (hbounded : s.Bounded)
    (hbusy : pull.Busy s.weights) (hpos : 0 < ∑ j, s.buckets j)
    (h : Scheduled s pull (i : ℕ)) :
    0 < s.buckets i ∧
      s.handlePacketScheduled i =
        { s with buckets := Function.update s.buckets i (s.buckets i - 1) } := by
  obtain ⟨j, -, hj⟩ := Finset.exists_ne_zero_of_sum_ne_zero hpos.ne'
  have hjpos : 0 < s.buckets j := Nat.pos_of_ne_zero hj
  have hjavailable := hbusy j (hjpos.trans_le (hbounded.le j))
  have hbucket : 0 < s.buckets i := by
    generalize hindex : ((i : ℕ) : ℤ) = index at h
    cases h with
    | nothing => omega
    | loaded k h hbucket => exact Fin.ext (Int.ofNat.inj hindex) ▸ hbucket
    | weighted k h hweight hempty => exact absurd (hempty j hjavailable) hj
    | nonWeighted k h hweight hempty => exact absurd (hempty j hjavailable).1 hj
  refine ⟨hbucket, ?_⟩
  rw [WrrScheduler.handlePacketScheduled, if_pos hbucket]

theorem handlePacketScheduled_of_zero {i : Fin n} (hbusy : pull.Busy s.weights)
    (hzero : ∀ j, s.buckets j = 0) (hpos : 0 < ∑ j, s.weights j) (h : Scheduled s pull (i : ℕ)) :
    0 < s.weights i ∧
      s.handlePacketScheduled i =
        { s with buckets := Function.update s.weights i (s.weights i - 1) } := by
  obtain ⟨j, -, hj⟩ := Finset.exists_ne_zero_of_sum_ne_zero hpos.ne'
  have hjavailable := hbusy j (Nat.pos_of_ne_zero hj)
  have hweight : 0 < s.weights i := by
    generalize hindex : ((i : ℕ) : ℤ) = index at h
    cases h with
    | nothing => omega
    | loaded k h hbucket => exact absurd (hzero k) hbucket.ne'
    | weighted k h hweight hempty => exact Fin.ext (Int.ofNat.inj hindex) ▸ hweight
    | nonWeighted k h hweight hempty => exact absurd (hempty j hjavailable).2 hj
  refine ⟨hweight, ?_⟩
  rw [WrrScheduler.handlePacketScheduled, if_neg (by rw [hzero i]; exact lt_irrefl 0),
    if_pos hweight]

theorem sum_update_pred {buckets : Fin n → ℕ} {i : Fin n} (h : 0 < buckets i) :
    ∑ j, Function.update buckets i (buckets i - 1) j + 1 = ∑ j, buckets j := by
  rw [Finset.sum_update_of_mem (Finset.mem_univ i), ← Finset.add_sum_erase _ _ (Finset.mem_univ i),
    Finset.sdiff_singleton_eq_erase]
  omega

theorem count_cons_of_update {buckets : Fin n → ℕ} {index : Fin n} (h : 0 < buckets index)
    {served : List (Fin n)} {i : Fin n}
    (hcount : served.count i = Function.update buckets index (buckets index - 1) i) :
    (index :: served).count i = buckets i := by
  rw [List.count_cons, hcount]
  by_cases heq : index = i
  · subst heq
    rw [Function.update_self, beq_self_eq_true, if_pos rfl]
    exact Nat.sub_add_cancel h
  · rw [Function.update_of_ne (Ne.symm heq), if_neg (fun hbeq => heq (eq_of_beq hbeq)),
      Nat.add_zero]

variable {pulls pulls' : List (Pull n Packet Filter)} {served : List (Fin n)}

theorem Serves.bounded (h : Serves s pulls served s') (hbounded : s.Bounded) :
    s'.Bounded ∧ s'.weights = s.weights := by
  induction h with
  | nil => exact ⟨hbounded, rfl⟩
  | cons hindex hpull _ ih =>
    obtain rfl := eq_of_pullPacket hbounded.stream hindex hpull
    obtain ⟨hrest, hweights⟩ := ih (hbounded.handlePacketScheduled _)
    exact ⟨hrest, hweights.trans (weights_handlePacketScheduled _ _)⟩

theorem Serves.split (h : Serves s (pulls ++ pulls') served s') :
    ∃ s'', Serves s pulls (served.take pulls.length) s'' ∧
      Serves s'' pulls' (served.drop pulls.length) s' := by
  induction pulls generalizing s served with
  | nil => exact ⟨s, .nil s, h⟩
  | cons pull pulls ih =>
    cases h with
    | cons hindex hpull h =>
      obtain ⟨s'', hfirst, hrest⟩ := ih h
      exact ⟨s'', .cons hindex hpull hfirst, hrest⟩

theorem Serves.count_of_tokens (h : Serves s pulls served s') (hbounded : s.Bounded)
    (hbusy : ∀ pull ∈ pulls, pull.Busy s.weights) (hlength : pulls.length = ∑ i, s.buckets i) :
    (∀ i, served.count i = s.buckets i) ∧ ∀ i, s'.buckets i = 0 := by
  induction h with
  | nil s =>
    have hzero : ∀ i, s.buckets i = 0 := fun i =>
      Finset.sum_eq_zero_iff.1 hlength.symm i (Finset.mem_univ i)
    exact ⟨fun i => (hzero i).symm, hzero⟩
  | @cons s s' s'' pull index packet pulls served hindex hpull _ ih =>
    obtain ⟨hfirst, hrest⟩ := List.forall_mem_cons.1 hbusy
    have hscheduled := hindex ▸ scheduled_schedulePacket s pull
    obtain ⟨hbucket, hafter⟩ := handlePacketScheduled_of_pos hbounded hfirst
      (hlength ▸ Nat.succ_pos _) hscheduled
    obtain rfl := eq_of_pullPacket hbounded.stream hindex hpull
    have hsum := sum_update_pred hbucket
    obtain ⟨hcount, hzero⟩ := ih (hbounded.handlePacketScheduled index)
      (by rwa [weights_handlePacketScheduled])
      (by rw [hafter]; exact Nat.succ.inj (hlength.trans hsum.symm))
    rw [hafter] at hcount
    exact ⟨fun i => count_cons_of_update hbucket (hcount i), hzero⟩

theorem Serves.count_of_block (h : Serves s pulls served s') (hbounded : s.Bounded)
    (hbusy : ∀ pull ∈ pulls, pull.Busy s.weights)
    (hboundary : s.buckets = s.weights ∨ ∀ i, s.buckets i = 0)
    (hlength : pulls.length = ∑ i, s.weights i) :
    (∀ i, served.count i = s.weights i) ∧ ∀ i, s'.buckets i = 0 := by
  rcases hboundary with hfull | hzero
  · rw [← hfull] at hlength ⊢
    exact h.count_of_tokens hbounded hbusy hlength
  · cases h with
    | nil =>
      have hweights : ∀ i, s.weights i = 0 := fun i =>
        Finset.sum_eq_zero_iff.1 hlength.symm i (Finset.mem_univ i)
      exact ⟨fun i => (hweights i).symm, hzero⟩
    | @cons _ _ _ pull index packet pulls served hindex hpull h =>
      obtain ⟨hfirst, hrest⟩ := List.forall_mem_cons.1 hbusy
      have hscheduled := hindex ▸ scheduled_schedulePacket s pull
      obtain ⟨hweight, hafter⟩ := handlePacketScheduled_of_zero hfirst hzero
        (hlength ▸ Nat.succ_pos _) hscheduled
      obtain rfl := eq_of_pullPacket hbounded.stream hindex hpull
      have hsum := sum_update_pred hweight
      obtain ⟨hcount, hzero'⟩ := h.count_of_tokens (hbounded.handlePacketScheduled index)
        (by rwa [weights_handlePacketScheduled])
        (by rw [hafter]; exact Nat.succ.inj (hlength.trans hsum.symm))
      rw [hafter] at hcount
      exact ⟨fun i => count_cons_of_update hweight (hcount i), hzero'⟩

theorem Serves.count_of_blocks (h : Serves s pulls served s') (hbounded : s.Bounded)
    (hbusy : ∀ pull ∈ pulls, pull.Busy s.weights)
    (hboundary : s.buckets = s.weights ∨ ∀ i, s.buckets i = 0) (k : ℕ)
    (hlength : (k + 1) * ∑ i, s.weights i ≤ pulls.length) (i : Fin n) :
    ((served.drop (k * ∑ i, s.weights i)).take (∑ i, s.weights i)).count i = s.weights i := by
  generalize hsum : ∑ i, s.weights i = sum at hlength ⊢
  induction k generalizing s pulls served with
  | zero =>
    rw [Nat.zero_add, Nat.one_mul] at hlength
    rw [← List.take_append_drop sum pulls] at h
    obtain ⟨s'', hfirst, -⟩ := h.split
    rw [List.length_take_of_le hlength] at hfirst
    rw [Nat.zero_mul, List.drop_zero]
    exact (hfirst.count_of_block hbounded
      (fun pull hpull => hbusy pull (List.mem_of_mem_take hpull))
      hboundary (by rw [hsum, List.length_take_of_le hlength])).1 i
  | succ k ih =>
    have hle : sum ≤ pulls.length := by
      refine le_trans ?_ hlength
      exact Nat.le_mul_of_pos_left _ (Nat.succ_pos _)
    rw [← List.take_append_drop sum pulls] at h
    obtain ⟨s'', hfirst, hrest⟩ := h.split
    rw [List.length_take_of_le hle] at hfirst hrest
    obtain ⟨-, hzero⟩ := hfirst.count_of_block hbounded
      (fun pull hpull => hbusy pull (List.mem_of_mem_take hpull)) hboundary
      (by rw [hsum, List.length_take_of_le hle])
    obtain ⟨hbounded', hweights⟩ := hfirst.bounded hbounded
    rw [← hweights] at hbusy hsum ⊢
    rw [Nat.succ_mul, Nat.add_comm, ← List.drop_drop]
    refine ih hrest hbounded' (fun pull hpull => hbusy pull (List.mem_of_mem_drop hpull))
      (.inr hzero) hsum ?_
    rw [List.length_drop]
    rw [Nat.succ_mul] at hlength
    omega

end Rounds

/-- In every run from the start: an input is scheduled just when one is available, `canPullPacket`
names what a pull returns, no bucket exceeds its weight, an input without a weight is scheduled only
when no input with one is available, and from full or empty buckets on each block of pulls serves
the inputs as often as their weights say while the inputs with a weight are available. -/
theorem wrr_exact {n : ℕ} {Packet Filter : Type} {values : List ℕ} {s₀ s : WrrScheduler n}
    {pulls₀ : List (Pull n Packet Filter)} {served₀ : List (Fin n)}
    (hinitial : WrrScheduler.initial values = .ok s₀) (hrun : Serves s₀ pulls₀ served₀ s) :
    s₀.buckets = s₀.weights ∧ s.weights = s₀.weights ∧
    (∀ i, s.buckets i ≤ s.weights i) ∧
    (∀ pull : Pull n Packet Filter,
      (s.schedulePacket pull.providers pull.filter = -1 ↔ ∀ i, ¬ pull.Available i) ∧
      (∀ packet, s.canPullPacket pull.providers pull.filter = .ok (some packet) ↔
        ∃ s', s.pullPacket pull.providers pull.filter = .ok (packet, s')) ∧
      (s.canPullPacket pull.providers pull.filter = .ok none ↔
        ∃ error, s.pullPacket pull.providers pull.filter = .error error) ∧
      ∀ i : Fin n, s.schedulePacket pull.providers pull.filter = (i : ℕ) → s.weights i = 0 →
        ∀ j, 0 < s.weights j → ¬ pull.Available j) ∧
    ∀ (pulls : List (Pull n Packet Filter)) (served : List (Fin n)) (s' : WrrScheduler n),
      Serves s pulls served s' → (∀ pull ∈ pulls, pull.Busy s.weights) →
      (s.buckets = s.weights ∨ ∀ i, s.buckets i = 0) →
      ∀ k, (k + 1) * ∑ i, s.weights i ≤ pulls.length → ∀ i,
        ((served.drop (k * ∑ i, s.weights i)).take (∑ i, s.weights i)).count i = s.weights i := by
  obtain ⟨hbounded₀, hfull⟩ := bounded_initial hinitial
  obtain ⟨hbounded, hweights⟩ := hrun.bounded hbounded₀
  refine ⟨hfull, hweights, hbounded.le, fun pull => ⟨?_, ?_, ?_, ?_⟩, ?_⟩
  · exact (scheduled_schedulePacket s pull).eq_neg_one_iff
  · exact canPullPacket_eq_some_iff hbounded.stream
  · exact canPullPacket_eq_none_iff hbounded.stream
  · intro i hindex hweight
    exact (hindex ▸ scheduled_schedulePacket s pull).not_available_of_weight hbounded hweight
  · intro pulls served s' h hbusy hboundary k hlength i
    exact h.count_of_blocks hbounded hbusy hboundary k hlength i

/-! Two inputs of the weights 2 and 1, with a packet at hand all the time. -/

def alwaysReady : Provider Unit Unit := ⟨true, fun _ => some (), fun _ => .ok (), by simp, by simp⟩

def readyPull : Pull 2 Unit Unit := ⟨fun _ => alwaysReady, none⟩

theorem wrr_two_inputs : ∃ s₀ s' : WrrScheduler 2, WrrScheduler.initial [2, 1] = .ok s₀ ∧
    Serves s₀ [readyPull, readyPull, readyPull] [0, 0, 1] s' ∧
    ∀ i, ([0, 0, 1] : List (Fin 2)).count i = s₀.weights i := by
  obtain ⟨s₀, hinitial⟩ : ∃ s₀ : WrrScheduler 2, WrrScheduler.initial [2, 1] = .ok s₀ := ⟨_, rfl⟩
  obtain ⟨hfull, -, -, -, hblocks⟩ :=
    wrr_exact hinitial (.nil s₀ : Serves s₀ ([] : List (Pull 2 Unit Unit)) [] s₀)
  have hsum : ∑ i, s₀.weights i = 3 := by
    cases hinitial
    rfl
  obtain ⟨s', hserves⟩ : ∃ s', Serves s₀ [readyPull, readyPull, readyPull] [0, 0, 1] s' := by
    cases hinitial
    exact ⟨_, .cons rfl rfl (.cons rfl rfl (.cons rfl rfl (.nil _)))⟩
  refine ⟨s₀, s', hinitial, hserves, fun i => ?_⟩
  have hbusy : ∀ pull ∈ [readyPull, readyPull, readyPull], pull.Busy s₀.weights := by
    intro pull hpull j _
    obtain rfl : pull = readyPull := by simpa using hpull
    rfl
  have hblock := hblocks _ _ _ hserves hbusy (.inl hfull) 0 (by rw [hsum]; exact le_rfl) i
  rwa [hsum] at hblock

end Inet.Queueing
