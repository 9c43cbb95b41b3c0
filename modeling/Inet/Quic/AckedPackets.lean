import Inet.Quic.AckRun

/-! # The sent packets that an ACK frame acknowledges

`ReliabilityManager` walks the blocks of a frame from the largest packet down
and takes the packets it finds out of the map of sent packets. On a frame that
decodes in exact arithmetic it takes exactly the packets of the blocks.
-/

namespace Inet.Quic

/-- A `std::map` from packet numbers. -/
structure SentPackets (α : Type) where
  entries : List (ℕ × α)
  sorted : entries.Pairwise fun a b => a.1 < b.1

namespace SentPackets

variable {α : Type}

def find (sentPackets : SentPackets α) (packetNumber : ℕ) : Option α :=
  (sentPackets.entries.find? fun entry => entry.1 = packetNumber).map Prod.snd

def erase (sentPackets : SentPackets α) (packetNumber : ℕ) : SentPackets α where
  entries := sentPackets.entries.filter fun entry => entry.1 ≠ packetNumber
  sorted := sentPackets.sorted.filter _

/-- `begin()->first` -/
def smallest (sentPackets : SentPackets α) : Except Error ℕ :=
  match sentPackets.entries with
  | [] => throw (.undefinedBehavior "dereference of end()")
  | entry :: _ => pure entry.1

end SentPackets

namespace ReliabilityManager

variable {α : Type}

/-- The body of the loop: the sent packets and the newly acked ones. -/
def moveNewlyAckedPacket (packetNumber : ℕ) (state : SentPackets α × List α) :
    SentPackets α × List α :=
  match state.1.find packetNumber with
  | some packet => (state.1.erase packetNumber, state.2 ++ [packet])
  | none => state

/-- The loop down from the given packet number. It is left at zero, so that the number does not wrap
around. -/
def moveNewlyAckedPackets (smallestAck : ℕ) : ℕ → SentPackets α × List α → SentPackets α × List α
  | 0, state => if 0 ≥ smallestAck then moveNewlyAckedPacket 0 state else state
  | packetNumber + 1, state =>
    if packetNumber + 1 ≥ smallestAck then
      moveNewlyAckedPackets smallestAck packetNumber (moveNewlyAckedPacket (packetNumber + 1) state)
    else state

/-- The loop over the ack ranges. -/
def removeAckRanges (smallestUnack : ℕ) :
    ℕ → List AckRange → SentPackets α × List α → SentPackets α × List α
  | _, [], state => state
  | smallestAck, ackRange :: ackRanges, state =>
    let largestAck := sub64 (sub64 smallestAck ackRange.gap) 2
    if largestAck < smallestUnack then state
    else
      let smallestAck := sub64 largestAck ackRange.ackRange
      removeAckRanges smallestUnack smallestAck ackRanges
        (moveNewlyAckedPackets smallestAck largestAck state)

def detectAndRemoveAckedPackets (ackFrame : AckFrameHeader) (sentPackets : SentPackets α) :
    Except Error (SentPackets α × List α) := do
  let smallestUnack ← sentPackets.smallest
  let largestAck := ackFrame.largestAck
  let smallestAck := sub64 ackFrame.largestAck ackFrame.firstAckRange
  let state := moveNewlyAckedPackets smallestAck largestAck (sentPackets, [])
  return removeAckRanges smallestUnack smallestAck ackFrame.ackRange state

/-- Of the sent packets, those with an acked number have been moved. -/
structure Moved (sentPackets : SentPackets α) (acked : ℕ → Bool) (state : SentPackets α × List α) :
    Prop where
  remaining : state.1.entries = sentPackets.entries.filter fun entry => !acked entry.1
  newlyAcked : state.2.Perm ((sentPackets.entries.filter fun entry => acked entry.1).map Prod.snd)

theorem moved_nil (sentPackets : SentPackets α) : Moved sentPackets (fun _ => false)
    (sentPackets, []) := by
  constructor <;> simp

theorem Moved.congr {sentPackets : SentPackets α} {acked acked' : ℕ → Bool}
    {state : SentPackets α × List α} (h : Moved sentPackets acked state)
    (he : ∀ entry ∈ sentPackets.entries, acked' entry.1 = acked entry.1) :
    Moved sentPackets acked' state where
  remaining := by
    rw [h.remaining]
    exact List.filter_congr fun entry hmem => by rw [he entry hmem]
  newlyAcked := by
    rw [List.filter_congr he]
    exact h.newlyAcked

/-- The packets of two disjoint sets of numbers. -/
theorem perm_filter_or (entries : List (ℕ × α)) {p q : ℕ × α → Bool}
    (h : ∀ entry ∈ entries, q entry → ¬ p entry) :
    (entries.filter fun entry => p entry || q entry).Perm
      (entries.filter p ++ entries.filter q) := by
  have h' := List.filter_append_perm p (entries.filter fun entry => p entry || q entry)
  rw [List.filter_filter, List.filter_filter] at h'
  have hp : (entries.filter fun entry => p entry && (p entry || q entry)) = entries.filter p :=
    List.filter_congr fun entry _ => by cases p entry <;> rfl
  have hq : (entries.filter fun entry => !p entry && (p entry || q entry)) = entries.filter q := by
    apply List.filter_congr
    intro entry hmem
    have := h entry hmem
    cases hpe : p entry <;> cases hqe : q entry <;> simp_all
  rw [hp, hq] at h'
  exact h'.symm

theorem filter_eq_singleton {entries : List (ℕ × α)} (h : entries.Pairwise fun a b => a.1 < b.1)
    {entry : ℕ × α} (hmem : entry ∈ entries) :
    (entries.filter fun e => decide (e.1 = entry.1)) = [entry] := by
  induction entries with
  | nil => cases hmem
  | cons e entries ih =>
    obtain ⟨hlt, h⟩ := List.pairwise_cons.1 h
    rcases List.mem_cons.1 hmem with rfl | hmem
    · rw [List.filter_cons_of_pos (by simp), List.filter_eq_nil_iff.2]
      intro e' he'
      have := hlt e' he'
      simp only [decide_eq_true_eq]
      omega
    · have := hlt entry hmem
      rw [List.filter_cons_of_neg (by simp only [decide_eq_true_eq]; omega), ih h hmem]

theorem Moved.packet {sentPackets : SentPackets α} {acked : ℕ → Bool}
    {state : SentPackets α × List α} (h : Moved sentPackets acked state) (packetNumber : ℕ) :
    Moved sentPackets (fun q => acked q || decide (q = packetNumber))
      (moveNewlyAckedPacket packetNumber state) := by
  unfold moveNewlyAckedPacket SentPackets.find
  cases hf : state.1.entries.find? fun entry => entry.1 = packetNumber with
  | none =>
    rw [List.find?_eq_none] at hf
    apply h.congr
    intro entry hmem
    by_cases he : entry.1 = packetNumber
    · have hacked : acked entry.1 = true := by
        by_contra hnot
        refine hf entry ?_ (by simpa using he)
        rw [h.remaining, List.mem_filter]
        exact ⟨hmem, by simpa using hnot⟩
      simp [hacked]
    · simp [he]
  | some entry =>
    have he : entry.1 = packetNumber := by simpa using List.find?_some hf
    have hmem := List.mem_of_find?_eq_some hf
    rw [h.remaining, List.mem_filter] at hmem
    have hnot : acked packetNumber = false := by simpa [he] using hmem.2
    constructor
    · simp only [Option.map_some, SentPackets.erase, h.remaining, List.filter_filter]
      apply List.filter_congr
      intro e _
      by_cases hp : e.1 = packetNumber <;> simp [hp]
    · have hor := perm_filter_or sentPackets.entries (p := fun e => acked e.1)
        (q := fun e => decide (e.1 = packetNumber)) (by
          intro e _ he
          simp only [decide_eq_true_eq] at he
          simp [he, hnot])
      have hsingle := filter_eq_singleton sentPackets.sorted hmem.1
      rw [he] at hsingle
      rw [hsingle] at hor
      have := hor.map Prod.snd
      rw [List.map_append] at this
      exact (h.newlyAcked.append_right _).trans this.symm

/-- The numbers of a block. -/
def inBlock (block : ℕ × ℕ) (q : ℕ) : Bool := decide (block.1 ≤ q) && decide (q ≤ block.2)

theorem Moved.packets {sentPackets : SentPackets α} {acked : ℕ → Bool}
    {state : SentPackets α × List α} (h : Moved sentPackets acked state)
    (smallestAck largestAck : ℕ) :
    Moved sentPackets (fun q => acked q || inBlock (smallestAck, largestAck) q)
      (moveNewlyAckedPackets smallestAck largestAck state) := by
  induction largestAck generalizing acked state with
  | zero =>
    unfold moveNewlyAckedPackets
    split
    next hle =>
      apply (h.packet 0).congr
      intro entry _
      simp only [inBlock]
      congr 1
      rw [← Bool.decide_and]
      congr 1
      simp only [eq_iff_iff]
      omega
    next hle =>
      apply h.congr
      intro entry _
      simp [inBlock]
      omega
  | succ n ih =>
    unfold moveNewlyAckedPackets
    split
    next hle =>
      apply (ih (h.packet (n + 1))).congr
      intro entry _
      simp only [inBlock, Bool.or_assoc]
      congr 1
      rw [← Bool.decide_and, ← Bool.decide_and, ← Bool.decide_or]
      congr 1
      simp only [eq_iff_iff]
      omega
    next hle =>
      apply h.congr
      intro entry _
      simp [inBlock]
      omega

def inBlocks (blocks : List (ℕ × ℕ)) (q : ℕ) : Bool := blocks.any fun block => inBlock block q

theorem decodeRanges_cons_eq_some {smallest : ℕ} {ackRange : AckRange} {ackRanges : List AckRange}
    {blocks : List (ℕ × ℕ)}
    (h : AckFrameHeader.decodeRanges smallest (ackRange :: ackRanges) = some blocks) :
    ackRange.gap + 2 ≤ smallest ∧ ackRange.ackRange ≤ smallest - ackRange.gap - 2 ∧
      ∃ rest, AckFrameHeader.decodeRanges (smallest - ackRange.gap - 2 - ackRange.ackRange)
          ackRanges = some rest ∧
        blocks = (smallest - ackRange.gap - 2 - ackRange.ackRange, smallest - ackRange.gap - 2) ::
          rest := by
  unfold AckFrameHeader.decodeRanges at h
  simp only at h
  split at h
  next hle =>
    obtain ⟨rest, hrest, rfl⟩ := Option.map_eq_some_iff.1 h
    exact ⟨hle.1, hle.2, rest, hrest, rfl⟩
  next => cases h

theorem lt_of_decodeRanges {smallest : ℕ} {ackRanges : List AckRange} {blocks : List (ℕ × ℕ)}
    (h : AckFrameHeader.decodeRanges smallest ackRanges = some blocks) :
    ∀ block ∈ blocks, block.2 < smallest := by
  induction ackRanges generalizing smallest blocks with
  | nil =>
    cases h
    simp
  | cons ackRange ackRanges ih =>
    obtain ⟨hgap, -, rest, hrest, rfl⟩ := decodeRanges_cons_eq_some h
    refine List.forall_mem_cons.2 ⟨by simp only; omega, ?_⟩
    intro block hb
    have := ih hrest block hb
    omega

theorem Moved.ackRanges {sentPackets : SentPackets α} {smallestUnack : ℕ}
    (hun : ∀ entry ∈ sentPackets.entries, smallestUnack ≤ entry.1) {ackRanges : List AckRange}
    {smallestAck : ℕ} (hlt : smallestAck < 2 ^ 64) {blocks : List (ℕ × ℕ)}
    (hd : AckFrameHeader.decodeRanges smallestAck ackRanges = some blocks) {acked : ℕ → Bool}
    {state : SentPackets α × List α} (h : Moved sentPackets acked state) :
    Moved sentPackets (fun q => acked q || inBlocks blocks q)
      (removeAckRanges smallestUnack smallestAck ackRanges state) := by
  induction ackRanges generalizing smallestAck blocks acked state with
  | nil =>
    cases hd
    simpa [inBlocks, removeAckRanges] using h
  | cons ackRange ackRanges ih =>
    obtain ⟨hgap, hrange, rest, hrest, hblocks⟩ := decodeRanges_cons_eq_some hd
    have hlargest : sub64 (sub64 smallestAck ackRange.gap) 2 = smallestAck - ackRange.gap - 2 := by
      rw [sub64_of_le (show ackRange.gap ≤ smallestAck by omega) hlt,
        sub64_of_le (by omega) (by omega)]
    unfold removeAckRanges
    simp only [hlargest]
    split
    next hbreak =>
      -- the block and those behind it are below every sent packet
      apply h.congr
      intro entry hmem
      have hentry := hun entry hmem
      have hnot : inBlocks blocks entry.1 = false := by
        rw [inBlocks, List.any_eq_false]
        intro block hb
        have hle : block.2 ≤ smallestAck - ackRange.gap - 2 := by
          rw [hblocks] at hb
          rcases List.mem_cons.1 hb with rfl | hb
          · exact le_rfl
          · have := lt_of_decodeRanges hrest block hb
            omega
        simp only [inBlock, Bool.and_eq_true, decide_eq_true_eq]
        omega
      rw [hnot, Bool.or_false]
    next =>
      rw [sub64_of_le hrange (by omega)]
      apply (ih (by omega) hrest (h.packets _ _)).congr
      intro entry _
      rw [hblocks, inBlocks, List.any_cons, Bool.or_assoc, inBlocks]

theorem moved_detectAndRemoveAckedPackets {ackFrame : AckFrameHeader} {blocks : List (ℕ × ℕ)}
    (hd : ackFrame.decode = some blocks) (hlt : ackFrame.largestAck < 2 ^ 64)
    {sentPackets : SentPackets α} (hne : sentPackets.entries ≠ []) :
    ∃ state, detectAndRemoveAckedPackets ackFrame sentPackets = .ok state ∧
      Moved sentPackets (inBlocks blocks) state := by
  unfold AckFrameHeader.decode at hd
  split at hd
  next hle =>
    obtain ⟨rest, hrest, rfl⟩ := Option.map_eq_some_iff.1 hd
    obtain ⟨entry, entries, hentries⟩ := List.exists_cons_of_ne_nil hne
    have hsmallest : sentPackets.smallest = .ok entry.1 := by
      rw [SentPackets.smallest, hentries]
      rfl
    have hun : ∀ e ∈ sentPackets.entries, entry.1 ≤ e.1 := by
      have hsorted := sentPackets.sorted
      rw [hentries] at hsorted ⊢
      intro e he
      rcases List.mem_cons.1 he with rfl | he
      · exact le_rfl
      · exact ((List.pairwise_cons.1 hsorted).1 e he).le
    refine ⟨_, by rw [detectAndRemoveAckedPackets, hsmallest]; rfl, ?_⟩
    rw [sub64_of_le hle hlt]
    have hm := (moved_nil sentPackets).packets (ackFrame.largestAck - ackFrame.firstAckRange)
      ackFrame.largestAck
    apply (Moved.ackRanges hun (by omega) hrest hm).congr
    intro e _
    rw [Bool.false_or]
    rfl
  next => cases hd

end ReliabilityManager

open ReliabilityManager

/-- In every run of regular events, the frame of the receiver decodes without an underflow to blocks
of packets that the receiver reports, and the sender removes exactly the packets of the blocks from
the packets it has sent. -/
theorem AckSystem.Reachable.removes_acknowledged {sys : AckSystem} (h : Reachable Regular sys)
    {maxSize ackDelayExponent simTime : ℕ} {frame : AckFrameHeader}
    {accountant : ReceivedPacketsAccountant}
    (hg : sys.accountant.generateAckFrame maxSize ackDelayExponent simTime =
      .ok (some frame, accountant))
    {α : Type} {sentPackets : SentPackets α} (hne : sentPackets.entries ≠ []) :
    sys.accountant.NoUnderflow ∧
    ∃ blocks sentPackets' newlyAckedPackets, frame.decode = some blocks ∧
      (∀ q, inBlocks blocks q → sys.accountant.Reports q) ∧
      detectAndRemoveAckedPackets frame sentPackets = .ok (sentPackets', newlyAckedPackets) ∧
      sentPackets'.entries = sentPackets.entries.filter (fun entry => !inBlocks blocks entry.1) ∧
      newlyAckedPackets.Perm
        ((sentPackets.entries.filter fun entry => inBlocks blocks entry.1).map Prod.snd) := by
  have hacc := h.agrees.accounts
  refine ⟨hacc.noUnderflow, ?_⟩
  rw [ReceivedPacketsAccountant.generateAckFrame_eq] at hg
  split at hg
  · cases hg
  · cases hg
    obtain ⟨blocks, hd, hblocks⟩ := hacc.decode_ackFrame maxSize ackDelayExponent simTime
    have hlt : sys.accountant.largestAck < 2 ^ 64 := by
      have := hacc.largest_lt
      omega
    obtain ⟨⟨sentPackets', newlyAckedPackets⟩, hdetect, hmoved⟩ :=
      moved_detectAndRemoveAckedPackets hd hlt hne
    refine ⟨blocks, sentPackets', newlyAckedPackets, hd, ?_, hdetect, hmoved.remaining,
      hmoved.newlyAcked⟩
    intro q hq
    rw [inBlocks, List.any_eq_true] at hq
    obtain ⟨block, hb, hin⟩ := hq
    rw [inBlock, Bool.and_eq_true, decide_eq_true_eq, decide_eq_true_eq] at hin
    exact hblocks block hb q hin.1 hin.2

/-- The packets 2 to 7. -/
def sentPackets_2_7 : SentPackets ℕ where
  entries := [(2, 2), (3, 3), (4, 4), (5, 5), (6, 6), (7, 7)]
  sorted := by decide

/-- Packets 5 and 2 are received, and acknowledged. -/
theorem removes_acknowledged_5_2 : ∃ sys, AckSystem.Reachable AckSystem.Regular sys ∧
    sys.received = [2, 5] ∧ ∃ frame accountant sentPackets newlyAckedPackets,
      sys.accountant.generateAckFrame 1000 3 0 = .ok (some frame, accountant) ∧
      detectAndRemoveAckedPackets frame sentPackets_2_7 = .ok (sentPackets, newlyAckedPackets) ∧
      sentPackets.entries = [(3, 3), (4, 4), (6, 6), (7, 7)] := by
  have h₀ : AckSystem.Reachable AckSystem.Regular _ :=
    AckSystem.Reachable.init 2 false (some false)
  have h₁ := h₀.step (.packetReceived 5 true false 0 0) (by simp [AckSystem.Allowed])
    ⟨by decide, by rintro ⟨⟩⟩ rfl
  have h₂ := h₁.step (.packetReceived 2 true false 5 0) (by simp [AckSystem.Allowed])
    ⟨by decide, by rintro ⟨⟩⟩ rfl
  obtain ⟨-, blocks, sentPackets, newlyAckedPackets, hd, -, hdetect, hremaining, -⟩ :=
    h₂.removes_acknowledged
      (show ReceivedPacketsAccountant.generateAckFrame _ 1000 3 0 = .ok (some _, _) from rfl)
      (show sentPackets_2_7.entries ≠ [] by simp [sentPackets_2_7])
  refine ⟨_, h₂, rfl, _, _, sentPackets, newlyAckedPackets, rfl, hdetect, ?_⟩
  cases hd
  exact hremaining

/-- After a late packet the frame of the receiver does not decode, and the sender removes packets
that were never received. -/
theorem exists_removes_missing : ∃ sys, AckSystem.Reachable (fun _ _ => True) sys ∧
    sys.received = [2, 7, 5] ∧ ∃ frame accountant,
      sys.accountant.generateAckFrame 1000 3 0 = .ok (some frame, accountant) ∧
      frame.decode = none ∧
      (detectAndRemoveAckedPackets frame sentPackets_2_7).map Prod.snd =
        .ok [7, 6, 5, 4, 3, 2] := by
  have h₀ : AckSystem.Reachable (fun _ _ => True) _ := AckSystem.Reachable.init 2 false (some false)
  have h₁ := h₀.step (.packetReceived 5 true false 0 0) (by simp [AckSystem.Allowed]) trivial rfl
  have h₂ := h₁.step (.frameGenerated 1000 3 0) trivial trivial rfl
  have h₃ := h₂.step (.packetAcked (some ⟨5, 0, 0, 0, []⟩)) (by rintro _ ⟨⟩; decide) trivial rfl
  have h₄ := h₃.step (.packetReceived 7 true false 5 0) (by simp [AckSystem.Allowed]) trivial rfl
  have h₅ := h₄.step (.packetReceived 2 true false 7 0) (by simp [AckSystem.Allowed]) trivial rfl
  refine ⟨_, h₅, rfl, _, _, rfl, ?_, ?_⟩
  · decide
  · rfl

end Inet.Quic
