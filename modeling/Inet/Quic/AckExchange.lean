import Inet.Quic.AckedPackets

/-! # The exchange of packets and ACK frames

A sender and a receiver, with a network between them that loses and reorders
packets and ACK frames, and that may deliver a frame again. A frame is old when
it arrives, and its packets may have been acknowledged or given up before.
-/

namespace Inet.Quic

open ReliabilityManager

variable {α : Type}

/-- Packet numbers increase. -/
def SentPackets.insert (sentPackets : SentPackets α) (packetNumber : ℕ) (packet : α)
    (h : ∀ entry ∈ sentPackets.entries, entry.1 < packetNumber) : SentPackets α where
  entries := sentPackets.entries ++ [(packetNumber, packet)]
  sorted := List.pairwise_append.2
    ⟨sentPackets.sorted, List.pairwise_singleton _ _, by simpa using h⟩

namespace AckFrameHeader

/-- The frame decodes to blocks of received packets. -/
def Acknowledges (ackFrame : AckFrameHeader) (received : List ℕ) : Prop :=
  ackFrame.largestAck < 2 ^ 64 ∧ ∃ blocks, ackFrame.decode = some blocks ∧
    ∀ q, inBlocks blocks q → q ∈ received

theorem Acknowledges.mono {ackFrame : AckFrameHeader} {received received' : List ℕ}
    (h : ackFrame.Acknowledges received) (hsubset : ∀ q ∈ received, q ∈ received') :
    ackFrame.Acknowledges received' := by
  obtain ⟨hlt, blocks, hdecode, hblocks⟩ := h
  exact ⟨hlt, blocks, hdecode, fun q hq => hsubset q (hblocks q hq)⟩

end AckFrameHeader

theorem ReceivedPacketsAccountant.Accounts.acknowledges {accountant : ReceivedPacketsAccountant}
    {received : List ℕ} (h : accountant.Accounts received) (hne : received ≠ [])
    (maxSize ackDelayExponent simTime : ℕ) :
    (accountant.ackFrame maxSize ackDelayExponent simTime).Acknowledges received := by
  obtain ⟨blocks, hdecode, hblocks⟩ := h.decode_ackFrame maxSize ackDelayExponent simTime
  refine ⟨(Nat.lt_succ_self _).trans h.largest_lt, blocks, hdecode, fun q hq => ?_⟩
  obtain ⟨block, hblock, hin⟩ := List.any_eq_true.1 hq
  rw [inBlock, Bool.and_eq_true, decide_eq_true_eq, decide_eq_true_eq] at hin
  exact h.mem_of_reports hne (hblocks block hblock q hin.1 hin.2)

/-- The packets in flight, all that were sent, acknowledged or given up, and the receiver. -/
structure AckExchange (α : Type) where
  sentPackets : SentPackets α
  sent : List (ℕ × α)
  acked : List α
  lost : List α
  receiver : AckSystem

namespace AckExchange

/-- A packet that is received was sent, and a frame is generated for received packets. -/
def Carries (x : AckExchange α) : AckEvent → Prop
  | .packetReceived packetNumber _ _ _ _ => packetNumber ∈ x.sent.map Prod.fst
  | .frameGenerated _ _ _ => x.receiver.received ≠ []
  | .packetAcked _ => True

inductive Reachable : AckExchange α → Prop
  | start (numReceivedAckElicitingsBeforeAck : ℕ) (useIBit : Bool) (ackDelayTimer : Option Bool) :
    Reachable ⟨⟨[], .nil⟩, [], [], [],
      ⟨{ numReceivedAckElicitingsBeforeAck, useIBit, ackDelayTimer }, [], []⟩⟩
  | send {x : AckExchange α} (packetNumber : ℕ) (packet : α)
    (h : ∀ entry ∈ x.sentPackets.entries, entry.1 < packetNumber) : Reachable x →
    Reachable { x with
      sentPackets := x.sentPackets.insert packetNumber packet h
      sent := (packetNumber, packet) :: x.sent }
  | lose {x : AckExchange α} {entry : ℕ × α} : Reachable x → entry ∈ x.sentPackets.entries →
    Reachable { x with
      sentPackets := x.sentPackets.erase entry.1, lost := entry.2 :: x.lost }
  | receive {x : AckExchange α} {event : AckEvent} {receiver : AckSystem} : Reachable x →
    x.receiver.Allowed event → x.receiver.Regular event → x.Carries event →
    x.receiver.step event = .ok receiver → Reachable { x with receiver := receiver }
  | acknowledge {x : AckExchange α} {ackFrame : AckFrameHeader} {sentPackets : SentPackets α}
    {newlyAckedPackets : List α} : Reachable x → ackFrame ∈ x.receiver.frames →
    x.sentPackets.entries ≠ [] →
    detectAndRemoveAckedPackets ackFrame x.sentPackets = .ok (sentPackets, newlyAckedPackets) →
    Reachable { x with sentPackets := sentPackets, acked := newlyAckedPackets ++ x.acked }

/-- No packet is lost or there twice, and only received packets are acknowledged. -/
structure Sound (x : AckExchange α) : Prop where
  agrees : x.receiver.Agrees
  frames : ∀ ackFrame ∈ x.receiver.frames, ackFrame.Acknowledges x.receiver.received
  perm : (x.sent.map Prod.snd).Perm
    (x.sentPackets.entries.map Prod.snd ++ (x.acked ++ x.lost))
  entries : ∀ entry ∈ x.sentPackets.entries, entry ∈ x.sent
  acked : ∀ packet ∈ x.acked, ∃ q ∈ x.receiver.received, (q, packet) ∈ x.sent

variable {x : AckExchange α}

theorem Sound.receive (h : x.Sound) {event : AckEvent} {receiver : AckSystem}
    (hallowed : x.receiver.Allowed event) (hregular : x.receiver.Regular event)
    (hcarries : x.Carries event) (hstep : x.receiver.step event = .ok receiver) :
    Sound { x with receiver := receiver } := by
  have hagrees : receiver.Agrees := by
    obtain ⟨receiver', hstep', hagrees⟩ := h.agrees.exists_step hallowed hregular
    rw [hstep] at hstep'
    cases hstep'
    exact hagrees
  have hacc := h.agrees.accounts
  cases event with
  | packetReceived packetNumber ackEliciting isIBitSet lastReceivedAckEliciting simTime =>
    have hsubset : ∀ q ∈ x.receiver.received, q ∈ packetNumber :: x.receiver.received :=
      fun q hq => List.mem_cons_of_mem _ hq
    obtain ⟨accountant, haccountant, -⟩ := hacc.exists_onPacketReceived hallowed.2 hregular
      ackEliciting isIBitSet lastReceivedAckEliciting simTime
    rw [AckSystem.step, haccountant] at hstep
    cases hstep
    exact ⟨hagrees, fun ackFrame hframe => (h.frames ackFrame hframe).mono hsubset, h.perm,
      h.entries, fun packet hpacket =>
        (h.acked packet hpacket).imp fun q hq => hq.imp_left (hsubset q)⟩
  | frameGenerated maxSize ackDelayExponent simTime =>
    rw [AckSystem.step, ReceivedPacketsAccountant.generateAckFrame_eq] at hstep
    cases hstep
    refine ⟨hagrees, fun ackFrame hframe => ?_, h.perm, h.entries, h.acked⟩
    rcases List.mem_append.1 hframe with hframe | hframe
    · split at hframe
      · cases hframe
      · obtain rfl := List.mem_singleton.1 hframe
        exact hacc.acknowledges hcarries maxSize ackDelayExponent simTime
    · exact h.frames ackFrame hframe
  | packetAcked ackFrame =>
    cases hstep
    exact ⟨hagrees, h.frames, h.perm, h.entries, h.acked⟩

theorem Sound.lose (h : x.Sound) {entry : ℕ × α} (hentry : entry ∈ x.sentPackets.entries) :
    Sound { x with sentPackets := x.sentPackets.erase entry.1, lost := entry.2 :: x.lost } := by
  refine ⟨h.agrees, h.frames, h.perm.trans ?_, fun e he => h.entries e (List.mem_filter.1 he).1,
    h.acked⟩
  have hparts := (List.filter_append_perm (fun e => decide (e.1 = entry.1))
    x.sentPackets.entries).symm.map Prod.snd
  rw [filter_eq_singleton x.sentPackets.sorted hentry] at hparts
  refine (hparts.append_right _).trans ?_
  simp only [SentPackets.erase, decide_not, ne_eq, List.map_cons, List.cons_append]
  rw [← List.append_assoc, ← List.append_assoc]
  exact List.perm_middle.symm

theorem Sound.acknowledge (h : x.Sound) {ackFrame : AckFrameHeader} {sentPackets : SentPackets α}
    {newlyAckedPackets : List α} (hframe : ackFrame ∈ x.receiver.frames)
    (hne : x.sentPackets.entries ≠ [])
    (hdetect : detectAndRemoveAckedPackets ackFrame x.sentPackets =
      .ok (sentPackets, newlyAckedPackets)) :
    Sound { x with sentPackets := sentPackets, acked := newlyAckedPackets ++ x.acked } := by
  obtain ⟨hlt, blocks, hdecode, hblocks⟩ := h.frames ackFrame hframe
  obtain ⟨state, hstate, hmoved⟩ := moved_detectAndRemoveAckedPackets hdecode hlt hne
  rw [hdetect] at hstate
  cases hstate
  have hremaining := hmoved.remaining
  have hnewly := hmoved.newlyAcked
  dsimp only at hremaining hnewly
  refine ⟨h.agrees, h.frames, h.perm.trans ?_, fun entry hentry => ?_, fun packet hpacket => ?_⟩
  · have hparts := (List.filter_append_perm (fun entry => inBlocks blocks entry.1)
      x.sentPackets.entries).symm.map Prod.snd
    rw [List.map_append, ← hremaining] at hparts
    have hmoved' := hparts.trans ((hnewly.symm.append_right _).trans List.perm_append_comm)
    simpa only [List.append_assoc] using hmoved'.append_right (x.acked ++ x.lost)
  · dsimp only at hentry
    rw [hremaining] at hentry
    exact h.entries entry (List.mem_filter.1 hentry).1
  · rcases List.mem_append.1 hpacket with hpacket | hpacket
    · obtain ⟨entry, hentry, rfl⟩ := List.mem_map.1 (hnewly.mem_iff.1 hpacket)
      obtain ⟨hmem, hin⟩ := List.mem_filter.1 hentry
      exact ⟨entry.1, hblocks _ hin, h.entries entry hmem⟩
    · exact h.acked packet hpacket

theorem Reachable.sound (h : Reachable x) : x.Sound := by
  induction h with
  | start numReceivedAckElicitingsBeforeAck useIBit ackDelayTimer =>
    exact ⟨AckSystem.agrees_init _ _ _, by simp, .nil, by simp, by simp⟩
  | send packetNumber packet h _ ih =>
    refine ⟨ih.agrees, ih.frames, ?_, fun entry hentry => ?_, fun packet hpacket =>
      (ih.acked packet hpacket).imp fun q hq => hq.imp_right (List.mem_cons_of_mem _)⟩
    · simpa [SentPackets.insert] using (ih.perm.cons packet).trans List.perm_middle.symm
    · rcases List.mem_append.1 hentry with hentry | hentry
      · exact List.mem_cons_of_mem _ (ih.entries entry hentry)
      · exact List.mem_singleton.1 hentry ▸ List.mem_cons_self
  | lose _ hentry ih => exact ih.lose hentry
  | receive _ hallowed hregular hcarries hstep ih =>
    exact ih.receive hallowed hregular hcarries hstep
  | acknowledge _ hframe hne hdetect ih => exact ih.acknowledge hframe hne hdetect

/-- Every packet that was sent is in flight, acknowledged or given up, and only one of them, and one
that is acknowledged has been received. -/
theorem Reachable.exchanges (h : Reachable x) :
    (x.sent.map Prod.snd).Perm (x.sentPackets.entries.map Prod.snd ++ (x.acked ++ x.lost)) ∧
      (∀ packet ∈ x.acked, ∃ q ∈ x.receiver.received, (q, packet) ∈ x.sent) ∧
      ∀ ackFrame ∈ x.receiver.frames, x.sentPackets.entries ≠ [] →
        ∃ state, detectAndRemoveAckedPackets ackFrame x.sentPackets = .ok state := by
  have hsound := h.sound
  refine ⟨hsound.perm, hsound.acked, fun ackFrame hframe hne => ?_⟩
  obtain ⟨hlt, blocks, hdecode, -⟩ := hsound.frames ackFrame hframe
  exact (moved_detectAndRemoveAckedPackets hdecode hlt hne).imp fun _ hstate => hstate.1

/-- Packet 0 is given up, packet 1 is received, and a frame acknowledges it. -/
theorem exchanges_1 : ∃ x : AckExchange ℕ, Reachable x ∧ x.receiver.received = [1] ∧
    x.sentPackets.entries = [(2, 2)] ∧ x.acked = [1] ∧ x.lost = [0] ∧
    (x.sent.map Prod.snd).Perm (x.sentPackets.entries.map Prod.snd ++ (x.acked ++ x.lost)) := by
  have hsend := (((Reachable.start 2 false (some false)).send 0 0 (by simp)).send 1 1
    (by simp [SentPackets.insert])).send 2 2 (by simp [SentPackets.insert])
  have hlose := hsend.lose (show (0, 0) ∈ _ by simp [SentPackets.insert])
  have hreceive := hlose.receive (show AckSystem.Allowed _ (.packetReceived 1 true false 0 0) by
    simp [AckSystem.Allowed]) ⟨by decide, by rintro ⟨⟩⟩ (by simp [Carries]) rfl
  have hgenerate := hreceive.receive (show AckSystem.Allowed _ (.frameGenerated 1000 3 0) from
    trivial) trivial (List.cons_ne_nil _ _) rfl
  have hacknowledge := hgenerate.acknowledge (show ⟨1, 0, 0, 0, []⟩ ∈ _ from List.mem_cons_self)
    (by simp [SentPackets.insert, SentPackets.erase])
    (show detectAndRemoveAckedPackets ⟨1, 0, 0, 0, []⟩ _ = .ok (⟨[(2, 2)], _⟩, [1]) from rfl)
  exact ⟨_, hacknowledge, rfl, rfl, rfl, rfl, hacknowledge.exchanges.1⟩

end AckExchange

end Inet.Quic
