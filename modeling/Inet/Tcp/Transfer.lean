import Inet.Tcp.Receive
import Inet.Tcp.SendQueue

/-! # The transfer of a stream

A send queue, a receive queue, and between them a network that loses, repeats
and reorders segments and acknowledgements. Sequence numbers wrap: what arrives
is never as old as half their range.
-/

namespace Inet.Tcp

open Chunk ChunkBuffer Outcome TcpSendQueue TcpReceiveQueue

/-- A segment with its header in front of the payload. -/
structure Encapsulates (payload tcpSegment : Packet) (tcpHeaderLength : ℤ) : Prop where
  consistent : tcpSegment.Consistent
  header_nonneg : 0 ≤ tcpHeaderLength
  length_eq : tcpSegment.getDataLength = 8 * tcpHeaderLength + payload.dataBits.length
  bits_eq : tcpSegment.dataBits.drop (8 * tcpHeaderLength.toNat) = payload.dataBits

/-- The queues, what has happened to them, and all that has been sent. -/
structure Transfer where
  sendQueue : TcpSendQueue
  enqueued : List Packet
  acked : ℕ
  segments : List Segment
  acks : List (Seq × ℕ)
  receiveQueue : TcpReceiveQueue
  history : History

namespace Transfer

/-- What has been enqueued is the beginning of a stream. -/
def Writes (S : ℕ → Bool) (enqueued : List Packet) : Prop :=
  stream enqueued = streamBits S 0 (stream enqueued).length

/-- The runs in which a stream is written, with the places of segments and acknowledgements. -/
inductive Reachable (S : ℕ → Bool) (isn : Seq) : Transfer → Prop
  | start {sendQueue : TcpSendQueue} : sendQueue.Reachable isn [] 0 →
    Reachable S isn ⟨sendQueue, [], 0, [], [], TcpReceiveQueue.init isn, ⟨[], 0, []⟩⟩
  | enqueue {t : Transfer} {msg : Packet} {after : TcpSendQueue} {s s' : ℕ} : Reachable S isn t →
    Enqueues t.enqueued t.acked msg → Writes S (t.enqueued ++ [msg]) →
    (t.sendQueue.enqueueAppData msg).run s = .ok (after, s') →
    Reachable S isn { t with sendQueue := after, enqueued := t.enqueued ++ [msg] }
  | send {t : Transfer} {fromSeq numBytes : Seq} {payload tcpSegment : Packet}
    {tcpHeaderLength : ℤ} {s s' : ℕ} : Reachable S isn t →
    t.sendQueue.InWindow fromSeq numBytes → 0 < numBytes.toNat →
    (t.sendQueue.createSegmentWithBytes fromSeq numBytes).run s = .ok (payload, s') →
    Encapsulates payload tcpSegment tcpHeaderLength →
    Reachable S isn { t with segments := ⟨tcpSegment, tcpHeaderLength,
      t.acked + (fromSeq - t.sendQueue.bufferStartSeq).toNat, numBytes.toNat⟩ :: t.segments }
  | deliver {t : Transfer} {segment : Segment} {after : TcpReceiveQueue} {ndebug : Bool}
    {s s' : ℕ} : Reachable S isn t → segment ∈ t.segments → segment.Fits t.history →
    segment.Safe isn t.receiveQueue t.history →
    (t.receiveQueue.insertBytesFromSegment ndebug segment.tcpSegment segment.tcpHeaderLength
      (isn.add segment.start)).run s = .ok (after, s') →
    Reachable S isn { t with receiveQueue := after, history := { t.history with
      received := (segment.start, segment.length) :: t.history.received } }
  | read {t : Transfer} {seq : Seq} {packet : Option Packet} {after : TcpReceiveQueue} {s s' : ℕ} :
    Reachable S isn t → seqLE seq t.receiveQueue.rcv_nxt →
    (t.receiveQueue.extractBytesUpTo seq).run s = .ok ((packet, after), s') →
    Reachable S isn { t with receiveQueue := after, history := { t.history with
      extracted := max t.history.extracted
        (coveredPrefix t.history.received - (t.receiveQueue.rcv_nxt - seq).toNat)
      output := t.history.output ++ bitsOf packet } }
  | acknowledge {t : Transfer} : Reachable S isn t → Reachable S isn
    { t with acks := (t.receiveQueue.rcv_nxt, coveredPrefix t.history.received) :: t.acks }
  | discard {t : Transfer} {ack : Seq × ℕ} {after : TcpSendQueue} {s s' : ℕ} : Reachable S isn t →
    ack ∈ t.acks → t.acked < ack.2 + 2 ^ 31 → seqLE t.sendQueue.bufferStartSeq ack.1 →
    seqLE ack.1 t.sendQueue.bufferEndSeq →
    (t.sendQueue.discardUpTo ack.1).run s = .ok (after, s') →
    Reachable S isn { t with
      sendQueue := after, acked := t.acked + (ack.1 - t.sendQueue.bufferStartSeq).toNat }

/-- Segments carry what has been enqueued, and only what has been received is acknowledged. -/
structure Sound (S : ℕ → Bool) (isn : Seq) (t : Transfer) : Prop where
  sends : t.sendQueue.Reachable isn t.enqueued t.acked
  writes : Writes S t.enqueued
  carries : ∀ segment ∈ t.segments, segment.Carries S ∧
    segment.start + segment.length ≤ enqueuedBytes t.enqueued
  receives : TcpReceiveQueue.Reachable S isn
    (fun this history segment => segment.Safe isn this history) t.receiveQueue t.history
  received_le : ∀ range ∈ t.history.received, range.1 + range.2 ≤ enqueuedBytes t.enqueued
  acks : ∀ ack ∈ t.acks, ack.1 = isn.add ack.2 ∧ ack.2 ≤ coveredPrefix t.history.received
  acked_le : t.acked ≤ coveredPrefix t.history.received

variable {S : ℕ → Bool} {isn fromSeq numBytes : Seq} {t : Transfer}

theorem enqueuedBytes_le (enqueued : List Packet) (msg : Packet) :
    enqueuedBytes enqueued ≤ enqueuedBytes (enqueued ++ [msg]) := by
  refine Nat.div_le_div_right ?_
  rw [stream, stream, List.flatMap_append, List.length_append]
  exact Nat.le_add_right _ _

theorem Sound.length_stream (h : t.Sound S isn) :
    (stream t.enqueued).length = 8 * enqueuedBytes t.enqueued := by
  rw [TcpSendQueue.length_stream]
  exact h.sends.holds.whole

theorem Sound.carries_of_run (h : t.Sound S isn) {payload tcpSegment : Packet}
    {tcpHeaderLength : ℤ} {s s' : ℕ} (hwindow : t.sendQueue.InWindow fromSeq numBytes)
    (hpos : 0 < numBytes.toNat)
    (hrun : (t.sendQueue.createSegmentWithBytes fromSeq numBytes).run s = .ok (payload, s'))
    (henc : Encapsulates payload tcpSegment tcpHeaderLength) :
    Segment.Carries ⟨tcpSegment, tcpHeaderLength,
      t.acked + (fromSeq - t.sendQueue.bufferStartSeq).toNat, numBytes.toNat⟩ S := by
  have hin := h.sends.holds.inWindow_iff.1 hwindow
  have hbits := (h.sends.serves.createSegmentWithBytes _ _ hwindow hpos).of_run hrun
  have hlen := h.length_stream
  have hget : ∀ k < 8 * numBytes.toNat, payload.dataBits[k]? =
      some (S (8 * (t.acked + (fromSeq - t.sendQueue.bufferStartSeq).toNat) + k)) := by
    intro k hk
    rw [hbits, getElem?_seg, if_pos (by omega), h.writes, streamBits, List.getElem?_map,
      List.getElem?_range (by omega), Option.map_some]
    congr 2
    omega
  refine ⟨henc.consistent, henc.header_nonneg, hpos, ?_, fun k hk => ?_⟩
  · rw [henc.length_eq, hbits, length_seg (by omega) (by omega) (by omega)]
    dsimp only
    omega
  · rw [← List.getElem?_drop, henc.bits_eq]
    exact hget k hk

theorem Sound.discarded_le (h : t.Sound S isn) {ack : Seq × ℕ} (hack : ack ∈ t.acks)
    (hold : t.acked < ack.2 + 2 ^ 31) (hstart : seqLE t.sendQueue.bufferStartSeq ack.1) :
    t.acked + (ack.1 - t.sendQueue.bufferStartSeq).toNat ≤ coveredPrefix t.history.received := by
  obtain ⟨heq, hle⟩ := h.acks ack hack
  have hholds := h.sends.holds
  have hbytes := coveredPrefix_le h.received_le
  have hbelow := hholds.window
  rw [heq, hholds.start_eq] at hstart ⊢
  rw [seqLE_near isn hold (by omega), decide_eq_true_eq] at hstart
  rw [Seq.toNat_sub_of_le isn hstart (by omega)]
  omega

theorem Reachable.sound (h : Reachable S isn t) : t.Sound S isn := by
  induction h with
  | start hqueue => exact ⟨hqueue, rfl, by simp, .init, by simp, by simp, Nat.zero_le _⟩
  | @enqueue t msg _ _ _ _ hmsg hwrites hrun ih =>
    have hle := enqueuedBytes_le t.enqueued msg
    exact ⟨ih.sends.enqueue hmsg hrun, hwrites,
      fun segment hmem => (ih.carries segment hmem).imp_right (le_trans · hle), ih.receives,
      fun range hmem => (ih.received_le range hmem).trans hle, ih.acks, ih.acked_le⟩
  | send _ hwindow hpos hrun henc ih =>
    refine ⟨ih.sends, ih.writes, ?_, ih.receives, ih.received_le, ih.acks, ih.acked_le⟩
    exact List.forall_mem_cons.2 ⟨⟨ih.carries_of_run hwindow hpos hrun henc,
      ih.sends.holds.inWindow_iff.1 hwindow⟩, ih.carries⟩
  | @deliver t segment _ _ _ _ _ hmem hfits hsafe hrun ih =>
    obtain ⟨hcarries, hle⟩ := ih.carries _ hmem
    have hcov := coveredPrefix_le_cons (segment.start, segment.length) t.history.received
    exact ⟨ih.sends, ih.writes, ih.carries, ih.receives.insert hcarries hfits hsafe hrun,
      List.forall_mem_cons.2 ⟨hle, ih.received_le⟩,
      fun ack hack => (ih.acks ack hack).imp_right (le_trans · hcov), ih.acked_le.trans hcov⟩
  | read _ hseq hrun ih => exact { ih with receives := ih.receives.extract hseq hrun }
  | acknowledge _ ih =>
    exact { ih with
      acks := List.forall_mem_cons.2 ⟨⟨ih.receives.invariant.rcv_nxt_eq, le_rfl⟩, ih.acks⟩ }
  | discard _ hack hold hstart hend hrun ih =>
    exact { ih with
      sends := ih.sends.discard hstart hend hrun
      acked_le := ih.discarded_le hack hold hstart }

/-- What has been read is a prefix of what has been written, and what has not been received is still
in the send queue. -/
theorem Reachable.transfers (h : Reachable S isn t) :
    t.history.output = (stream t.enqueued).take (8 * t.history.extracted) ∧
      t.history.extracted ≤ coveredPrefix t.history.received ∧
      coveredPrefix t.history.received ≤ enqueuedBytes t.enqueued ∧
      t.acked ≤ coveredPrefix t.history.received ∧
      t.sendQueue.dataBuffer.restBits = (stream t.enqueued).drop (8 * t.acked) := by
  have hsound := h.sound
  have hinv := hsound.receives.invariant
  have hbytes := coveredPrefix_le hsound.received_le
  have hlen := hsound.length_stream
  have hle := hinv.extracted_le
  refine ⟨?_, hle, hbytes, hsound.acked_le, hsound.sends.holds.restBits_eq⟩
  rw [hinv.output_eq, hsound.writes, streamBits, streamBits, ← List.map_take, List.take_range,
    min_eq_left (by omega)]

/-- A packet with two bytes of ones. -/
def twoBytes : Packet := Packet.ofContent (bytes header [255, 255])

theorem encapsulates_segmentOf {payload : Packet} (start : ℕ)
    (hbits : payload.dataBits = List.replicate 8 true) :
    Encapsulates payload (segmentOf (bytes header [255]) start).tcpSegment 20 where
  consistent :=
    (carries_segmentOf trivial rfl rfl :
      (segmentOf (bytes header [255]) start).Carries fun _ => true).consistent
  header_nonneg := by decide
  length_eq := by
    rw [hbits]
    rfl
  bits_eq := by
    rw [hbits]
    rfl

/-- Two bytes are written from the last sequence number on. The second one is sent and delivered
before the first one, and once more behind it. Both are read, acknowledged, and discarded. -/
theorem transfers_reordered : ∃ t, Reachable (fun _ => true) 4294967295 t ∧
    t.history.received = [(1, 1), (0, 1), (1, 1)] ∧ t.history.output = List.replicate 16 true ∧
    t.acked = 2 := by
  have hnew : TcpSendQueue.Reachable ⟨4294967295, 4294967295, ⟨0, 0,
      .empty ⟨1, false, false, false⟩, ⟨true, 0, 0⟩⟩⟩ 4294967295 [] 0 :=
    (TcpSendQueue.Reachable.new (show new.run 0 = .ok (_, 1) from rfl)).init
      (show (init _ 4294967295).run 1 = .ok (_, 2) from rfl)
  have hmsg : Enqueues [] 0 twoBytes := {
    consistent := Packet.consistent_ofContent trivial
    clean := ⟨rfl, rfl, rfl⟩
    length_pos := by decide
    whole := by decide
    noClash := noClash_of_plain (by decide)
    window := by decide }
  have hplain : ∀ h data, ∀ cell ∈ (bytes h data).cells, cell.counted = false := by
    intro h data cell hcell
    obtain ⟨bit, -, rfl⟩ := List.mem_map.1 hcell
    rfl
  have henqueue := (Reachable.start hnew).enqueue hmsg (show Writes (fun _ => true) _ from rfl)
    (show (enqueueAppData _ _).run 2 =
      .ok (⟨4294967295, 1, ⟨16, 0, twoBytes.content, ⟨true, 0, 0⟩⟩⟩, 2) from rfl)
  have hsecond :=
    henqueue.send (show (0 - 4294967295 : Seq).toNat + (1 : Seq).toNat ≤ _ from le_rfl)
    Nat.one_pos (show (createSegmentWithBytes _ 0 1).run 2 =
      .ok (Packet.ofContent (bytes ⟨3, false, false, false⟩ [255]), 4) from rfl)
    (encapsulates_segmentOf 1 rfl)
  have hfirst := hsecond.send (show (4294967295 - 4294967295 : Seq).toNat + (1 : Seq).toNat ≤ _ from
    by decide)
    Nat.one_pos (show (createSegmentWithBytes _ 4294967295 1).run 4 =
      .ok (Packet.ofContent (bytes ⟨5, false, false, false⟩ [255]), 6) from rfl)
    (encapsulates_segmentOf 0 rfl)
  have hsent : Reachable (fun _ => true) 4294967295
      ⟨⟨4294967295, 1, ⟨16, 0, twoBytes.content, ⟨true, 0, 0⟩⟩⟩, [twoBytes], 0,
        [segmentOf (bytes header [255]) 0, segmentOf (bytes header [255]) 1], [],
        TcpReceiveQueue.init 4294967295, ⟨[], 0, []⟩⟩ := hfirst
  have h₁ := hsent.deliver (List.mem_cons_of_mem _ List.mem_cons_self) ⟨by decide, by decide⟩
    (safe_segmentOf fun span hspan => absurd hspan List.not_mem_nil)
    (show (insertBytesFromSegment false (TcpReceiveQueue.init 4294967295)
        (segmentOf (bytes header [255]) 1).tcpSegment 20 0).run 6 =
      .ok (⟨4294967295, ⟨⟨[⟨34359738368, bytes header [255]⟩]⟩, 34359738360⟩⟩, 6) from rfl)
  have h₂ := h₁.deliver List.mem_cons_self ⟨by decide, by decide⟩
    (safe_segmentOf (List.forall_mem_singleton.2 (hplain header _)))
    (show (insertBytesFromSegment false _
        (segmentOf (bytes header [255]) 0).tcpSegment 20 4294967295).run 6 =
      .ok (⟨1, ⟨⟨[⟨34359738360, bytes ⟨6, false, false, false⟩ [255, 255]⟩]⟩, 34359738360⟩⟩, 7)
      from rfl)
  have h₃ := h₂.deliver (List.mem_cons_of_mem _ List.mem_cons_self) ⟨by decide, by decide⟩
    (safe_segmentOf (List.forall_mem_singleton.2 (hplain ⟨6, false, false, false⟩ _)))
    (show (insertBytesFromSegment false _
        (segmentOf (bytes header [255]) 1).tcpSegment 20 0).run 7 =
      .ok (⟨1, ⟨⟨[⟨34359738360, bytes ⟨8, false, false, false⟩ [255, 255]⟩]⟩, 34359738360⟩⟩, 9)
      from rfl)
  have hread := h₃.read (show seqLE 1 1 from rfl)
    (show (extractBytesUpTo _ 1).run 9 =
      .ok ((some (Packet.ofContent (bytes ⟨8, false, false, false⟩ [255, 255])),
        ⟨1, ⟨⟨[]⟩, 34359738376⟩⟩), 10) from rfl)
  have hcov : coveredPrefix [(1, 1), (0, 1), (1, 1)] = 2 :=
    coveredPrefix_eq (by decide) (by decide)
  have hacked : Reachable (fun _ => true) 4294967295
      ⟨⟨4294967295, 1, ⟨16, 0, twoBytes.content, ⟨true, 0, 0⟩⟩⟩, [twoBytes], 0,
        [segmentOf (bytes header [255]) 0, segmentOf (bytes header [255]) 1], [(1, 2)],
        ⟨1, ⟨⟨[]⟩, 34359738376⟩⟩,
        ⟨[(1, 1), (0, 1), (1, 1)], max 0 (2 - 0), List.replicate 16 true⟩⟩ :=
    hcov ▸ hread.acknowledge
  have hdiscard := hacked.discard List.mem_cons_self (show 0 < 2 + 2 ^ 31 by decide)
    (show seqLE 4294967295 1 from rfl) (show seqLE 1 1 from rfl)
    (show (discardUpTo ⟨4294967295, 1, ⟨16, 0, twoBytes.content, ⟨true, 0, 0⟩⟩⟩ 1).run 10 =
      .ok (⟨1, 1, ⟨16, 16, .empty ⟨10, false, false, false⟩, ⟨true, 0, 0⟩⟩⟩, 11) from rfl)
  exact ⟨_, hdiscard, rfl, hdiscard.transfers.1, rfl⟩

end Transfer

end Inet.Tcp
