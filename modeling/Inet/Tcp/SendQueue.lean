import Inet.Packet.QueueRun
import Inet.Tcp.Seq

/-! # The TCP send queue

The data of the application lies in a chunk queue. `begin` is the sequence
number of its first byte and `end` that behind its last one; both wrap, and
the queue holds less than `2 ^ 31` bytes.
-/

namespace Inet

open Chunk Outcome

/-- `getByteLength` of a packet. -/
def Packet.getByteLength (this : Packet) : ℤ := (this.getDataLength + 7) / 8

theorem Packet.returns_insertAtBack_empty {chunk : Chunk} (header : ChunkHeader)
    (hpos : 0 < chunk.getChunkLength) :
    Returns (Packet.insertAtBack ⟨.empty header, ⟨true, 0, 0⟩, ⟨false, 0, 0⟩, 0⟩ chunk)
      fun packet => packet = ofContent chunk := by
  unfold insertAtBack insertAt insertedContent
  rw [checkUsage, if_pos hpos, pure_bind, checkUsage,
    if_pos (by simp [getBackOffset, getTotalLength]), pure_bind]
  refine Spec.pure ?_
  rw [ofContent, zero_add]

namespace Tcp

/-- The members `begin` and `end` are named after their getters. -/
structure TcpSendQueue where
  bufferStartSeq : Seq
  bufferEndSeq : Seq
  dataBuffer : ChunkQueue

namespace TcpSendQueue

def new : ChunkM TcpSendQueue := do return ⟨0, 0, ← ChunkQueue.new⟩

def init (this : TcpSendQueue) (startSeq : Seq) : ChunkM TcpSendQueue := do
  return ⟨startSeq, startSeq, ← this.dataBuffer.clear⟩

def enqueueAppData (this : TcpSendQueue) (msg : Packet) : ChunkM TcpSendQueue := do
  let chunk ← deref (← msg.peekDataAt none 0 msg.getDataLength {})
  let dataBuffer ← this.dataBuffer.push chunk
  let bufferEndSeq := this.bufferEndSeq + BitVec.ofInt 32 msg.getByteLength
  if seqLess bufferEndSeq this.bufferStartSeq then
    throw (.runtime "Send queue is full")
  else
    return ⟨this.bufferStartSeq, bufferEndSeq, dataBuffer⟩

def getBytesAvailable (this : TcpSendQueue) (fromSeq : Seq) : Seq :=
  if seqLess fromSeq this.bufferEndSeq then this.bufferEndSeq - fromSeq else 0

def createSegmentWithBytes (this : TcpSendQueue) (fromSeq numBytes : Seq) : ChunkM Packet := do
  assert (seqLE this.bufferStartSeq fromSeq ∧ seqLE (fromSeq + numBytes) this.bufferEndSeq)
    "seqLE(begin, fromSeq) && seqLE(fromSeq + numBytes, end)"
  let tcpSegment ← Packet.new
  let payload ← deref (← this.dataBuffer.peekAt (8 * (fromSeq - this.bufferStartSeq).toNat)
    (8 * numBytes.toNat) {})
  tcpSegment.insertAtBack payload

def discardUpTo (this : TcpSendQueue) (seqNum : Seq) : ChunkM TcpSendQueue := do
  assert (seqLE this.bufferStartSeq seqNum ∧ seqLE seqNum this.bufferEndSeq)
    "seqLE(begin, seqNum) && seqLE(seqNum, end)"
  if seqNum ≠ this.bufferStartSeq then
    let (_, dataBuffer) ← this.dataBuffer.pop (8 * (seqNum - this.bufferStartSeq).toNat) {}
    return ⟨seqNum, this.bufferEndSeq, dataBuffer⟩
  else
    return this

/-! The stream that has been enqueued. -/

/-- The cells of the data part of a packet. -/
def dataCells (msg : Packet) : List Cell :=
  seg msg.content.cells msg.getFrontOffset msg.getDataLength

theorem map_dataCells (msg : Packet) : (dataCells msg).map Cell.bit = msg.dataBits := by
  rw [dataCells, map_seg]
  rfl

def streamCells (enqueued : List Packet) : List Cell := enqueued.flatMap dataCells

/-- The bits of the enqueued packets, one after the other. -/
def stream (enqueued : List Packet) : List Bool := enqueued.flatMap Packet.dataBits

/-- The number of bytes that have been enqueued. -/
def enqueuedBytes (enqueued : List Packet) : ℕ := (stream enqueued).length / 8

theorem map_streamCells (enqueued : List Packet) :
    (streamCells enqueued).map Cell.bit = stream enqueued := by
  rw [streamCells, stream, List.map_flatMap]
  exact congrArg (List.flatMap · enqueued) (funext map_dataCells)

theorem length_stream (enqueued : List Packet) :
    (stream enqueued).length = (streamCells enqueued).length := by
  rw [← map_streamCells, List.length_map]

/-- A packet that can be enqueued behind others: it holds some whole bytes that are not marked, no
bit counts clash in the stream, and the window stays small enough. -/
structure Enqueues (enqueued : List Packet) (acked : ℕ) (msg : Packet) : Prop where
  consistent : msg.Consistent
  clean : msg.content.Clean
  length_pos : 0 < msg.getDataLength
  whole : msg.getDataLength % 8 = 0
  noClash : NoClash (streamCells (enqueued ++ [msg]))
  window : enqueuedBytes (enqueued ++ [msg]) < acked + 2 ^ 31

/-- The runs of a queue, with the initial sequence number, the packets that have been enqueued since
then, and the number of bytes that have been discarded. -/
inductive Reachable : TcpSendQueue → Seq → List Packet → ℕ → Prop
  | new {this : TcpSendQueue} {s s' : ℕ} : new.run s = .ok (this, s') → Reachable this 0 [] 0
  | init {this after : TcpSendQueue} {iss startSeq : Seq} {enqueued : List Packet}
      {acked s s' : ℕ} :
    Reachable this iss enqueued acked → (this.init startSeq).run s = .ok (after, s') →
    Reachable after startSeq [] 0
  | enqueue {this after : TcpSendQueue} {iss : Seq} {enqueued : List Packet} {msg : Packet}
    {acked s s' : ℕ} : Reachable this iss enqueued acked → Enqueues enqueued acked msg →
    (this.enqueueAppData msg).run s = .ok (after, s') →
    Reachable after iss (enqueued ++ [msg]) acked
  | discard {this after : TcpSendQueue} {iss seqNum : Seq} {enqueued : List Packet}
    {acked s s' : ℕ} : Reachable this iss enqueued acked →
    seqLE this.bufferStartSeq seqNum → seqLE seqNum this.bufferEndSeq →
    (this.discardUpTo seqNum).run s = .ok (after, s') →
    Reachable after iss enqueued (acked + (seqNum - this.bufferStartSeq).toNat)

/-- The range of bytes from a sequence number on lies between `begin` and `end`. -/
def InWindow (this : TcpSendQueue) (fromSeq numBytes : Seq) : Prop :=
  (fromSeq - this.bufferStartSeq).toNat + numBytes.toNat ≤
    (this.bufferEndSeq - this.bufferStartSeq).toNat

/-- The queue holds the stream from the discarded bytes on, and serves it. -/
structure Serves (this : TcpSendQueue) (iss : Seq) (enqueued : List Packet) (acked : ℕ) : Prop where
  acked_le : acked ≤ enqueuedBytes enqueued
  start_eq : this.bufferStartSeq = iss.add acked
  end_eq : this.bufferEndSeq = iss.add (enqueuedBytes enqueued)
  length_eq : (this.bufferEndSeq - this.bufferStartSeq).toNat = enqueuedBytes enqueued - acked
  buffered : this.dataBuffer.restBits = (stream enqueued).drop (8 * acked)
  getBytesAvailable (fromSeq : Seq) : this.InWindow fromSeq 0 →
    this.getBytesAvailable fromSeq = this.bufferEndSeq - fromSeq
  createSegmentWithBytes (fromSeq numBytes : Seq) : this.InWindow fromSeq numBytes →
    0 < numBytes.toNat → Returns (this.createSegmentWithBytes fromSeq numBytes) fun tcpSegment =>
      tcpSegment.dataBits = seg (stream enqueued)
        (8 * (acked + (fromSeq - this.bufferStartSeq).toNat)) (8 * numBytes.toNat)
  init (startSeq : Seq) : Returns (this.init startSeq) fun _ => True
  enqueueAppData (msg : Packet) : Enqueues enqueued acked msg →
    Returns (this.enqueueAppData msg) fun _ => True
  discardUpTo (seqNum : Seq) : seqLE this.bufferStartSeq seqNum → seqLE seqNum this.bufferEndSeq →
    Returns (this.discardUpTo seqNum) fun _ => True

/-! The invariant. -/

/-- The data buffer holds the stream from the discarded bytes on, in whole bytes. -/
structure Holds (this : TcpSendQueue) (iss : Seq) (enqueued : List Packet) (acked : ℕ) : Prop where
  coherent : this.dataBuffer.Coherent
  suffix : this.dataBuffer.content.cells <:+ streamCells enqueued
  rest : this.dataBuffer.restCells = (streamCells enqueued).drop (8 * acked)
  whole : (streamCells enqueued).length = 8 * enqueuedBytes enqueued
  acked_le : acked ≤ enqueuedBytes enqueued
  window : enqueuedBytes enqueued < acked + 2 ^ 31
  start_eq : this.bufferStartSeq = iss.add acked
  end_eq : this.bufferEndSeq = iss.add (enqueuedBytes enqueued)

variable {this : TcpSendQueue} {iss fromSeq numBytes seqNum : Seq} {enqueued : List Packet}
  {msg : Packet} {acked : ℕ}

theorem streamCells_concat (enqueued : List Packet) (msg : Packet) :
    streamCells (enqueued ++ [msg]) = streamCells enqueued ++ dataCells msg := by
  simp [streamCells]

theorem Enqueues.length_dataCells (h : Enqueues enqueued acked msg) :
    ((dataCells msg).length : ℤ) = msg.getDataLength := by
  have hwf := h.consistent.wf.length_cells
  have hlength := h.consistent.length_eq
  have hback := h.consistent.back_le
  have hpos := h.length_pos
  refine length_seg h.consistent.front_nonneg hpos.le ?_
  simp only [Packet.getDataLength, Packet.getFrontOffset, Packet.getBackOffset] at hback hpos ⊢
  omega

theorem Enqueues.exists_bytes (h : Enqueues enqueued acked msg)
    (hwhole : (streamCells enqueued).length = 8 * enqueuedBytes enqueued) :
    ∃ n : ℕ, msg.getDataLength = 8 * n ∧
      enqueuedBytes (enqueued ++ [msg]) = enqueuedBytes enqueued + n := by
  have hpos := h.length_pos
  have hmod := h.whole
  have hlen := h.length_dataCells
  refine ⟨(msg.getDataLength / 8).toNat, by omega, ?_⟩
  rw [enqueuedBytes, length_stream, streamCells_concat, List.length_append]
  omega

theorem holds_of_cleared {dataBuffer : ChunkQueue} (hcoherent : dataBuffer.Coherent)
    (hcells : dataBuffer.content.cells = []) (hrest : dataBuffer.restCells = []) (startSeq : Seq) :
    Holds ⟨startSeq, startSeq, dataBuffer⟩ startSeq [] 0 where
  coherent := hcoherent
  suffix := by
    rw [hcells]
    exact List.nil_suffix
  rest := hrest
  whole := rfl
  acked_le := le_rfl
  window := by
    change 0 < _
    omega
  start_eq := Seq.add_zero.symm
  end_eq := Seq.add_zero.symm

theorem returns_new : Returns new fun this => Holds this 0 [] 0 := by
  unfold new
  refine ChunkQueue.returns_new.bind ?_
  rintro dataBuffer ⟨hcoherent, hcells, hrest⟩
  exact Spec.pure (holds_of_cleared hcoherent hcells hrest 0)

theorem Holds.returns_init (h : this.Holds iss enqueued acked) (startSeq : Seq) :
    Returns (this.init startSeq) fun after => after.Holds startSeq [] 0 := by
  unfold init
  refine h.coherent.returns_clear.bind ?_
  rintro dataBuffer ⟨hcoherent, hcells, hrest⟩
  exact Spec.pure (holds_of_cleared hcoherent hcells hrest startSeq)

theorem Holds.returns_enqueueAppData (h : this.Holds iss enqueued acked)
    (hmsg : Enqueues enqueued acked msg) :
    Returns (this.enqueueAppData msg) fun after => after.Holds iss (enqueued ++ [msg]) acked := by
  have hclash := hmsg.noClash
  rw [streamCells_concat] at hclash
  obtain ⟨n, hn, hbytes⟩ := hmsg.exists_bytes h.whole
  have hle := h.acked_le
  have hwindow := hmsg.window
  rw [hbytes] at hwindow
  unfold enqueueAppData
  rw [← bind_assoc]
  refine (hmsg.consistent.spec_peekDataAt hmsg.clean le_rfl hmsg.length_pos
    (zero_add _).le).bind ?_
  rintro chunk ⟨hrep, hpos⟩
  rw [add_zero] at hrep
  obtain ⟨hfree, hcells⟩ := hrep.clashFree hclash.right
  replace hcells : chunk.cells = dataCells msg := hcells
  have hsuffix : this.dataBuffer.content.cells ++ chunk.cells <:+
      streamCells (enqueued ++ [msg]) := by
    obtain ⟨before, hbefore⟩ := h.suffix
    refine ⟨before, ?_⟩
    rw [streamCells_concat, ← hbefore, hcells, List.append_assoc]
  refine (h.coherent.returns_push hfree hpos
    (hmsg.noClash.of_isInfix hsuffix.isInfix)).bind ?_
  rintro dataBuffer ⟨hcoherent, hcontent, hrest⟩
  have hend : this.bufferEndSeq + BitVec.ofInt 32 msg.getByteLength =
      iss.add (enqueuedBytes (enqueued ++ [msg])) := by
    have hbyteLength : msg.getByteLength = (n : ℤ) := by
      rw [Packet.getByteLength, hn]
      omega
    rw [hbyteLength, BitVec.ofInt_natCast, h.end_eq, hbytes]
    exact Seq.add_add
  dsimp only
  rw [hend, h.start_eq, seqLess_near iss (by omega) (by omega), if_neg (by simp; omega)]
  refine Spec.pure ⟨hcoherent, by rw [hcontent]; exact hsuffix, ?_, ?_, ?_, ?_, rfl, rfl⟩
  · rw [hrest, h.rest, streamCells_concat, hcells, List.drop_append_of_le_length]
    have := h.whole
    omega
  · have hlen := hmsg.length_dataCells
    have := h.whole
    rw [streamCells_concat, List.length_append]
    omega
  · omega
  · omega

theorem Holds.restBits_eq (h : this.Holds iss enqueued acked) :
    this.dataBuffer.restBits = (stream enqueued).drop (8 * acked) := by
  rw [ChunkQueue.restBits, h.rest, List.map_drop, map_streamCells]

theorem Holds.length_dataBuffer (h : this.Holds iss enqueued acked) :
    this.dataBuffer.getLength = 8 * (enqueuedBytes enqueued - acked) := by
  have hwhole := h.whole
  have hle := h.acked_le
  rw [← h.coherent.length_rest, h.rest, List.length_drop]
  omega

theorem Holds.eq_add (h : this.Holds iss enqueued acked) (seq : Seq) :
    seq = iss.add (acked + (seq - this.bufferStartSeq).toNat) := by
  conv_lhs => rw [← Seq.add_sub_toNat this.bufferStartSeq seq]
  rw [h.start_eq]
  exact Seq.add_add

theorem Holds.inWindow_iff (h : this.Holds iss enqueued acked) :
    this.InWindow fromSeq numBytes ↔
      acked + (fromSeq - this.bufferStartSeq).toNat + numBytes.toNat ≤ enqueuedBytes enqueued := by
  have hle := h.acked_le
  have hlen : (this.bufferEndSeq - this.bufferStartSeq).toNat = enqueuedBytes enqueued - acked := by
    rw [h.end_eq, h.start_eq]
    exact Seq.toNat_sub_of_le iss hle (by have := h.window; omega)
  rw [InWindow, hlen]
  omega

theorem Holds.returns_createSegmentWithBytes (h : this.Holds iss enqueued acked)
    (hwindow : this.InWindow fromSeq numBytes) (hpos : 0 < numBytes.toNat) :
    Returns (this.createSegmentWithBytes fromSeq numBytes) fun tcpSegment =>
      tcpSegment.dataBits = seg (stream enqueued)
        (8 * (acked + (fromSeq - this.bufferStartSeq).toNat)) (8 * numBytes.toNat) := by
  have hle := h.inWindow_iff.1 hwindow
  have hbelow := h.window
  obtain ⟨d, hd⟩ : ∃ d, d = (fromSeq - this.bufferStartSeq).toNat := ⟨_, rfl⟩
  have hfrom : fromSeq = iss.add (acked + d) := hd ▸ h.eq_add fromSeq
  have hto : fromSeq + numBytes = iss.add (acked + d + numBytes.toNat) := by
    rw [hfrom, ← Seq.add_add (m := acked + d), Seq.add, Seq.add, BitVec.ofNat_toNat]
    simp
  rw [← hd] at hle ⊢
  unfold createSegmentWithBytes
  rw [hto, ← hd, hfrom, h.start_eq, h.end_eq, seqLE_near iss (by omega) (by omega),
    seqLE_near iss (by omega) (by omega), assert, if_pos (by simp; omega), pure_bind]
  have hlength := h.length_dataBuffer
  have hrestBits := h.restBits_eq
  rw [ChunkQueue.restBits] at hrestBits
  unfold Packet.new
  simp only [bind_assoc, pure_bind]
  refine spec_newHeader.bind fun header _ => ?_
  refine (h.coherent.returns_peekAt (show (0 : ℤ) ≤ 8 * d by omega)
    (show (0 : ℤ) < 8 * numBytes.toNat by omega) (by omega) {}).bind ?_
  rintro _ ⟨payload, rfl, hfree, hpayload, hcells⟩
  rw [deref, pure_bind]
  refine (Packet.returns_insertAtBack_empty header (by omega)).mono id ?_
  rintro _ rfl
  rw [Packet.dataBits_ofContent hfree.wf, toBits, hcells, map_seg, hrestBits, seg, seg,
    List.drop_drop]
  refine congrArg (List.take _) (congrArg (List.drop · _) ?_)
  omega

theorem Holds.returns_discardUpTo (h : this.Holds iss enqueued acked)
    (hstart : seqLE this.bufferStartSeq seqNum) (hend : seqLE seqNum this.bufferEndSeq) :
    Returns (this.discardUpTo seqNum) fun after =>
      after.Holds iss enqueued (acked + (seqNum - this.bufferStartSeq).toNat) := by
  obtain ⟨d, hd⟩ : ∃ d, d = (seqNum - this.bufferStartSeq).toNat := ⟨_, rfl⟩
  have hseq : seqNum = iss.add (acked + d) := hd ▸ h.eq_add seqNum
  have hbelow := h.window
  have hle := h.acked_le
  have hinside : acked + d ≤ enqueuedBytes enqueued := by
    have hstart' : d < 2 ^ 31 := by
      rw [hd]
      exact of_decide_eq_true hstart
    rw [hseq, h.end_eq, seqLE_near iss (by omega) (by omega)] at hend
    exact of_decide_eq_true hend
  rw [← hd]
  unfold discardUpTo
  rw [assert, if_pos ⟨hstart, hend⟩, pure_bind]
  by_cases hmove : seqNum ≠ this.bufferStartSeq
  · have hdpos : 0 < d := by
      refine Nat.pos_of_ne_zero fun hzero => hmove ?_
      rw [hseq, hzero, h.start_eq, Nat.add_zero]
    have hlength := h.length_dataBuffer
    rw [if_pos hmove, ← hd]
    refine (h.coherent.returns_pop (show (0 : ℤ) < 8 * d by omega) (by omega) {}).bind ?_
    rintro ⟨_, dataBuffer⟩ ⟨_, -, -, hcoherent, hsuffix, hrest⟩
    refine Spec.pure ⟨hcoherent, hsuffix.trans h.suffix, ?_, h.whole, hinside, by omega, hseq,
      h.end_eq⟩
    rw [show dataBuffer.restCells = _ from hrest, h.rest, List.drop_drop]
    refine congrArg (List.drop · _) ?_
    omega
  · have hzero : d = 0 := by
      rw [hd, not_not.1 hmove]
      simp
    rw [if_neg hmove, hzero]
    exact Spec.pure h

theorem Holds.getBytesAvailable_eq (h : this.Holds iss enqueued acked)
    (hwindow : this.InWindow fromSeq 0) :
    this.getBytesAvailable fromSeq = this.bufferEndSeq - fromSeq := by
  have hle := h.inWindow_iff.1 hwindow
  have hbelow := h.window
  obtain ⟨d, hd⟩ : ∃ d, d = (fromSeq - this.bufferStartSeq).toNat := ⟨_, rfl⟩
  have hfrom : fromSeq = iss.add (acked + d) := hd ▸ h.eq_add fromSeq
  rw [← hd] at hle
  change acked + d + 0 ≤ _ at hle
  unfold getBytesAvailable
  rw [hfrom, h.end_eq, seqLess_near iss (by omega) (by omega)]
  split_ifs with hlt
  · rfl
  · rw [decide_eq_true_eq] at hlt
    rw [show acked + d = enqueuedBytes enqueued by omega]
    simp

theorem Reachable.holds (h : Reachable this iss enqueued acked) :
    this.Holds iss enqueued acked := by
  induction h with
  | new hrun => exact returns_new.of_run hrun
  | init _ hrun ih => exact (ih.returns_init _).of_run hrun
  | enqueue _ hmsg hrun ih => exact (ih.returns_enqueueAppData hmsg).of_run hrun
  | discard _ hstart hend hrun ih => exact (ih.returns_discardUpTo hstart hend).of_run hrun

theorem Reachable.serves (h : Reachable this iss enqueued acked) :
    this.Serves iss enqueued acked := by
  have hholds := h.holds
  have hbelow := hholds.window
  exact {
    acked_le := hholds.acked_le
    start_eq := hholds.start_eq
    end_eq := hholds.end_eq
    length_eq := by
      rw [hholds.end_eq, hholds.start_eq]
      exact Seq.toNat_sub_of_le iss hholds.acked_le (by omega)
    buffered := hholds.restBits_eq
    getBytesAvailable := fun fromSeq hwindow => hholds.getBytesAvailable_eq hwindow
    createSegmentWithBytes := fun _ _ hwindow hpos =>
      hholds.returns_createSegmentWithBytes hwindow hpos
    init := fun startSeq => (hholds.returns_init startSeq).mono id fun _ _ => trivial
    enqueueAppData := fun _ hmsg =>
      (hholds.returns_enqueueAppData hmsg).mono id fun _ _ => trivial
    discardUpTo := fun _ hstart hend =>
      (hholds.returns_discardUpTo hstart hend).mono id fun _ _ => trivial }

/-- Two packets of two bytes are enqueued, and three bytes are discarded. The second byte has
sequence number 0. -/
theorem serves_twoPackets : ∃ this : TcpSendQueue,
    this.Serves 0xFFFFFFFF#32 [Packet.ofContent (bytes ⟨9, false, false, false⟩ [1, 2]),
      Packet.ofContent (bytes ⟨8, false, false, false⟩ [3, 4])] 3 := by
  set first := bytes ⟨9, false, false, false⟩ [1, 2]
  set second := bytes ⟨8, false, false, false⟩ [3, 4]
  have hnew : Reachable ⟨0, 0, ⟨0, 0, .empty ⟨0, false, false, false⟩, ⟨true, 0, 0⟩⟩⟩ 0 [] 0 :=
    .new (show new.run 0 = .ok (_, 1) from rfl)
  have hinit := hnew.init
    (show (init _ 0xFFFFFFFF#32).run 1 = .ok (_, 2) from rfl)
  have hfirst : Enqueues [] 0 (Packet.ofContent first) := {
    consistent := Packet.consistent_ofContent trivial
    clean := ⟨rfl, rfl, rfl⟩
    length_pos := by decide
    whole := by decide
    noClash := noClash_of_plain (by decide)
    window := by decide }
  have hsecond : Enqueues [Packet.ofContent first] 0 (Packet.ofContent second) := {
    consistent := Packet.consistent_ofContent trivial
    clean := ⟨rfl, rfl, rfl⟩
    length_pos := by decide
    whole := by decide
    noClash := noClash_of_plain (by decide)
    window := by decide }
  obtain ⟨_, s, hrun, -⟩ := (hinit.holds.returns_enqueueAppData hfirst).exists_run 2
  have henqueued := hinit.enqueue hfirst hrun
  obtain ⟨queue, s, hrun, -⟩ := (henqueued.holds.returns_enqueueAppData hsecond).exists_run s
  have henqueued := henqueued.enqueue hsecond hrun
  have hstart : queue.bufferStartSeq = 0xFFFFFFFF#32 := henqueued.holds.start_eq
  have hend : queue.bufferEndSeq = 3#32 := henqueued.holds.end_eq.trans (by decide)
  have hle : seqLE queue.bufferStartSeq 2#32 := by rw [hstart]; decide
  have hge : seqLE 2#32 queue.bufferEndSeq := by rw [hend]; decide
  obtain ⟨after, s, hrun, -⟩ := (henqueued.holds.returns_discardUpTo hle hge).exists_run s
  have hdiscarded := henqueued.discard hle hge hrun
  rw [show 0 + (2#32 - queue.bufferStartSeq).toNat = 3 by rw [hstart]; rfl] at hdiscarded
  exact ⟨after, Reachable.serves hdiscarded⟩

/-- An empty segment is refused, although the sequence numbers are those of the queue. -/
theorem throws_emptySegment :
    (do
      let this ← new
      let this ← this.init 0
      this.createSegmentWithBytes 0 0 : ChunkM Packet).run 0 =
      .error (.runtime "Returning an empty chunk is not allowed according to the flags") := rfl

end TcpSendQueue

end Tcp

end Inet
