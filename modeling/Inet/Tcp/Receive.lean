import Inet.Buffer.Assemble
import Inet.Packet.Content
import Inet.Tcp.ReceiveQueue

/-! # The stream that a receive queue delivers

Segments that carry bytes of a stream arrive in any order. `rcv_nxt` follows
the longest prefix that has been received, and what is extracted is the stream
up to the last point of extraction. Positions in the stream do not wrap, and
sequence numbers stand for them inside a window of less than `2 ^ 31` bytes.
-/

namespace Inet.Tcp.TcpReceiveQueue

open Chunk ChunkBuffer ReorderBuffer Outcome

/-- A segment, with the place of its payload in the stream. -/
structure Segment where
  tcpSegment : Packet
  tcpHeaderLength : ℤ
  start : ℕ
  length : ℕ

/-- What has happened to a queue: the received ranges, the point of extraction, and the bits that
have been extracted. -/
structure History where
  received : List (ℕ × ℕ)
  extracted : ℕ
  output : List Bool

namespace Segment

/-- The payload is a part of the stream. -/
structure Carries (this : Segment) (S : ℕ → Bool) : Prop where
  consistent : this.tcpSegment.Consistent
  header_nonneg : 0 ≤ this.tcpHeaderLength
  length_pos : 0 < this.length
  length_eq : this.tcpSegment.getDataLength = 8 * (this.tcpHeaderLength + this.length)
  bits_eq : ∀ k < 8 * this.length,
    this.tcpSegment.dataBits[8 * this.tcpHeaderLength.toNat + k]? = some (S (8 * this.start + k))

/-- The segment reaches beyond the extracted data, inside one window with all that was received. -/
structure Fits (this : Segment) (history : History) : Prop where
  beyond : history.extracted < this.start + this.length
  window : ∀ range ∈ (this.start, this.length) :: history.received,
    range.1 + range.2 < min this.start history.extracted + 2 ^ 31

/-- The part of the payload that is behind the extracted data. -/
def payload (this : Segment) (history : History) : List Cell :=
  seg this.tcpSegment.content.cells
    (this.tcpSegment.getFrontOffset +
      8 * (this.tcpHeaderLength + ↑(history.extracted - this.start)))
    (8 * ↑(this.start + this.length - max this.start history.extracted))

end Segment

/-- The cells of the queue, by their positions in bits. -/
def stored (this : TcpReceiveQueue) : ℤ → Option Cell :=
  Span.lookup (this.reorderBuffer.regions.map Region.span)

/-- The payload is clean, and no bit counts clash in it and where it meets the queue. -/
structure Segment.Safe (segment : Segment) (isn : Seq) (this : TcpReceiveQueue)
    (history : History) :
    Prop where
  clean : segment.tcpSegment.content.Clean
  agrees : Agrees (written this.stored (8 * (isn.toNat + ↑(max segment.start history.extracted)))
    (segment.payload history))

/-- The bits of an extracted packet. -/
def bitsOf (packet : Option Packet) : List Bool := (packet.map Packet.dataBits).getD []

/-- The runs of a queue. Extraction up to a sequence number some bytes before `rcv_nxt` extracts the
received prefix but for these bytes. -/
inductive Reachable (S : ℕ → Bool) (isn : Seq) (P : TcpReceiveQueue → History → Segment → Prop) :
    TcpReceiveQueue → History → Prop
  | init : Reachable S isn P (init isn) ⟨[], 0, []⟩
  | insert {this this' : TcpReceiveQueue} {history : History} {segment : Segment} {ndebug : Bool}
    {s s' : ℕ} : Reachable S isn P this history → segment.Carries S → segment.Fits history →
    P this history segment →
    (this.insertBytesFromSegment ndebug segment.tcpSegment segment.tcpHeaderLength
      (isn.add segment.start)).run s = .ok (this', s') →
    Reachable S isn P this'
      { history with received := (segment.start, segment.length) :: history.received }
  | extract {this this' : TcpReceiveQueue} {history : History} {seq : Seq} {packet : Option Packet}
    {s s' : ℕ} : Reachable S isn P this history → seqLE seq this.rcv_nxt →
    (this.extractBytesUpTo seq).run s = .ok ((packet, this'), s') →
    Reachable S isn P this'
      { history with
        extracted := max history.extracted
          (coveredPrefix history.received - (this.rcv_nxt - seq).toNat)
        output := history.output ++ bitsOf packet }

variable {S : ℕ → Bool} {isn : Seq} {this : TcpReceiveQueue} {history : History}
  {segment : Segment}

/-- The state of a queue after what has happened to it. -/
structure Delivers (S : ℕ → Bool) (isn : Seq) (history : History) (this : TcpReceiveQueue) :
    Prop where
  assembles : ∃ stored, Assembles S isn.toNat history.received history.extracted stored
    this.reorderBuffer
  rcv_nxt_eq : this.rcv_nxt = isn.add (coveredPrefix history.received)
  extracted_le : history.extracted ≤ coveredPrefix history.received
  window : ∀ range ∈ history.received, range.1 + range.2 < history.extracted + 2 ^ 31
  output_eq : history.output = streamBits S 0 (8 * history.extracted)

section Convert

theorem offsetToSeq_add (isn : Seq) (k : ℕ) : offsetToSeq (isn.toNat + k) = isn.add k := by
  apply BitVec.eq_of_toNat_eq
  rw [offsetToSeq, BitVec.toNat_ofInt, Seq.toNat_add]
  omega

theorem bitsToSeq_eq (isn : Seq) (k : ℕ) : bitsToSeq (8 * (isn.toNat + k)) = pure (isn.add k) := by
  unfold bitsToSeq
  rw [toBytes_eq (by omega), pure_bind, Int.mul_ediv_cancel_left _ (by omega), offsetToSeq_add]

theorem seqToOffset_eq {seq : Seq} {x : ℤ} {e : ℕ}
    (he : this.reorderBuffer.expectedOffset = 8 * (isn.toNat + e))
    (hseq : (seq.toNat : ℤ) = (isn.toNat + x) % 2 ^ 32)
    (h₁ : x < e + 2 ^ 31) (h₂ : e < x + 2 ^ 31) :
    this.seqToOffset seq = pure (isn.toNat + x) := by
  have hisn := isn.isLt
  unfold seqToOffset
  rw [he, toBytes_eq (by omega), pure_bind, Int.mul_ediv_cancel_left _ (by omega),
    offsetToSeq_add]
  dsimp only
  congr 1
  simp only [seqGE, decide_eq_true_eq, BitVec.toNat_sub, Seq.toNat_add]
  split_ifs
  · omega
  · omega

end Convert

theorem delivers_init (S : ℕ → Bool) (isn : Seq) : Delivers S isn ⟨[], 0, []⟩ (init isn) where
  assembles := ⟨_, assembles_new S isn.toNat⟩
  rcv_nxt_eq := by
    rw [coveredPrefix_eq (n := 0) (by simp) (by simp [Covered]), Seq.add_zero]
    rfl
  extracted_le := Nat.zero_le _
  window := by simp
  output_eq := rfl

section Insert

theorem lt_of_covered {received : List (ℕ × ℕ)} {k bound : ℕ} (h : Covered received k)
    (hbound : ∀ range ∈ received, range.1 + range.2 < bound) : k + 1 < bound := by
  obtain ⟨range, hrange, -, hlt⟩ := h
  have := hbound range hrange
  omega

theorem Delivers.spec_checkRange (h : Delivers S isn history this) (hfits : segment.Fits history)
    (hpos : 0 < segment.length) :
    Returns (this.checkRange (isn.add segment.start) segment.length) fun _ => True := by
  obtain ⟨stored, hasm⟩ := h.assembles
  unfold checkRange
  cases hregions : this.reorderBuffer.regions with
  | nil => exact Spec.pure trivial
  | cons first rest =>
    rw [List.head?_cons]
    obtain ⟨last, hlast⟩ : ∃ last, (first :: rest).getLast? = some last :=
      Option.ne_none_iff_exists'.1 (by simp)
    rw [hlast]
    dsimp only
    rw [← hregions] at hlast
    have hmem : first ∈ this.reorderBuffer.regions := by rw [hregions]; exact List.mem_cons_self
    have hmem' := List.mem_of_getLast? hlast
    obtain ⟨k₀, k₁, hs, -, hE, hlt, hcov⟩ := hasm.exists_bounds hmem
    obtain ⟨k₂, k₃, hs', he, -, hlt', hcov'⟩ := hasm.exists_bounds hmem'
    have hle := hasm.expects.keeps.head_le hregions hmem'
    change first.getStartOffset ≤ last.getStartOffset at hle
    have hwin : ∀ range ∈ history.received,
        range.1 + range.2 < min segment.start history.extracted + 2 ^ 31 := fun range hrange =>
      hfits.window range (List.mem_cons_of_mem _ hrange)
    have hnew : segment.start + segment.length < min segment.start history.extracted + 2 ^ 31 :=
      hfits.window (segment.start, segment.length) List.mem_cons_self
    have h₀ := lt_of_covered (hcov k₀ le_rfl hlt) hwin
    have h₃ := lt_of_covered (hcov' (k₃ - 1) (by omega) (by omega)) hwin
    have hbeyond := hfits.beyond
    have hend : isn.add segment.start + BitVec.ofInt 32 segment.length =
        isn.add (segment.start + segment.length) := by
      rw [← Seq.add_add, BitVec.ofInt_natCast]
      rfl
    rw [hs, he, bitsToSeq_eq, pure_bind, bitsToSeq_eq, pure_bind, hend,
      seqMin_near isn (by omega) (by omega), seqMax_near isn (by omega) (by omega),
      seqGE_near isn (by omega) (by omega), seqGE_near isn (by omega) (by omega),
      seqGE_near isn (by omega) (by omega), seqGE_near isn (by omega) (by omega), if_neg]
    · exact Spec.pure trivial
    · simp only [Bool.or_eq_true, decide_eq_true_eq]
      omega

theorem spec_updateRcvNxt {received : List (ℕ × ℕ)} {stored : ℤ → Option Cell} {e R : ℕ}
    (h : Assembles S isn.toNat received e stored this.reorderBuffer)
    (hne : this.reorderBuffer.regions ≠ []) (hrcv : this.rcv_nxt = isn.add R) (heR : e ≤ R)
    (hR : R ≤ coveredPrefix received)
    (hwindow : ∀ range ∈ received, range.1 + range.2 < e + 2 ^ 31) :
    Returns this.updateRcvNxt fun result =>
      result = { this with rcv_nxt := isn.add (coveredPrefix received) } := by
  have hcov : coveredPrefix received < e + 2 ^ 31 := by
    have := coveredPrefix_le (show ∀ range ∈ received, range.1 + range.2 ≤ e + 2 ^ 31 - 1
      from fun range hrange => by
        have := hwindow range hrange
        omega)
    omega
  have hexp := h.expected_eq
  unfold updateRcvNxt
  by_cases hlt : e < coveredPrefix received
  · have hsome : (stored this.reorderBuffer.expectedOffset).isSome := by
      rw [hexp, show 8 * ((isn.toNat : ℤ) + e) = 8 * isn.toNat + ((8 * e : ℕ) : ℤ) by omega,
        h.isSome_iff, Nat.mul_div_cancel_left e (by omega)]
      exact ⟨le_rfl, covered_of_lt hlt⟩
    obtain ⟨region, regions, hregions, hoff⟩ := h.expects.keeps.exists_head h.expects.low hsome
    have havail := h.getAvailableDataLength_eq hlt.le
    have hstart : region.getStartOffset = region.offset := rfl
    unfold getAvailableDataLength at havail
    rw [hregions, List.head?_cons] at havail ⊢
    dsimp only at havail ⊢
    rw [if_pos hoff] at havail
    rw [hstart, hoff, havail, hexp, bitsToSeq_eq, pure_bind, hrcv,
      seqGE_near isn (by omega) (by omega), if_pos (decide_eq_true heR),
      show 8 * ((isn.toNat : ℤ) + e) + 8 * ((coveredPrefix received : ℤ) - e) =
        8 * (isn.toNat + (coveredPrefix received : ℕ)) by omega, bitsToSeq_eq, pure_bind]
    exact Spec.pure rfl
  · obtain rfl : R = coveredPrefix received := by omega
    cases hregions : this.reorderBuffer.regions with
    | nil => exact absurd hregions hne
    | cons region regions =>
      have hmem : region ∈ this.reorderBuffer.regions := by
        rw [hregions]
        exact List.mem_cons_self
      obtain ⟨k₀, k₁, hs, -, hE, hk, hcov⟩ := h.exists_bounds hmem
      have hk₀ := hcov k₀ le_rfl hk
      have hlt₀ := lt_of_covered hk₀ hwindow
      have hne₀ : k₀ ≠ coveredPrefix received := by
        rintro rfl
        exact not_covered_coveredPrefix received hk₀
      rw [List.head?_cons]
      dsimp only
      rw [hs, bitsToSeq_eq, pure_bind, hrcv, seqGE_near isn (by omega) (by omega),
        if_neg (by simp only [decide_eq_true_eq]; omega), ← hrcv]
      exact Spec.pure rfl

theorem Assembles.stored_eq {received : List (ℕ × ℕ)} {stored : ℤ → Option Cell} {e : ℕ}
    (h : Assembles S isn.toNat received e stored this.reorderBuffer) : this.stored = stored :=
  funext h.expects.keeps.lookup_eq

theorem Segment.Carries.bit_payload (hc : segment.Carries S) (hfits : segment.Fits history) {k : ℕ}
    (hk : k < 8 * (segment.start + segment.length - max segment.start history.extracted)) :
    ((segment.payload history)[k]?).map Cell.bit =
      some (S (8 * max segment.start history.extracted + k)) := by
  have hheader := hc.header_nonneg
  have hfront := hc.consistent.front_nonneg
  have hlen := hc.length_eq
  have hbeyond := hfits.beyond
  have hbit := hc.bits_eq (8 * (history.extracted - segment.start) + k) (by omega)
  rw [Packet.dataBits, getElem?_seg, if_pos (by omega), toBits, List.getElem?_map] at hbit
  rw [Segment.payload, getElem?_seg, if_pos (by omega),
    show (segment.tcpSegment.getFrontOffset + 8 * (segment.tcpHeaderLength +
        ((history.extracted - segment.start : ℕ) : ℤ))).toNat + k =
      segment.tcpSegment.getFrontOffset.toNat + (8 * segment.tcpHeaderLength.toNat +
        (8 * (history.extracted - segment.start) + k)) by omega, hbit]
  congr 2
  omega

theorem Delivers.spec_insertPayload (h : Delivers S isn history this)
    (hc : segment.Carries S) (hfits : segment.Fits history)
    (hsafe : segment.Safe isn this history) :
    Returns (this.insertPayload segment.tcpSegment segment.tcpHeaderLength segment.length
      (isn.add segment.start) (isn.add history.extracted))
      (Delivers S isn
        { history with received := (segment.start, segment.length) :: history.received }) := by
  obtain ⟨stored, hasm⟩ := h.assembles
  have hlen := hc.length_eq
  have hpos := hc.length_pos
  have hheader := hc.header_nonneg
  have hbeyond := hfits.beyond
  have hnew : segment.start + segment.length < min segment.start history.extracted + 2 ^ 31 :=
    hfits.window (segment.start, segment.length) List.mem_cons_self
  have hwindow : ∀ range ∈ (segment.start, segment.length) :: history.received,
      range.1 + range.2 < history.extracted + 2 ^ 31 := by
    intro range hrange
    have := hfits.window range hrange
    omega
  have hoffs : (if seqLess (isn.add segment.start) (isn.add history.extracted) then
      (isn.add history.extracted - isn.add segment.start).toNat else 0) =
      history.extracted - segment.start := by
    rw [seqLess_near isn (by omega) (by omega)]
    split_ifs with hlt
    · rw [decide_eq_true_eq] at hlt
      rw [Seq.toNat_sub_of_le isn hlt.le (by omega)]
    · rw [decide_eq_true_eq] at hlt
      omega
  have hseq : (if seqLess (isn.add segment.start) (isn.add history.extracted) then
      isn.add history.extracted else isn.add segment.start) =
      isn.add (max segment.start history.extracted) := by
    rw [seqLess_near isn (by omega) (by omega)]
    split_ifs with hlt
    · rw [decide_eq_true_eq] at hlt
      rw [max_eq_right hlt.le]
    · rw [decide_eq_true_eq] at hlt
      rw [max_eq_left (by omega)]
  unfold insertPayload
  rw [hoffs, hseq, ← bind_assoc]
  refine (hc.consistent.spec_peekDataAt hsafe.clean (by omega) (by omega) (by omega)).bind
    fun chunk hchunk => ?_
  obtain ⟨hrep, -⟩ := hchunk
  have hpayload : seg segment.tcpSegment.content.cells (segment.tcpSegment.getFrontOffset +
      8 * (segment.tcpHeaderLength + ((history.extracted - segment.start : ℕ) : ℤ)))
      (8 * ((segment.length : ℤ) - ((history.extracted - segment.start : ℕ) : ℤ))) =
      segment.payload history := by
    rw [Segment.payload]
    congr 1
    omega
  have hagrees := hsafe.agrees
  rw [hpayload] at hrep
  rw [Assembles.stored_eq hasm] at hagrees
  have hcells := hrep.cells_eq hagrees.noClash
  have hchunkLen : chunk.getChunkLength =
      8 * ((segment.start + segment.length - max segment.start history.extracted : ℕ) : ℤ) := by
    have hfront := hc.consistent.front_nonneg
    have hback := hc.consistent.back_le
    have hwf := hc.consistent.wf.length_cells
    have htotal := hc.consistent.length_eq
    have hdata : segment.tcpSegment.getDataLength =
      segment.tcpSegment.getBackOffset - segment.tcpSegment.getFrontOffset := by
      simp only [Packet.getDataLength, Packet.getBackOffset, Packet.getFrontOffset]
      omega
    rw [hrep.length_eq, Segment.payload, length_seg (by omega) (by omega) (by omega)]
  rw [seqToOffset_eq (x := (max segment.start history.extracted : ℕ)) hasm.expected_eq
    (by rw [Seq.toNat_add]; omega) (by omega) (by omega), pure_bind]
  rw [← hcells] at hagrees
  have hreceived : ∀ k, history.extracted ≤ k →
      (Covered ((segment.start, segment.length) :: history.received) k ↔
        (max segment.start history.extracted ≤ k ∧ k < max segment.start history.extracted +
          (segment.start + segment.length - max segment.start history.extracted)) ∨
        Covered history.received k) := by
    intro k hk
    rw [covered_cons]
    refine or_congr_left ?_
    dsimp only
    omega
  refine (hasm.spec_replace (le_max_right _ _) (by omega) hrep.wf (hrep.clean trivial) hchunkLen
    (fun k hk => hcells ▸ hc.bit_payload hfits hk) hagrees hreceived).bind fun buffer hbuffer => ?_
  have hcov := coveredPrefix_le_cons (segment.start, segment.length) history.received
  have hrcv : rcv_nxt ⟨this.rcv_nxt, ⟨buffer, this.reorderBuffer.expectedOffset⟩⟩ =
      isn.add (coveredPrefix history.received) := h.rcv_nxt_eq
  refine (spec_updateRcvNxt hbuffer ?_ hrcv h.extracted_le hcov hwindow).mono id ?_
  · intro hnil
    have hcov : Covered ((segment.start, segment.length) :: history.received)
        (max segment.start history.extracted) :=
      (hreceived _ (le_max_right _ _)).2 (Or.inl ⟨le_rfl, by omega⟩)
    have hsome := (hbuffer.isSome_iff (8 * max segment.start history.extracted)).2
      ⟨by omega, by rwa [Nat.mul_div_cancel_left _ (by omega)]⟩
    obtain ⟨region, hr, -⟩ := hbuffer.expects.keeps.exists_of_isSome hsome
    rw [hnil] at hr
    cases hr
  · rintro _ rfl
    exact ⟨⟨_, hbuffer⟩, rfl, h.extracted_le.trans hcov, hwindow, h.output_eq⟩

theorem Delivers.spec_insertBytesFromSegment (h : Delivers S isn history this)
    (hc : segment.Carries S) (hfits : segment.Fits history)
    (hsafe : segment.Safe isn this history) (ndebug : Bool) :
    Returns (this.insertBytesFromSegment ndebug segment.tcpSegment segment.tcpHeaderLength
      (isn.add segment.start))
      (Delivers S isn
        { history with received := (segment.start, segment.length) :: history.received }) := by
  obtain ⟨stored, hasm⟩ := h.assembles
  have hlen := hc.length_eq
  have hinsert := h.spec_insertPayload hc hfits hsafe
  unfold insertBytesFromSegment
  rw [hlen, show 8 * (segment.tcpHeaderLength + (segment.length : ℤ)) -
      8 * segment.tcpHeaderLength = 8 * segment.length by omega, toBytes_eq (by omega), pure_bind,
    Int.mul_ediv_cancel_left _ (by omega), hasm.expected_eq, bitsToSeq_eq, pure_bind]
  split_ifs
  · exact hinsert
  · exact (h.spec_checkRange hfits hc.length_pos).bind fun _ _ => hinsert

end Insert

section Extract

theorem Delivers.spec_extractBytesUpTo (h : Delivers S isn history this) {seq : Seq}
    (hseq : seqLE seq this.rcv_nxt) :
    Returns (this.extractBytesUpTo seq) fun result =>
      Delivers S isn { history with
        extracted := max history.extracted
          (coveredPrefix history.received - (this.rcv_nxt - seq).toNat)
        output := history.output ++ bitsOf result.1 } result.2 := by
  obtain ⟨stored, hasm⟩ := h.assembles
  have hle := h.extracted_le
  have hexp := hasm.expected_eq
  set R := coveredPrefix history.received with hR
  set d := (this.rcv_nxt - seq).toNat with hd
  have hdlt : d < 2 ^ 31 := of_decide_eq_true hseq
  have hRlt : R < history.extracted + 2 ^ 31 := by
    have := coveredPrefix_le (show ∀ range ∈ history.received,
        range.1 + range.2 ≤ history.extracted + 2 ^ 31 - 1 from fun range hrange => by
      have := h.window range hrange
      omega)
    omega
  have hsame : max history.extracted (R - d) = history.extracted → ∀ packet, bitsOf packet = [] →
      Delivers S isn { history with
        extracted := max history.extracted (R - d), output := history.output ++ bitsOf packet }
        this := by
    intro heq packet hbits
    rw [heq, hbits, List.append_nil]
    exact h
  unfold extractBytesUpTo
  rw [assert, if_pos hseq, pure_bind]
  split_ifs with hempty
  · refine Spec.pure (hsame ?_ none rfl)
    have havail := hasm.getAvailableDataLength_eq hle
    rw [getAvailableDataLength, List.isEmpty_iff.1 hempty, List.head?_nil] at havail
    dsimp only at havail
    omega
  · have hoffset : ∀ (queue : TcpReceiveQueue) (e : ℕ), history.extracted ≤ e → e ≤ R →
        queue.reorderBuffer.expectedOffset = 8 * (isn.toNat + e) →
        queue.seqToOffset seq = pure (isn.toNat + ((R : ℤ) - d)) := by
      intro queue e h₀ h₁ he
      refine seqToOffset_eq he ?_ (by omega) (by omega)
      have hisn := isn.isLt
      have hs := seq.isLt
      rw [h.rcv_nxt_eq, BitVec.toNat_sub, Seq.toNat_add] at hd
      omega
    rw [hoffset this history.extracted le_rfl hle hexp, pure_bind]
    dsimp only
    rw [hexp]
    split_ifs with hlen
    · exact Spec.pure (hsame (by omega) none rfl)
    · -- some of the received prefix is behind the last point of extraction
      have hnat : max history.extracted (R - d) = history.extracted +
        (R - d - history.extracted) := by
        omega
      have hpop := hasm.spec_popAvailableData (n := R - d - history.extracted) (by omega) (by omega)
      rw [show 8 * ((isn.toNat : ℤ) + (R - d)) - 8 * (isn.toNat + history.extracted) =
        8 * ((R - d - history.extracted : ℕ) : ℤ) by omega]
      refine hpop.bind ?_
      rintro ⟨data, buffer⟩ ⟨⟨chunk, rfl, hpos, hwf, -, hbits⟩, hexp', stored', hasm'⟩
      dsimp only at hexp' hasm' ⊢
      rw [hoffset ⟨this.rcv_nxt, buffer⟩ (R - d) (by omega) (by omega) (by rw [hexp']; omega),
        pure_bind, assert, if_pos (by rw [hexp']; omega), pure_bind, ← bind_assoc]
      refine (Packet.spec_new_insertAtBack hpos).bind fun packet hpacket => Spec.pure ?_
      subst hpacket
      refine ⟨⟨stored', ?_⟩, h.rcv_nxt_eq, by dsimp only; omega, fun range hrange => ?_, ?_⟩
      · dsimp only
        rw [hnat]
        exact hasm'
      · have := h.window range hrange
        dsimp only
        omega
      · have hdata : bitsOf (some (Packet.ofContent chunk)) = chunk.toBits :=
          Packet.dataBits_ofContent hwf
        dsimp only
        rw [hdata, hbits, h.output_eq, streamBits_append, hnat]
        congr 1
        omega

end Extract

theorem Reachable.invariant
    (h : Reachable S isn (fun this history segment => segment.Safe isn this history) this history) :
    Delivers S isn history this := by
  induction h with
  | init => exact delivers_init S isn
  | insert _ hcarries hfits hsafe hrun ih =>
    exact (ih.spec_insertBytesFromSegment hcarries hfits hsafe _).of_run hrun
  | extract _ hseq hrun ih => exact (ih.spec_extractBytesUpTo hseq).of_run hrun

/-- In every run `rcv_nxt` is the end of the received prefix and the stream has been extracted up to
the last point of extraction, and neither operation fails. -/
theorem Reachable.delivers
    (h : Reachable S isn (fun this history segment => segment.Safe isn this history) this history) :
    this.rcv_nxt = isn.add (coveredPrefix history.received) ∧
      history.extracted ≤ coveredPrefix history.received ∧
      history.output = streamBits S 0 (8 * history.extracted) ∧
      (∀ (segment : Segment) (ndebug : Bool), segment.Carries S → segment.Fits history →
        segment.Safe isn this history → Returns (this.insertBytesFromSegment ndebug
          segment.tcpSegment segment.tcpHeaderLength (isn.add segment.start)) fun _ => True) ∧
      ∀ seq, seqLE seq this.rcv_nxt → Returns (this.extractBytesUpTo seq) fun _ => True := by
  have hinv := h.invariant
  refine ⟨hinv.rcv_nxt_eq, hinv.extracted_le, hinv.output_eq, ?_, ?_⟩
  · intro segment ndebug hcarries hfits hsafe
    exact (hinv.spec_insertBytesFromSegment hcarries hfits hsafe ndebug).mono id fun _ _ => trivial
  · intro seq hseq
    exact (hinv.spec_extractBytesUpTo hseq).mono id fun _ _ => trivial

/-- The header of a new chunk. -/
def header : ChunkHeader := ⟨0, false, false, false⟩

/-- A segment with a header of twenty bytes. -/
def segmentOf (payload : Chunk) (start : ℕ) : Segment :=
  ⟨Packet.ofContent (.sequence header [.byteCount header 20 0, payload]), 20, start, 1⟩

theorem carries_segmentOf {payload : Chunk} {start : ℕ} (hwf : payload.WF)
    (hlen : payload.getChunkLength = 8) (hbits : payload.toBits = streamBits S (8 * start) 8) :
    (segmentOf payload start).Carries S := by
  have hall : (Chunk.sequence header
      [.byteCount header 20 0, payload]).WF := by
    simp [WF, AllWF, getChunkLength, hwf, hlen]
  have hheader : (Chunk.byteCount header 20 0).toBits.length = 160 := by
    have hwf : (Chunk.byteCount header 20 0).WF := by simp [WF]
    have hlength := hwf.length_cells
    rw [getChunkLength] at hlength
    rw [toBits, List.length_map]
    omega
  have hdata : (segmentOf payload start).tcpSegment.dataBits =
      (Chunk.byteCount header 20 0).toBits ++ payload.toBits := by
    rw [segmentOf, Packet.dataBits_ofContent hall, toBits, cells_sequence, List.flatMap_cons,
      List.flatMap_cons, List.flatMap_nil, List.append_nil, List.map_append]
    rfl
  refine ⟨Packet.consistent_ofContent hall, (by decide : (0 : ℤ) ≤ 20), Nat.one_pos, ?_,
    fun k hk => ?_⟩
  · change 8 * (20 : ℤ) + (payload.getChunkLength + 0) - 0 - 0 = _
    rw [hlen]
    rfl
  · change k < 8 at hk
    change (segmentOf payload start).tcpSegment.dataBits[160 + k]? = _
    rw [hdata, hbits, List.getElem?_append_right (by omega), hheader, Nat.add_sub_cancel_left,
      streamBits, List.getElem?_map, List.getElem?_range hk]
    rfl

/-- A segment of bytes is safe for a queue that holds bytes. -/
theorem safe_segmentOf {data : List Byte} {start : ℕ}
    (hstored : ∀ span ∈ this.reorderBuffer.regions.map Region.span, ∀ cell ∈ span.values,
      cell.counted = false) : (segmentOf (.bytes header data) start).Safe isn this history := by
  refine ⟨(clean_sequence _ _).2 ⟨⟨rfl, rfl, rfl⟩, by simp [ChunkHeader.Clean, header]⟩,
    agrees_of_uncounted_lookup hstored fun cell hcell => ?_⟩
  have hmem := (seg_isInfix _ _ _).subset hcell
  simp only [segmentOf, Packet.ofContent, cells_sequence, List.flatMap_cons, List.flatMap_nil,
    List.append_nil, List.mem_append, cells, List.mem_map] at hmem
  rcases hmem with ⟨bit, -, rfl⟩ | ⟨bit, -, rfl⟩ <;> rfl

/-- The byte with sequence number 0 arrives before the one with the last sequence number, and once
more behind it. Both are extracted. -/
theorem delivers_reordered :
    ∃ this history, Reachable (fun _ => true) 4294967295
      (fun this history segment => segment.Safe 4294967295 this history) this history ∧
      history.received = [(1, 1), (0, 1), (1, 1)] ∧ this.rcv_nxt = 1 ∧
      history.output = List.replicate 16 true := by
  have hcarries : ∀ start, (segmentOf (.bytes header [255]) start).Carries fun _ => true :=
    fun _ => carries_segmentOf trivial rfl rfl
  have hplain : ∀ h data, ∀ cell ∈ (bytes h data).cells, cell.counted = false := by
    intro h data cell hcell
    obtain ⟨bit, -, rfl⟩ := List.mem_map.1 hcell
    rfl
  have h₀ : Reachable (fun _ => true) 4294967295
      (fun this history segment => segment.Safe 4294967295 this history)
      (TcpReceiveQueue.init 4294967295) ⟨[], 0, []⟩ := Reachable.init
  have h₁ := h₀.insert (hcarries 1) ⟨by decide, by decide⟩
    (safe_segmentOf fun span hspan => absurd hspan List.not_mem_nil)
    (show (insertBytesFromSegment false (init 4294967295)
        (segmentOf (.bytes header [255]) 1).tcpSegment 20 0).run 0 =
      .ok (⟨4294967295, ⟨⟨[⟨34359738368, bytes header [255]⟩]⟩, 34359738360⟩⟩, 0) from rfl)
  have h₂ := h₁.insert (hcarries 0) ⟨by decide, by decide⟩
    (safe_segmentOf (List.forall_mem_singleton.2 (hplain header _)))
    (show (insertBytesFromSegment false _
        (segmentOf (.bytes header [255]) 0).tcpSegment 20 4294967295).run 0 =
      .ok (⟨1, ⟨⟨[⟨34359738360, bytes header [255, 255]⟩]⟩, 34359738360⟩⟩, 1) from rfl)
  have h₃ := h₂.insert (hcarries 1) ⟨by decide, by decide⟩
    (safe_segmentOf (List.forall_mem_singleton.2 (hplain header _)))
    (show (insertBytesFromSegment false _
        (segmentOf (.bytes header [255]) 1).tcpSegment 20 0).run 1 =
      .ok (⟨1, ⟨⟨[⟨34359738360, bytes ⟨2, false, false, false⟩ [255, 255]⟩]⟩, 34359738360⟩⟩, 3)
      from rfl)
  have h₄ := h₃.extract (show seqLE 1 1 = true from rfl)
    (show (extractBytesUpTo _ 1).run 3 =
      .ok ((some (Packet.ofContent (bytes ⟨2, false, false, false⟩ [255, 255])), _), 4) from rfl)
  have hcov : coveredPrefix [(1, 1), (0, 1), (1, 1)] = 2 :=
    coveredPrefix_eq (by decide) (by decide)
  refine ⟨_, _, h₄, rfl, rfl, ?_⟩
  rw [h₄.delivers.2.2.1]
  change streamBits _ 0 (8 * max 0 (coveredPrefix [(1, 1), (0, 1), (1, 1)] - 0)) = _
  rw [hcov]
  rfl

/-- Two bit counts that meet in the queue become one with the fill of the first, and the second byte
of the stream is lost. -/
theorem exists_not_delivers : ∃ (S : ℕ → Bool) (isn : Seq) (this : TcpReceiveQueue)
    (history : History), Reachable S isn (fun _ _ segment => segment.tcpSegment.content.Clean) this
      history ∧ history.output ≠ streamBits S 0 (8 * history.extracted) := by
  have hclean : ∀ fill start,
    (segmentOf (.bitCount header 8 fill) start).tcpSegment.content.Clean :=
    fun fill start => (clean_sequence _ _).2 ⟨⟨rfl, rfl, rfl⟩, by simp [ChunkHeader.Clean, header]⟩
  have h₀ : Reachable (fun j => decide (8 ≤ j)) 0
      (fun _ _ segment => segment.tcpSegment.content.Clean) (TcpReceiveQueue.init 0)
      ⟨[], 0, []⟩ := Reachable.init
  have hrun₁ : ((TcpReceiveQueue.init 0).insertBytesFromSegment false
      (segmentOf (.bitCount header 8 false) 0).tcpSegment 20 0).run 0 =
      .ok (⟨1, ⟨⟨[⟨0, .bitCount header 8 false⟩]⟩, 0⟩⟩, 0) := rfl
  have h₁ := h₀.insert (carries_segmentOf (by simp [WF]) rfl rfl) ⟨by decide, by decide⟩
    (hclean false 0) hrun₁
  have hrun₂ : (insertBytesFromSegment false
      ⟨1, ⟨⟨[⟨0, .bitCount header 8 false⟩]⟩, 0⟩⟩
      (segmentOf (.bitCount header 8 true) 1).tcpSegment 20 1).run 0 =
      .ok (⟨2, ⟨⟨[⟨0, .bitCount header 16 false⟩]⟩, 0⟩⟩, 1) := rfl
  have h₂ := h₁.insert (carries_segmentOf (by simp [WF]) rfl rfl) ⟨by decide, by decide⟩
    (hclean true 1) hrun₂
  have hrun₃ : (extractBytesUpTo
      ⟨2, ⟨⟨[⟨0, .bitCount header 16 false⟩]⟩, 0⟩⟩ 2).run 1 =
      .ok ((some (Packet.ofContent (.bitCount header 16 false)), ⟨2, ⟨⟨[]⟩, 16⟩⟩), 2) := rfl
  have h₃ := h₂.extract rfl hrun₃
  refine ⟨_, _, _, _, h₃, ?_⟩
  have hcov : coveredPrefix [(1, 1), (0, 1)] = 2 := coveredPrefix_eq (by decide) (by decide)
  change [] ++ List.replicate 16 false ≠
    streamBits _ 0 (8 * max 0 (coveredPrefix [(1, 1), (0, 1)] - 0))
  rw [hcov]
  decide

end Inet.Tcp.TcpReceiveQueue
