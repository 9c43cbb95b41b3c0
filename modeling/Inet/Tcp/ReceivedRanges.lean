import Inet.Buffer.RegionRange
import Inet.Lib.Cover
import Inet.Tcp.Receive

/-! # The receive queue without its data

Which bytes the queue holds, and how far `rcv_nxt` has come, depends on the
places of the segments only. Positions count from a sequence number that is
not behind the first byte of any segment, and all of them are in one window.
-/

namespace Inet.Tcp

open RegionRange

/-- The receive queue, with the reorder buffer without the data. -/
structure ReceivedRanges where
  rcv_nxt : Seq
  regions : List RegionRange
  expectedOffset : ℤ
  deriving DecidableEq, Repr

namespace ReceivedRanges

open TcpReceiveQueue (offsetToSeq)

def init (startSeq : Seq) : ReceivedRanges := ⟨startSeq, [], startSeq.toNat⟩

def seqToOffset (this : ReceivedRanges) (seq : Seq) : ℤ :=
  let expSeq := offsetToSeq this.expectedOffset
  if seqGE seq expSeq then this.expectedOffset + (seq - expSeq).toNat
  else this.expectedOffset - (expSeq - seq).toNat

/-- The check of a debug build: the new segment and the queue are inside one window. -/
def checkRange (this : ReceivedRanges) (seq : Seq) (tcpPayloadLength : ℤ) : Except Error Unit :=
  match this.regions.head?, this.regions.getLast? with
  | some first, some last =>
    let ob := offsetToSeq first.getStartOffset
    let oe := offsetToSeq last.getEndOffset
    let nb := seq
    let ne := seq + BitVec.ofInt 32 tcpPayloadLength
    let minb := seqMin ob nb
    let maxe := seqMax oe ne
    if seqGE minb oe || seqGE minb ne || seqGE ob maxe || seqGE nb maxe then
      throw (.runtime "The new segment is [%u, %u) out of the acceptable range at the queue %s")
    else pure ()
  | _, _ => pure ()

/-- `rcv_nxt` is the end of the first region, unless that begins behind it. -/
def updateRcvNxt (this : ReceivedRanges) : Except Error ReceivedRanges :=
  match this.regions.head? with
  | some region =>
    if seqGE this.rcv_nxt (offsetToSeq region.getStartOffset) then
      pure { this with rcv_nxt := offsetToSeq region.getEndOffset }
    else pure this
  | none => throw (.undefinedBehavior "region index out of range")

/-- The payload that is not before the expected offset goes into the buffer. -/
def insertPayload (this : ReceivedRanges) (seq buffSeq : Seq) (tcpPayloadLength : ℤ) :
    Except Error ReceivedRanges := do
  let offs := if seqLess seq buffSeq then (buffSeq - seq).toNat else 0
  let seq := if seqLess seq buffSeq then buffSeq else seq
  let regions ← replace this.regions (this.seqToOffset seq) (tcpPayloadLength - offs)
  updateRcvNxt { this with regions := regions }

/-- `insertBytesFromSegment`, in a build with or without `NDEBUG`, of a segment with the given
sequence number and length of its payload. -/
def insertBytesFromSegment (ndebug : Bool) (this : ReceivedRanges) (seq : Seq)
    (tcpPayloadLength : ℤ) : Except Error ReceivedRanges := do
  let buffSeq := offsetToSeq this.expectedOffset
  if ndebug then
    this.insertPayload seq buffSeq tcpPayloadLength
  else
    this.checkRange seq tcpPayloadLength
    this.insertPayload seq buffSeq tcpPayloadLength

/-- `getLE`: the left edge of the region with the byte at a sequence number. -/
def getLE (this : ReceivedRanges) (fromSeqNum : Seq) : Seq :=
  let fs := this.seqToOffset fromSeqNum
  match this.regions.find? fun region =>
    region.getStartOffset ≤ fs ∧ fs < region.getEndOffset with
  | some region => offsetToSeq region.getStartOffset
  | none => fromSeqNum

/-- `getRE`: the right edge of the region with the byte before a sequence number. -/
def getRE (this : ReceivedRanges) (toSeqNum : Seq) : Seq :=
  let fs := this.seqToOffset toSeqNum
  match this.regions.find? fun region =>
    region.getStartOffset < fs ∧ fs ≤ region.getEndOffset with
  | some region => offsetToSeq region.getEndOffset
  | none => toSeqNum

/-- The offset in the buffer of the first position; the initial sequence number has position `p`. -/
def origin (base : Seq) (p : ℕ) : ℤ := (base.add p).toNat - p

variable {base : Seq} {p R s len : ℕ} {received : List (ℕ × ℕ)} {this this' : ReceivedRanges}
  {regions : List RegionRange} {region : RegionRange} {k k₀ k₁ : ℕ}

theorem offsetToSeq_origin (base : Seq) (p k : ℕ) :
    offsetToSeq (origin base p + k) = base.add k := by
  apply BitVec.eq_of_toNat_eq
  rw [offsetToSeq, BitVec.toNat_ofInt, origin, Seq.toNat_add, Seq.toNat_add]
  omega

theorem seqToOffset_origin (hexp : this.expectedOffset = origin base p + p) (hp : p < 2 ^ 31)
    (hk : k < 2 ^ 31) : this.seqToOffset (base.add k) = origin base p + k := by
  unfold seqToOffset
  rw [hexp, offsetToSeq_origin]
  dsimp only
  rw [seqGE_add base hk hp, Seq.toNat_add_sub_add base hp hk, Seq.toNat_add_sub_add base hk hp]
  by_cases hle : p ≤ k
  · rw [if_pos (decide_eq_true hle), if_pos hle]
    omega
  · rw [if_neg (by simpa using hle), if_pos (by omega)]
    omega

/-- The regions hold the bytes of the received segments that are not before the initial one. -/
structure Stores (base : Seq) (p : ℕ) (received : List (ℕ × ℕ)) (regions : List RegionRange) :
    Prop where
  separated : Separated regions
  holds_iff : ∀ i, Holds regions i ↔
    ∃ k : ℕ, i = origin base p + k ∧ p ≤ k ∧ Covered received k
  window : ∀ range ∈ received, range.1 + range.2 < 2 ^ 31

/-- A region that lies at two positions. -/
structure LiesAt (base : Seq) (p k₀ k₁ : ℕ) (region : RegionRange) : Prop where
  start_eq : region.getStartOffset = origin base p + k₀
  end_eq : region.getEndOffset = origin base p + k₁

theorem Stores.lt_of_covered (h : Stores base p received regions) (hk : Covered received k) :
    k + 1 < 2 ^ 31 := by
  obtain ⟨range, hrange, -, hlt⟩ := hk
  have := h.window range hrange
  omega

theorem Stores.holds (h : Stores base p received regions) (hp : p ≤ k) (hk : Covered received k) :
    Holds regions (origin base p + k) := (h.holds_iff _).2 ⟨k, rfl, hp, hk⟩

theorem Stores.exists_bounds (h : Stores base p received regions) (hr : region ∈ regions) :
    ∃ k₀ k₁, LiesAt base p k₀ k₁ region ∧ k₀ < k₁ ∧ p ≤ k₀ ∧
      (∀ k, k₀ ≤ k → k < k₁ → Covered received k) ∧ ¬ Covered received k₁ := by
  have hlt := pos_of_mem h.separated hr
  obtain ⟨k₀, hk₀, hp, -⟩ := (h.holds_iff region.getStartOffset).1 ⟨region, hr, le_rfl, hlt⟩
  obtain ⟨k, hk, -, -⟩ := (h.holds_iff (region.getEndOffset - 1)).1
    ⟨region, hr, by omega, by omega⟩
  refine ⟨k₀, k + 1, ⟨hk₀, by omega⟩, by omega, hp, ?_, ?_⟩
  · intro j hj hjk
    obtain ⟨j', hj', -, hcov⟩ := (h.holds_iff (origin base p + j)).1
      ⟨region, hr, by omega, by omega⟩
    obtain rfl : j = j' := by omega
    exact hcov
  · intro hcov
    apply not_holds_getEndOffset h.separated hr
    rw [show region.getEndOffset = origin base p + ((k + 1 : ℕ) : ℤ) by omega]
    exact h.holds (by omega) hcov

theorem Stores.exists_region {a b : ℕ} (h : Stores base p received regions) (hp : p ≤ a)
    (hab : a < b) (hcov : ∀ k, a ≤ k → k < b → Covered received k) :
    ∃ region ∈ regions, ∃ k₀ k₁, LiesAt base p k₀ k₁ region ∧ k₀ ≤ a ∧ b ≤ k₁ ∧ p ≤ k₀ ∧
      ∀ k, k₀ ≤ k → k < k₁ → Covered received k := by
  obtain ⟨region, hr, hle, hlt⟩ := h.holds hp (hcov a le_rfl hab)
  obtain ⟨k₀, k₁, hat, -, hp₀, hcov', hnot⟩ := h.exists_bounds hr
  have hstart := hat.start_eq
  have hend := hat.end_eq
  refine ⟨region, hr, k₀, k₁, hat, by omega, ?_, hp₀, hcov'⟩
  by_contra hlt'
  exact hnot (hcov k₁ (by omega) (by omega))

/-- The queue after the segments: `rcv_nxt` is the first position that has not been received. -/
structure Follows (base : Seq) (p : ℕ) (received : List (ℕ × ℕ)) (R : ℕ) (this : ReceivedRanges) :
    Prop extends Stores base p received this.regions where
  expected_eq : this.expectedOffset = origin base p + p
  rcv_nxt_eq : this.rcv_nxt = base.add R
  le_rcv_nxt : p ≤ R
  covered : ∀ k, p ≤ k → k < R → Covered received k
  not_covered : ¬ Covered received R
  initial_lt : p < 2 ^ 31

theorem follows_init (base : Seq) (hp : p < 2 ^ 31) : Follows base p [] p (init (base.add p)) where
  separated := Span.separated_nil
  holds_iff := by simp [init, Holds, Covered]
  window := by simp
  expected_eq := by simp [init, origin]
  rcv_nxt_eq := rfl
  le_rcv_nxt := le_rfl
  covered k h₀ h₁ := absurd h₁ (not_lt.2 h₀)
  not_covered := by simp [Covered]
  initial_lt := hp

theorem Follows.rcv_nxt_lt (h : Follows base p received R this) : R < 2 ^ 31 := by
  rcases Nat.eq_or_lt_of_le h.le_rcv_nxt with rfl | hlt
  · exact h.initial_lt
  · have := h.lt_of_covered (h.covered (R - 1) (by omega) (by omega))
    omega

section Edges

variable (h : Follows base p received R this) (hr : region ∈ this.regions)
  (hat : LiesAt base p k₀ k₁ region)

include h hr hat

theorem Follows.getLE_eq (h₀ : k₀ ≤ k) (h₁ : k < k₁) (hk : k < 2 ^ 31) :
    this.getLE (base.add k) = base.add k₀ := by
  have hstart := hat.start_eq
  have hend := hat.end_eq
  unfold getLE
  dsimp only
  rw [seqToOffset_origin h.expected_eq h.initial_lt hk,
    find?_eq_some_of_unique hr (by simp only [decide_eq_true_eq]; omega)]
  · dsimp only
    rw [hstart, offsetToSeq_origin]
  · intro other hother hin
    rw [decide_eq_true_eq] at hin
    exact eq_of_mem_of_mem h.separated hother hr hin.1 hin.2 (by omega) (by omega)

theorem Follows.getRE_eq (h₀ : k₀ < k) (h₁ : k ≤ k₁) (hk : k < 2 ^ 31) :
    this.getRE (base.add k) = base.add k₁ := by
  have hstart := hat.start_eq
  have hend := hat.end_eq
  unfold getRE
  dsimp only
  rw [seqToOffset_origin h.expected_eq h.initial_lt hk,
    find?_eq_some_of_unique hr (by simp only [decide_eq_true_eq]; omega)]
  · dsimp only
    rw [hend, offsetToSeq_origin]
  · intro other hother hin
    rw [decide_eq_true_eq] at hin
    exact eq_of_mem_of_mem h.separated hother hr (i := origin base p + k - 1) (by omega) (by omega)
      (by omega) (by omega)

end Edges

section Insert

theorem Follows.exists_of_insertPayload_eq_ok (h : Follows base p received R this)
    (hwindow : s + len < 2 ^ 31)
    (hok : this.insertPayload (base.add s) (base.add p) len = .ok this') :
    ∃ regions, Stores base p ((s, len) :: received) regions ∧ regions ≠ [] ∧
      updateRcvNxt { this with regions := regions } = .ok this' := by
  have hp := h.initial_lt
  have hoffs : (if seqLess (base.add s) (base.add p) then
      (base.add p - base.add s).toNat else 0) = p - s := by
    rw [seqLess_add base (by omega) hp]
    split_ifs with hlt
    · rw [decide_eq_true_eq] at hlt
      rw [Seq.toNat_sub_of_le base hlt.le (by omega)]
    · rw [decide_eq_true_eq] at hlt
      omega
  have hseq : (if seqLess (base.add s) (base.add p) then base.add p else base.add s) =
      base.add (max s p) := by
    rw [seqLess_add base (by omega) hp]
    split_ifs with hlt
    · rw [decide_eq_true_eq] at hlt
      rw [max_eq_right hlt.le]
    · rw [decide_eq_true_eq] at hlt
      rw [max_eq_left (not_lt.1 hlt)]
  unfold insertPayload at hok
  rw [hoffs, hseq] at hok
  dsimp only at hok
  rw [seqToOffset_origin h.expected_eq hp (by omega)] at hok
  obtain ⟨regions, hreplace, hok⟩ := Error.exists_of_bind_eq_ok hok
  obtain ⟨hpos, hsep, hholds⟩ := of_replace_eq_ok h.separated hreplace
  refine ⟨regions, ⟨hsep, fun i => ?_, ?_⟩, ?_, hok⟩
  · rw [hholds, h.holds_iff]
    constructor
    · rintro (⟨h₀, h₁⟩ | ⟨k, hk, hpk, hcov⟩)
      · exact ⟨(i - origin base p).toNat, by omega, by omega,
          covered_cons.2 (Or.inl ⟨by omega, by omega⟩)⟩
      · exact ⟨k, hk, hpk, covered_cons.2 (Or.inr hcov)⟩
    · rintro ⟨k, hk, hpk, hcov⟩
      rcases covered_cons.1 hcov with ⟨h₀, h₁⟩ | hcov
      · dsimp only at h₀ h₁
        exact Or.inl ⟨by omega, by omega⟩
      · exact Or.inr ⟨k, hk, hpk, hcov⟩
  · exact List.forall_mem_cons.2 ⟨hwindow, h.window⟩
  · rintro rfl
    have hheld := (hholds (origin base p + (max s p : ℕ))).2 (Or.inl ⟨le_rfl, by omega⟩)
    simp [Holds] at hheld

theorem le_getStartOffset_of_head? {first : RegionRange} {i : ℤ} (hsep : Separated regions)
    (hfirst : regions.head? = some first) (hi : Holds regions i) : first.getStartOffset ≤ i := by
  obtain ⟨rest, rfl⟩ := List.head?_eq_some_iff.1 hfirst
  exact le_of_holds_cons hsep hi

theorem Follows.exists_of_updateRcvNxt_eq_ok (h : Follows base p received R this)
    (hstores : Stores base p ((s, len) :: received) regions) (hne : regions ≠ [])
    (hok : updateRcvNxt { this with regions := regions } = .ok this') :
    ∃ R', R ≤ R' ∧ Follows base p ((s, len) :: received) R' this' := by
  obtain ⟨first, hfirst⟩ : ∃ first, regions.head? = some first :=
    Option.ne_none_iff_exists'.1 (by simpa using hne)
  have hmem := List.mem_of_head? hfirst
  obtain ⟨k₀, k₁, hat, hlt, hp₀, hcov, hnot⟩ := hstores.exists_bounds hmem
  have hstart := hat.start_eq
  have hlow : ∀ k, p ≤ k → Covered ((s, len) :: received) k → k₀ ≤ k := by
    intro k hk hcov
    have hle := le_getStartOffset_of_head? hstores.separated hfirst (hstores.holds hk hcov)
    omega
  have hR := h.rcv_nxt_lt
  have hk₀ := hstores.lt_of_covered (hcov k₀ le_rfl hlt)
  unfold updateRcvNxt at hok
  dsimp only at hok
  rw [hfirst] at hok
  dsimp only at hok
  rw [hstart, offsetToSeq_origin, hat.end_eq, offsetToSeq_origin, h.rcv_nxt_eq,
    seqGE_add base hR (by omega)] at hok
  split_ifs at hok with hge
  · rw [decide_eq_true_eq] at hge
    obtain rfl := Except.ok.inj hok
    -- the first region begins at the initial position, or `rcv_nxt` was behind a received byte
    have hk₀p : k₀ = p := by
      rcases Nat.eq_or_lt_of_le hp₀ with heq | hlt₀
      · exact heq.symm
      · have := hlow p le_rfl (covered_cons.2 (Or.inr (h.covered p le_rfl (by omega))))
        omega
    refine ⟨k₁, ?_, ⟨hstores, h.expected_eq, rfl, by omega, fun k hk => hcov k (by omega), hnot,
      h.initial_lt⟩⟩
    by_contra hlt₁
    exact hnot (covered_cons.2 (Or.inr (h.covered k₁ (by omega) (by omega))))
  · rw [decide_eq_true_eq] at hge
    obtain rfl := Except.ok.inj hok
    refine ⟨R, le_rfl, ⟨hstores, h.expected_eq, rfl, h.le_rcv_nxt, fun k hk hkR =>
      covered_cons.2 (Or.inr (h.covered k hk hkR)), fun hcovR => ?_, h.initial_lt⟩⟩
    have := hlow R h.le_rcv_nxt hcovR
    omega

theorem Follows.exists_of_insert_eq_ok {ndebug : Bool} (h : Follows base p received R this)
    (hwindow : s + len < 2 ^ 31)
    (hok : this.insertBytesFromSegment ndebug (base.add s) len = .ok this') :
    ∃ R', R ≤ R' ∧ Follows base p ((s, len) :: received) R' this' := by
  unfold insertBytesFromSegment at hok
  rw [h.expected_eq, offsetToSeq_origin] at hok
  have hinsert : this.insertPayload (base.add s) (base.add p) len = .ok this' := by
    cases ndebug with
    | true => exact hok
    | false =>
      obtain ⟨_, -, hok⟩ := Error.exists_of_bind_eq_ok hok
      exact hok
  obtain ⟨regions, hstores, hne, hupdate⟩ := h.exists_of_insertPayload_eq_ok hwindow hinsert
  exact h.exists_of_updateRcvNxt_eq_ok hstores hne hupdate

end Insert

section Projection

open ChunkBuffer ReorderBuffer Outcome
open TcpReceiveQueue (Delivers History Segment)

variable {S : ℕ → Bool} {isn : Seq} {queue : TcpReceiveQueue} {history : History}
  {segment : Segment} {received : List (ℕ × ℕ)} {extracted : ℕ} {stored : ℤ → Option Cell}
  {buffer : ReorderBuffer} {ranges : ReceivedRanges}

/-- The range of a region of whole bytes. -/
def rangeOf (region : Region) : RegionRange :=
  ⟨region.offset / 8, (region.data.getChunkLength / 8).toNat⟩

/-- The receive queue without its data. -/
def ofQueue (queue : TcpReceiveQueue) : ReceivedRanges where
  rcv_nxt := queue.rcv_nxt
  regions := queue.reorderBuffer.regions.map rangeOf
  expectedOffset := queue.reorderBuffer.expectedOffset / 8

theorem exists_rangeOf (h : Assembles S isn.toNat received extracted stored buffer)
    {region : Region} (hr : region ∈ buffer.regions) :
    ∃ k₀ k₁ : ℕ, region.getStartOffset = 8 * (isn.toNat + k₀) ∧
      region.getEndOffset = 8 * (isn.toNat + k₁) ∧
      (rangeOf region).getStartOffset = isn.toNat + k₀ ∧
      (rangeOf region).getEndOffset = isn.toNat + k₁ ∧ k₀ < k₁ ∧
      ∀ k, k₀ ≤ k → k < k₁ → Covered received k := by
  obtain ⟨k₀, k₁, hstart, hend, -, hlt, hcov⟩ := h.exists_bounds hr
  refine ⟨k₀, k₁, hstart, hend, ?_, ?_, hlt, hcov⟩
  · simp only [Region.getStartOffset] at hstart
    simp only [rangeOf, RegionRange.getStartOffset]
    omega
  · simp only [Region.getStartOffset] at hstart
    simp only [Region.getEndOffset] at hend
    simp only [rangeOf, RegionRange.getEndOffset]
    omega

theorem stores_rangeOf (h : Assembles S isn.toNat received 0 stored buffer)
    (hwindow : ∀ range ∈ received, range.1 + range.2 < 2 ^ 31) :
    Stores isn 0 received (buffer.regions.map rangeOf) where
  separated := by
    have hgap := List.pairwise_map.1 h.expects.keeps.separated.gap
    refine ⟨fun s hs => ?_, List.pairwise_map.2 (List.pairwise_map.2 ?_)⟩
    · obtain ⟨range, hrange, rfl⟩ := List.mem_map.1 hs
      obtain ⟨region, hr, rfl⟩ := List.mem_map.1 hrange
      obtain ⟨k₀, k₁, -, -, hstart, hend, hlt, -⟩ := exists_rangeOf h hr
      exact span_ne_nil_iff.2 (by omega)
    · refine hgap.imp_of_mem fun {region other} hr ho hlt => ?_
      obtain ⟨k₀, k₁, -, hend, -, hend', -, -⟩ := exists_rangeOf h hr
      obtain ⟨k₂, k₃, hstart, -, hstart', -, -, -⟩ := exists_rangeOf h ho
      rw [(h.expects.keeps.ok region hr).stop_span] at hlt
      change region.getEndOffset < other.getStartOffset at hlt
      rw [stop_span, offset_span]
      omega
  holds_iff i := by
    constructor
    · rintro ⟨range, hrange, hle, hlt⟩
      obtain ⟨region, hr, rfl⟩ := List.mem_map.1 hrange
      obtain ⟨k₀, k₁, -, -, hstart, hend, -, hcov⟩ := exists_rangeOf h hr
      refine ⟨(i - isn.toNat).toNat, ?_, Nat.zero_le _, hcov _ (by omega) (by omega)⟩
      rw [origin, Seq.add_zero]
      omega
    · rintro ⟨k, rfl, -, hcov⟩
      have hsome :=
        (h.isSome_iff (8 * k)).2 ⟨by omega, by rwa [Nat.mul_div_cancel_left _ (by omega)]⟩
      rw [← h.expects.keeps.lookup_eq, Span.lookup_isSome_iff] at hsome
      obtain ⟨s, hs, hle, hlt⟩ := hsome
      obtain ⟨region, hr, rfl⟩ := List.mem_map.1 hs
      obtain ⟨k₀, k₁, hstart, hend, hstart', hend', -, -⟩ := exists_rangeOf h hr
      rw [(h.expects.keeps.ok region hr).stop_span] at hlt
      change region.getStartOffset ≤ _ at hle
      refine ⟨rangeOf region, List.mem_map_of_mem hr, ?_, ?_⟩
      · rw [origin, Seq.add_zero]
        omega
      · rw [origin, Seq.add_zero]
        omega
  window := hwindow

theorem follows_ofQueue (h : Delivers S isn history queue) (hextracted : history.extracted = 0) :
    Follows isn 0 history.received (coveredPrefix history.received) (ofQueue queue) := by
  obtain ⟨stored, hasm⟩ := h.assembles
  have hwindow := h.window
  rw [hextracted] at hasm hwindow
  exact {
    stores_rangeOf hasm fun range hrange => by simpa using hwindow range hrange with
    expected_eq := by
      have hexp := hasm.expected_eq
      rw [origin, Seq.add_zero]
      simp only [ofQueue]
      omega
    rcv_nxt_eq := h.rcv_nxt_eq
    le_rcv_nxt := Nat.zero_le _
    covered := fun k _ hk => covered_of_lt hk
    not_covered := not_covered_coveredPrefix _
    initial_lt := by decide }

/-- The queue without its data depends on the received ranges only. -/
theorem Follows.eq_ofQueue {R : ℕ} (h : Follows isn 0 history.received R ranges)
    (hq : Delivers S isn history queue) (hextracted : history.extracted = 0) :
    ranges = ofQueue queue := by
  have hf := follows_ofQueue hq hextracted
  have hR : R = coveredPrefix history.received :=
    (coveredPrefix_eq (fun k hk => h.covered k (Nat.zero_le _) hk) h.not_covered).symm
  have hregions := eq_of_holds_iff h.separated hf.separated fun i =>
    (h.holds_iff i).trans (hf.holds_iff i).symm
  have hrcv := h.rcv_nxt_eq.trans ((congrArg isn.add hR).trans hf.rcv_nxt_eq.symm)
  have hexp := h.expected_eq.trans hf.expected_eq.symm
  cases ranges
  simp only at hregions hrcv hexp
  rw [hregions, hrcv, hexp]

/-- What a segment does to the queue without its data is what it does to the queue. -/
theorem returns_insert_ofQueue (h : Delivers S isn history queue)
    (hextracted : history.extracted = 0) (hcarries : segment.Carries S)
    (hfits : segment.Fits history) (hsafe : segment.Safe isn queue history) {ndebug : Bool}
    (hok : (ofQueue queue).insertBytesFromSegment ndebug (isn.add segment.start) segment.length =
      .ok ranges) :
    Returns (queue.insertBytesFromSegment ndebug segment.tcpSegment segment.tcpHeaderLength
      (isn.add segment.start)) fun after => ranges = ofQueue after := by
  have hwindow := hfits.window (segment.start, segment.length) List.mem_cons_self
  rw [hextracted] at hwindow
  obtain ⟨R, -, hfollows⟩ := (follows_ofQueue h hextracted).exists_of_insert_eq_ok
    (by simpa using hwindow) hok
  exact (h.spec_insertBytesFromSegment hcarries hfits hsafe ndebug).mono id fun after hafter =>
    hfollows.eq_ofQueue hafter hextracted

end Projection

end ReceivedRanges

end Inet.Tcp
