import Mathlib.Data.List.Induction
import Inet.Tcp.ScoreboardRun

/-! # Queries of the scoreboard

The queries walk over the regions, forwards or backwards. What they return is
determined by the flags of the outstanding bytes, however these are split into
regions.
-/

namespace Inet.Tcp.TcpSackRexmitQueue

def getSackedBit (this : TcpSackRexmitQueue) (seqNum : Seq) : Except Error Bool := do
  assert (seqLE this.bufferStartSeq seqNum && seqLE seqNum this.bufferEndSeq)
    "seqLE(begin, seqNum) && seqLE(seqNum, end)"
  if this.bufferEndSeq = seqNum then return false
  else
    match this.rexmitQueue.dropWhile fun i => seqLE i.endSeqNum seqNum with
    | [] => throw (.assertion "i != rexmitQueue.end()")
    | i :: _ => do
      assert (seqLE i.beginSeqNum seqNum && seqLess seqNum i.endSeqNum)
        "seqLE(i->beginSeqNum, seqNum) && seqLess(seqNum, i->endSeqNum)"
      return i.sacked

/-- The end of the last region with a flag. -/
def getHighest (this : TcpSackRexmitQueue) (flag : Region → Bool) : Seq :=
  match this.rexmitQueue.reverse.find? flag with
  | some i => i.endSeqNum
  | none => this.bufferStartSeq

def getHighestSackedSeqNum (this : TcpSackRexmitQueue) : Seq := this.getHighest Region.sacked

def getHighestRexmittedSeqNum (this : TcpSackRexmitQueue) : Seq := this.getHighest Region.rexmitted

/-- The second loop of `checkRexmitQueueForSackedOrRexmittedSegments`. -/
def skipSackedOrRexmitted (fromSeqNum : Seq) (bytes : BitVec 32) :
    List Region → Except Error (BitVec 32)
  | [] => return bytes
  | i :: regions => do
    if i.sacked || i.rexmitted then
      assert (seqLE i.beginSeqNum fromSeqNum && seqLess fromSeqNum i.endSeqNum)
        "seqLE(i->beginSeqNum, fromSeqNum) && seqLess(fromSeqNum, i->endSeqNum)"
      skipSackedOrRexmitted i.endSeqNum (bytes + (i.endSeqNum - fromSeqNum)) regions
    else return bytes

def checkRexmitQueueForSackedOrRexmittedSegments (this : TcpSackRexmitQueue) (fromSeqNum : Seq) :
    Except Error (BitVec 32) := do
  assert (seqLE this.bufferStartSeq fromSeqNum && seqLE fromSeqNum this.bufferEndSeq)
    "seqLE(begin, fromSeqNum) && seqLE(fromSeqNum, end)"
  if this.rexmitQueue.isEmpty || this.bufferEndSeq == fromSeqNum then return 0
  else
    skipSackedOrRexmitted fromSeqNum 0
      (this.rexmitQueue.dropWhile fun i => seqLE i.endSeqNum fromSeqNum)

def getTotalAmountOfSackedBytes (this : TcpSackRexmitQueue) : BitVec 32 :=
  sumLengths Region.sacked this.rexmitQueue

/-- The loop of `getAmountOfSackedBytes` over the regions from the last one on, and what follows
it. -/
def sackedAbove (fromSeqNum : Seq) (bytes : BitVec 32) : List Region → BitVec 32
  | [] => bytes
  | i :: regions =>
    if seqLE fromSeqNum i.beginSeqNum then
      sackedAbove fromSeqNum
        (if i.sacked then bytes + (i.endSeqNum - i.beginSeqNum) else bytes) regions
    else if seqLess i.beginSeqNum fromSeqNum && seqLess fromSeqNum i.endSeqNum && i.sacked then
      bytes + (i.endSeqNum - fromSeqNum)
    else bytes

def getAmountOfSackedBytes (this : TcpSackRexmitQueue) (fromSeqNum : Seq) :
    Except Error (BitVec 32) := do
  assert (seqLE this.bufferStartSeq fromSeqNum && seqLE fromSeqNum this.bufferEndSeq)
    "seqLE(begin, fromSeqNum) && seqLE(fromSeqNum, end)"
  return sackedAbove fromSeqNum 0 this.rexmitQueue.reverse

/-- The second loop of `getNumOfDiscontiguousSacks`. -/
def countDiscontiguous (counter : BitVec 32) (prevSacked : Bool) : List Region → BitVec 32
  | [] => counter
  | i :: regions =>
    countDiscontiguous (if i.sacked && !prevSacked then counter + 1 else counter) i.sacked regions

def getNumOfDiscontiguousSacks (this : TcpSackRexmitQueue) (fromSeqNum : Seq) :
    Except Error (BitVec 32) := do
  assert (seqLE this.bufferStartSeq fromSeqNum && seqLE fromSeqNum this.bufferEndSeq)
    "seqLE(begin, fromSeqNum) && seqLE(fromSeqNum, end)"
  if this.rexmitQueue.isEmpty || fromSeqNum == this.bufferEndSeq then return 0
  else
    return countDiscontiguous 0 false
      (this.rexmitQueue.dropWhile fun i => seqLE i.endSeqNum fromSeqNum)

/-! The states of all runs. -/

/-- The operation is accepted, and a queue is initialized only while it is empty, as its connection
does once before the first segment. -/
def Operation.Legal (this : TcpSackRexmitQueue) (op : Operation) : Prop :=
  op.Accepted this ∧ match op with
    | init _ => this.rexmitQueue = []
    | _ => True

variable {this this' : TcpSackRexmitQueue} {b e : Seq} {regions rs : List Region} {n m : ℕ}

theorem exists_relabels_changeRegions {fromSeqNum toSeqNum : Seq}
    (change changePart : Region → Region) (hbegin : ∀ r, (change r).beginSeqNum = r.beginSeqNum)
    (hend : ∀ r, (change r).endSeqNum = r.endSeqNum)
    (hbegin' : ∀ r, (changePart r).beginSeqNum = r.beginSeqNum)
    (hend' : ∀ r, (changePart r).endSeqNum = r.endSeqNum)
    (h : changeRegions id id fromSeqNum toSeqNum regions = .ok rs) :
    ∃ rs', changeRegions change changePart fromSeqNum toSeqNum regions = .ok rs' ∧
      Relabels (fun _ _ => True) rs rs' := by
  obtain ⟨⟨skipped, behind⟩, hsplit, h⟩ := Error.exists_of_bind_eq_ok h
  unfold changeRegions
  rw [hsplit, Error.ok_bind]
  dsimp only at h ⊢
  have hsame : ∀ l, Relabels (fun _ _ => True) l l := Relabels.refl fun _ => trivial
  have hchanged : ∀ l : List Region, Relabels (fun _ _ => True)
      (l.map fun i => if seqGE i.beginSeqNum fromSeqNum then id i else i)
      (l.map fun i => if seqGE i.beginSeqNum fromSeqNum then change i else i) := by
    intro l
    induction l with
    | nil => exact List.Forall₂.nil
    | cons i l ih =>
      refine List.Forall₂.cons ?_ ih
      dsimp only
      split_ifs
      · exact ⟨hbegin i, hend i, trivial⟩
      · exact ⟨rfl, rfl, trivial⟩
  generalize behind.span (fun i => seqLE i.endSeqNum toSeqNum) = spanned at h ⊢
  obtain ⟨covered, rest⟩ := spanned
  have hfront := List.rel_append (hsame skipped) (hchanged covered)
  cases rest with
  | nil =>
    cases h
    exact ⟨_, rfl, hfront⟩
  | cons i rest =>
    dsimp only at h ⊢
    split_ifs at h ⊢
    · cases h
      exact ⟨_, rfl, List.rel_append hfront
        (.cons ⟨hbegin' _, hend' _, trivial⟩ (.cons ⟨rfl, rfl, trivial⟩ (hsame rest)))⟩
    · cases h
      exact ⟨_, rfl, List.rel_append hfront (hsame (i :: rest))⟩

/-- The ends of a range that `markLost` goes through. -/
theorem Valid.offsets_of_markLost {fromSeqNum toSeqNum : Seq} (h : this.Valid)
    (hle : ¬ seqLE toSeqNum (this.clampFrom fromSeqNum))
    (hfrom : seqLess (this.clampFrom fromSeqNum) this.bufferEndSeq)
    (hend : seqLE toSeqNum this.bufferEndSeq) :
    this.offset (this.clampFrom fromSeqNum) < this.offset toSeqNum ∧
      this.offset toSeqNum ≤ this.bytes.length := by
  have hlen := h.length_lt
  have hn := h.clampFrom_lt hfrom
  have hb := this.bufferStartSeq.isLt
  have hf := (this.clampFrom fromSeqNum).isLt
  have ht := toSeqNum.isLt
  rw [h.end_eq] at hend
  simp only [offset, seqLE, decide_eq_true_eq, BitVec.toNat_sub, Seq.toNat_add] at hend hle hn ⊢
  omega

theorem Valid.exists_markLost_valid {fromSeqNum toSeqNum : Seq} (h : this.Valid)
    (hacc : (Operation.markLost fromSeqNum toSeqNum).Accepted this) :
    ∃ this', this.markLost fromSeqNum toSeqNum = .ok this' ∧ this'.Valid := by
  have hlen := h.length_lt
  have hclamp : this.invalidateCounters.clampFrom fromSeqNum = this.clampFrom fromSeqNum := rfl
  have hq : this.invalidateCounters.rexmitQueue = this.rexmitQueue := rfl
  unfold markLost
  dsimp only
  rw [hclamp]
  by_cases hle : seqLE toSeqNum (this.clampFrom fromSeqNum)
  · rw [if_pos hle]
    exact ⟨_, rfl, valid_of_tiles h.tiles hlen rfl⟩
  · obtain ⟨hfrom, hend⟩ := hacc.resolve_left hle
    obtain ⟨hnm, hm⟩ := h.offsets_of_markLost hle hfrom hend
    have hnil : this.rexmitQueue ≠ [] := by
      intro hnil
      simp only [bytes, hnil, bytesOf_nil, List.length_nil] at hm
      omega
    have hid : Changes id id := ⟨fun _ => rfl, fun _ => rfl, fun _ => rfl⟩
    obtain ⟨rs, hrs, ht, hb⟩ := exists_changeRegions id hid (fun _ => rfl) (fun _ => rfl) h.tiles
      hlen hnm hm fun _ _ _ _ _ hr => hr
    obtain ⟨rs', hrs', hrel⟩ := exists_relabels_changeRegions
      (fun i : Region => if !i.sacked then { i with lost := true } else i)
      (fun region => { region with lost := !region.sacked })
      (fun r => by split_ifs <;> rfl) (fun r => by split_ifs <;> rfl) (fun _ => rfl) (fun _ => rfl)
      hrs
    rw [this.add_offset, this.add_offset] at hrs'
    have hlength := hrel.bytes.length_eq
    rw [hb, overlay, List.map_id] at hlength
    rw [if_neg hle, assert, if_pos (by exact hfrom), pure_bind, assert, if_pos (by exact hend),
      pure_bind, if_neg (by simp [hq, hnil]), hq, hrs', Error.ok_bind,
      checked_eq (by exact hrel.tiles ht)]
    refine ⟨_, rfl, valid_of_tiles (hrel.tiles ht) ?_ rfl⟩
    change (bytesOf rs').length < 2 ^ 31
    change (bytesOf this.rexmitQueue).length < 2 ^ 31 at hlen
    rw [← hlength]
    simp only [List.length_append, List.length_take, List.length_drop]
    omega

theorem Valid.exists_apply_legal (h : this.Valid) {op : Operation} (hop : op.Legal this) :
    ∃ this', op.apply this = .ok this' ∧ this'.Valid := by
  by_cases hreg : op.Regular this
  · obtain ⟨this', hrun, hvalid, -⟩ := h.exists_apply hreg
    exact ⟨this', hrun, hvalid⟩
  · cases op with
    | markLost fromSeqNum toSeqNum => exact h.exists_markLost_valid hop.1
    | _ => exact absurd hop hreg

theorem Reachable.valid_of_legal (h : Reachable (fun this op => op.Legal this) this) :
    this.Valid := by
  induction h with
  | init seqNum => exact valid_of_tiles rfl (Nat.two_pow_pos 31) rfl
  | step _ hop hrun ih =>
    obtain ⟨this', hrun', hvalid⟩ := ih.exists_apply_legal hop
    obtain rfl := Except.ok.inj (hrun.symm.trans hrun')
    exact hvalid

/-! What the queries are about. -/

/-- The number of the maximal runs of set flags; `prev` is the flag before the list. -/
def runs (prev : Bool) : List Bool → ℕ
  | [] => 0
  | flag :: flags => (if flag && !prev then 1 else 0) + runs flag flags

/-- The length of the shortest beginning of the list behind which no byte has the flag. -/
def lastEnd (flag : Flags → Bool) (bytes : List Flags) : ℕ :=
  (bytes.reverse.dropWhile fun f => !flag f).length

section Position

theorem exists_dropWhile (ht : Tiles b regions e) (hlen : (bytesOf regions).length < 2 ^ 31)
    (hn : n < (bytesOf regions).length) :
    ∃ i rest k, (regions.dropWhile fun i => seqLE i.endSeqNum (b.add n)) = i :: rest ∧
      0 < k ∧ k ≤ i.length ∧ i.length ≤ n + k ∧ i.beginSeqNum = b.add (n + k - i.length) ∧
      i.endSeqNum = b.add (n + k) ∧ Tiles (b.add (n + k)) rest e ∧
      (bytesOf regions).drop n = List.replicate k i.flags ++ bytesOf rest := by
  obtain ⟨xs, ys, hspan, rfl, hx, hy, hxn, hi⟩ := exists_span ht hlen (n := n) (by omega)
  rw [List.span_eq_takeWhile_dropWhile, Prod.mk.injEq] at hspan
  rw [bytesOf_append, List.length_append] at hn hlen
  cases ys with
  | nil =>
    rw [bytesOf_nil, List.length_nil] at hn
    omega
  | cons i rest =>
    have hin := hi i rfl
    obtain ⟨hbegin, hlt, hy⟩ := hy
    rw [bytesOf_cons, List.length_append, Region.length_bytes] at hn hlen
    have hend : i.endSeqNum = b.add (n + ((bytesOf xs).length + i.length - n)) := by
      rw [i.endSeqNum_eq, hbegin, Seq.add_add]
      congr 1
      omega
    refine ⟨i, rest, (bytesOf xs).length + i.length - n, hspan.2, by omega, by omega, by omega, ?_,
      hend, hend ▸ hy, ?_⟩
    · rw [hbegin]
      congr 1
      omega
    · rw [bytesOf_append, bytesOf_cons, List.drop_append, List.drop_of_length_le hxn,
        List.nil_append, List.drop_append_of_le_length (by rw [Region.length_bytes]; omega),
        Region.bytes, List.drop_replicate]
      congr 2
      omega

theorem holds_of_add {i : Region} {k : ℕ} (hk : 0 < k) (hki : k ≤ i.length) (hi : i.length ≤ n + k)
    (hlen : n + k < 2 ^ 31) (hbegin : i.beginSeqNum = b.add (n + k - i.length))
    (hend : i.endSeqNum = b.add (n + k)) :
    (seqLE i.beginSeqNum (b.add n) && seqLess (b.add n) i.endSeqNum) = true := by
  rw [hbegin, hend, seqLE_add b (by omega) (by omega), seqLess_add b (by omega) (by omega)]
  simp only [Bool.and_eq_true, decide_eq_true_eq]
  omega

end Position

section Count

theorem runs_replicate_append {k : ℕ} (hk : 0 < k) (prev flag : Bool) (flags : List Bool) :
    runs prev (List.replicate k flag ++ flags) =
      (if flag && !prev then 1 else 0) + runs flag flags := by
  induction k generalizing prev with
  | zero => omega
  | succ k ih =>
    rw [List.replicate_succ, List.cons_append, runs]
    rcases Nat.eq_zero_or_pos k with rfl | hpos
    · rfl
    · rw [ih hpos flag, Bool.and_not_self, if_neg Bool.false_ne_true, Nat.zero_add]

theorem runs_le_length (prev : Bool) (flags : List Bool) : runs prev flags ≤ flags.length := by
  induction flags generalizing prev with
  | nil => exact Nat.le_refl 0
  | cons flag flags ih =>
    have hrest := ih flag
    rw [runs, List.length_cons]
    split_ifs <;> omega

theorem countDiscontiguous_eq (ht : Tiles b regions e) (counter : BitVec 32) (prev : Bool) :
    countDiscontiguous counter prev regions =
      counter + BitVec.ofNat 32 (runs prev ((bytesOf regions).map Flags.sacked)) := by
  induction regions generalizing b counter prev with
  | nil => simp [countDiscontiguous, runs]
  | cons i regions ih =>
    have hpos := (length_pos_of_seqLess ht.2.1).1
    rw [countDiscontiguous, ih ht.2.2, bytesOf_cons, List.map_append, Region.bytes,
      List.map_replicate, runs_replicate_append hpos]
    have hflag : i.flags.sacked = i.sacked := rfl
    rw [hflag]
    split_ifs
    · rw [BitVec.ofNat_add, BitVec.add_assoc]
      rfl
    · rw [Nat.zero_add]

theorem skipSackedOrRexmitted_eq (ht : Tiles b regions e) (bytes : BitVec 32) :
    skipSackedOrRexmitted b bytes regions = .ok (bytes + BitVec.ofNat 32
      ((bytesOf regions).takeWhile fun f => f.sacked || f.rexmitted).length) := by
  induction regions generalizing b bytes with
  | nil => simp [skipSackedOrRexmitted]
  | cons i regions ih =>
    obtain ⟨rfl, hless, ht⟩ := ht
    have hpos := (length_pos_of_seqLess hless).1
    have hflags : (i.flags.sacked || i.flags.rexmitted) = (i.sacked || i.rexmitted) := rfl
    rw [skipSackedOrRexmitted, bytesOf_cons, Region.bytes]
    by_cases hset : (i.sacked || i.rexmitted) = true
    · have hassert : (seqLE i.beginSeqNum i.beginSeqNum &&
          seqLess i.beginSeqNum i.endSeqNum) = true := by
        rw [hless, Bool.and_true, seqLE, BitVec.sub_self]
        rfl
      have hlen : i.endSeqNum - i.beginSeqNum = BitVec.ofNat 32 i.length := by
        rw [Region.length, BitVec.ofNat_toNat, BitVec.setWidth_eq]
      rw [if_pos hset, assert, if_pos hassert, pure_bind, ih ht, hlen,
        List.takeWhile_append_of_pos
          (fun f hf => by rw [List.eq_of_mem_replicate hf, hflags, hset]),
        List.length_append, List.length_replicate, BitVec.ofNat_add, BitVec.add_assoc]
    · obtain ⟨l, hl⟩ : ∃ l, i.length = l + 1 := ⟨i.length - 1, by omega⟩
      rw [if_neg hset, hl, List.replicate_succ, List.cons_append,
        List.takeWhile_cons_of_neg (by rwa [hflags])]
      simp

theorem sackedAbove_eq (ht : Tiles b regions e) (hlen : (bytesOf regions).length < 2 ^ 31)
    (hn : n ≤ (bytesOf regions).length) (bytes : BitVec 32) :
    sackedAbove (b.add n) bytes regions.reverse =
      bytes + BitVec.ofNat 32 (((bytesOf regions).drop n).countP Flags.sacked) := by
  induction regions using List.reverseRecOn generalizing e bytes with
  | nil => simp [sackedAbove]
  | append_singleton xs i ih =>
    obtain ⟨m, hx, hbegin, hless, hend⟩ := tiles_append.1 ht
    have hpos := length_pos_of_seqLess hless
    have hm := hx.end_eq
    rw [bytesOf_append, bytesOf_cons, bytesOf_nil, List.append_nil, List.length_append,
      Region.length_bytes] at hlen hn
    have hbegin' : i.beginSeqNum = b.add (bytesOf xs).length := hbegin.trans hm
    have hend' : i.endSeqNum = b.add ((bytesOf xs).length + i.length) := by
      rw [i.endSeqNum_eq, hbegin', Seq.add_add]
    have hflag : i.flags.sacked = i.sacked := rfl
    rw [List.reverse_append, List.reverse_singleton, List.singleton_append, sackedAbove, hbegin',
      hend', seqLE_add b (by omega) (by omega), bytesOf_append, bytesOf_cons, bytesOf_nil,
      List.append_nil]
    by_cases hle : n ≤ (bytesOf xs).length
    · -- the region is above the sequence number
      have hdiff : b.add ((bytesOf xs).length + i.length) - b.add (bytesOf xs).length =
          BitVec.ofNat 32 i.length := by
        rw [← hend', ← hbegin', Region.length, BitVec.ofNat_toNat, BitVec.setWidth_eq]
      rw [if_pos (decide_eq_true hle), ih hx (by omega) hle, List.drop_append_of_le_length hle,
        List.countP_append, Region.bytes, List.countP_replicate, hflag, hdiff]
      split_ifs
      · rw [BitVec.ofNat_add, BitVec.add_assoc, BitVec.add_comm (BitVec.ofNat 32 i.length)]
      · rw [Nat.add_zero]
    · -- it holds the sequence number, or ends there
      rw [if_neg (by simpa using hle), seqLess_add b (by omega) (by omega),
        seqLess_add b (by omega) (by omega), List.drop_append, List.drop_of_length_le (by omega),
        List.nil_append, Region.bytes, List.drop_replicate, List.countP_replicate, hflag]
      have hdiff : b.add ((bytesOf xs).length + i.length) - b.add n =
          BitVec.ofNat 32 ((bytesOf xs).length + i.length - n) := by
        apply BitVec.eq_of_toNat_eq
        rw [Seq.toNat_sub_of_le b (by omega) (by omega), BitVec.toNat_ofNat]
        omega
      rw [hdiff]
      cases i.sacked with
      | false => simp
      | true =>
        by_cases hend : n < (bytesOf xs).length + i.length
        · rw [if_pos (by simpa using ⟨by omega, hend⟩), if_pos rfl]
          congr 2
          omega
        · rw [if_neg (by simpa using fun _ => by omega), if_pos rfl,
            Nat.sub_eq_zero_of_le (by omega)]
          exact (BitVec.add_zero bytes).symm

theorem find?_reverse_eq {flag : Region → Bool} {q : Flags → Bool} (hq : ∀ r, flag r = q r.flags)
    (ht : Tiles b regions e) : (match regions.reverse.find? flag with
      | some i => i.endSeqNum
      | none => b) = b.add (lastEnd q (bytesOf regions)) := by
  induction regions using List.reverseRecOn generalizing e with
  | nil => simp [lastEnd]
  | append_singleton xs i ih =>
    obtain ⟨m, hx, hbegin, hless, hend⟩ := tiles_append.1 ht
    have hpos := (length_pos_of_seqLess hless).1
    have htotal := ht.end_eq
    rw [List.reverse_append, List.reverse_singleton, List.singleton_append, lastEnd, bytesOf_append,
      bytesOf_cons, bytesOf_nil, List.append_nil, List.reverse_append, Region.bytes,
      List.reverse_replicate]
    cases hset : flag i with
    | true =>
      obtain ⟨l, hl⟩ : ∃ l, i.length = l + 1 := ⟨i.length - 1, by omega⟩
      rw [List.find?_cons_of_pos hset, hl, List.replicate_succ, List.cons_append,
        List.dropWhile_cons_of_neg (by rw [← hq, hset]; decide), ← List.cons_append,
        ← List.replicate_succ, ← hl]
      dsimp only
      rw [show i.endSeqNum = e from hend, htotal]
      simp [Nat.add_comm]
    | false =>
      rw [List.find?_cons_of_neg (by rw [hset]; decide),
        List.dropWhile_append_of_pos (fun f hf => by
          rw [List.eq_of_mem_replicate hf, ← hq, hset]
          rfl)]
      exact ih hx

end Count

section Queries

variable {seqNum : Seq}

theorem Valid.isEmpty_or (h : this.Valid) (hlast : this.offset seqNum = this.bytes.length) :
    this.bufferEndSeq = seqNum := by
  rw [h.end_eq, ← hlast, this.add_offset]

theorem Valid.ne_end (h : this.Valid) (hn : this.offset seqNum < this.bytes.length) :
    this.rexmitQueue ≠ [] ∧ this.bufferEndSeq ≠ seqNum := by
  have hlen := h.length_lt
  constructor
  · intro hnil
    rw [bytes, hnil] at hn
    exact absurd hn (Nat.not_lt_zero _)
  · rw [h.end_eq, ← this.add_offset seqNum, Ne, Seq.add_inj _ hlen (by omega)]
    omega

theorem Valid.exists_dropWhile (h : this.Valid) (hn : this.offset seqNum < this.bytes.length) :
    ∃ i rest k, (this.rexmitQueue.dropWhile fun i => seqLE i.endSeqNum seqNum) = i :: rest ∧
      0 < k ∧ (seqLE i.beginSeqNum seqNum && seqLess seqNum i.endSeqNum) = true ∧
      i.endSeqNum - seqNum = BitVec.ofNat 32 k ∧ Tiles i.endSeqNum rest this.bufferEndSeq ∧
      this.bytes.drop (this.offset seqNum) = List.replicate k i.flags ++ bytesOf rest := by
  have hlen := h.length_lt
  obtain ⟨i, rest, k, hdrop, hk, hki, hi, hbegin, hend, ht, hbytes⟩ :=
    TcpSackRexmitQueue.exists_dropWhile h.tiles hlen hn
  have htotal := congrArg List.length hbytes
  rw [List.length_drop, List.length_append, List.length_replicate] at htotal
  change this.bytes.length - _ = _ at htotal
  have hassert := holds_of_add hk hki hi (by omega) hbegin hend
  rw [← hend] at ht
  rw [this.add_offset] at hdrop hassert
  refine ⟨i, rest, k, hdrop, hk, hassert, ?_, ht, hbytes⟩
  apply BitVec.eq_of_toNat_eq
  rw [← this.add_offset seqNum, hend, Seq.toNat_sub_of_le _ (by omega) (by omega),
    BitVec.toNat_ofNat]
  omega

variable (h : this.Valid)
  (hin : seqLE this.bufferStartSeq seqNum ∧ seqLE seqNum this.bufferEndSeq)

include h hin

theorem Valid.getSackedBit_eq : this.getSackedBit seqNum =
    .ok ((this.bytes[this.offset seqNum]?.map Flags.sacked).getD false) := by
  have hle := h.offset_le hin.1 hin.2
  rw [← List.head?_drop, getSackedBit, assert, if_pos (by simpa using hin), pure_bind]
  rcases Nat.eq_or_lt_of_le hle with hlast | hlt
  · rw [if_pos (h.isEmpty_or hlast), hlast, List.drop_length]
    rfl
  · obtain ⟨i, rest, k, hdrop, hk, hassert, -, -, hbytes⟩ := h.exists_dropWhile hlt
    obtain ⟨l, rfl⟩ : ∃ l, k = l + 1 := ⟨k - 1, by omega⟩
    rw [if_neg (h.ne_end hlt).2, hdrop, hbytes, List.replicate_succ]
    dsimp only
    rw [assert, if_pos hassert, pure_bind]
    rfl

theorem Valid.getAmountOfSackedBytes_eq : this.getAmountOfSackedBytes seqNum =
    .ok (BitVec.ofNat 32 ((this.bytes.drop (this.offset seqNum)).countP Flags.sacked)) := by
  have hle := h.offset_le hin.1 hin.2
  have hsum := sackedAbove_eq h.tiles h.length_lt hle 0
  rw [this.add_offset] at hsum
  rw [getAmountOfSackedBytes, assert, if_pos (by simpa using hin), pure_bind, hsum]
  simp [bytes]

theorem Valid.getNumOfDiscontiguousSacks_eq : this.getNumOfDiscontiguousSacks seqNum =
    .ok (BitVec.ofNat 32
      (runs false ((this.bytes.drop (this.offset seqNum)).map Flags.sacked))) := by
  have hle := h.offset_le hin.1 hin.2
  rw [getNumOfDiscontiguousSacks, assert, if_pos (by simpa using hin), pure_bind]
  rcases Nat.eq_or_lt_of_le hle with hlast | hlt
  · rw [if_pos (by simp [h.isEmpty_or hlast]), hlast, List.drop_length]
    rfl
  · obtain ⟨i, rest, k, hdrop, hk, -, -, ht, hbytes⟩ := h.exists_dropWhile hlt
    obtain ⟨hnil, hne⟩ := h.ne_end hlt
    rw [if_neg (by simp [hnil, hne.symm]), hdrop, countDiscontiguous, countDiscontiguous_eq ht,
      hbytes, List.map_append, List.map_replicate, runs_replicate_append hk]
    have hflag : i.flags.sacked = i.sacked := rfl
    rw [hflag]
    cases i.sacked <;> simp [BitVec.ofNat_add]

theorem Valid.checkRexmitQueue_eq :
    this.checkRexmitQueueForSackedOrRexmittedSegments seqNum =
      .ok (BitVec.ofNat 32 ((this.bytes.drop (this.offset seqNum)).takeWhile fun f =>
        f.sacked || f.rexmitted).length) := by
  have hle := h.offset_le hin.1 hin.2
  rw [checkRexmitQueueForSackedOrRexmittedSegments, assert, if_pos (by simpa using hin), pure_bind]
  rcases Nat.eq_or_lt_of_le hle with hlast | hlt
  · rw [if_pos (by simp [h.isEmpty_or hlast]), hlast, List.drop_length]
    rfl
  · obtain ⟨i, rest, k, hdrop, hk, hassert, hdiff, ht, hbytes⟩ := h.exists_dropWhile hlt
    obtain ⟨hnil, hne⟩ := h.ne_end hlt
    have hflags : (i.flags.sacked || i.flags.rexmitted) = (i.sacked || i.rexmitted) := rfl
    rw [if_neg (by simp [hnil, hne]), hdrop, skipSackedOrRexmitted, hbytes]
    by_cases hset : (i.sacked || i.rexmitted) = true
    · rw [if_pos hset, assert, if_pos hassert, pure_bind, skipSackedOrRexmitted_eq ht, hdiff,
        List.takeWhile_append_of_pos
          (fun f hf => by rw [List.eq_of_mem_replicate hf, hflags, hset]),
        List.length_append, List.length_replicate, BitVec.ofNat_add]
      simp
    · obtain ⟨l, rfl⟩ : ∃ l, k = l + 1 := ⟨k - 1, by omega⟩
      rw [if_neg hset, List.replicate_succ, List.cons_append,
        List.takeWhile_cons_of_neg (by rwa [hflags])]
      rfl

end Queries

/-- In every run the queries return what the flags of the outstanding bytes say. -/
theorem Reachable.queries_eq (h : Reachable (fun this op => op.Legal this) this) (seqNum : Seq)
    (hin : seqLE this.bufferStartSeq seqNum ∧ seqLE seqNum this.bufferEndSeq) :
    this.getSackedBit seqNum =
      .ok ((this.bytes[this.offset seqNum]?.map Flags.sacked).getD false) ∧
    this.getTotalAmountOfSackedBytes.toNat = this.bytes.countP Flags.sacked ∧
    (∃ sacked, this.getAmountOfSackedBytes seqNum = .ok sacked ∧
      sacked.toNat = (this.bytes.drop (this.offset seqNum)).countP Flags.sacked) ∧
    (∃ counter, this.getNumOfDiscontiguousSacks seqNum = .ok counter ∧
      counter.toNat = runs false ((this.bytes.drop (this.offset seqNum)).map Flags.sacked)) ∧
    (∃ skipped, this.checkRexmitQueueForSackedOrRexmittedSegments seqNum = .ok skipped ∧
      skipped.toNat = ((this.bytes.drop (this.offset seqNum)).takeWhile fun f =>
        f.sacked || f.rexmitted).length) ∧
    this.getHighestSackedSeqNum = this.bufferStartSeq.add (lastEnd Flags.sacked this.bytes) ∧
    this.getHighestRexmittedSeqNum =
      this.bufferStartSeq.add (lastEnd Flags.rexmitted this.bytes) := by
  have hvalid := h.valid_of_legal
  have hlen := hvalid.length_lt
  have hdrop : (this.bytes.drop (this.offset seqNum)).length ≤ this.bytes.length := by
    rw [List.length_drop]
    omega
  refine ⟨hvalid.getSackedBit_eq hin, hvalid.toNat_sumLengths fun _ => rfl,
    ⟨_, hvalid.getAmountOfSackedBytes_eq hin, ?_⟩,
    ⟨_, hvalid.getNumOfDiscontiguousSacks_eq hin, ?_⟩, ⟨_, hvalid.checkRexmitQueue_eq hin, ?_⟩,
    find?_reverse_eq (fun _ => rfl) hvalid.tiles, find?_reverse_eq (fun _ => rfl) hvalid.tiles⟩
  · have hle := List.countP_le_length (p := Flags.sacked)
      (l := this.bytes.drop (this.offset seqNum))
    rw [BitVec.toNat_ofNat]
    omega
  · have hle := runs_le_length false ((this.bytes.drop (this.offset seqNum)).map Flags.sacked)
    rw [List.length_map] at hle
    rw [BitVec.toNat_ofNat]
    omega
  · have hle := (List.takeWhile_sublist (l := this.bytes.drop (this.offset seqNum))
      fun f => f.sacked || f.rexmitted).length_le
    rw [BitVec.toNat_ofNat]
    omega

/-- In the queue with a SACKed second segment, from a byte of it on. -/
theorem queries_eq_sackedQueue :
    sackedQueue.getSackedBit 4 = .ok true ∧ sackedQueue.getNumOfDiscontiguousSacks 4 = .ok 1 := by
  have h := @Reachable.queries_eq sackedQueue
    (reachable_sackedQueue fun _ op hop => ⟨hop.1, by
      cases op with
      | init seqNum => exact hop.2
      | _ => trivial⟩) 4 ⟨by decide, by decide⟩
  obtain ⟨hsacked, -, -, ⟨counter, hcount, hruns⟩, -⟩ := h
  refine ⟨hsacked, ?_⟩
  rw [hcount]
  exact congrArg Except.ok (BitVec.eq_of_toNat_eq (hruns.trans rfl))

end Inet.Tcp.TcpSackRexmitQueue
