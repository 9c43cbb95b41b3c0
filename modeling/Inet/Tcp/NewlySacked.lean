import Inet.Tcp.ScoreboardQueries

/-! # The lowest newly SACKed sequence number

`setSackedBit` returns where the first region begins that it marks as a whole
and that was never SACKed or sent again. A part of a region at the end of the
range does not count, and zero stands for none.
-/

namespace Inet.Tcp

/-- The region was neither SACKed nor sent again. -/
def Region.isNew (i : Region) : Bool := !i.sacked && !i.everSacked && i.transmitCount ≤ 1

namespace TcpSackRexmitQueue

/-- The region of every outstanding byte. -/
def spread (regions : List Region) : List Region :=
  regions.flatMap fun i => List.replicate i.length i

/-- A byte of the range is newly SACKed, and is of a new region. -/
def Eligible (this : TcpSackRexmitQueue) (fromSeqNum toSeqNum : Seq) (k : ℕ) : Prop :=
  this.offset (this.clampFrom fromSeqNum) ≤ k ∧ k < this.offset toSeqNum ∧
    ∃ i ∈ (spread this.rexmitQueue)[k]?, i.isNew

/-- The lowest eligible byte. -/
def Lowest (this : TcpSackRexmitQueue) (fromSeqNum toSeqNum : Seq) (k : ℕ) : Prop :=
  this.Eligible fromSeqNum toSeqNum k ∧ ∀ j < k, ¬ this.Eligible fromSeqNum toSeqNum j

/-- The value is the sequence number of the lowest eligible byte, and zero when there is none, and
only then. -/
def Reports (this : TcpSackRexmitQueue) (fromSeqNum toSeqNum newlySackedLow : Seq) : Prop :=
  (∀ k, this.Lowest fromSeqNum toSeqNum k → newlySackedLow = this.bufferStartSeq.add k) ∧
    (newlySackedLow = 0 ↔ ∀ k, ¬ this.Eligible fromSeqNum toSeqNum k)

/-- The lowest eligible byte, if any, does not have the sequence number zero, and its region ends in
the range. -/
def Reportable (this : TcpSackRexmitQueue) (fromSeqNum toSeqNum : Seq) : Prop :=
  ∀ k, this.Lowest fromSeqNum toSeqNum k → this.bufferStartSeq.add k ≠ 0 ∧
    ∃ i ∈ (spread this.rexmitQueue)[k]?, seqLE i.endSeqNum toSeqNum

variable {b e : Seq} {regions : List Region} {n m : ℕ} {i : Region}

theorem spread_cons (i : Region) (regions : List Region) :
    spread (i :: regions) = List.replicate i.length i ++ spread regions := List.flatMap_cons

theorem getElem?_spread_cons_of_lt {k : ℕ} (h : k < i.length) :
    (spread (i :: regions))[k]? = some i := by
  rw [spread_cons, List.getElem?_append_left (by simpa using h), List.getElem?_replicate, if_pos h]

theorem getElem?_spread_cons_of_le {k : ℕ} (h : i.length ≤ k) :
    (spread (i :: regions))[k]? = (spread regions)[k - i.length]? := by
  rw [spread_cons, List.getElem?_append_right (by simpa using h), List.length_replicate]

/-- The first new region that ends before a sequence number begins there, unless it begins at
zero. -/
def firstNew (toSeqNum : Seq) : List Region → Seq
  | [] => 0
  | i :: regions =>
    if seqLE i.endSeqNum toSeqNum then
      if i.isNew && i.beginSeqNum ≠ 0 then i.beginSeqNum else firstNew toSeqNum regions
    else 0

theorem newlySacked_eq {fromSeqNum toSeqNum : Seq}
    (h : ∀ i ∈ regions, seqGE i.beginSeqNum fromSeqNum = true) :
    newlySacked fromSeqNum toSeqNum regions = firstNew toSeqNum regions := by
  have hkeep : ∀ (l : List Region) (low : Seq), low ≠ 0 → l.foldl (fun newlySackedLow i =>
      if seqGE i.beginSeqNum fromSeqNum && !i.sacked && !i.everSacked && i.transmitCount ≤ 1 &&
        newlySackedLow == 0 then i.beginSeqNum else newlySackedLow) low = low := by
    intro l low hlow
    induction l with
    | nil => rfl
    | cons i l ih =>
      rw [List.foldl_cons, if_neg (by simpa using fun _ _ _ _ => hlow)]
      exact ih
  induction regions with
  | nil => rfl
  | cons i regions ih =>
    obtain ⟨hi, hrest⟩ := List.forall_mem_cons.1 h
    have ih := ih hrest
    unfold newlySacked at ih ⊢
    rw [firstNew]
    cases hend : seqLE i.endSeqNum toSeqNum with
    | false => simp [hend]
    | true =>
      rw [List.takeWhile_cons_of_pos (by exact hend), List.foldl_cons, if_pos rfl]
      have hcond : (seqGE i.beginSeqNum fromSeqNum && !i.sacked && !i.everSacked &&
          decide (i.transmitCount ≤ 1) && (0 : Seq) == 0) = i.isNew := by
        rw [hi, Region.isNew]
        simp
      rw [hcond]
      cases hnew : i.isNew with
      | false =>
        rw [if_neg Bool.false_ne_true, if_neg (by simp)]
        exact ih
      | true =>
        rw [if_pos rfl]
        by_cases hzero : i.beginSeqNum = 0
        · rw [hzero, if_neg (by simp)]
          exact ih
        · rw [hkeep _ _ hzero, if_pos (by simpa using hzero)]

/-- The least byte before `m` of a new region, counted from the first of the regions. -/
def LowestIn (regions : List Region) (m k : ℕ) (i : Region) : Prop :=
  k < m ∧ (spread regions)[k]? = some i ∧ i.isNew = true ∧
    ∀ j < k, ∀ i', (spread regions)[j]? = some i' → i'.isNew = false

theorem LowestIn.cons (hnew : i.isNew = false) (hle : i.length ≤ m) {k : ℕ} {j : Region}
    (h : LowestIn regions (m - i.length) k j) : LowestIn (i :: regions) m (i.length + k) j := by
  obtain ⟨hlt, hget, hj, hbelow⟩ := h
  refine ⟨by omega, ?_, hj, fun l hl i' hi' => ?_⟩
  · rw [getElem?_spread_cons_of_le (Nat.le_add_right _ _), Nat.add_sub_cancel_left]
    exact hget
  · by_cases hin : l < i.length
    · rw [getElem?_spread_cons_of_lt hin] at hi'
      cases hi'
      exact hnew
    · rw [not_lt] at hin
      rw [getElem?_spread_cons_of_le hin] at hi'
      exact hbelow _ (by omega) i' hi'

theorem firstNew_cases (ht : Tiles b regions e) (hlen : (bytesOf regions).length < 2 ^ 31)
    (hm : m ≤ (bytesOf regions).length) :
    ((∀ k < m, ∀ i, (spread regions)[k]? = some i → i.isNew = false) ∧
        firstNew (b.add m) regions = 0) ∨
      ∃ k i, LowestIn regions m k i ∧
        if seqLE i.endSeqNum (b.add m) then
          b.add k ≠ 0 → firstNew (b.add m) regions = b.add k
        else firstNew (b.add m) regions = 0 := by
  induction regions generalizing b m with
  | nil =>
    rw [bytesOf_nil, List.length_nil] at hm
    exact .inl ⟨fun k hk => absurd hk (by omega), rfl⟩
  | cons i regions ih =>
    obtain ⟨rfl, hless, ht⟩ := ht
    have hpos := length_pos_of_seqLess hless
    rw [bytesOf_cons, List.length_append, Region.length_bytes] at hlen hm
    have hend : seqLE i.endSeqNum (i.beginSeqNum.add m) = decide (i.length ≤ m) := by
      rw [i.endSeqNum_eq, seqLE_add _ (by omega) (by omega)]
    rw [firstNew, hend]
    by_cases hle : i.length ≤ m
    · rw [if_pos (decide_eq_true hle)]
      cases hnew : i.isNew with
      | true =>
        refine .inr ⟨0, i, ⟨by omega, getElem?_spread_cons_of_lt hpos.1, hnew,
          fun j hj => absurd hj (Nat.not_lt_zero j)⟩, ?_⟩
        rw [hend, if_pos (decide_eq_true hle), Seq.add_zero]
        intro hne
        rw [if_pos (by simpa using hne)]
      | false =>
        have hadd : i.beginSeqNum.add m = i.endSeqNum.add (m - i.length) := by
          rw [i.endSeqNum_eq, Seq.add_add]
          congr 1
          omega
        rw [if_neg (by simp), hadd]
        rcases ih ht (by omega) (m := m - i.length) (by omega) with ⟨hnone, hzero⟩ |
          ⟨k, j, hlow, hvalue⟩
        · refine .inl ⟨fun k hk i' hi' => ?_, hzero⟩
          by_cases hin : k < i.length
          · rw [getElem?_spread_cons_of_lt hin] at hi'
            cases hi'
            exact hnew
          · rw [not_lt] at hin
            rw [getElem?_spread_cons_of_le hin] at hi'
            exact hnone _ (by omega) i' hi'
        · refine .inr ⟨i.length + k, j, hlow.cons hnew hle, ?_⟩
          have hk : i.beginSeqNum.add (i.length + k) = i.endSeqNum.add k := by
            rw [i.endSeqNum_eq, Seq.add_add]
          rwa [hk]
    · -- the range ends inside the region
      rw [if_neg (by simpa using hle)]
      by_cases hnew : i.isNew = true ∧ 0 < m
      · refine .inr ⟨0, i, ⟨hnew.2, getElem?_spread_cons_of_lt hpos.1, hnew.1,
          fun j hj => absurd hj (Nat.not_lt_zero j)⟩, ?_⟩
        rw [hend, if_neg (by simpa using hle)]
      · refine .inl ⟨fun k hk i' hi' => ?_, rfl⟩
        rw [getElem?_spread_cons_of_lt (by omega)] at hi'
        cases hi'
        rw [not_and] at hnew
        exact Bool.eq_false_iff.2 fun hset => hnew hset (by omega)

theorem length_spread (regions : List Region) :
    (spread regions).length = (bytesOf regions).length := by
  induction regions with
  | nil => rfl
  | cons i regions ih =>
    rw [spread_cons, bytesOf_cons, List.length_append, List.length_append, ih,
      List.length_replicate, Region.length_bytes]

theorem spread_append (xs ys : List Region) : spread (xs ++ ys) = spread xs ++ spread ys :=
  List.flatMap_append

theorem exists_of_splitRegions {fromSeqNum : Seq} {xs ys : List Region}
    (h : splitRegions fromSeqNum regions = .ok (xs, ys)) :
    ∃ skipped i rest, regions.span (fun i => seqLE i.endSeqNum fromSeqNum) = (skipped, i :: rest) ∧
      ys = { i with beginSeqNum := fromSeqNum } :: rest := by
  unfold splitRegions at h
  generalize regions.span (fun i => seqLE i.endSeqNum fromSeqNum) = spanned at h ⊢
  obtain ⟨skipped, behind⟩ := spanned
  cases behind with
  | nil => cases h
  | cons i rest =>
    obtain ⟨-, -, h⟩ := Error.exists_of_bind_eq_ok h
    unfold splitFront at h
    refine ⟨skipped, i, rest, rfl, ?_⟩
    split_ifs at h with hbegin
    · cases h
      rfl
    · rw [not_not] at hbegin
      cases h
      rw [← hbegin]

theorem exists_splitRegions_spread (ht : Tiles b regions e)
    (hlen : (bytesOf regions).length < 2 ^ 31) (hn : n < (bytesOf regions).length) :
    ∃ xs ys, splitRegions (b.add n) regions = .ok (xs, ys) ∧ Tiles (b.add n) ys e ∧
      (bytesOf ys).length = (bytesOf regions).length - n ∧
      ∀ k, ∃ begin : Seq, (spread ys)[k]? = (spread regions)[n + k]?.map fun i : Region =>
        { i with beginSeqNum := begin } := by
  obtain ⟨xs, ys, hsplit, -, hy, -, hbytes, -⟩ := exists_splitRegions ht hlen hn
  obtain ⟨front, behind, hspan, hregions, -, hb, hfront, hi⟩ :=
    exists_span ht hlen (n := n) (by omega)
  obtain ⟨skipped, i, rest, hspan', rfl⟩ := exists_of_splitRegions hsplit
  rw [hspan] at hspan'
  cases hspan'
  have hin := hi i rfl
  have hylen := congrArg List.length hbytes
  rw [List.length_drop] at hylen
  refine ⟨xs, _, hsplit, hy, hylen, fun k => ?_⟩
  rw [hregions, bytesOf_append, bytesOf_cons, bytesOf_cons] at hylen
  simp only [List.length_append, Region.length_bytes] at hylen
  have hfrontlen : (spread front).length = (bytesOf front).length := length_spread front
  rw [hregions, spread_append, List.getElem?_append_right (by omega), hfrontlen]
  by_cases hk : k < Region.length { i with beginSeqNum := b.add n }
  · rw [getElem?_spread_cons_of_lt hk, getElem?_spread_cons_of_lt (by omega)]
    exact ⟨b.add n, rfl⟩
  · rw [not_lt] at hk
    have hindex : n + k - (bytesOf front).length - i.length =
        k - Region.length { i with beginSeqNum := b.add n } := by omega
    rw [getElem?_spread_cons_of_le hk, getElem?_spread_cons_of_le (by omega), hindex]
    cases (spread rest)[k - Region.length { i with beginSeqNum := b.add n }]? with
    | none => exact ⟨0, rfl⟩
    | some j => exact ⟨j.beginSeqNum, rfl⟩

variable {this : TcpSackRexmitQueue} {fromSeqNum toSeqNum : Seq}

theorem Valid.exists_setSackedBit_spread (h : this.Valid)
    (hacc : (Operation.setSackedBit fromSeqNum toSeqNum).Accepted this) :
    ∃ this' ys, this.setSackedBit fromSeqNum toSeqNum =
        .ok (this', newlySacked (this.clampFrom fromSeqNum) toSeqNum ys) ∧
      Tiles (this.clampFrom fromSeqNum) ys this.bufferEndSeq ∧
      this.offset (this.clampFrom fromSeqNum) < this.offset toSeqNum ∧
      this.offset toSeqNum ≤ this.bytes.length ∧
      (bytesOf ys).length = this.bytes.length - this.offset (this.clampFrom fromSeqNum) ∧
      ∀ k, ∃ begin : Seq, (spread ys)[k]? =
        (spread this.rexmitQueue)[this.offset (this.clampFrom fromSeqNum) + k]?.map
          fun i : Region => { i with beginSeqNum := begin } := by
  obtain ⟨this', hrun, -⟩ := h.exists_setSackedBit hacc
  obtain ⟨⟨queue, low⟩, hset, -⟩ := Error.exists_of_bind_eq_ok hrun
  obtain ⟨hfrom, hbegin, hend, hless⟩ := hacc
  have hlen := h.length_lt
  have hn := h.clampFrom_lt hfrom
  have hbegin' : seqLE this.bufferStartSeq toSeqNum = true := by
    simp only [seqLess, seqLE, decide_eq_true_eq] at hbegin ⊢
    exact hbegin.2
  have hm := h.offset_le hbegin' hend
  have hnm : this.offset (this.clampFrom fromSeqNum) < this.offset toSeqNum := by
    rw [← this.add_offset (this.clampFrom fromSeqNum), ← this.add_offset toSeqNum,
      seqLess_add _ (by omega) (by omega)] at hless
    exact of_decide_eq_true hless
  have hnil : this.rexmitQueue ≠ [] := by
    intro hq
    simp [bytes, hq] at hn
  obtain ⟨xs, ys, hsplit, hy, hylen, hspread⟩ := exists_splitRegions_spread h.tiles hlen hn
  rw [this.add_offset] at hsplit hy
  refine ⟨queue, ys, ?_, hy, hnm, hm, hylen, hspread⟩
  rw [hset]
  unfold setSackedBit at hset
  obtain ⟨-, -, hset⟩ := Error.exists_of_bind_eq_ok hset
  obtain ⟨-, -, hset⟩ := Error.exists_of_bind_eq_ok hset
  obtain ⟨-, -, hset⟩ := Error.exists_of_bind_eq_ok hset
  have hq : this.invalidateCounters.rexmitQueue = this.rexmitQueue := rfl
  have hclamp : this.invalidateCounters.clampFrom fromSeqNum = this.clampFrom fromSeqNum := rfl
  rw [if_neg (by simp [hq, hnil]), hq, hclamp, hsplit, Error.ok_bind] at hset
  obtain ⟨rexmitQueue, -, hset⟩ := Error.exists_of_bind_eq_ok hset
  obtain ⟨checked, -, hset⟩ := Error.exists_of_bind_eq_ok hset
  cases hset
  rfl

theorem Lowest.unique {k k' : ℕ} (h : this.Lowest fromSeqNum toSeqNum k)
    (h' : this.Lowest fromSeqNum toSeqNum k') : k = k' := by
  rcases lt_trichotomy k k' with hlt | heq | hlt
  · exact absurd h.1 (h'.2 k hlt)
  · exact heq
  · exact absurd h'.1 (h.2 k' hlt)

/-- The returned value is as documented exactly when the lowest eligible byte is reportable. -/
theorem Reachable.reports_iff (h : Reachable (fun this op => op.Legal this) this)
    (hacc : (Operation.setSackedBit fromSeqNum toSeqNum).Accepted this) :
    ∃ this' newlySackedLow, this.setSackedBit fromSeqNum toSeqNum = .ok (this', newlySackedLow) ∧
      (this.Reports fromSeqNum toSeqNum newlySackedLow ↔
        this.Reportable fromSeqNum toSeqNum) := by
  have hvalid := h.valid_of_legal
  have hlen := hvalid.length_lt
  obtain ⟨this', ys, hrun, hy, hnm, hm, hylen, hspread⟩ := hvalid.exists_setSackedBit_spread hacc
  refine ⟨this', _, hrun, ?_⟩
  generalize hn : this.offset (this.clampFrom fromSeqNum) = n at *
  have hfrom : this.bufferStartSeq.add n = this.clampFrom fromSeqNum := by
    rw [← hn, this.add_offset]
  have hto : (this.clampFrom fromSeqNum).add (this.offset toSeqNum - n) = toSeqNum := by
    rw [← hfrom, Seq.add_add, Nat.add_sub_cancel' (Nat.le_of_lt hnm), this.add_offset]
  have hbehind : ∀ i ∈ ys, seqGE i.beginSeqNum (this.clampFrom fromSeqNum) = true := by
    intro i hi
    obtain ⟨k, hk, hbegin, -⟩ := hy.begin_eq hi
    have hge := seqGE_add (this.clampFrom fromSeqNum) (show k < 2 ^ 31 by omega)
      (Nat.two_pow_pos 31)
    rw [Seq.add_zero, ← hbegin] at hge
    rw [hge]
    exact decide_eq_true (Nat.zero_le k)
  rw [newlySacked_eq hbehind]
  have hsame : ∀ j, (spread ys)[j]?.map (fun i => (i.isNew, i.endSeqNum)) =
      (spread this.rexmitQueue)[n + j]?.map fun i => (i.isNew, i.endSeqNum) := by
    intro j
    obtain ⟨begin, hj⟩ := hspread j
    rw [hj, Option.map_map]
    rfl
  have hnone : ∀ k, this.Eligible fromSeqNum toSeqNum k →
      ∃ j i, k = n + j ∧ j < this.offset toSeqNum - n ∧ (spread ys)[j]? = some i ∧
        i.isNew = true := by
    rintro k ⟨hnk, hkm, i₀, hi₀, hnew⟩
    rw [hn] at hnk
    obtain ⟨j, rfl⟩ := Nat.exists_eq_add_of_le hnk
    have hj := hsame j
    rw [Option.mem_def.1 hi₀] at hj
    obtain ⟨i, hi, hpair⟩ := Option.map_eq_some_iff.1 hj
    exact ⟨j, i, rfl, by omega, hi, (congrArg Prod.fst hpair).trans hnew⟩
  have hcases := firstNew_cases (m := this.offset toSeqNum - n) hy (by omega) (by omega)
  rw [hto] at hcases
  rcases hcases with ⟨hno, hzero⟩ | ⟨k, i, ⟨hkm, hget, hnew, hbelow⟩, hvalue⟩
  · have hall : ∀ k, ¬ this.Eligible fromSeqNum toSeqNum k := by
      intro k hk
      obtain ⟨j, i, -, hj, hi, hnew⟩ := hnone k hk
      rw [hno j hj i hi] at hnew
      cases hnew
    exact iff_of_true ⟨fun k hk => absurd hk.1 (hall k), iff_of_true hzero hall⟩
      fun k hk => absurd hk.1 (hall k)
  · obtain ⟨i₀, hi₀, hpair⟩ := Option.map_eq_some_iff.1 ((hsame k).symm.trans (by rw [hget]; rfl))
    have hnew₀ : i₀.isNew = true := (congrArg Prod.fst hpair).trans hnew
    have hend₀ : i₀.endSeqNum = i.endSeqNum := congrArg Prod.snd hpair
    have hlow : this.Lowest fromSeqNum toSeqNum (n + k) := by
      refine ⟨⟨by omega, by omega, i₀, hi₀, hnew₀⟩, fun l hl hel => ?_⟩
      obtain ⟨j, i', rfl, -, hi', hnew'⟩ := hnone l hel
      rw [hbelow j (by omega) i' hi'] at hnew'
      cases hnew'
    have hseq : (this.clampFrom fromSeqNum).add k = this.bufferStartSeq.add (n + k) := by
      rw [← hfrom, Seq.add_add]
    have hreports : ∀ low, this.Reports fromSeqNum toSeqNum low ↔
        low = this.bufferStartSeq.add (n + k) ∧ low ≠ 0 := by
      intro low
      constructor
      · rintro ⟨hlowest, hiff⟩
        exact ⟨hlowest _ hlow, fun hzero => hiff.1 hzero _ hlow.1⟩
      · rintro ⟨rfl, hne⟩
        refine ⟨fun k' hk' => by rw [hlow.unique hk'], iff_of_false hne fun hall => ?_⟩
        exact hall _ hlow.1
    have hreportable : this.Reportable fromSeqNum toSeqNum ↔
        this.bufferStartSeq.add (n + k) ≠ 0 ∧ seqLE i.endSeqNum toSeqNum = true := by
      constructor
      · intro hall
        obtain ⟨hne, j, hj, hle⟩ := hall _ hlow
        rw [hi₀, Option.mem_some] at hj
        rw [← hj, hend₀] at hle
        exact ⟨hne, hle⟩
      · rintro ⟨hne, hle⟩ k' hk'
        rw [← hlow.unique hk']
        exact ⟨hne, i₀, hi₀, by rwa [hend₀]⟩
    rw [hreports, hreportable]
    rw [hseq] at hvalue
    split_ifs at hvalue with hle
    · constructor
      · rintro ⟨heq, hne⟩
        exact ⟨heq ▸ hne, hle⟩
      · rintro ⟨hne, -⟩
        rw [hvalue hne]
        exact ⟨rfl, hne⟩
    · rw [hvalue]
      exact iff_of_false (fun hr => hr.2 rfl) fun hr => hle hr.2

theorem Operation.Regular.legal {this : TcpSackRexmitQueue} {op : Operation}
    (h : op.Regular this) : op.Legal this := by
  cases op with
  | init seqNum => exact h
  | _ => exact ⟨h.1, trivial⟩

/-- The first segment of the queue, which ends at zero, is SACKed as a whole. -/
theorem reports_iff_sackedQueue : ∃ this' newlySackedLow,
    sackedQueue.setSackedBit 4294967286 0 = .ok (this', newlySackedLow) ∧
      (sackedQueue.Reports 4294967286 0 newlySackedLow ↔
        sackedQueue.Reportable 4294967286 0) :=
  Reachable.reports_iff (reachable_sackedQueue fun _ _ hop => hop.legal)
    ⟨by decide, by decide, by decide, by decide⟩

/-- Bytes in the middle of a segment of ten bytes are SACKed, and zero is returned. -/
theorem exists_not_reports : ∃ this this' : TcpSackRexmitQueue,
    Reachable (fun this op => op.Legal this) this ∧
      (Operation.setSackedBit 103 106).Accepted this ∧
      this.setSackedBit 103 106 = .ok (this', 0) ∧ ¬ this.Reports 103 106 0 := by
  have h₀ : Reachable (fun this op => op.Legal this) (new.init 100) := Reachable.init _
  have h₁ := @Reachable.step _ _ _ (.enqueueSentData 100 110 0) h₀
    ⟨⟨rfl, rfl, rfl, by decide⟩, trivial⟩ rfl
  refine ⟨_, _, h₁, ⟨by decide, by decide, by decide, by decide⟩, rfl, fun hr => ?_⟩
  exact hr.2.1 rfl 3 ⟨by decide, by decide, _, rfl, rfl⟩

end TcpSackRexmitQueue

end Inet.Tcp
