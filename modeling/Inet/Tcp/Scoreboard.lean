import Mathlib.Data.List.TakeDrop
import Inet.Tcp.SackRexmitQueue

/-! # The scoreboard of the SACK retransmission queue

The regions tile the window of outstanding bytes, and stand for a list with
the flags of every byte.
-/

namespace Inet.Tcp

/-- What the queue knows of a byte. -/
structure Flags where
  lost : Bool
  sacked : Bool
  rexmitted : Bool
  deriving DecidableEq, Repr

namespace Region

def flags (this : Region) : Flags := ⟨this.lost, this.sacked, this.rexmitted⟩

def length (this : Region) : ℕ := (this.endSeqNum - this.beginSeqNum).toNat

def bytes (this : Region) : List Flags := List.replicate this.length this.flags

@[simp] theorem length_bytes (this : Region) : this.bytes.length = this.length := by simp [bytes]

theorem endSeqNum_eq (this : Region) : this.endSeqNum = this.beginSeqNum.add this.length :=
  (Seq.add_sub_toNat _ _).symm

end Region

namespace TcpSackRexmitQueue

/-- The flags of the bytes of some regions. -/
def bytesOf (regions : List Region) : List Flags := regions.flatMap Region.bytes

@[simp] theorem bytesOf_nil : bytesOf [] = [] := rfl

@[simp] theorem bytesOf_cons (r : Region) (regions : List Region) :
    bytesOf (r :: regions) = r.bytes ++ bytesOf regions := rfl

@[simp] theorem bytesOf_append (xs ys : List Region) :
    bytesOf (xs ++ ys) = bytesOf xs ++ bytesOf ys := List.flatMap_append

/-- The regions are not empty, and connected from one sequence number to another. -/
def Tiles (b : Seq) : List Region → Seq → Prop
  | [], e => b = e
  | r :: regions, e =>
    r.beginSeqNum = b ∧ seqLess r.beginSeqNum r.endSeqNum ∧ Tiles r.endSeqNum regions e

variable {b e : Seq} {regions xs ys : List Region} {r : Region} {n m : ℕ}

theorem checkRegions_eq (f : Bool) : checkRegions b f regions =
    ((checkRegions b true regions).1, f && (checkRegions b true regions).2) := by
  induction regions generalizing b f with
  | nil => simp [checkRegions]
  | cons r regions ih =>
    rw [checkRegions, checkRegions, ih, ih (true && _ && _)]
    simp [Bool.and_assoc]

theorem checkQueue_iff {this : TcpSackRexmitQueue} :
    this.checkQueue = true ↔ Tiles this.bufferStartSeq this.rexmitQueue this.bufferEndSeq := by
  unfold checkQueue
  generalize this.bufferStartSeq = b
  induction this.rexmitQueue generalizing b with
  | nil => simp [checkRegions, Tiles]
  | cons r regions ih =>
    rw [checkRegions, checkRegions_eq, Tiles, ← ih]
    simp only [Bool.true_and, Bool.and_eq_true, beq_iff_eq]
    constructor
    · rintro ⟨⟨⟨hb, hlt⟩, hf⟩, he⟩
      exact ⟨hb.symm, hlt, hf, he⟩
    · rintro ⟨hb, hlt, hf, he⟩
      exact ⟨⟨⟨hb.symm, hlt⟩, hf⟩, he⟩

theorem tiles_append : Tiles b (xs ++ ys) e ↔ ∃ m, Tiles b xs m ∧ Tiles m ys e := by
  induction xs generalizing b with
  | nil => simp [Tiles]
  | cons r xs ih =>
    rw [List.cons_append, Tiles, ih]
    constructor
    · rintro ⟨hb, hlt, m, hx, hy⟩
      exact ⟨m, ⟨hb, hlt, hx⟩, hy⟩
    · rintro ⟨m, ⟨hb, hlt, hx⟩, hy⟩
      exact ⟨hb, hlt, m, hx, hy⟩

theorem length_pos_of_seqLess (h : seqLess r.beginSeqNum r.endSeqNum) :
    0 < r.length ∧ r.length < 2 ^ 31 := by
  simp only [seqLess, decide_eq_true_eq] at h
  refine ⟨?_, h.2⟩
  by_contra hzero
  refine h.1 ?_
  rw [r.endSeqNum_eq, show r.length = 0 by omega, Seq.add_zero]

theorem Tiles.end_eq (h : Tiles b regions e) : e = b.add (bytesOf regions).length := by
  induction regions generalizing b with
  | nil =>
    rw [bytesOf_nil, List.length_nil, Seq.add_zero]
    exact h.symm
  | cons r regions ih =>
    obtain ⟨rfl, -, h⟩ := h
    rw [ih h, r.endSeqNum_eq, Seq.add_add, bytesOf_cons, List.length_append, Region.length_bytes]

theorem tiles_singleton (h : seqLess r.beginSeqNum r.endSeqNum) :
    Tiles r.beginSeqNum [r] r.endSeqNum := ⟨rfl, h, rfl⟩

/-- A region that ends some bytes behind its begin. -/
theorem seqLess_of_add (h₀ : 0 < n) (h₁ : n < 2 ^ 31) : seqLess b (b.add n) = true := by
  have h := seqLess_add b (show 0 < 2 ^ 31 by omega) h₁
  rw [Seq.add_zero] at h
  simpa [h] using h₀

theorem length_of_add (hr : r.endSeqNum = r.beginSeqNum.add n) (h : n < 2 ^ 31) :
    r.length = n := by
  rw [Region.length, hr, Seq.sub_add_toNat (by omega)]

theorem exists_span (ht : Tiles b regions e) (hlen : (bytesOf regions).length < 2 ^ 31)
    (hn : n < 2 ^ 31) : ∃ xs ys, regions.span (fun i => seqLE i.endSeqNum (b.add n)) = (xs, ys) ∧
      regions = xs ++ ys ∧ Tiles b xs (b.add (bytesOf xs).length) ∧
      Tiles (b.add (bytesOf xs).length) ys e ∧ (bytesOf xs).length ≤ n ∧
      ∀ i ∈ ys.head?, n < (bytesOf xs).length + i.length := by
  rw [List.span_eq_takeWhile_dropWhile]
  induction regions generalizing b n with
  | nil => exact ⟨[], [], rfl, rfl, by simp [Tiles], by simpa using ht, by simp, by simp⟩
  | cons r regions ih =>
    obtain ⟨rfl, hlt, ht⟩ := ht
    rw [bytesOf_cons, List.length_append, Region.length_bytes] at hlen
    have hle : seqLE r.endSeqNum (r.beginSeqNum.add n) = decide (r.length ≤ n) := by
      rw [r.endSeqNum_eq, seqLE_add _ (by omega) hn]
    by_cases hr : r.length ≤ n
    · have hadd : r.beginSeqNum.add n = r.endSeqNum.add (n - r.length) := by
        rw [r.endSeqNum_eq, Seq.add_add]
        congr 1
        omega
      obtain ⟨xs, ys, hspan, rfl, hx, hy, hxn, hi⟩ :=
        ih ht (by omega) (n := n - r.length) (by omega)
      rw [Prod.mk.injEq, ← hadd] at hspan
      refine ⟨r :: xs, ys, ?_, rfl, ?_, ?_, ?_, ?_⟩
      · simp only [List.takeWhile_cons, List.dropWhile_cons, hle, hr, decide_true, if_true, hspan]
      · refine ⟨rfl, hlt, ?_⟩
        rwa [bytesOf_cons, List.length_append, Region.length_bytes, ← Seq.add_add, ← r.endSeqNum_eq]
      · rwa [bytesOf_cons, List.length_append, Region.length_bytes, ← Seq.add_add, ← r.endSeqNum_eq]
      · rw [bytesOf_cons, List.length_append, Region.length_bytes]
        omega
      · intro i hmem
        have := hi i hmem
        rw [bytesOf_cons, List.length_append, Region.length_bytes]
        omega
    · refine ⟨[], r :: regions, ?_, rfl, by simp [Tiles], ?_, by simp, ?_⟩
      · simp [hle, hr]
      · simpa using ⟨rfl, hlt, ht⟩
      · intro i hi
        obtain rfl := Option.some.inj hi
        simp only [bytesOf_nil, List.length_nil]
        omega

section Split

/-- The part of a region before a byte of it. -/
theorem tiles_left (h : seqLess r.beginSeqNum r.endSeqNum) (h₀ : 0 < n) (h₁ : n < r.length) :
    Tiles r.beginSeqNum [{ r with endSeqNum := r.beginSeqNum.add n }] (r.beginSeqNum.add n) ∧
      bytesOf [{ r with endSeqNum := r.beginSeqNum.add n }] = r.bytes.take n := by
  have hlt := length_pos_of_seqLess h
  refine ⟨⟨rfl, seqLess_of_add h₀ (by omega), rfl⟩, ?_⟩
  have hlen : Region.length { r with endSeqNum := r.beginSeqNum.add n } = n :=
    length_of_add rfl (by omega)
  rw [bytesOf_cons, bytesOf_nil, List.append_nil, Region.bytes, hlen, Region.bytes,
    List.take_replicate, Nat.min_eq_left (by omega)]
  rfl

/-- The part of a region from a byte of it on. -/
theorem tiles_right (h : seqLess r.beginSeqNum r.endSeqNum) (h₁ : n < r.length) :
    Tiles (r.beginSeqNum.add n) [{ r with beginSeqNum := r.beginSeqNum.add n }] r.endSeqNum ∧
      bytesOf [{ r with beginSeqNum := r.beginSeqNum.add n }] = r.bytes.drop n := by
  have hlt := length_pos_of_seqLess h
  have hend : r.endSeqNum = (r.beginSeqNum.add n).add (r.length - n) := by
    rw [Seq.add_add, r.endSeqNum_eq]
    congr 1
    omega
  have hlen : Region.length { r with beginSeqNum := r.beginSeqNum.add n } = r.length - n :=
    length_of_add hend (by omega)
  refine ⟨⟨rfl, ?_, rfl⟩, ?_⟩
  · change seqLess (r.beginSeqNum.add n) r.endSeqNum = true
    rw [hend]
    exact seqLess_of_add (by omega) (by omega)
  · rw [bytesOf_cons, bytesOf_nil, List.append_nil, Region.bytes, hlen, Region.bytes,
      List.drop_replicate]
    rfl

variable (ht : Tiles b regions e) (hlen : (bytesOf regions).length < 2 ^ 31)

include ht hlen

theorem exists_splitRegions (hn : n < (bytesOf regions).length) :
    ∃ xs ys, splitRegions (b.add n) regions = .ok (xs, ys) ∧ Tiles b xs (b.add n) ∧
      Tiles (b.add n) ys e ∧ bytesOf xs = (bytesOf regions).take n ∧
      bytesOf ys = (bytesOf regions).drop n ∧
      ∀ i ∈ ys, ∃ j ∈ regions, j.endSeqNum = i.endSeqNum ∧ j.flags = i.flags ∧
        (j.beginSeqNum = i.beginSeqNum ∨ ∃ k ≤ n, j.beginSeqNum = b.add k) := by
  obtain ⟨xs, ys, hspan, rfl, hx, hy, hxn, hi⟩ := exists_span ht hlen (n := n) (by omega)
  rw [bytesOf_append, List.length_append] at hn hlen
  unfold splitRegions
  rw [hspan]
  cases ys with
  | nil =>
    rw [bytesOf_nil, List.length_nil] at hn
    omega
  | cons i ys =>
    have hin := hi i rfl
    obtain ⟨hbegin, hlt, hy⟩ := hy
    have hipos := length_pos_of_seqLess hlt
    rw [bytesOf_cons, List.length_append, Region.length_bytes] at hlen
    have hend : i.endSeqNum = b.add ((bytesOf xs).length + i.length) := by
      rw [i.endSeqNum_eq, hbegin, Seq.add_add]
    have hassert : (seqLE i.beginSeqNum (b.add n) && seqLess (b.add n) i.endSeqNum) = true := by
      rw [hbegin, hend, seqLE_add b (by omega) (by omega), seqLess_add b (by omega) (by omega)]
      simpa using ⟨hxn, hin⟩
    dsimp only
    rw [assert, if_pos hassert, pure_bind, splitFront]
    rw [bytesOf_append, bytesOf_cons]
    split_ifs with hsplit
    · have hne : (bytesOf xs).length ≠ n := fun h => hsplit (by rw [hbegin, h])
      have hadd : b.add n = i.beginSeqNum.add (n - (bytesOf xs).length) := by
        rw [hbegin, Seq.add_add]
        congr 1
        omega
      obtain ⟨hleft, hlbytes⟩ := tiles_left hlt (n := n - (bytesOf xs).length) (by omega) (by omega)
      obtain ⟨hright, hrbytes⟩ := tiles_right hlt (n := n - (bytesOf xs).length) (by omega)
      rw [← hadd] at hleft hlbytes hright hrbytes
      refine ⟨_, _, rfl, tiles_append.2 ⟨_, hx, hbegin ▸ hleft⟩,
        ⟨rfl, hright.2.1, hy⟩, ?_, ?_, ?_⟩
      · rw [bytesOf_append, hlbytes, List.take_append, List.take_of_length_le hxn,
          List.take_append_of_le_length (by rw [Region.length_bytes]; omega)]
      · have hcons := bytesOf_append [{ i with beginSeqNum := b.add n }] ys
        rw [List.singleton_append] at hcons
        rw [hcons, hrbytes, List.drop_append, List.drop_of_length_le hxn, List.nil_append,
          List.drop_append_of_le_length (by rw [Region.length_bytes]; omega)]
      · intro j hj
        rcases List.mem_cons.1 hj with rfl | hj
        · exact ⟨i, by simp, rfl, rfl, Or.inr ⟨_, hxn, hbegin⟩⟩
        · exact ⟨j, by simp [hj], rfl, rfl, Or.inl rfl⟩
    · rw [not_not] at hsplit
      have hn' : (bytesOf xs).length = n := by
        rw [hbegin, Seq.add_inj b (by omega) (by omega)] at hsplit
        exact hsplit
      refine ⟨_, _, rfl, ?_, ⟨hsplit, hlt, hy⟩, ?_, ?_, ?_⟩
      · rw [List.append_nil, ← hn']
        exact hx
      · rw [List.append_nil, ← hn', List.take_left]
      · rw [← hn', List.drop_left]
        rfl
      · intro j hj
        exact ⟨j, List.mem_append_right _ hj, rfl, rfl, Or.inl rfl⟩

end Split

section Change

/-- The bytes of a range changed, and the others as they are. -/
def overlay (g : Flags → Flags) (n m : ℕ) (bytes : List Flags) : List Flags :=
  bytes.take n ++ ((bytes.drop n).take (m - n)).map g ++ bytes.drop m

theorem overlay_eq {g : Flags → Flags} {bytes u v : List Flags} (h : bytes.drop n = u ++ v)
    (hu : u.length = m - n) (hnm : n ≤ m) :
    overlay g n m bytes = bytes.take n ++ u.map g ++ v := by
  have hdrop : bytes.drop m = v := by
    rw [← Nat.add_sub_cancel' hnm, ← List.drop_drop, h, ← hu, List.drop_left]
  rw [overlay, h, ← hu, List.take_left, hdrop]

theorem Tiles.begin_eq (ht : Tiles b regions e) {i : Region} (hi : i ∈ regions) :
    ∃ k < (bytesOf regions).length, i.beginSeqNum = b.add k ∧
      k + i.length ≤ (bytesOf regions).length := by
  obtain ⟨xs, ys, rfl⟩ := List.append_of_mem hi
  obtain ⟨m, hx, rfl, hlt, hy⟩ := tiles_append.1 ht
  have hpos := length_pos_of_seqLess hlt
  refine ⟨(bytesOf xs).length, ?_, hx.end_eq, ?_⟩
  all_goals
    rw [bytesOf_append, bytesOf_cons, List.length_append, List.length_append, Region.length_bytes]
    omega

/-- A change of the regions that does not move them. -/
structure Changes (change : Region → Region) (g : Flags → Flags) : Prop where
  begin_eq : ∀ r, (change r).beginSeqNum = r.beginSeqNum
  end_eq : ∀ r, (change r).endSeqNum = r.endSeqNum
  flags_eq : ∀ r, (change r).flags = g r.flags

variable {change : Region → Region} {g : Flags → Flags}

theorem Changes.bytes (h : Changes change g) (r : Region) : (change r).bytes = r.bytes.map g := by
  rw [Region.bytes, Region.bytes, Region.length, h.begin_eq, h.end_eq, h.flags_eq,
    List.map_replicate]
  rfl

theorem Changes.bytesOf_map (h : Changes change g) :
    bytesOf (regions.map change) = (bytesOf regions).map g := by
  induction regions with
  | nil => rfl
  | cons r regions ih =>
    rw [List.map_cons, bytesOf_cons, ih, h.bytes, bytesOf_cons, List.map_append]

theorem tiles_map (hbegin : ∀ r, (change r).beginSeqNum = r.beginSeqNum)
    (hend : ∀ r, (change r).endSeqNum = r.endSeqNum) (h : Tiles b regions e) :
    Tiles b (regions.map change) e := by
  induction regions generalizing b with
  | nil => exact h
  | cons r regions ih =>
    obtain ⟨rfl, hlt, h⟩ := h
    refine ⟨hbegin r, ?_, ?_⟩
    · rw [hbegin, hend]
      exact hlt
    · rw [hend]
      exact ih h

theorem exists_changeRegions (changePart : Region → Region) (hc : Changes change g)
    (hbegin : ∀ r, (changePart r).beginSeqNum = r.beginSeqNum)
    (hend : ∀ r, (changePart r).endSeqNum = r.endSeqNum)
    (ht : Tiles b regions e) (hlen : (bytesOf regions).length < 2 ^ 31) (hnm : n < m)
    (hm : m ≤ (bytesOf regions).length)
    (hpart : ∀ i ∈ regions, seqLess i.beginSeqNum (b.add m) → seqLess (b.add m) i.endSeqNum →
      ∀ r : Region, r.flags = i.flags → (changePart r).flags = g i.flags) :
    ∃ rs, changeRegions change changePart (b.add n) (b.add m) regions = .ok rs ∧ Tiles b rs e ∧
      bytesOf rs = overlay g n m (bytesOf regions) := by
  obtain ⟨xs, ys, hsplit, hx, hy, hxb, hyb, hmem⟩ := exists_splitRegions ht hlen (n := n) (by omega)
  have hylen : (bytesOf ys).length = (bytesOf regions).length - n := by
    rw [hyb, List.length_drop]
  have hadd : b.add m = (b.add n).add (m - n) := by
    rw [Seq.add_add]
    congr 1
    omega
  obtain ⟨cs, ds, hspan, rfl, hcs, hds, hcm, hd⟩ :=
    exists_span hy (by omega) (n := m - n) (by omega)
  unfold changeRegions
  rw [hsplit, Error.ok_bind]
  dsimp only
  rw [hadd, hspan]
  dsimp only
  have hmap : (cs.map fun i => if seqGE i.beginSeqNum (b.add n) then change i else i) =
      cs.map change := by
    refine List.map_congr_left fun i hi => if_pos ?_
    obtain ⟨k, hk, hbeg, -⟩ := hcs.begin_eq hi
    rw [bytesOf_append, List.length_append] at hylen
    have hge := seqGE_add (b.add n) (show k < 2 ^ 31 by omega) (show 0 < 2 ^ 31 by omega)
    rw [Seq.add_zero, ← hbeg] at hge
    simp [hge]
  rw [hmap]
  have htx := tiles_append.2 ⟨_, hx, tiles_map hc.begin_eq hc.end_eq hcs⟩
  have hxb' : bytesOf (xs ++ cs.map change) = (bytesOf regions).take n ++ (bytesOf cs).map g := by
    rw [bytesOf_append, hc.bytesOf_map, hxb]
  rw [bytesOf_append, List.length_append] at hylen
  cases ds with
  | nil =>
    rw [bytesOf_nil, List.length_nil] at hylen
    refine ⟨_, rfl, ?_, ?_⟩
    · rw [← show _ = e from hds]
      exact htx
    · rw [hxb', overlay_eq (u := bytesOf cs) (v := []) (by rw [← hyb, List.append_nil,
        List.append_nil]) (by omega) (Nat.le_of_lt hnm), List.append_nil]
  | cons i rest =>
    have hlt := hd i rfl
    obtain ⟨hbeg, hless, hrest⟩ := hds
    have hpos := length_pos_of_seqLess hless
    rw [bytesOf_cons, List.length_append, Region.length_bytes] at hylen
    have hbytes : (bytesOf regions).drop n = bytesOf cs ++ (i.bytes ++ bytesOf rest) := by
      rw [← hyb, bytesOf_append, bytesOf_cons]
    have hiend : i.endSeqNum = (b.add n).add ((bytesOf cs).length + i.length) := by
      rw [i.endSeqNum_eq, hbeg, Seq.add_add]
    have hcond : (seqLess i.beginSeqNum ((b.add n).add (m - n)) &&
        seqLess ((b.add n).add (m - n)) i.endSeqNum) = decide ((bytesOf cs).length < m - n) := by
      rw [hbeg, hiend, seqLess_add _ (by omega) (by omega), seqLess_add _ (by omega) (by omega)]
      simp [hlt]
    dsimp only
    rw [hcond]
    by_cases hk : (bytesOf cs).length < m - n
    · -- the last region is covered in part
      rw [if_pos (decide_eq_true hk)]
      have hto : (b.add n).add (m - n) = i.beginSeqNum.add (m - n - (bytesOf cs).length) := by
        rw [hbeg, Seq.add_add (b := b.add n)]
        congr 1
        omega
      obtain ⟨hleft, hlb⟩ :=
        tiles_left hless (n := m - n - (bytesOf cs).length) (by omega) (by omega)
      obtain ⟨hright, hrb⟩ := tiles_right hless (n := m - n - (bytesOf cs).length) (by omega)
      rw [hto]
      have hflags : (changePart { i with endSeqNum := i.beginSeqNum.add (m - n -
          (bytesOf cs).length) }).flags = g i.flags := by
        obtain ⟨o, ho, hoend, hoflags, hob⟩ := hmem i (by simp)
        rw [← hoflags]
        rw [decide_eq_true hk, Bool.and_eq_true] at hcond
        refine hpart o ho ?_ ?_ _ hoflags.symm
        · rcases hob with hob | ⟨k, hkn, hob⟩
          · rw [hob, hadd]
            exact hcond.1
          · rw [hob, seqLess_add b (by omega) (by omega)]
            exact decide_eq_true (by omega)
        · rw [hoend, hadd]
          exact hcond.2
      have hpartb : (changePart { i with endSeqNum := i.beginSeqNum.add (m - n -
          (bytesOf cs).length) }).bytes = (i.bytes.take (m - n - (bytesOf cs).length)).map g := by
        rw [bytesOf_cons, bytesOf_nil, List.append_nil] at hlb
        rw [← hlb, Region.bytes, Region.length, hbegin, hend, hflags, Region.bytes,
          List.map_replicate]
        rfl
      refine ⟨_, rfl, tiles_append.2 ⟨_, htx, (hbegin _).trans hbeg, ?_, ?_⟩, ?_⟩
      · rw [hbegin, hend]
        exact hleft.2.1
      · rw [hend]
        exact ⟨rfl, hright.2.1, hrest⟩
      · rw [bytesOf_cons, bytesOf_nil, List.append_nil] at hrb
        have hover : (bytesOf regions).drop n = (bytesOf cs ++ i.bytes.take (m - n -
            (bytesOf cs).length)) ++ (i.bytes.drop (m - n - (bytesOf cs).length) ++
              bytesOf rest) := by
          rw [hbytes, List.append_assoc, ← List.append_assoc (List.take _ _),
            List.take_append_drop]
        rw [bytesOf_append, bytesOf_cons, bytesOf_cons, hxb', hpartb, hrb,
          overlay_eq hover (by simp; omega) (Nat.le_of_lt hnm), List.map_append]
        simp only [List.append_assoc]
    · rw [if_neg (by simpa using hk)]
      refine ⟨_, rfl, tiles_append.2 ⟨_, htx, hbeg, hless, hrest⟩, ?_⟩
      rw [bytesOf_append, hxb', overlay_eq hbytes (by omega) (Nat.le_of_lt hnm), bytesOf_cons]

end Change

end TcpSackRexmitQueue

end Inet.Tcp
