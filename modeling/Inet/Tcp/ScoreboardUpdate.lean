import Mathlib.Data.List.Forall2
import Inet.Tcp.Scoreboard

/-! # Updates of the scoreboard

What each operation of the SACK retransmission queue does to the flags of the
bytes, for regions that tile a window of less than `2 ^ 31` bytes.
-/

namespace Inet.Tcp

namespace Flags

/-- A byte that is sent for the first time. -/
def fresh : Flags := ⟨false, false, false⟩

def rexmit (f : Flags) : Flags := { f with rexmitted := true }

def sack (f : Flags) : Flags := { f with lost := false, sacked := true }

/-- SACKed bytes are not marked lost. -/
def lose (f : Flags) : Flags := if f.sacked then f else { f with lost := true }

/-- A byte may be inferred to be SACKed when it is neither SACKed nor lost. -/
def Inferred (f f' : Flags) : Prop :=
  f' = f ∨ f.sacked = false ∧ f.lost = false ∧ f' = { f with sacked := true }

end Flags

namespace TcpSackRexmitQueue

variable {b e : Seq} {regions rs : List Region} {n m : ℕ} {now : ℤ}

theorem checked_eq {this : TcpSackRexmitQueue}
    (h : Tiles this.bufferStartSeq this.rexmitQueue this.bufferEndSeq) :
    this.checked = .ok this := by
  rw [checked, assert, if_pos (checkQueue_iff.2 h)]
  rfl

section Enqueue

theorem changes_retransmit (now : ℤ) : Changes (retransmit now) Flags.rexmit :=
  ⟨fun _ => rfl, fun _ => rfl, fun _ => rfl⟩

theorem Tiles.last_eq (h : Tiles b regions e) :
    (regions.getLast?.map Region.endSeqNum).getD b = e := by
  rcases List.eq_nil_or_concat' regions with rfl | ⟨xs, r, rfl⟩
  · exact h
  · obtain ⟨m, -, -, -, h⟩ := tiles_append.1 h
    have hend : r.endSeqNum = e := h
    simpa using hend

theorem bytesOf_sentRegion (h : m < 2 ^ 31) :
    bytesOf [sentRegion b (b.add m) now] = List.replicate m Flags.fresh := by
  rw [bytesOf_cons, bytesOf_nil, List.append_nil, Region.bytes, length_of_add rfl h]
  rfl

theorem overlay_append (g : Flags → Flags) (bytes : List Flags) :
    overlay g n bytes.length bytes = bytes.take n ++ (bytes.drop n).map g := by
  rw [overlay, List.drop_length, List.append_nil,
    List.take_of_length_le (l := bytes.drop n) (by simp)]

theorem exists_enqueueRegions (now : ℤ) (ht : Tiles b regions e)
    (hlen : (bytesOf regions).length < 2 ^ 31)
    (hn : n < (bytesOf regions).length) (hnm : n < m) (hm : m < 2 ^ 31) :
    ∃ rs, enqueueRegions (b.add n) (b.add m) now regions = .ok rs ∧
      Tiles b rs (b.add (max m (bytesOf regions).length)) ∧
      bytesOf rs = overlay Flags.rexmit n (min m (bytesOf regions).length) (bytesOf regions) ++
        List.replicate (m - (bytesOf regions).length) Flags.fresh := by
  obtain ⟨xs, ys, hsplit, hx, hy, hxb, hyb, -⟩ := exists_splitRegions ht hlen hn
  have hylen : (bytesOf ys).length = (bytesOf regions).length - n := by
    rw [hyb, List.length_drop]
  have hadd : b.add m = (b.add n).add (m - n) := by
    rw [Seq.add_add]
    congr 1
    omega
  obtain ⟨cs, ds, hspan, rfl, hcs, hds, hcm, hd⟩ :=
    exists_span hy (by omega) (n := m - n) (by omega)
  have hc := changes_retransmit now
  have htx := tiles_append.2 ⟨_, hx, tiles_map hc.begin_eq hc.end_eq hcs⟩
  have hxb' : bytesOf (xs ++ cs.map (retransmit now)) =
      (bytesOf regions).take n ++ (bytesOf cs).map Flags.rexmit := by
    rw [bytesOf_append, hc.bytesOf_map, hxb]
  have hend := ht.end_eq
  rw [bytesOf_append, List.length_append] at hylen
  unfold enqueueRegions
  rw [hsplit, Error.ok_bind]
  dsimp only
  rw [hadd, hspan]
  dsimp only
  rw [hcs.last_eq]
  have hne : (b.add n).add (bytesOf cs).length ≠ (b.add n).add (m - n) ↔
      (bytesOf cs).length ≠ m - n := by
    rw [Ne, Seq.add_inj _ (by omega) (by omega)]
  by_cases hk : (bytesOf cs).length = m - n
  · -- the data ends where a region ends
    rw [if_neg (by simpa [hne] using hk)]
    refine ⟨_, rfl, ?_, ?_⟩
    · rw [Nat.max_eq_right (by omega), ← hend]
      exact tiles_append.2 ⟨_, htx, hds⟩
    · rw [Nat.min_eq_left (by omega), show m - (bytesOf regions).length =
        0 by omega, List.replicate_zero,
        List.append_nil, bytesOf_append, hxb', overlay_eq (u := bytesOf cs) (v := bytesOf ds)
          (by rw [← hyb, bytesOf_append]) hk (Nat.le_of_lt hnm)]
  · rw [if_pos (hne.2 hk)]
    have hto : (b.add n).add (m - n) =
        ((b.add n).add (bytesOf cs).length).add (m - n - (bytesOf cs).length) := by
      rw [Seq.add_add (b := b.add n)]
      congr 1
      omega
    cases ds with
    | nil =>
      -- the data goes beyond the last region
      rw [bytesOf_nil, List.length_nil] at hylen
      refine ⟨_, rfl, ?_, ?_⟩
      · rw [Nat.max_eq_left (by omega), hadd]
        refine tiles_append.2 ⟨_, htx, rfl, ?_, rfl⟩
        rw [hto]
        exact seqLess_of_add (by omega) (by omega)
      · have hall : bytesOf cs = (bytesOf regions).drop n := by
          rw [← hyb, List.append_nil]
        rw [Nat.min_eq_right (by omega), overlay_append, bytesOf_append, hxb', hto,
          bytesOf_sentRegion (by omega), ← hall]
        congr 2
        omega
    | cons i rest =>
      -- the data ends inside a region
      have hlt := hd i rfl
      obtain ⟨hbeg, hless, hrest⟩ := hds
      have hpos := length_pos_of_seqLess hless
      rw [bytesOf_cons, List.length_append, Region.length_bytes] at hylen
      have hassert : seqLess i.beginSeqNum ((b.add n).add (m - n)) = true := by
        rw [hbeg, seqLess_add _ (by omega) (by omega)]
        exact decide_eq_true (by omega)
      rw [enqueueRest, assert, if_pos hassert, pure_bind]
      obtain ⟨hleft, hlb⟩ :=
        tiles_left hless (n := m - n - (bytesOf cs).length) (by omega) (by omega)
      obtain ⟨hright, hrb⟩ := tiles_right hless (n := m - n - (bytesOf cs).length) (by omega)
      rw [hto, ← hbeg]
      refine ⟨_, rfl, ?_, ?_⟩
      · rw [Nat.max_eq_right (by omega), ← hend]
        refine tiles_append.2 ⟨_, htx, hbeg, hleft.2.1, rfl, hright.2.1, hrest⟩
      · have hbytes : (bytesOf regions).drop n = (bytesOf cs ++ i.bytes.take (m - n -
            (bytesOf cs).length)) ++ (i.bytes.drop (m - n - (bytesOf cs).length) ++
              bytesOf rest) := by
          rw [List.append_assoc, ← List.append_assoc (List.take _ _), List.take_append_drop, ← hyb,
            bytesOf_append, bytesOf_cons]
        rw [bytesOf_cons, bytesOf_nil, List.append_nil] at hlb hrb
        have hlb' := (hc.bytes _).trans (congrArg (List.map Flags.rexmit) hlb)
        rw [Nat.min_eq_left (by omega), show m - (bytesOf regions).length =
          0 by omega, List.replicate_zero,
          List.append_nil, overlay_eq hbytes (by simp; omega) (Nat.le_of_lt hnm), bytesOf_append,
          hxb', bytesOf_cons, bytesOf_cons, hrb, List.map_append, ← hlb']
        simp only [List.append_assoc]
        rfl

end Enqueue

section Discard

theorem filterMap_eq_nil {k : ℕ} (ht : Tiles (b.add k) regions e) (hn : n ≤ k)
    (hlen : k + (bytesOf regions).length < 2 ^ 31) :
    (regions.filterMap fun i => if seqGE i.beginSeqNum (b.add n) then none
      else if seqGreater i.endSeqNum (b.add n) then some { i with endSeqNum := b.add n }
      else some i) = [] := by
  refine List.filterMap_eq_nil_iff.2 fun i hi => if_pos ?_
  obtain ⟨l, hl, hbeg, -⟩ := ht.begin_eq hi
  rw [hbeg, Seq.add_add, seqGE_add b (by omega) (by omega)]
  exact decide_eq_true (by omega)

theorem tiles_filterMap (ht : Tiles b regions e) (hlen : (bytesOf regions).length < 2 ^ 31)
    (hn : n ≤ (bytesOf regions).length) :
    ∃ rs, (regions.filterMap fun i => if seqGE i.beginSeqNum (b.add n) then none
      else if seqGreater i.endSeqNum (b.add n) then some { i with endSeqNum := b.add n }
      else some i) = rs ∧ Tiles b rs (b.add n) ∧ bytesOf rs = (bytesOf regions).take n := by
  rcases Nat.eq_zero_or_pos n with rfl | hpos
  · refine ⟨[], ?_, by simp [Tiles], by simp⟩
    exact filterMap_eq_nil (k := 0) (by simpa using ht) (Nat.le_refl 0) (by omega)
  induction regions generalizing b n with
  | nil =>
    rw [bytesOf_nil, List.length_nil] at hn
    omega
  | cons r regions ih =>
    obtain ⟨rfl, hlt, ht⟩ := ht
    have hr := length_pos_of_seqLess hlt
    rw [bytesOf_cons, List.length_append, Region.length_bytes] at hlen hn
    have hge : seqGE r.beginSeqNum (r.beginSeqNum.add n) = false := by
      have h := seqGE_add r.beginSeqNum (show 0 < 2 ^ 31 by omega) (show n < 2 ^ 31 by omega)
      rw [Seq.add_zero] at h
      rw [h]
      exact decide_eq_false (by omega)
    have hgreater : seqGreater r.endSeqNum (r.beginSeqNum.add n) = decide (n < r.length) := by
      rw [r.endSeqNum_eq, seqGreater_add _ (by omega) (by omega)]
    rw [List.filterMap_cons, hge, if_neg Bool.false_ne_true, hgreater, bytesOf_cons]
    by_cases hin : n < r.length
    · -- the region is cut, and those behind it go
      obtain ⟨hleft, hlb⟩ := tiles_left hlt hpos hin
      rw [r.endSeqNum_eq] at ht
      rw [if_pos (decide_eq_true hin)]
      refine ⟨_, rfl, ?_, ?_⟩
      · dsimp only
        rw [filterMap_eq_nil ht (by omega) (by omega)]
        exact hleft
      · dsimp only
        rw [filterMap_eq_nil ht (by omega) (by omega), hlb, List.take_append_of_le_length]
        rw [Region.length_bytes]
        omega
    · rw [if_neg (by simpa using hin)]
      dsimp only
      have hadd : r.beginSeqNum.add n = r.endSeqNum.add (n - r.length) := by
        rw [r.endSeqNum_eq, Seq.add_add]
        congr 1
        omega
      rw [List.take_append, List.take_of_length_le (by rw [Region.length_bytes]; omega),
        Region.length_bytes, hadd]
      rcases Nat.eq_zero_or_pos (n - r.length) with hzero | hpos'
      · refine ⟨_, rfl, ?_, ?_⟩
        · rw [hzero, filterMap_eq_nil (k := 0) (by simpa using ht) (Nat.le_refl 0) (by omega),
            Seq.add_zero]
          exact tiles_singleton hlt
        · rw [hzero, filterMap_eq_nil (k := 0) (by simpa using ht) (Nat.le_refl 0) (by omega)]
          simp
      · obtain ⟨rs, hrs, htr, hb⟩ := ih ht (by omega) (n := n - r.length) (by omega) hpos'
        rw [hrs]
        exact ⟨_, rfl, ⟨rfl, hlt, htr⟩, by rw [bytesOf_cons, hb]⟩

theorem exists_discardRegions (ht : Tiles b regions e) (hlen : (bytesOf regions).length < 2 ^ 31)
    (hn : n ≤ (bytesOf regions).length) :
    ∃ rs, discardRegions (b.add n) regions = .ok rs ∧ Tiles (b.add n) rs e ∧
      bytesOf rs = (bytesOf regions).drop n := by
  obtain ⟨xs, ys, hspan, rfl, hx, hy, hxn, hi⟩ := exists_span ht hlen (n := n) (by omega)
  rw [bytesOf_append, List.length_append] at hlen hn
  rw [List.span_eq_takeWhile_dropWhile, Prod.mk.injEq] at hspan
  unfold discardRegions
  rw [hspan.2, bytesOf_append, List.drop_append, List.drop_of_length_le hxn, List.nil_append]
  cases ys with
  | nil =>
    rw [bytesOf_nil, List.length_nil] at hn
    refine ⟨[], rfl, ?_, by simp⟩
    rw [show n = (bytesOf xs).length by omega]
    exact hy
  | cons i rest =>
    have hin := hi i rfl
    obtain ⟨hbegin, hlt, hy⟩ := hy
    have hipos := length_pos_of_seqLess hlt
    rw [bytesOf_cons, List.length_append, Region.length_bytes] at hlen hn
    have hend : i.endSeqNum = b.add ((bytesOf xs).length + i.length) := by
      rw [i.endSeqNum_eq, hbegin, Seq.add_add]
    have hassert : (seqLE i.beginSeqNum (b.add n) && seqLess (b.add n) i.endSeqNum) = true := by
      rw [hbegin, hend, seqLE_add b (by omega) (by omega), seqLess_add b (by omega) (by omega)]
      simpa using ⟨hxn, hin⟩
    have hadd : b.add n = i.beginSeqNum.add (n - (bytesOf xs).length) := by
      rw [hbegin, Seq.add_add]
      congr 1
      omega
    obtain ⟨hright, hrb⟩ := tiles_right hlt (n := n - (bytesOf xs).length) (by omega)
    rw [← hadd] at hright hrb
    dsimp only
    rw [assert, if_pos hassert, pure_bind]
    refine ⟨_, rfl, ⟨rfl, hright.2.1, hy⟩, ?_⟩
    rw [bytesOf_cons, bytesOf_nil, List.append_nil] at hrb
    rw [bytesOf_cons, hrb, bytesOf_cons, List.drop_append_of_le_length]
    rw [Region.length_bytes]
    omega

end Discard

section Relabel

/-- The same regions with other flags. -/
def Relabels (R : Flags → Flags → Prop) : List Region → List Region → Prop :=
  List.Forall₂ fun i j =>
    j.beginSeqNum = i.beginSeqNum ∧ j.endSeqNum = i.endSeqNum ∧ R i.flags j.flags

variable {R : Flags → Flags → Prop}

theorem Relabels.tiles (h : Relabels R regions rs) (ht : Tiles b regions e) : Tiles b rs e := by
  induction h generalizing b with
  | nil => exact ht
  | cons h _ ih =>
    obtain ⟨hbegin, hend, -⟩ := h
    obtain ⟨hb, hlt, ht⟩ := ht
    refine ⟨hbegin.trans hb, ?_, ?_⟩
    · rw [hbegin, hend]
      exact hlt
    · rw [hend]
      exact ih ht

theorem Relabels.bytes (h : Relabels R regions rs) :
    List.Forall₂ R (bytesOf regions) (bytesOf rs) := by
  induction h with
  | nil => exact List.Forall₂.nil
  | @cons i j _ _ h _ ih =>
    obtain ⟨hbegin, hend, hflags⟩ := h
    rw [bytesOf_cons, bytesOf_cons]
    refine List.rel_append ?_ ih
    rw [Region.bytes, Region.bytes, show j.length = i.length by
      rw [Region.length, Region.length, hbegin, hend]]
    generalize i.length = l
    induction l with
    | zero => exact List.Forall₂.nil
    | succ l ih => exact List.Forall₂.cons hflags ih

theorem Relabels.refl (h : ∀ f, R f f) (regions : List Region) : Relabels R regions regions := by
  induction regions with
  | nil => exact List.Forall₂.nil
  | cons r regions ih => exact List.Forall₂.cons ⟨rfl, rfl, h _⟩ ih

theorem relabels_sackFirst (regions : List Region) :
    Relabels Flags.Inferred regions (sackFirst regions) := by
  induction regions with
  | nil => exact List.Forall₂.nil
  | cons i regions ih =>
    rw [sackFirst]
    split_ifs with h
    · exact List.Forall₂.cons ⟨rfl, rfl, Or.inl rfl⟩ ih
    · rw [Bool.or_eq_true, not_or, Bool.not_eq_true, Bool.not_eq_true] at h
      exact List.Forall₂.cons ⟨rfl, rfl, Or.inr ⟨h.1, h.2, rfl⟩⟩
        (Relabels.refl (fun _ => Or.inl rfl) regions)

theorem relabels_updateLostRegions (reordering : ℤ) (regions : List Region) :
    Relabels (fun f f' => f' = f ∨ f' = f.lose) regions
      (updateLostRegions reordering regions).1 := by
  induction regions with
  | nil => exact List.Forall₂.nil
  | cons i regions ih =>
    rw [updateLostRegions]
    dsimp only
    generalize (if i.sacked then _ else _ : ℤ) = numSacked
    split_ifs with h
    · refine List.Forall₂.cons ⟨rfl, rfl, Or.inr ?_⟩ ih
      rw [Flags.lose, if_neg (show ¬ i.flags.sacked = true from h.2)]
      rfl
    · exact List.Forall₂.cons ⟨rfl, rfl, Or.inl rfl⟩ ih

theorem relabels_clearRexmittedRegions (fromSeqNum toSeqNum : Seq) (regions : List Region) :
    Relabels (fun f f' => f' = f ∨ f.sacked = false ∧ f' = { f with rexmitted := false }) regions
      (clearRexmittedRegions fromSeqNum toSeqNum regions) := by
  induction regions with
  | nil => exact List.Forall₂.nil
  | cons i regions ih =>
    rw [clearRexmittedRegions]
    split_ifs with hend h
    · exact Relabels.refl (fun _ => Or.inl rfl) _
    · rw [Bool.and_eq_true, Bool.not_eq_true'] at h
      exact List.Forall₂.cons ⟨rfl, rfl, Or.inr ⟨h.2, rfl⟩⟩ ih
    · exact List.Forall₂.cons ⟨rfl, rfl, Or.inl rfl⟩ ih

end Relabel

section Count

theorem sumLengths_eq {flag : Region → Bool} {q : Flags → Bool} (h : ∀ r, flag r = q r.flags)
    (regions : List Region) :
    sumLengths flag regions = BitVec.ofNat 32 ((bytesOf regions).countP q) := by
  have hacc : ∀ total, regions.foldl (fun total region =>
      if flag region then total + (region.endSeqNum - region.beginSeqNum) else total) total =
      total + BitVec.ofNat 32 ((bytesOf regions).countP q) := by
    induction regions with
    | nil => intro total; simp
    | cons r regions ih =>
      intro total
      have hlen : r.endSeqNum - r.beginSeqNum = BitVec.ofNat 32 r.length := by
        rw [Region.length, BitVec.ofNat_toNat, BitVec.setWidth_eq]
      rw [List.foldl_cons, ih, bytesOf_cons, List.countP_append, Region.bytes,
        List.countP_replicate, h]
      split_ifs with hq
      · rw [hlen, BitVec.ofNat_add, BitVec.add_assoc]
      · rw [Nat.zero_add]
  rw [sumLengths, hacc]
  exact BitVec.zero_add _

end Count

end TcpSackRexmitQueue

end Inet.Tcp
