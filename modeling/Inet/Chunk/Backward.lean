import Inet.Chunk.Serialized

/-! # Backward peeks

A backward peek of a bit vector, of whole bytes of a byte vector or of a slice
counts the position from the front. It returns the requested bits exactly if
these are the same bits.
-/

namespace Inet

open Outcome

namespace Chunk

mutual

/-- None of the objects the chunk is made of is a bit count. -/
def NoBitCounts : Chunk → Prop
  | bitCount .. => False
  | slice _ chunk _ _ => NoBitCounts chunk
  | sequence _ chunks => AllNoBitCounts chunks
  | _ => True

def AllNoBitCounts : List Chunk → Prop
  | [] => True
  | chunk :: chunks => NoBitCounts chunk ∧ AllNoBitCounts chunks

end

theorem allNoBitCounts_iff {chunks : List Chunk} :
    AllNoBitCounts chunks ↔ ∀ chunk ∈ chunks, chunk.NoBitCounts := by
  induction chunks with
  | nil => simp [AllNoBitCounts]
  | cons chunk chunks ih => rw [AllNoBitCounts, ih, List.forall_mem_cons]

theorem NoBitCounts.plain {chunk : Chunk} (h : chunk.NoBitCounts) :
    ∀ x ∈ chunk.cells, x.counted = false := by
  induction chunk using Chunk.induction with
  | bitCount => exact h.elim
  | slice header chunk offset length ih =>
    intro x hx
    exact ih h x ((seg_isInfix _ _ _).subset hx)
  | sequence header chunks ih =>
    intro x hx
    rw [NoBitCounts, allNoBitCounts_iff] at h
    rw [cells_sequence, List.mem_flatMap] at hx
    obtain ⟨chunk, hc, hx⟩ := hx
    exact ih chunk hc (h chunk hc) x hx
  | empty => simp [cells]
  | _ =>
    intro x hx
    rw [cells] at hx
    obtain ⟨b, -, rfl⟩ := List.mem_map.1 hx
    rfl

theorem NoBitCounts.noClash {chunk : Chunk} (h : chunk.NoBitCounts) : NoClash chunk.cells :=
  noClash_of_plain h.plain

/-- The part at a position is the same counted from the front and from the back. -/
def MirrorsAt (chunk : Chunk) (position length : ℤ) : Prop :=
  seg chunk.cells position length =
    seg chunk.cells (chunk.getChunkLength - position - length) length

mutual

/-- The condition under which a backward peek returns the requested bits. -/
def BackwardOk : Chunk → ℤ → ℤ → Prop
  | bits header values, p, l => (bits header values).MirrorsAt p l
  | bytes header values, p, l => p % 8 = 0 ∧ l % 8 = 0 → (bytes header values).MirrorsAt p l
  | slice header chunk offset length, p, l => (slice header chunk offset length).MirrorsAt p l
  | sequence _ chunks, p, l => (p = 0 ∧ l = sumLengths chunks) ∨ BackwardOkIn chunks p l
  | _, _, _ => True

/-- The condition for the element that contains the part, if there is one. -/
def BackwardOkIn : List Chunk → ℤ → ℤ → Prop
  | [], _, _ => True
  | chunk :: chunks, p, l =>
    if p < sumLengths chunks then BackwardOkIn chunks p l
    else if p + l ≤ sumLengths chunks + getChunkLength chunk then
      (p = sumLengths chunks ∧ l = getChunkLength chunk) ∨
        BackwardOk chunk (p - sumLengths chunks) l
    else True

end

/-- The result is a chunk with the given cells, as far as no bit counts clash. -/
def HasCells (k : Prop) (result : Option Chunk) (xs : List Cell) : Prop :=
  ∃ c, result = some c ∧ Rep k c xs

/-- What a backward peek returns is a part of the chunk, and it is the requested one exactly if the
condition holds. -/
structure PeeksInside (k : Prop) (chunk : Chunk) (p l : ℤ) (x : ChunkM (Option Chunk))
    (xs : List Cell) : Prop where
  spec : Spec (¬ k) x (HasCells k · xs)
  isInfix : xs <:+: chunk.cells
  length_eq : (xs.length : ℤ) = l
  eq_iff : xs = seg chunk.cells (chunk.getChunkLength - p - l) l ↔ chunk.BackwardOk p l

/-- Level `n` is enough to peek backward into chunks of at most `n - 2` objects. -/
def PeekBackOk (n : ℕ) : Prop :=
  ∀ (k : Prop) (chunk : Chunk) (p l : ℤ) (flags : PeekFlags),
    chunk.WF → (k → chunk.Clean) → 0 ≤ p → 0 < l →
    p + l ≤ chunk.getChunkLength → chunk.size + 2 ≤ n →
    ∃ xs, PeeksInside k chunk p l
      ((dispatch n).peekUnchecked chunk none (Iterator.backward p) l flags) xs

theorem convertedOffset_backward (chunk : Chunk) {p l : ℤ} (h : 0 ≤ l) (index : ℤ) :
    convertedOffset chunk ⟨false, p, index⟩ l = pure (chunk.getChunkLength - p - l) := by
  simp [convertedOffset, checkUsage, h]

theorem backwardOk_whole {chunk : Chunk} : chunk.BackwardOk 0 chunk.getChunkLength := by
  cases chunk with
  | bits | slice => simp [BackwardOk, MirrorsAt]
  | bytes => simp [BackwardOk, MirrorsAt]
  | sequence header chunks => exact Or.inl ⟨rfl, rfl⟩
  | _ => trivial

theorem backwardOkIn_append {as bs : List Chunk} {chunk : Chunk}
    (hpos : ∀ c ∈ as ++ [chunk], 0 < c.getChunkLength) {p l : ℤ} (h₀ : sumLengths bs ≤ p)
    (h₁ : p < sumLengths bs + chunk.getChunkLength) :
    BackwardOkIn (as ++ chunk :: bs) p l ↔
      (p + l ≤ sumLengths bs + chunk.getChunkLength →
        (p = sumLengths bs ∧ l = chunk.getChunkLength) ∨
          chunk.BackwardOk (p - sumLengths bs) l) := by
  induction as with
  | nil =>
    rw [List.nil_append, BackwardOkIn, if_neg (by omega)]
    split_ifs with h <;> simp [h]
  | cons a as ih =>
    rw [List.cons_append, List.forall_mem_cons] at hpos
    have hlt : p < sumLengths (as ++ chunk :: bs) := by
      have := sum_map_nonneg (f := getChunkLength) fun c hc => hpos.2 c (List.mem_append_left _ hc)
      simp only [sumLengths_eq, List.map_append, List.sum_append, List.map_cons,
        List.sum_cons] at h₁ ⊢
      omega
    rw [List.cons_append, BackwardOkIn, if_pos hlt, ih hpos.2]

theorem mirrorsAt_byteCount {header : ChunkHeader} {count p l : ℤ} {data : Byte} (h₀ : 0 ≤ p)
    (h₁ : 0 ≤ l) (h₂ : p + l ≤ 8 * count) (hp : p % 8 = 0) (hl : l % 8 = 0) :
    (byteCount header count data).MirrorsAt p l := by
  have hseg : ∀ q : ℤ, 0 ≤ q → q + l ≤ 8 * count → q % 8 = 0 →
      seg (byteCount header count data).cells q l =
        (BitString.concat (List.replicate (l / 8).toNat data)).map Cell.plain := by
    intro q hq hql hq8
    rw [cells, ← map_seg, seg_concat hq8 hl hq h₁, seg_replicate _ _ (by omega) (by omega)]
  rw [MirrorsAt, hseg p h₀ h₂ hp]
  exact (hseg _ (by simp only [getChunkLength]; omega) (by simp only [getChunkLength]; omega)
    (by simp only [getChunkLength]; omega)).symm

theorem mirrorsAt_bitCount {header : ChunkHeader} {count p l : ℤ} {data : Bool} (h₀ : 0 ≤ p)
    (h₂ : p + l ≤ count) : (bitCount header count data).MirrorsAt p l := by
  have hseg : ∀ q : ℤ, 0 ≤ q → q + l ≤ count →
      seg (bitCount header count data).cells q l = List.replicate l.toNat ⟨data, true⟩ := by
    intro q hq hql
    rw [cells, seg_replicate _ _ (by omega) (by omega)]
  rw [MirrorsAt, hseg p h₀ h₂]
  exact (hseg _ (by simp only [getChunkLength]; omega) (by simp only [getChunkLength]; omega)).symm

theorem spec_hasCells {k fail : Prop} {x : ChunkM (Option Chunk)} {xs : List Cell}
    {cost : Chunk → Prop}
    (h : Spec fail x fun r => ∃ c, r = some c ∧ Denotes k c xs ∧ cost c) :
    Spec fail x (HasCells k · xs) :=
  h.mono id fun _ ⟨c, hr, hd, _⟩ => ⟨c, hr, hd.rep⟩

theorem peekBackOk_succ {n : ℕ} (hB : PeekBackOk n) : PeekBackOk (n + 1) := by
  intro k chunk p l flags hwf hk h₀ h₁ h₂ hn
  change ∃ xs, PeeksInside k chunk p l
    (peekUncheckedOf (dispatch n) chunk none ⟨false, p, -1⟩ l flags) xs
  have hpart := partLength_of_nonneg (p := p) (L := chunk.getChunkLength) h₁.le
  by_cases hw : p = 0 ∧ l = chunk.getChunkLength
  · obtain ⟨rfl, rfl⟩ := hw
    rw [peekUnchecked_whole _ h₁]
    refine ⟨chunk.cells, Spec.pure ⟨chunk.whole, rfl, (hwf.rep hk).whole.1⟩,
      List.infix_refl _, hwf.length_cells, iff_of_true ?_ backwardOk_whole⟩
    rw [sub_zero, sub_self, ← hwf.length_cells, seg_whole]
  · have hproper : Proper chunk ⟨false, p, -1⟩ l :=
      ⟨h₀, by dsimp only; omega, h₁.ne', by dsimp only; omega, by dsimp only; omega⟩
    have hlength : ∀ q, 0 ≤ q → q + l ≤ chunk.getChunkLength →
        ((seg chunk.cells q l).length : ℤ) = l :=
      fun q hq hle => length_seg hq h₁.le (by rw [hwf.length_cells]; exact hle)
    have hback := hlength (chunk.getChunkLength - p - l) (by omega) (by omega)
    have hslice := spec_hasCells (spec_peekConverted (¬ k) (k := k)
      (p := chunk.getChunkLength - p - l) hwf hk (convertedOffset_backward chunk h₁.le (-1))
      (by omega) h₁.le (by omega))
    cases chunk with
    | empty header =>
      have : p + l ≤ 0 := h₂
      omega
    | bitCount header count data =>
      have hspec := spec_hasCells
        (spec_peek_bitCount (k := k) (¬ k) (dispatch n) hproper flags)
      rw [hpart] at hspec
      exact ⟨_, hspec, seg_isInfix _ _ _, hlength p h₀ h₂,
        iff_of_true (mirrorsAt_bitCount h₀ h₂) trivial⟩
    | bits header values =>
      have hspec := spec_hasCells
        (spec_peek_bits (k := k) (¬ k) (dispatch n) hproper flags)
      rw [hpart] at hspec
      exact ⟨_, hspec, seg_isInfix _ _ _, hlength p h₀ h₂, Iff.rfl⟩
    | bytes header values =>
      by_cases ha : p % 8 = 0 ∧ l % 8 = 0
      · have hspec := spec_hasCells (spec_peek_bytes (k := k) (¬ k) (dispatch n)
          hproper ha.1 (Or.inr ha.2) (by rw [hpart]; exact ha.2) flags)
        rw [hpart] at hspec
        exact ⟨_, hspec, seg_isInfix _ _ _, hlength p h₀ h₂, by
          simp only [BackwardOk, ha, and_self, true_implies]
          rfl⟩
      · rw [peekUncheckedOf, BytesChunk.peekUnchecked, hproper.peekUncheckedWith,
          if_neg (by dsimp only; omega)]
        exact ⟨_, hslice, seg_isInfix _ _ _, hback, iff_of_true rfl fun h => absurd h ha⟩
    | byteCount header count data =>
      refine ⟨_, ?_, seg_isInfix _ _ _, hback, iff_of_true rfl trivial⟩
      by_cases ha : p % 8 = 0 ∧ l % 8 = 0
      · have hspec := spec_hasCells (spec_peek_byteCount (k := k) (¬ k)
          (dispatch n) hwf hproper ha.1 (Or.inr ha.2) (by rw [hpart]; exact ha.2) flags)
        have hmirror : (byteCount header count data).MirrorsAt p l :=
          mirrorsAt_byteCount h₀ h₁.le h₂ ha.1 ha.2
        rw [hpart] at hspec
        rw [MirrorsAt] at hmirror
        rwa [← hmirror]
      · rw [peekUncheckedOf, ByteCountChunk.peekUnchecked, hproper.peekUncheckedWith,
          if_neg (by dsimp only; omega)]
        exact hslice
    | fields header chunkLength type serialized =>
      refine ⟨_, ?_, seg_isInfix _ _ _, hback, iff_of_true rfl trivial⟩
      rw [peekUncheckedOf, FieldsChunk.peekUnchecked, hproper.check, pure_bind,
        if_neg (by dsimp only; omega), if_neg (fun hw => hproper.not_whole hw.1)]
      exact hslice
    | slice header sliced offset length =>
      obtain ⟨hs, ho, hl, hle⟩ := hwf
      have hlen : (slice header sliced offset length).getChunkLength = length := rfl
      rw [hlen] at h₂
      rw [size] at hn
      rw [peekUncheckedOf, SliceChunk.peekUnchecked, hproper.check, pure_bind,
        if_neg (by dsimp only; omega), if_neg (fun hw => hproper.not_whole hw.1),
        if_neg (fun hw => hproper.not_whole hw.1), if_neg (by omega)]
      have hspec := (dispatch_ok n).1 k sliced (Iterator.forward (p + offset)) l flags hs
        (fun hc => ((clean_slice _ _).1 (hk hc)).2) rfl rfl (add_nonneg h₀ ho) h₁
        (by change p + offset + l ≤ _; omega) (by omega)
      refine ⟨seg (slice header sliced offset length).cells p l, hspec.mono id ?_,
        seg_isInfix _ _ _, hlength p h₀ h₂, Iff.rfl⟩
      rintro _ ⟨c, rfl, hrep, -, -⟩
      refine ⟨c, rfl, ?_⟩
      rw [cells, seg_seg _ ho h₀ h₂, add_comm offset]
      exact hrep
    | sequence header elements =>
      have helems := (wf_sequence _ _).1 hwf
      have hpos : ∀ c ∈ elements.reverse, 0 < c.getChunkLength :=
        fun c hc => (helems c (List.mem_reverse.1 hc)).2
      rw [size] at hn
      have hlt := hproper.lt
      have hsum : (sequence header elements).getChunkLength =
          (elements.reverse.map getChunkLength).sum := by
        rw [getChunkLength_sequence, List.map_reverse, List.sum_reverse]
      rw [hsum] at hlt
      obtain ⟨as, chunk, bs, hrev, ha₀, ha₁⟩ :=
        exists_append_cons_of_lt_sum (f := getChunkLength) (s := 0) h₀ (by rw [zero_add]; exact hlt)
      rw [zero_add] at ha₀ ha₁
      have helements : elements = bs.reverse ++ chunk :: as.reverse := by
        rw [← List.reverse_reverse elements, hrev]
        simp
      subst helements
      have hsumas : sumLengths as.reverse = (as.map getChunkLength).sum := by
        rw [sumLengths_eq, List.map_reverse, List.sum_reverse]
      have hsumbs : (bs.reverse.map getChunkLength).sum + chunk.getChunkLength +
          (as.map getChunkLength).sum =
          (sequence header (bs.reverse ++ chunk :: as.reverse)).getChunkLength := by
        rw [getChunkLength_sequence]
        simp [List.sum_reverse]
        omega
      have hbs : ∀ c ∈ bs.reverse, c.WF ∧ 0 < c.getChunkLength :=
        fun c hc => helems c (List.mem_append_left _ hc)
      have hmem : chunk ∈ bs.reverse ++ chunk :: as.reverse := by simp
      have hchunk := helems chunk hmem
      have hck : k → chunk.Clean := fun hc => ((clean_sequence _ _).1 (hk hc)).2 _ hmem
      have hcs := size_le_sumSizes hmem
      have hok : (sequence header (bs.reverse ++ chunk :: as.reverse)).BackwardOk p l ↔
          (p + l ≤ (as.map getChunkLength).sum + chunk.getChunkLength →
            (p = (as.map getChunkLength).sum ∧ l = chunk.getChunkLength) ∨
              chunk.BackwardOk (p - (as.map getChunkLength).sum) l) := by
        have hw : ¬ (p = 0 ∧ l = sumLengths (bs.reverse ++ chunk :: as.reverse)) := hw
        rw [BackwardOk, or_iff_right hw, backwardOkIn_append (fun c hc => (helems c (by
          rcases List.mem_append.1 hc with hc | hc
          · exact List.mem_append_left _ hc
          · rw [List.mem_singleton.1 hc]; exact hmem)).2) (by omega) (by omega), hsumas]
      rw [peekUncheckedOf, SequenceChunk.peekUnchecked, hproper.check, pure_bind,
        if_neg (by dsimp only; omega), if_neg (fun hw => hproper.not_whole ⟨hw.1.1, Or.inr hw.1.2⟩),
        SequenceChunk.peekIndexed_neg_one rfl, pure_bind]
      simp only [Bool.false_eq_true, if_false]
      rw [hrev] at hpos ⊢
      rw [SequenceChunk.peekElements_eq hpos ha₀ ha₁]
      have hseg : p + l ≤ (as.map getChunkLength).sum + chunk.getChunkLength →
          seg (sequence header (bs.reverse ++ chunk :: as.reverse)).cells
            ((sequence header (bs.reverse ++ chunk :: as.reverse)).getChunkLength - p - l) l =
          seg chunk.cells (chunk.getChunkLength - (p - (as.map getChunkLength).sum) - l) l := by
        intro hle
        rw [cells_sequence, seg_flatMap_element hbs hchunk.1 (by omega) (by omega)]
        congr 1
        omega
      have hinfix : chunk.cells <:+: (sequence header (bs.reverse ++ chunk :: as.reverse)).cells :=
        ⟨bs.reverse.flatMap cells, as.reverse.flatMap cells, by simp [cells_sequence]⟩
      dsimp only
      split_ifs with hwhole hinside
      · -- the part is an element
        obtain ⟨⟨rfl, hlen⟩, -⟩ := hwhole
        have hlen : l = chunk.getChunkLength := by omega
        refine ⟨chunk.cells, Spec.pure ⟨chunk, rfl, hchunk.1.rep hck⟩, hinfix,
          hlen ▸ hchunk.1.length_cells, iff_of_true ?_ (hok.2 fun _ => Or.inl ⟨rfl, hlen⟩)⟩
        rw [hseg (by omega), hlen, sub_self, sub_zero, sub_self, ← hchunk.1.length_cells, seg_whole]
      · -- the part lies inside an element
        have hin : p + l ≤ (as.map getChunkLength).sum + chunk.getChunkLength := by omega
        obtain ⟨xs, hspec, hxi, hxl, hxs⟩ := hB k chunk (p - (as.map getChunkLength).sum) l flags
          hchunk.1 hck (by omega) h₁ (by omega) (by omega)
        refine ⟨xs, ?_, hxi.trans hinfix, hxl, ?_⟩
        · rw [bind_assoc]
          refine hspec.bind fun r hr => ?_
          exact Spec.pure hr
        · have hne : ¬ (p = (as.map getChunkLength).sum ∧ l = chunk.getChunkLength) :=
            fun h => hwhole ⟨⟨h.1, Or.inr h.2⟩, rfl⟩
          rw [hseg hin, hxs, hok]
          simp only [hin, true_implies, hne, false_or]
      · -- the part spans several elements
        simp only [pure_bind, convertedOffset_backward _ h₁.le]
        refine ⟨_, ?_, seg_isInfix _ _ _, hback,
          iff_of_true rfl (hok.2 fun h => absurd (Or.inr h) hinside)⟩
        refine (spec_convertChunk (dispatch_ok n).1 (dispatch_ok n).2 hwf hk (by omega) h₁
          (by omega)
          (by omega)).bind ?_
        exact fun c hc => Spec.pure ⟨c, rfl, hc.1⟩

theorem peekBackOk (n : ℕ) : PeekBackOk n := by
  induction n with
  | zero =>
    intro k chunk p l flags _ _ _ _ _ hn
    omega
  | succ n ih => exact peekBackOk_succ ih

end Chunk

end Inet
