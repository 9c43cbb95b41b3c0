import Inet.Chunk.Merge

/-! # Forward peeks

A forward peek with a positive length returns a chunk that denotes the
requested part, whatever the representation.
-/

namespace Inet

open Outcome BitString

namespace Chunk

section Leaves

variable {k fail : Prop} {p l : ℤ}

theorem spec_subrange {α : Type} {values : List α} (h₀ : 0 ≤ p) (h₁ : 0 ≤ l)
    (h₂ : p + l ≤ values.length) :
    Spec fail (subrange values p (p + l)) fun r => r = seg values p l := by
  rw [subrange, if_pos ⟨h₀, by omega, h₂⟩]
  exact Spec.pure (by rw [seg, add_sub_cancel_left])

theorem toBytes_eq {m : Type → Type} [Monad m] [MonadExceptOf Error m] {b : ℤ} (h : b % 8 = 0) :
    toBytes (m := m) b = pure (b / 8) := if_pos h

theorem seg_concat {values : List Byte} (hp : p % 8 = 0) (hl : l % 8 = 0) (h₀ : 0 ≤ p)
    (h₁ : 0 ≤ l) : seg (concat values) p l = concat (seg values (p / 8) (l / 8)) := by
  have hp' : p.toNat = 8 * (p / 8).toNat := by omega
  have hl' : l.toNat = 8 * (l / 8).toNat := by omega
  rw [seg, hp', hl', drop_concat, take_concat, seg]

theorem convertedOffset_forward (chunk : Chunk) (index : ℤ) :
    convertedOffset chunk ⟨true, p, index⟩ l = pure p := by
  simp [convertedOffset, checkUsage]

theorem spec_peekConverted (fail : Prop) {chunk : Chunk} {iterator : Iterator} (hwf : chunk.WF)
    (hk : k → chunk.Clean) (ho : convertedOffset chunk iterator l = pure p) (h₀ : 0 ≤ p)
    (h₁ : 0 ≤ l) (h₂ : p + l ≤ chunk.getChunkLength) :
    Spec fail (SliceChunk.peekConverted chunk iterator l) fun r =>
      ∃ c, r = some c ∧ Denotes k c (seg chunk.cells p l) ∧ c.size = chunk.size + 1 := by
  rw [SliceChunk.peekConverted, ho, pure_bind]
  unfold SliceChunk.convertChunk
  simp only [if_neg (not_lt.2 h₁)]
  refine (spec_make hwf hk h₀ h₁ h₂).bind ?_
  rintro _ ⟨header, rfl, hrep⟩
  exact Spec.pure ⟨_, rfl, hrep, rfl⟩

theorem partLength_of_nonneg {L : ℤ} (h : 0 ≤ l) : partLength L p l = l := if_neg (not_lt.2 h)

/-- A proper part is peeked, in either direction and with a positive or a bounding length. -/
structure Proper (this : Chunk) (iterator : Iterator) (length : ℤ) : Prop where
  nonneg : 0 ≤ iterator.position
  lt : iterator.position < this.getChunkLength
  ne_zero : length ≠ 0
  le : iterator.position + partLength this.getChunkLength iterator.position length ≤
    this.getChunkLength
  not_whole : ¬ (iterator.position = 0 ∧
    (-length ≥ this.getChunkLength ∨ length = this.getChunkLength))

theorem Proper.partLength_pos {this : Chunk} {iterator : Iterator} {length : ℤ}
    (h : Proper this iterator length) :
    0 < partLength this.getChunkLength iterator.position length := by
  have := h.lt
  have := h.ne_zero
  unfold partLength
  split_ifs <;> omega

theorem Proper.check {this : Chunk} {iterator : Iterator} {length : ℤ}
    (h : Proper this iterator length) :
    checkUsage (m := ChunkM) (0 ≤ iterator.position ∧ iterator.position ≤ this.getChunkLength)
      "iterator is out of range" = pure () := if_pos ⟨h.nonneg, h.lt.le⟩

theorem Proper.peekUncheckedWith {part : ChunkM (Option Chunk)} {this : Chunk}
    {iterator : Iterator} {length : ℤ} (h : Proper this iterator length) (flags : PeekFlags) :
    Chunk.peekUncheckedWith part this none iterator length flags = part := by
  have := h.lt
  have := h.ne_zero
  rw [Chunk.peekUncheckedWith, h.check, pure_bind, if_neg (by omega),
    if_neg (fun hw => h.not_whole hw.1)]

section

variable (fail : Prop) (dispatch : Dispatch) {header : ChunkHeader} {iterator : Iterator}
    {length : ℤ}

theorem spec_peek_bits {values : List Bool} (h : Proper (bits header values) iterator length)
    (flags : PeekFlags) :
    Spec fail (peekUncheckedOf dispatch (bits header values) none iterator length flags) fun r =>
      ∃ c, r = some c ∧ Denotes k c (seg (bits header values).cells iterator.position
        (partLength (bits header values).getChunkLength iterator.position length)) ∧ c.size =
          1 := by
  have hpos := h.partLength_pos
  have hle := h.le
  rw [peekUncheckedOf, BitsChunk.peekUnchecked, h.peekUncheckedWith]
  set e := partLength (bits header values).getChunkLength iterator.position length
  refine (spec_subrange h.nonneg hpos.le hle).bind ?_
  rintro _ rfl
  refine spec_newHeader.bind fun new hnew => Spec.pure ⟨_, rfl, ?_, rfl⟩
  have hrep :=
    WF.denotes (k := k) (show WF (bits new (seg values iterator.position e)) from trivial)
    fun _ => hnew
  rwa [cells, map_seg] at hrep

theorem spec_peek_bitCount {count : ℤ} {data : Bool}
    (h : Proper (bitCount header count data) iterator length) (flags : PeekFlags) :
    Spec fail (peekUncheckedOf dispatch (bitCount header count data) none iterator length flags)
      fun r => ∃ c, r = some c ∧
        Denotes k c (seg (bitCount header count data).cells iterator.position
        (partLength (bitCount header count data).getChunkLength iterator.position length)) ∧
        c.size = 1 := by
  have hpos := h.partLength_pos
  have hle := h.le
  have hnn := h.nonneg
  rw [peekUncheckedOf, BitCountChunk.peekUnchecked, h.peekUncheckedWith]
  set e := partLength (bitCount header count data).getChunkLength iterator.position length
  dsimp only
  rw [checkUsage, if_pos hpos.le, pure_bind]
  refine spec_newHeader.bind fun new hnew => Spec.pure ⟨_, rfl, ?_, rfl⟩
  have hrep := WF.denotes (k := k) (show WF (bitCount new e data) from hpos.le) fun _ => hnew
  have hle : iterator.position + e ≤ count := hle
  rw [cells, seg_replicate _ _ hnn (by omega)]
  exact hrep

theorem spec_peek_bytes {values : List Byte} (h : Proper (bytes header values) iterator length)
    (ha : iterator.position % 8 = 0) (hl : length < 0 ∨ length % 8 = 0)
    (he : partLength (bytes header values).getChunkLength iterator.position length % 8 = 0)
    (flags : PeekFlags) :
    Spec fail (peekUncheckedOf dispatch (bytes header values) none iterator length flags) fun r =>
      ∃ c, r = some c ∧ Denotes k c (seg (bytes header values).cells iterator.position
        (partLength (bytes header values).getChunkLength iterator.position length)) ∧
        c.size = 1 := by
  have hpos := h.partLength_pos
  have hle := h.le
  have hnn := h.nonneg
  rw [peekUncheckedOf, BytesChunk.peekUnchecked, h.peekUncheckedWith, if_pos ⟨ha, hl⟩]
  set e := partLength (bytes header values).getChunkLength iterator.position length
  have hle : iterator.position + e ≤ 8 * values.length := hle
  rw [toBytes_eq ha, pure_bind, toBytes_eq (by omega), pure_bind,
    show (iterator.position + e) / 8 = iterator.position / 8 + e / 8 by omega]
  refine (spec_subrange (by omega) (by omega) (by omega)).bind ?_
  rintro _ rfl
  refine spec_newHeader.bind fun new hnew => Spec.pure ⟨_, rfl, ?_, rfl⟩
  have hrep := WF.denotes (k := k)
    (show WF (bytes new (seg values (iterator.position / 8) (e / 8))) from trivial) fun _ => hnew
  rw [cells, ← seg_concat ha he hnn hpos.le, map_seg] at hrep
  exact hrep

theorem spec_peek_byteCount {count : ℤ} {data : Byte} (hwf : 0 ≤ count)
    (h : Proper (byteCount header count data) iterator length)
    (ha : iterator.position % 8 = 0) (hl : length < 0 ∨ length % 8 = 0)
    (he : partLength (byteCount header count data).getChunkLength iterator.position length % 8 = 0)
    (flags : PeekFlags) :
    Spec fail (peekUncheckedOf dispatch (byteCount header count data) none iterator length flags)
      fun r => ∃ c, r = some c ∧
        Denotes k c (seg (byteCount header count data).cells iterator.position
        (partLength (byteCount header count data).getChunkLength iterator.position length)) ∧
        c.size = 1 := by
  have hpos := h.partLength_pos
  have hle := h.le
  have hnn := h.nonneg
  rw [peekUncheckedOf, ByteCountChunk.peekUnchecked, h.peekUncheckedWith, if_pos ⟨ha, hl⟩]
  set e := partLength (byteCount header count data).getChunkLength iterator.position length
  have hle : iterator.position + e ≤ 8 * count := hle
  rw [toBytes_eq he, pure_bind, checkUsage, if_pos (by omega), pure_bind]
  refine spec_newHeader.bind fun new hnew => Spec.pure ⟨_, rfl, ?_, rfl⟩
  have hrep := WF.denotes (k := k) (show WF (byteCount new (e / 8) data) by change 0 ≤ e / 8; omega)
    fun _ => hnew
  rw [cells, ← map_seg, seg_concat ha he hnn hpos.le,
    seg_replicate _ _ (by omega) (by omega)]
  exact hrep

end

theorem one_le_cutCost {L : ℤ} (hne : ¬ (p = 0 ∧ l = L)) : 1 ≤ cutCost L p l := by
  simp only [cutCost]
  split_ifs <;> omega

end Leaves

section Sequences

theorem sum_length_cells {chunks : List Chunk} (h : ∀ c ∈ chunks, c.WF ∧ 0 < c.getChunkLength) :
    ((chunks.flatMap cells).length : ℤ) = (chunks.map getChunkLength).sum := by
  have := ((wf_sequence ⟨0, false, false, false⟩ chunks).2 h).length_cells
  rwa [cells_sequence, getChunkLength_sequence] at this

theorem partNoClashIn_append {as chunks : List Chunk} (h : ∀ c ∈ as, 0 < c.getChunkLength)
    {p l : ℤ} (hp : (as.map getChunkLength).sum ≤ p) :
    PartNoClashIn (as ++ chunks) p l ↔
      PartNoClashIn chunks (p - (as.map getChunkLength).sum) l := by
  induction as generalizing p with
  | nil => simp
  | cons a as ih =>
    rw [List.forall_mem_cons] at h
    rw [List.map_cons, List.sum_cons] at hp ⊢
    have := sum_map_nonneg h.2
    rw [List.cons_append, PartNoClashIn, if_pos (by omega), ih h.2 (by omega), sub_sub]

theorem seg_flatMap_element {as bs : List Chunk} {chunk : Chunk}
    (has : ∀ c ∈ as, c.WF ∧ 0 < c.getChunkLength) (hc : chunk.WF) {p l : ℤ}
    (h₀ : (as.map getChunkLength).sum ≤ p)
    (h₁ : p + l ≤ (as.map getChunkLength).sum + chunk.getChunkLength) :
    seg ((as ++ chunk :: bs).flatMap cells) p l =
      seg chunk.cells (p - (as.map getChunkLength).sum) l := by
  have hl := sum_length_cells has
  have hcl := hc.length_cells
  rw [List.flatMap_append, List.flatMap_cons, seg_append_of_ge _ _ (by omega),
    seg_append_of_le _ _ (by omega) (by omega), hl]

variable {n : ℕ} {k : Prop}

theorem spec_convertChunk (hP : PeekOk n) (hI : InsertOk n) {header : ChunkHeader}
    {elements : List Chunk} (hwf : (sequence header elements).WF)
    (hk : k → (sequence header elements).Clean) {p l : ℤ} (h₀ : 0 ≤ p) (h₁ : 0 < l)
    (h₂ : p + l ≤ (sequence header elements).getChunkLength) (hn : sumSizes elements + 2 ≤ n) :
    Spec (¬ k) (SequenceChunk.convertChunk (dispatch n) (sequence header elements) p l) fun c =>
      Rep k c (seg (sequence header elements).cells p l) ∧ c.size ≤
        (sequence header elements).size +
          cutCost (sequence header elements).getChunkLength p l := by
  unfold SequenceChunk.convertChunk
  refine spec_newHeader.bind fun new hnew => ?_
  rw [partLength_of_nonneg h₁.le]
  refine (spec_make hwf hk h₀ h₁.le h₂).bind ?_
  rintro _ ⟨sliceHeader, rfl, -⟩
  have hlen : p + l - p = l := by omega
  have hcost := cutCost_le_two (sequence header elements).getChunkLength p l
  have hspec := spec_doInsertParts .back hP hI hwf hk h₀
    (show p < p + l by omega) (fun c hc => by have := size_le_sumSizes hc; omega) (reps_nil k)
    (by rw [hlen, sumSizes]; omega)
  rw [hlen, Side.nil_join, ← cells_sequence header] at hspec
  refine hspec.bind ?_
  rintro r ⟨hr, hsize⟩
  refine Spec.pure ⟨hr.rep fun _ => hnew, ?_⟩
  rw [sumSizes] at hsize
  rw [size, size]
  omega

end Sequences

theorem peekOk_succ {n : ℕ} (hP : PeekOk n) (hI : InsertOk n) : PeekOk (n + 1) := by
  intro k chunk iterator l flags hwf hk hf hi h₀ h₁ h₂ hn
  change Spec (¬ k) (peekUncheckedOf (dispatch n) chunk none iterator l flags) _
  obtain ⟨isForward, p, index⟩ := iterator
  dsimp only at hf hi h₀ h₂ ⊢
  subst hf hi
  have hpart := partLength_of_nonneg (p := p) (L := chunk.getChunkLength) h₁.le
  by_cases hw : p = 0 ∧ l = chunk.getChunkLength
  · obtain ⟨rfl, rfl⟩ := hw
    rw [peekUnchecked_whole _ h₁]
    have hrep := (hwf.rep hk).whole
    rw [← hwf.length_cells, seg_whole]
    exact Spec.pure
      ⟨_, rfl, hrep.1, fun _ => cells_whole hwf, le_trans hrep.2 (Nat.le_add_right _ _)⟩
  · have hcost := one_le_cutCost hw
    have hsz := chunk.size_pos
    have hproper : Proper chunk ⟨true, p, -1⟩ l :=
      ⟨h₀, by dsimp only; omega, h₁.ne', by dsimp only; omega, by dsimp only; omega⟩
    cases chunk with
    | empty header =>
      have : p + l ≤ 0 := h₂
      omega
    | bits header values =>
      have hspec := spec_peek_bits (k := k) (¬ k) (dispatch n) hproper flags
      rw [hpart] at hspec
      refine hspec.mono id ?_
      rintro r ⟨c, hr, hrep, hsize⟩
      exact ⟨c, hr, hrep.rep, fun _ => hrep.cells_eq, by omega⟩
    | bitCount header count data =>
      have hspec := spec_peek_bitCount (k := k) (¬ k) (dispatch n) hproper flags
      rw [hpart] at hspec
      refine hspec.mono id ?_
      rintro r ⟨c, hr, hrep, hsize⟩
      exact ⟨c, hr, hrep.rep, fun _ => hrep.cells_eq, by omega⟩
    | bytes header values =>
      by_cases ha : p % 8 = 0 ∧ l % 8 = 0
      · have hspec := spec_peek_bytes (k := k) (¬ k) (dispatch n) hproper ha.1
          (Or.inr ha.2) (by rw [hpart]; exact ha.2) flags
        rw [hpart] at hspec
        refine hspec.mono id ?_
        rintro r ⟨c, hr, hrep, hsize⟩
        exact ⟨c, hr, hrep.rep, fun _ => hrep.cells_eq, by omega⟩
      · rw [peekUncheckedOf, BytesChunk.peekUnchecked, hproper.peekUncheckedWith,
          if_neg (by dsimp only; omega)]
        refine (spec_peekConverted _ hwf hk (convertedOffset_forward _ _) h₀ h₁.le h₂).mono id ?_
        rintro r ⟨c, hr, hrep, hsize⟩
        exact ⟨c, hr, hrep.rep, fun _ => hrep.cells_eq, by omega⟩
    | byteCount header count data =>
      by_cases ha : p % 8 = 0 ∧ l % 8 = 0
      · have hspec := spec_peek_byteCount (k := k) (¬ k) (dispatch n) hwf hproper
          ha.1 (Or.inr ha.2) (by rw [hpart]; exact ha.2) flags
        rw [hpart] at hspec
        refine hspec.mono id ?_
        rintro r ⟨c, hr, hrep, hsize⟩
        exact ⟨c, hr, hrep.rep, fun _ => hrep.cells_eq, by omega⟩
      · rw [peekUncheckedOf, ByteCountChunk.peekUnchecked, hproper.peekUncheckedWith,
          if_neg (by dsimp only; omega)]
        refine (spec_peekConverted _ hwf hk (convertedOffset_forward _ _) h₀ h₁.le h₂).mono id ?_
        rintro r ⟨c, hr, hrep, hsize⟩
        exact ⟨c, hr, hrep.rep, fun _ => hrep.cells_eq, by omega⟩
    | fields header chunkLength type serialized =>
      rw [peekUncheckedOf, FieldsChunk.peekUnchecked, hproper.check, pure_bind,
        if_neg (by dsimp only; omega), if_neg (fun hw => hproper.not_whole hw.1)]
      refine (spec_peekConverted _ hwf hk (convertedOffset_forward _ _) h₀ h₁.le h₂).mono id ?_
      rintro r ⟨c, hr, hrep, hsize⟩
      exact ⟨c, hr, hrep.rep, fun _ => hrep.cells_eq, by omega⟩
    | slice header sliced offset length =>
      obtain ⟨hs, ho, hl, hle⟩ := hwf
      have hlen : (slice header sliced offset length).getChunkLength = length := rfl
      rw [hlen] at h₂
      rw [size] at hn
      rw [peekUncheckedOf, SliceChunk.peekUnchecked, hproper.check, pure_bind,
        if_neg (by dsimp only; omega), if_neg (fun hw => hproper.not_whole hw.1),
        if_neg (fun hw => hproper.not_whole hw.1), if_neg (by omega)]
      have hspec := hP k sliced (Iterator.forward (p + offset)) l flags hs
        (fun hc => ((clean_slice _ _).1 (hk hc)).2) rfl rfl (add_nonneg h₀ ho) h₁
        (by change p + offset + l ≤ _; omega) (by omega)
      refine hspec.mono id ?_
      rintro r ⟨c, hr, hrep, hexact, hsize⟩
      have := cutCost_le_two sliced.getChunkLength (Iterator.forward (p + offset)).position l
      rw [cells, seg_seg _ ho h₀ h₂, add_comm offset]
      exact ⟨c, hr, hrep, fun hp => hexact (hp.resolve_left hw), by rw [size]; omega⟩
    | sequence header elements =>
      have helems := (wf_sequence _ _).1 hwf
      have hpos : ∀ c ∈ elements, 0 < c.getChunkLength := fun c hc => (helems c hc).2
      rw [size] at hn
      have hlt := hproper.lt
      rw [getChunkLength_sequence] at hlt
      obtain ⟨as, chunk, bs, rfl, ha₀, ha₁⟩ :=
        exists_append_cons_of_lt_sum (f := getChunkLength) (s := 0) h₀ (by simpa using hlt)
      rw [zero_add] at ha₀ ha₁
      have has : ∀ c ∈ as, c.WF ∧ 0 < c.getChunkLength := fun c hc => helems c (by simp [hc])
      have hmem : chunk ∈ as ++ chunk :: bs := by simp
      have hchunk := helems chunk hmem
      have hck : k → chunk.Clean := fun hc => ((clean_sequence _ _).1 (hk hc)).2 _ hmem
      have hcs := size_le_sumSizes hmem
      have hpos' : ∀ c ∈ as, 0 < c.getChunkLength := fun c hc => (has c hc).2
      have hw' : ¬ (p = 0 ∧ l = sumLengths (as ++ chunk :: bs)) := hw
      have hsumas := sum_length_cells has
      rw [peekUncheckedOf, SequenceChunk.peekUnchecked, hproper.check, pure_bind,
        if_neg (by dsimp only; omega), if_neg (fun hw => hproper.not_whole ⟨hw.1.1, Or.inr hw.1.2⟩),
        SequenceChunk.peekIndexed_neg_one rfl, pure_bind]
      simp only [if_true]
      rw [SequenceChunk.peekElements_eq hpos ha₀ ha₁]
      dsimp only
      split_ifs with hwhole hinside
      · -- the part is an element
        obtain ⟨⟨rfl, hlen⟩, -⟩ := hwhole
        have hlen : l = chunk.getChunkLength := by omega
        rw [cells_sequence, seg_flatMap_element has hchunk.1 le_rfl (by omega), sub_self, hlen,
          ← hchunk.1.length_cells, seg_whole]
        exact Spec.pure ⟨chunk, rfl, hchunk.1.rep hck, fun _ => rfl, by rw [size]; omega⟩
      · -- the part lies inside an element
        have hin : p + l ≤ (as.map getChunkLength).sum + chunk.getChunkLength := by omega
        have hspec :=
          hP k chunk ⟨true, p - (as.map getChunkLength).sum, -1⟩ l flags hchunk.1 hck rfl
          rfl (by dsimp only; omega) h₁ (by dsimp only; omega) (by omega)
        rw [bind_assoc]
        refine hspec.bind ?_
        rintro r ⟨c, rfl, hrep, hexact, hsize⟩
        dsimp only at hexact hsize
        have := cutCost_le_two chunk.getChunkLength (p - (as.map getChunkLength).sum) l
        rw [cells_sequence, seg_flatMap_element has hchunk.1 ha₀ hin]
        refine Spec.pure ⟨c, rfl, hrep, fun hp => hexact ?_, by rw [size]; omega⟩
        have hp := hp.resolve_left hw'
        rw [partNoClashIn_append hpos' ha₀, PartNoClashIn, if_neg (by omega),
          if_pos (by omega)] at hp
        exact hp.resolve_left fun hp => hwhole ⟨⟨by omega, Or.inr hp.2⟩, rfl⟩
      · -- the part spans several elements
        simp only [pure_bind, convertedOffset_forward]
        refine (spec_convertChunk hP hI hwf hk h₀ h₁ h₂ (by omega)).bind ?_
        rintro c ⟨hrep, hsize⟩
        refine Spec.pure ⟨c, rfl, hrep, fun hp => hrep.cells_eq ?_, hsize⟩
        have hp := hp.resolve_left hw'
        rw [partNoClashIn_append hpos' ha₀, PartNoClashIn, if_neg (by omega),
          if_neg (by omega), allCells_eq] at hp
        rw [cells_sequence, List.flatMap_append, seg_append_of_ge _ _ (by omega), hsumas]
        exact hp

/-- Every level of virtual calls is enough for the chunks it has to deal with. -/
theorem dispatch_ok (n : ℕ) : PeekOk n ∧ InsertOk n := by
  induction n with
  | zero =>
    refine ⟨?_, ?_⟩
    · intro k chunk iterator l flags _ _ _ _ _ _ _ hn
      omega
    · intro k side this chunk _ _ _ _ _ _ _ hn
      have := this.size_pos
      omega
  | succ n ih => exact ⟨peekOk_succ ih.1 ih.2, insertOk_succ ih.1 ih.2⟩

end Chunk

end Inet
