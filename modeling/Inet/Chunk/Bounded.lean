import Inet.Chunk.Serialized

/-! # Bounded peeks

A negative length stands for a bound. Each class computes the length of the
part with a formula of its own; the conditions below follow these formulas and
say when the part stays inside the bound and inside the chunk.
-/

namespace Inet

open Outcome

namespace Chunk

/-- The conversion to a slice subtracts the offset from the bound. The difference is negative if the
offset is larger, which `SliceChunk` takes for a bound again, and `copyTags` for a length. -/
def SliceFits (chunkLength p m limit : ℤ) : Prop :=
  p < min m chunkLength ∧ min m chunkLength - p ≤ limit

/-- The part of a byte vector: whole bytes from a byte boundary on, a slice otherwise. -/
def BytesFit (chunkLength p m limit : ℤ) : Prop :=
  if p % 8 = 0 then min m (chunkLength - p) % 8 = 0 ∧ min m (chunkLength - p) ≤ limit
  else SliceFits chunkLength p m limit

mutual

/-- A peek of at most `m` bits at `p` returns at most `limit` bits of the chunk. -/
def BoundedFits : Chunk → ℤ → ℤ → ℤ → Prop
  | empty _, _, _, _ => False
  | bits _ values, p, m, limit => min m (values.length - p) ≤ limit
  | bitCount _ length _, p, m, limit => min m (length - p) ≤ limit
  | bytes _ values, p, m, limit => BytesFit (8 * values.length) p m limit
  | byteCount _ length _, p, m, limit => BytesFit (8 * length) p m limit
  | fields _ chunkLength _ _, p, m, limit =>
    if p = 0 then min m chunkLength ≤ limit else SliceFits chunkLength p m limit
  | slice _ chunk offset length, p, m, limit =>
    if p = 0 ∧ length ≤ m then length ≤ limit
    else if offset < length then
      BoundedFits chunk (p + offset) (min m (length - offset)) (min limit (length - p))
    else
      offset ≠ length ∧ offset - length ≤ min limit (length - p) ∧
        PartNoClash chunk (p + offset) (offset - length)
  | sequence _ chunks, p, m, limit => BoundedFitsIn chunks p m limit

/-- The condition for the element at the position. -/
def BoundedFitsIn : List Chunk → ℤ → ℤ → ℤ → Prop
  | [], _, _, _ => False
  | chunk :: chunks, p, m, limit =>
    if getChunkLength chunk ≤ p then BoundedFitsIn chunks (p - getChunkLength chunk) m limit
    else if p = 0 ∧ getChunkLength chunk ≤ m then getChunkLength chunk ≤ limit
    else BoundedFits chunk p m (min limit (getChunkLength chunk - p))

end

/-- The result is a part of the chunk at the position that is not empty and not longer than the
limit. -/
def IsPart (k : Prop) (chunk : Chunk) (p limit : ℤ) (result : Option Chunk) : Prop :=
  ∃ c l, result = some c ∧ 0 < l ∧ l ≤ limit ∧ p + l ≤ chunk.getChunkLength ∧
    Denotes k c (seg chunk.cells p l)

theorem IsPart.mono {k : Prop} {chunk : Chunk} {p limit limit' : ℤ} {result : Option Chunk}
    (h : IsPart k chunk p limit result) (hle : limit ≤ limit') :
      IsPart k chunk p limit' result := by
  obtain ⟨c, l, hr, hl, hlim, hend, hd⟩ := h
  exact ⟨c, l, hr, hl, hlim.trans hle, hend, hd⟩

variable {k fail : Prop} {chunk : Chunk} {p m limit : ℤ}

theorem peekUnchecked_whole_of_le (dispatch : Dispatch) (hpos : 0 < chunk.getChunkLength)
    (h : chunk.getChunkLength ≤ m) (hs : chunk.getChunkType ≠ .sequence) {index : ℤ}
    (flags : PeekFlags) :
    peekUncheckedOf dispatch chunk none ⟨true, 0, index⟩ (-m) flags = pure (some chunk.whole) := by
  have hne : -m ≠ 0 := by omega
  have hp : ¬ (0 : ℤ) = chunk.getChunkLength := by omega
  have hm : - -m ≥ chunk.getChunkLength := by omega
  have hc : checkUsage (m := ChunkM) (0 ≤ (0 : ℤ) ∧ 0 ≤ chunk.getChunkLength)
      "iterator is out of range" = pure () := if_pos ⟨le_rfl, hpos.le⟩
  cases chunk with
  | empty header => exact absurd hpos (lt_irrefl _)
  | sequence => exact absurd rfl hs
  | slice header chunk offset length =>
    simp only [peekUncheckedOf, SliceChunk.peekUnchecked, hc, hne, hp, hm, accepts, pure_bind]
    rw [whole_slice]
    by_cases hw : offset = 0 ∧ length = chunk.getChunkLength <;> simp [getChunkLength, hw]
  | fields header chunkLength type serialized =>
    simp only [peekUncheckedOf, FieldsChunk.peekUnchecked, hc, hne, hp, hm, accepts, pure_bind]
    simp [whole]
  | _ =>
    simp only [peekUncheckedOf, BitsChunk.peekUnchecked, BitCountChunk.peekUnchecked,
      BytesChunk.peekUnchecked, ByteCountChunk.peekUnchecked, peekUncheckedWith, hc, hne, hp, hm,
      accepts, pure_bind]
    simp [whole]

theorem isPart_whole (hwf : chunk.WF) (hk : k → chunk.Clean) (hpos : 0 < chunk.getChunkLength)
    (h : chunk.getChunkLength ≤ limit) : IsPart k chunk 0 limit (some chunk.whole) := by
  have hrep := (hwf.rep hk).whole.1
  refine ⟨chunk.whole, chunk.getChunkLength, rfl, hpos, h, by omega, hrep.wf, ?_, hrep.clean⟩
  rw [cells_whole hwf, ← hwf.length_cells, seg_whole]

theorem spec_peekConverted_bounded (hwf : chunk.WF) (hk : k → chunk.Clean) {index : ℤ}
    (h₀ : 0 ≤ p) (hm : 0 < m) (h : SliceFits chunk.getChunkLength p m limit) :
    Spec fail (SliceChunk.peekConverted chunk ⟨true, p, index⟩ (-m)) (IsPart k chunk p limit) := by
  rw [SliceChunk.peekConverted, convertedOffset_forward, pure_bind]
  unfold SliceChunk.convertChunk
  simp only [if_pos (show -m < 0 by omega), neg_neg]
  unfold SliceChunk.make
  rw [bind_assoc]
  refine spec_newHeader.bind fun header hh => ?_
  set l := partLength chunk.getChunkLength p (min m chunk.getChunkLength - p) with hl
  have hbounds : 0 < l ∧ l ≤ limit ∧ p + l ≤ chunk.getChunkLength := by
    rw [hl, partLength]
    unfold SliceFits at h
    split_ifs <;> omega
  refine Spec.pure ⟨_, l, rfl, hbounds.1, hbounds.2.1, hbounds.2.2, ?_⟩
  exact WF.denotes ⟨hwf, h₀, hbounds.1.le, hbounds.2.2⟩ fun hc => (clean_slice _ _).2 ⟨hh, hk hc⟩

/-- Level `n` is enough for bounded peeks into chunks of at most `n - 2` objects. -/
def BoundedOk (n : ℕ) : Prop :=
  ∀ (k : Prop) (chunk : Chunk) (p m limit : ℤ) (flags : PeekFlags),
    chunk.WF → (k → chunk.Clean) → 0 ≤ p → p < chunk.getChunkLength → 0 < m →
    chunk.BoundedFits p m limit → chunk.size + 2 ≤ n →
    Spec (¬ k) ((dispatch n).peekUnchecked chunk none (Iterator.forward p) (-m) flags)
      (IsPart k chunk p limit)

theorem boundedFitsIn_append {as bs : List Chunk} (hpos : ∀ c ∈ as, 0 < c.getChunkLength)
    (h₀ : (as.map getChunkLength).sum ≤ p)
    (h₁ : p < (as.map getChunkLength).sum + chunk.getChunkLength) :
    BoundedFitsIn (as ++ chunk :: bs) p m limit ↔
      if p - (as.map getChunkLength).sum = 0 ∧ chunk.getChunkLength ≤ m then
        chunk.getChunkLength ≤ limit
      else
        chunk.BoundedFits (p - (as.map getChunkLength).sum) m
          (min limit (chunk.getChunkLength - (p - (as.map getChunkLength).sum))) :=
  SequenceChunk.locate_append (F := fun cs p => BoundedFitsIn cs p m limit)
    (G := fun c p => if p = 0 ∧ c.getChunkLength ≤ m then c.getChunkLength ≤ limit
      else c.BoundedFits p m (min limit (c.getChunkLength - p)))
    (fun c cs p => by rw [BoundedFitsIn]) hpos h₀ h₁

theorem spec_isPart {x : ChunkM (Option Chunk)} {l : ℤ} {cost : Chunk → Prop}
    (h : Spec fail x fun r => ∃ c, r = some c ∧ Denotes k c (seg chunk.cells p l) ∧ cost c)
    (h₀ : 0 < l) (h₁ : l ≤ limit) (h₂ : p + l ≤ chunk.getChunkLength) :
    Spec fail x (IsPart k chunk p limit) :=
  h.mono id fun _ ⟨c, hr, hd, _⟩ => ⟨c, l, hr, h₀, h₁, h₂, hd⟩

theorem IsPart.of_element {header : ChunkHeader} {as bs : List Chunk}
    (has : ∀ c ∈ as, c.WF ∧ 0 < c.getChunkLength) (hbs : ∀ c ∈ bs, c.WF ∧ 0 < c.getChunkLength)
    (hc : chunk.WF)
    (h₀ : (as.map getChunkLength).sum ≤ p) {result : Option Chunk}
    (h : IsPart k chunk (p - (as.map getChunkLength).sum) limit result) :
    IsPart k (sequence header (as ++ chunk :: bs)) p limit result := by
  obtain ⟨c, l, hr, hl, hle, hend, hd⟩ := h
  refine ⟨c, l, hr, hl, hle, ?_, ?_⟩
  · have := sum_map_nonneg (f := getChunkLength) fun c hc => (hbs c hc).2
    rw [getChunkLength_sequence, List.map_append, List.sum_append, List.map_cons, List.sum_cons]
    omega
  rwa [cells_sequence, seg_flatMap_element has hc h₀ (by omega)]

theorem boundedOk_succ {n : ℕ} (hB : BoundedOk n) : BoundedOk (n + 1) := by
  intro k chunk p m limit flags hwf hk h₀ h₁ hm hfits hn
  change Spec (¬ k) (peekUncheckedOf (dispatch n) chunk none ⟨true, p, -1⟩ (-m) flags) _
  have hpart : partLength chunk.getChunkLength p (-m) = min m (chunk.getChunkLength - p) := by
    rw [partLength, if_pos (by omega), neg_neg]
  by_cases hw : (p = 0 ∧ chunk.getChunkLength ≤ m) ∧ chunk.getChunkType ≠ .sequence
  · obtain ⟨⟨rfl, hle⟩, hs⟩ := hw
    rw [peekUnchecked_whole_of_le _ h₁ hle hs]
    refine Spec.pure (isPart_whole hwf hk h₁ ?_)
    cases chunk with
    | empty header => exact absurd h₁ (lt_irrefl _)
    | sequence => exact absurd rfl hs
    | bits | bitCount | bytes | byteCount | fields | slice =>
      simp only [BoundedFits, BytesFit, getChunkLength] at hfits hle ⊢
      simp [hle] at hfits
      omega
  · by_cases hs : chunk.getChunkType = .sequence
    · obtain ⟨header, elements, rfl⟩ : ∃ header elements, chunk = sequence header elements := by
        cases chunk <;> simp [getChunkType] at hs
        exact ⟨_, _, rfl⟩
      have helems := (wf_sequence _ _).1 hwf
      have hpos : ∀ c ∈ elements, 0 < c.getChunkLength := fun c hc => (helems c hc).2
      have hcheck : checkUsage (m := ChunkM)
          (0 ≤ p ∧ p ≤ (sequence header elements).getChunkLength) "iterator is out of range" =
          pure () := if_pos ⟨h₀, h₁.le⟩
      rw [size] at hn
      rw [peekUncheckedOf, SequenceChunk.peekUnchecked, hcheck, pure_bind,
        if_neg (by dsimp only; omega), if_neg (by dsimp only; omega),
        SequenceChunk.peekIndexed_neg_one rfl, pure_bind]
      simp only [if_true]
      rw [getChunkLength_sequence] at h₁
      obtain ⟨as, chunk, bs, rfl, ha₀, ha₁⟩ :=
        exists_append_cons_of_lt_sum (f := getChunkLength) (s := 0) h₀ (by simpa using h₁)
      rw [zero_add] at ha₀ ha₁
      have has : ∀ c ∈ as, c.WF ∧ 0 < c.getChunkLength := fun c hc => helems c (by simp [hc])
      have hbs : ∀ c ∈ bs, c.WF ∧ 0 < c.getChunkLength := fun c hc => helems c (by simp [hc])
      have hmem : chunk ∈ as ++ chunk :: bs := by simp
      have hchunk := helems chunk hmem
      have hck : k → chunk.Clean := fun hc => ((clean_sequence _ _).1 (hk hc)).2 _ hmem
      have hcs := size_le_sumSizes hmem
      rw [BoundedFits, boundedFitsIn_append (fun c hc => (has c hc).2) ha₀ ha₁] at hfits
      rw [SequenceChunk.peekElements_eq hpos ha₀ ha₁]
      dsimp only
      split_ifs at hfits with hwhole
      · -- the bound covers the element
        obtain ⟨hp, hle⟩ := hwhole
        obtain rfl : p = (as.map getChunkLength).sum := by omega
        rw [if_pos ⟨⟨rfl, Or.inl (by omega)⟩, rfl⟩, pure_bind]
        refine Spec.pure (IsPart.of_element has hbs hchunk.1
          le_rfl ⟨chunk, chunk.getChunkLength, rfl, hchunk.2, le_rfl, by omega, hchunk.1,
            ?_, hck⟩ |>.mono hfits)
        rw [sub_self, ← hchunk.1.length_cells, seg_whole]
      · rw [if_neg (by omega), if_pos (by omega), bind_assoc]
        refine (hB k chunk (p - (as.map getChunkLength).sum) m _ flags hchunk.1 hck (by omega)
          (by omega) hm hfits (by omega)).bind fun r hr => Spec.pure ?_
        exact (hr.of_element has hbs hchunk.1 ha₀).mono (by omega)
    · have hw : ¬ (p = 0 ∧ chunk.getChunkLength ≤ m) := fun h => hw ⟨h, hs⟩
      have hproper : Proper chunk ⟨true, p, -1⟩ (-m) :=
        ⟨h₀, h₁, by omega, by dsimp only; rw [hpart]; omega, by dsimp only; omega⟩
      cases chunk with
      | sequence => exact absurd rfl hs
      | empty header => exact hfits.elim
      | bits header values =>
        have hspec := spec_peek_bits (k := k) (¬ k) (dispatch n) hproper flags
        rw [hpart] at hspec
        exact spec_isPart hspec (by omega) hfits (by omega)
      | bitCount header count data =>
        have hspec :=
          spec_peek_bitCount (k := k) (¬ k) (dispatch n) hproper flags
        rw [hpart] at hspec
        exact spec_isPart hspec (by omega) hfits (by omega)
      | bytes header values =>
        by_cases ha : p % 8 = 0
        · rw [BoundedFits, BytesFit, if_pos ha] at hfits
          have hspec := spec_peek_bytes (k := k) (¬ k) (dispatch n) hproper ha
            (Or.inl (by omega)) (by rw [hpart]; exact hfits.1) flags
          rw [hpart] at hspec
          exact spec_isPart hspec (by omega) hfits.2 (by omega)
        · rw [BoundedFits, BytesFit, if_neg ha] at hfits
          rw [peekUncheckedOf, BytesChunk.peekUnchecked, hproper.peekUncheckedWith,
            if_neg (fun h => ha h.1)]
          exact spec_peekConverted_bounded hwf hk h₀ hm hfits
      | byteCount header count data =>
        by_cases ha : p % 8 = 0
        · rw [BoundedFits, BytesFit, if_pos ha] at hfits
          have hspec := spec_peek_byteCount (k := k) (¬ k) (dispatch n) hwf
            hproper ha (Or.inl (by omega)) (by rw [hpart]; exact hfits.1) flags
          rw [hpart] at hspec
          exact spec_isPart hspec (by omega) hfits.2 (by omega)
        · rw [BoundedFits, BytesFit, if_neg ha] at hfits
          rw [peekUncheckedOf, ByteCountChunk.peekUnchecked, hproper.peekUncheckedWith,
            if_neg (fun h => ha h.1)]
          exact spec_peekConverted_bounded hwf hk h₀ hm hfits
      | fields header chunkLength type serialized =>
        rw [peekUncheckedOf, FieldsChunk.peekUnchecked, hproper.check, pure_bind,
          if_neg (by dsimp only; omega), if_neg (fun hw => hproper.not_whole hw.1)]
        refine spec_peekConverted_bounded hwf hk h₀ hm ?_
        rw [BoundedFits] at hfits
        have h₁ : p < chunkLength := h₁
        change SliceFits chunkLength p m limit
        split_ifs at hfits with hp
        · exact ⟨by omega, by omega⟩
        · exact hfits
      | slice header sliced offset length =>
        obtain ⟨hc, ho, hl, hle⟩ := hwf
        have hlen : (slice header sliced offset length).getChunkLength = length := rfl
        rw [hlen] at h₁ hw
        rw [size] at hn
        rw [BoundedFits, if_neg hw] at hfits
        have hck : k → sliced.Clean := fun h => ((clean_slice _ _).1 (hk h)).2
        have hinner : ∀ r, IsPart k sliced (p + offset) (min limit (length - p)) r →
            IsPart k (slice header sliced offset length) p limit r := by
          rintro r ⟨c, l, hr, hl₀, hlim, -, hd⟩
          refine ⟨c, l, hr, hl₀, by omega, by omega, ?_⟩
          rwa [cells, seg_seg _ ho h₀ (by omega), add_comm offset]
        rw [peekUncheckedOf, SliceChunk.peekUnchecked, hproper.check, pure_bind,
          if_neg (by dsimp only; omega), if_neg (fun hw => hproper.not_whole hw.1),
          if_neg (fun hw => hproper.not_whole hw.1), if_pos (by omega), neg_neg, hlen]
        dsimp only
        split_ifs at hfits with hlt
        · have hspec := hB k sliced (p + offset) (min m (length - offset)) (min limit (length - p))
            flags hc hck (by omega) (by omega) (by omega) hfits (by omega)
          exact hspec.mono id hinner
        · -- the bound has become a positive length
          obtain ⟨hne, hlim, hclash⟩ := hfits
          rw [show -min m (length - offset) = offset - length by omega]
          have hspec := (dispatch_ok n).1 k sliced (Iterator.forward (p + offset)) (offset - length)
            flags hc hck rfl rfl (by change 0 ≤ p + offset; omega) (by omega)
            (by change p + offset + (offset - length) ≤ _; omega) (by omega)
          refine hspec.mono id ?_
          rintro _ ⟨c, rfl, hrep, hexact, -⟩
          exact hinner _ ⟨c, offset - length, rfl, by omega, hlim, by omega, hrep.wf,
            hexact hclash, hrep.clean⟩

theorem boundedOk (n : ℕ) : BoundedOk n := by
  induction n with
  | zero =>
    intro k chunk p m limit flags _ _ _ _ _ _ hn
    omega
  | succ n ih => exact boundedOk_succ ih

theorem spec_peek_bounded (hwf : chunk.WF) (hk : k → chunk.Clean) {iterator : Iterator}
    (hf : iterator.isForward = true) (hc : chunk.Consistent iterator) (h₀ : 0 ≤ iterator.position)
    (h₁ : iterator.position < chunk.getChunkLength) (hm : 0 < m)
    (hfits : chunk.BoundedFits iterator.position m limit) (flags : PeekFlags) :
    Spec (¬ k) (chunk.peek iterator (-m) flags) (IsPart k chunk iterator.position limit) := by
  have hi : (dispatch (chunk.size + 2)).peekUnchecked chunk none iterator (-m) flags =
      (dispatch (chunk.size + 2)).peekUnchecked chunk none (Iterator.forward iterator.position)
        (-m) flags := by
    rw [Iterator.forward, ← hf]
    exact peekUncheckedOf_index hwf hc (-m) flags
  unfold peek Dispatch.peek
  rw [hi]
  refine (boundedOk _ k chunk iterator.position m limit flags hwf hk h₀ h₁ hm hfits le_rfl).bind ?_
  rintro _ ⟨c, l, rfl, hl, hlim, hend, hd⟩
  have hpos : 0 < c.getChunkLength := by
    rw [← hd.wf.length_cells, hd.cells_eq,
      length_seg h₀ hl.le (by rw [hwf.length_cells]; exact hend)]
    exact hl
  exact (spec_checkPeekResult hd.clean hpos flags).mono id
    fun r hr => ⟨c, l, hr, hl, hlim, hend, hd⟩

end Chunk

end Inet
