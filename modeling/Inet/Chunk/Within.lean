import Inet.Chunk.Backward
import Inet.Chunk.Typed

/-! # How long a peeked chunk can be

A peek with a requested type returns a chunk of the requested length, or what
the conversion to the type makes of the part. A bounded peek keeps to its
bound unless it copies a longer fields chunk or passes a slice that begins
behind its own length. A chunk that is not a part of the peeked one is new.
-/

namespace Inet

open Outcome

namespace Chunk

/-- A result of at most `limit` bits that is a nonempty part or a new chunk; `s` is the next id. -/
def Within (s : ℕ) (limit : ℤ) (result : Option Chunk) : Prop :=
  ∀ c, result = some c → 0 ≤ c.getChunkLength ∧ c.getChunkLength ≤ limit ∧
    ((c.WF ∧ 0 < c.getChunkLength) ∨ s ≤ c.header.id)

/-- The conversion of a part of at most `limit` bits makes a new chunk of at most `limit` bits. -/
structure ConvertsWithin (request : PeekRequest) (limit : ℤ) : Prop where
  null : request.predicate none = true
  converter : ∀ (s : ℕ) (chunk : Chunk) (iterator : Iterator) (length : ℤ) (flags : PeekFlags),
    -limit ≤ length → length ≤ limit →
    SpecFrom True s (request.converter chunk iterator length flags) fun c =>
      0 ≤ c.getChunkLength ∧ c.getChunkLength ≤ limit ∧ s ≤ c.header.id

mutual

/-- A bounded peek at the position neither copies a fields chunk that is longer than the bound nor
passes a slice that turns the bound into a length beyond the limit. -/
def TypedWithin (predicate : Option Chunk → Bool) : Chunk → ℤ → ℤ → ℤ → Prop
  | fields header chunkLength type serialized, p, m, _ =>
    p = 0 → predicate (some (fields header chunkLength type serialized)) = true → chunkLength ≤ m
  | slice _ chunk offset length, p, m, limit =>
    if offset < length then TypedWithin predicate chunk (p + offset) (min m (length - offset)) limit
    else offset - length ≤ limit
  | sequence _ chunks, p, m, limit => TypedWithinIn predicate chunks p m limit
  | _, _, _, _ => True

def TypedWithinIn (predicate : Option Chunk → Bool) : List Chunk → ℤ → ℤ → ℤ → Prop
  | [], _, _, _ => True
  | chunk :: chunks, p, m, limit =>
    if getChunkLength chunk ≤ p then TypedWithinIn predicate chunks
      (p - getChunkLength chunk) m limit
    else TypedWithin predicate chunk p m limit

end

variable {s : ℕ} {limit l m : ℤ} {chunk : Chunk} {iterator : Iterator} {request : PeekRequest}
  {flags : PeekFlags}

theorem within_none : Within s limit none := by
  rintro c ⟨⟩

theorem within_of_wf (hwf : chunk.WF) (hpos : 0 < chunk.getChunkLength)
    (hle : chunk.getChunkLength ≤ limit) : Within s limit (some chunk) := by
  rintro c ⟨⟩
  exact ⟨hpos.le, hle, Or.inl ⟨hwf, hpos⟩⟩

theorem ConvertsWithin.specFrom (h : ConvertsWithin request limit) (h₀ : -limit ≤ l)
    (h₁ : l ≤ limit) :
    SpecFrom True s (do
      return some (← request.converter chunk iterator l flags) : ChunkM (Option Chunk))
      (Within s limit) := by
  refine (h.converter s chunk iterator l flags h₀ h₁).bind fun c hc => Spec.pure ?_
  rintro _ ⟨⟩
  exact ⟨hc.1, hc.2.1, Or.inr hc.2.2⟩

theorem specFrom_peekUncheckedWith {part : ChunkM (Option Chunk)}
    (hconv : ConvertsWithin request limit) (h₀ : 0 ≤ iterator.position)
    (h₁ : iterator.position < chunk.getChunkLength) (hl : l ≠ 0) (hlo : -limit ≤ l)
    (hhi : l ≤ limit)
    (hwhole : iterator.position = 0 ∧ (-l ≥ chunk.getChunkLength ∨ l = chunk.getChunkLength) →
      Within s limit (some chunk)) :
    SpecFrom True s (peekUncheckedWith part chunk (some request) iterator l flags)
      (Within s limit) := by
  rw [peekUncheckedWith, checkUsage, if_pos ⟨h₀, h₁.le⟩, pure_bind, if_neg (by omega)]
  split_ifs with hw
  · exact Spec.specFrom (Spec.pure (hwhole hw.1)) s
  · exact hconv.specFrom hlo hhi

theorem within_whole (hwf : chunk.WF) (hpos : 0 < chunk.getChunkLength) (hlo : -limit ≤ l)
    (hhi : l ≤ limit) (h : -l ≥ chunk.getChunkLength ∨ l = chunk.getChunkLength) :
    Within s limit (some chunk) :=
  within_of_wf hwf hpos (by omega)

theorem specFrom_fields {dispatch : Dispatch} {header : ChunkHeader} {chunkLength : ℤ} {type : ℕ}
    {serialized : List Bool} (hwf : (fields header chunkLength type serialized).WF)
    (hconv : ConvertsWithin request limit) (h₀ : 0 ≤ iterator.position)
    (h₁ : iterator.position < chunkLength) (hl : l ≠ 0) (hlo : -limit ≤ l) (hhi : l ≤ limit)
    (hcopy : iterator.position = 0 →
      request.predicate (some (fields header chunkLength type serialized)) = true →
      0 < l ∨ chunkLength ≤ -l) :
    SpecFrom True s (peekUncheckedOf dispatch (fields header chunkLength type serialized)
      (some request) iterator l flags) (Within s limit) := by
  have hlen : (fields header chunkLength type serialized).getChunkLength = chunkLength := rfl
  rw [peekUncheckedOf, FieldsChunk.peekUnchecked, hlen, checkUsage, if_pos ⟨h₀, h₁.le⟩, pure_bind,
    if_neg (by omega)]
  split_ifs with hw hcond
  · exact Spec.specFrom (Spec.pure (within_whole hwf (by omega) hlo hhi hw.1.2)) s
  · -- the copy has the requested length
    have hpos := hcopy hcond.2 hcond.1
    have hlpos : 0 < l := by
      by_contra hneg
      exact hw ⟨⟨hcond.2, Or.inl (by omega)⟩, hcond.1⟩
    change Within s limit (some _)
    rintro _ ⟨⟩
    exact ⟨hlpos.le, hhi, Or.inr le_rfl⟩
  · exact hconv.specFrom hlo hhi

theorem peekIndexed_cases (chunks : List Chunk) (request : Option PeekRequest) (iterator : Iterator)
    (l : ℤ) : SequenceChunk.peekIndexed chunks request iterator l = pure none ∨
      (∃ c ∈ chunks, SequenceChunk.peekIndexed chunks request iterator l = pure (some c) ∧
        (-l ≥ c.getChunkLength ∨ l = c.getChunkLength)) ∨
      ∃ e, SequenceChunk.peekIndexed chunks request iterator l = throw e := by
  unfold SequenceChunk.peekIndexed
  dsimp only
  by_cases hidx : iterator.index ≠ -1 ∧ iterator.index ≠ chunks.length
  · rw [if_pos hidx]
    rcases SequenceChunk.getElementChunk_cases chunks iterator with ⟨c, hc, h⟩ | ⟨-, e, h⟩
    · rw [h, pure_bind]
      split_ifs with hlen
      · exact Or.inr (Or.inl ⟨c, hc, rfl, hlen.1⟩)
      · exact Or.inl rfl
    · rw [h]
      exact Or.inr (Or.inr ⟨e, rfl⟩)
  · rw [if_neg hidx]
    exact Or.inl rfl

theorem specFrom_getEmptyChunk (flags : PeekFlags) (hlim : 0 ≤ limit) :
    SpecFrom True s (getEmptyChunk flags) (Within s limit) := by
  unfold getEmptyChunk
  split_ifs
  · exact within_none
  · change Within s limit (some (empty _))
    rintro _ ⟨⟩
    exact ⟨le_rfl, hlim, Or.inr le_rfl⟩
  · trivial

theorem specFrom_peekUnchecked_zero (n : ℕ) {request : Option PeekRequest}
    (hacc : accepts request none = true) (hlim : 0 ≤ limit) :
    SpecFrom True s ((dispatch n).peekUnchecked chunk request iterator 0 flags)
      (Within s limit) := by
  cases n with
  | zero => trivial
  | succ n =>
    change SpecFrom True s (peekUncheckedOf (dispatch n) chunk request iterator 0 flags) _
    have hempty := specFrom_getEmptyChunk (s := s) flags hlim
    cases chunk with
    | empty header =>
      simp only [peekUncheckedOf, EmptyChunk.peekUnchecked, checkUsage, le_refl, if_true, hacc]
      split_ifs
      · exact hempty
      · trivial
    | _ =>
      simp only [peekUncheckedOf, BitsChunk.peekUnchecked, BitCountChunk.peekUnchecked,
        BytesChunk.peekUnchecked, ByteCountChunk.peekUnchecked, peekUncheckedWith,
        FieldsChunk.peekUnchecked, SliceChunk.peekUnchecked, SequenceChunk.peekUnchecked,
        checkUsage, true_or, hacc, and_self, if_true]
      split_ifs
      · exact hempty
      · trivial

theorem specFrom_sequence {dispatch : Dispatch} {header : ChunkHeader} {chunks : List Chunk}
    (hwf : (sequence header chunks).WF) (hconv : ConvertsWithin request limit)
    (h₀ : 0 ≤ iterator.position)
    (h₁ : iterator.position < (sequence header chunks).getChunkLength) (hl : l ≠ 0)
    (hlo : -limit ≤ l) (hhi : l ≤ limit)
    (hrec : ∀ as c bs, (if iterator.isForward then chunks else chunks.reverse) = as ++ c :: bs →
      (as.map getChunkLength).sum ≤ iterator.position →
      iterator.position < (as.map getChunkLength).sum + c.getChunkLength →
      SpecFrom True s (dispatch.peekUnchecked c (some request)
        ⟨iterator.isForward, iterator.position - (as.map getChunkLength).sum, -1⟩ l flags)
        (Within s limit)) :
    SpecFrom True s (peekUncheckedOf dispatch (sequence header chunks) (some request) iterator l
      flags) (Within s limit) := by
  have helems := (wf_sequence _ _).1 hwf
  rw [peekUncheckedOf, SequenceChunk.peekUnchecked, checkUsage, if_pos ⟨h₀, h₁.le⟩, pure_bind,
    if_neg (by omega)]
  by_cases hw : (iterator.position = 0 ∧ l = (sequence header chunks).getChunkLength) ∧
      accepts (some request) (some (sequence header chunks)) = true
  · rw [if_pos hw]
    exact Spec.specFrom (Spec.pure (within_of_wf hwf (by omega) (by omega))) s
  · rw [if_neg hw]
    rcases peekIndexed_cases chunks (some request) iterator l with h | ⟨c, hc, h, hlen⟩ | ⟨e, h⟩
    · rw [h, pure_bind]
      set elements := if iterator.isForward then chunks else chunks.reverse with helements
      have hmem : ∀ c ∈ elements, c.WF ∧ 0 < c.getChunkLength := by
        intro c hc
        rw [helements] at hc
        split_ifs at hc
        · exact helems c hc
        · exact helems c (List.mem_reverse.1 hc)
      have hsum : iterator.position < 0 + (elements.map getChunkLength).sum := by
        rw [getChunkLength_sequence] at h₁
        rw [helements, zero_add]
        split_ifs
        · exact h₁
        · rw [List.map_reverse, List.sum_reverse]
          exact h₁
      obtain ⟨as, c, bs, hsplit, ha₀, ha₁⟩ := exists_append_cons_of_lt_sum h₀ hsum
      rw [zero_add] at ha₀ ha₁
      have hc := hmem c (by rw [hsplit]; simp)
      dsimp only
      rw [hsplit, SequenceChunk.peekElements_eq (fun c hc => (hmem c (hsplit ▸ hc)).2) ha₀ ha₁]
      split_ifs with hwhole hinside
      · rw [pure_bind]
        exact Spec.specFrom (Spec.pure (within_whole hc.1 hc.2 hlo hhi hwhole.1.2)) s
      · rw [bind_assoc]
        exact (hrec as c bs hsplit ha₀ ha₁).bind fun r hr => Spec.pure hr
      · rw [pure_bind]
        exact hconv.specFrom hlo hhi
    · rw [h, pure_bind]
      have hc := helems c hc
      exact Spec.specFrom (Spec.pure (within_whole hc.1 hc.2 hlo hhi hlen)) s
    · rw [h]
      exact trivial

theorem specFrom_peekUnchecked_typed (n : ℕ) (hwf : chunk.WF) (hconv : ConvertsWithin request limit)
    (h₀ : 0 ≤ iterator.position) (h₁ : iterator.position < chunk.getChunkLength) (hl : 0 < l)
    (hlim : l ≤ limit) :
    SpecFrom True s ((dispatch n).peekUnchecked chunk (some request) iterator l flags)
      (Within s limit) := by
  induction n generalizing chunk iterator with
  | zero => trivial
  | succ n ih =>
    change SpecFrom True s (peekUncheckedOf (dispatch n) chunk (some request) iterator l flags) _
    cases chunk with
    | empty header =>
      have h₁ : iterator.position < 0 := h₁
      omega
    | bits | bitCount | bytes | byteCount =>
      rw [peekUncheckedOf]
      exact specFrom_peekUncheckedWith hconv h₀ h₁ hl.ne' (by omega) hlim
        fun h => within_whole hwf (by omega) (by omega) hlim h.2
    | fields =>
      exact specFrom_fields hwf hconv h₀ h₁ hl.ne' (by omega) hlim fun _ _ => Or.inl hl
    | slice header sliced offset length =>
      obtain ⟨hs, ho, hlen, hle⟩ := hwf
      have h₁ : iterator.position < length := h₁
      rw [peekUncheckedOf, SliceChunk.peekUnchecked, checkUsage,
        if_pos ⟨h₀, by simp only [getChunkLength]; omega⟩, pure_bind,
        if_neg (by simp only [getChunkLength]; omega)]
      rw [if_neg (show ¬ l < 0 by omega)]
      split_ifs with hw hthis
      · exact Spec.specFrom (Spec.pure (within_whole hs (by omega) (by omega) hlim (by omega))) s
      · exact Spec.specFrom (Spec.pure (within_whole
          (show (slice header sliced offset length).WF from ⟨hs, ho, hlen, hle⟩)
          (by simp only [getChunkLength]; omega) (by omega) hlim
          hthis.1.2)) s
      · exact ih hs (by simp only [Iterator.forward]; omega)
          (by simp only [Iterator.forward]; omega)
    | sequence header chunks =>
      refine specFrom_sequence hwf hconv h₀ h₁ hl.ne' (by omega) hlim fun as c bs hsplit ha₀ ha₁ =>
        ?_
      have hc : c ∈ chunks := by
        have : c ∈ if iterator.isForward then chunks else chunks.reverse := by rw [hsplit]; simp
        split_ifs at this
        · exact this
        · exact List.mem_reverse.1 this
      exact ih ((wf_sequence _ _).1 hwf c hc).1 (by dsimp only; omega) (by dsimp only; omega)

theorem typedWithinIn_append {predicate : Option Chunk → Bool} {as bs : List Chunk} {p : ℤ}
    (hpos : ∀ c ∈ as, 0 < c.getChunkLength) (h₀ : (as.map getChunkLength).sum ≤ p)
    (h₁ : p < (as.map getChunkLength).sum + chunk.getChunkLength) :
    TypedWithinIn predicate (as ++ chunk :: bs) p m limit ↔
      chunk.TypedWithin predicate (p - (as.map getChunkLength).sum) m limit :=
  SequenceChunk.locate_append (F := fun cs p => TypedWithinIn predicate cs p m limit)
    (G := fun c p => c.TypedWithin predicate p m limit) (fun c cs p => by rw [TypedWithinIn]) hpos
    h₀ h₁

theorem specFrom_peekUnchecked_bounded (flags : PeekFlags) (n : ℕ) (hwf : chunk.WF)
    (hconv : ConvertsWithin request limit) (hf : iterator.isForward = true)
    (h₀ : 0 ≤ iterator.position) (h₁ : iterator.position < chunk.getChunkLength) (hm : 0 < m)
    (hlim : m ≤ limit) (hin : chunk.TypedWithin request.predicate iterator.position m limit) :
    SpecFrom True s ((dispatch n).peekUnchecked chunk (some request) iterator (-m) flags)
      (Within s limit) := by
  induction n generalizing chunk iterator m with
  | zero => trivial
  | succ n ih =>
    change SpecFrom True s (peekUncheckedOf (dispatch n) chunk (some request) iterator (-m) flags) _
    cases chunk with
    | empty header =>
      have h₁ : iterator.position < 0 := h₁
      omega
    | bits | bitCount | bytes | byteCount =>
      rw [peekUncheckedOf]
      exact specFrom_peekUncheckedWith hconv h₀ h₁ (by omega) (by omega) (by omega)
        fun h => within_whole hwf (by omega) (by omega) (by omega) h.2
    | fields =>
      exact specFrom_fields hwf hconv h₀ h₁ (by omega) (by omega) (by omega)
        fun hp hacc => Or.inr (by have := hin hp hacc; omega)
    | slice header sliced offset length =>
      obtain ⟨hs, ho, hlen, hle⟩ := hwf
      have h₁ : iterator.position < length := h₁
      rw [peekUncheckedOf, SliceChunk.peekUnchecked, checkUsage,
        if_pos ⟨h₀, by simp only [getChunkLength]; omega⟩, pure_bind,
        if_neg (by simp only [getChunkLength]; omega)]
      have hslice : (slice header sliced offset length).getChunkLength = length := rfl
      rw [if_pos (show -m < 0 by omega), neg_neg]
      split_ifs with hw hthis
      · exact Spec.specFrom (Spec.pure (within_whole (l := -m) hs (by omega) (by omega) (by omega)
          (by omega))) s
      · exact Spec.specFrom (Spec.pure (within_whole (l := -m)
          (show (slice header sliced offset length).WF from ⟨hs, ho, hlen, hle⟩) (by omega)
            (by omega) (by omega) (by omega))) s
      · rw [TypedWithin] at hin
        rw [hslice]
        have hpos : iterator.position + offset < sliced.getChunkLength := by omega
        split_ifs at hin with hlt
        · exact ih hs rfl (by simp only [Iterator.forward]; omega) hpos (by omega) (by omega) hin
        · by_cases he : offset = length
          · -- nothing is left of the bound
            rw [he, sub_self, min_eq_right hm.le, neg_zero]
            exact specFrom_peekUnchecked_zero n hconv.null (by omega)
          · rw [show -min m (length - offset) = offset - length by omega]
            exact specFrom_peekUnchecked_typed n hs hconv (by simp only [Iterator.forward]; omega)
              hpos (by omega) hin
    | sequence header chunks =>
      refine specFrom_sequence hwf hconv h₀ h₁ (by omega) (by omega) (by omega)
        fun as c bs hsplit ha₀ ha₁ => ?_
      have helems := (wf_sequence _ _).1 hwf
      rw [if_pos hf] at hsplit
      subst hsplit
      rw [TypedWithin, typedWithinIn_append (fun c hc => (helems c (by simp [hc])).2) ha₀
        ha₁] at hin
      exact ih (helems c (by simp)).1 hf (by dsimp only; omega) (by dsimp only; omega) hm hlim hin

/-- The result is a chunk of the given length. -/
def HasLength (l : ℤ) (result : Option Chunk) : Prop :=
  ∃ c, result = some c ∧ c.WF ∧ c.getChunkLength = l

theorem spec_hasLength {x : ChunkM (Option Chunk)} {p : ℤ} {cost : Chunk → Prop} (hwf : chunk.WF)
    (h : Spec True x fun r => ∃ c, r = some c ∧ Denotes False c (seg chunk.cells p l) ∧ cost c)
    (h₀ : 0 ≤ p) (h₁ : 0 < l) (h₂ : p + l ≤ chunk.getChunkLength) :
    Spec True x (HasLength l) := by
  refine h.mono id ?_
  rintro _ ⟨c, rfl, hd, -⟩
  refine ⟨c, rfl, hd.wf, ?_⟩
  rw [← hd.wf.length_cells, hd.cells_eq, length_seg h₀ h₁.le (by rw [hwf.length_cells]; exact h₂)]

theorem exists_convertedOffset (h₀ : 0 ≤ iterator.position) (h₁ : 0 ≤ l)
    (h₂ : iterator.position + l ≤ chunk.getChunkLength) :
    ∃ p, convertedOffset chunk iterator l = pure p ∧ 0 ≤ p ∧ p + l ≤ chunk.getChunkLength := by
  obtain ⟨isForward, position, index⟩ := iterator
  have h₀ : 0 ≤ position := h₀
  have h₂ : position + l ≤ chunk.getChunkLength := h₂
  cases isForward with
  | true => exact ⟨position, convertedOffset_forward chunk index, h₀, h₂⟩
  | false => exact ⟨_, convertedOffset_backward chunk h₁ index, by omega, by omega⟩

theorem spec_peekUnchecked_length (n : ℕ) (hwf : chunk.WF) (hi : iterator.index = -1)
    (h₀ : 0 ≤ iterator.position) (h₁ : 0 < l)
    (h₂ : iterator.position + l ≤ chunk.getChunkLength) (hn : chunk.size + 2 ≤ n) :
    Spec True ((dispatch n).peekUnchecked chunk none iterator l flags) (HasLength l) := by
  induction n generalizing chunk iterator with
  | zero => omega
  | succ n ih =>
    change Spec True (peekUncheckedOf (dispatch n) chunk none iterator l flags) _
    have hpart := partLength_of_nonneg (p := iterator.position) (L := chunk.getChunkLength) h₁.le
    by_cases hw : iterator.position = 0 ∧ l = chunk.getChunkLength
    · obtain ⟨hp, rfl⟩ := hw
      obtain ⟨isForward, position, index⟩ := iterator
      obtain rfl : position = 0 := hp
      rw [peekUnchecked_whole _ h₁]
      have hrep := (hwf.rep (k := False) (by simp)).whole.1
      refine Spec.pure ⟨chunk.whole, rfl, hrep.wf, ?_⟩
      rw [← hrep.wf.length_cells, cells_whole hwf, hwf.length_cells]
    · have hproper : Proper chunk iterator l := ⟨h₀, by omega, h₁.ne', by omega, by omega⟩
      obtain ⟨p, ho, hp, hle⟩ := exists_convertedOffset h₀ h₁.le h₂
      have hconv : Spec True (SliceChunk.peekConverted chunk iterator l) (HasLength l) :=
        spec_hasLength hwf (spec_peekConverted _ (k := False) hwf (by simp) ho hp h₁.le hle) hp h₁
          hle
      cases chunk with
      | empty header =>
        have h₂ : iterator.position + l ≤ 0 := h₂
        omega
      | bits header values =>
        have hspec := spec_peek_bits (k := False) True (dispatch n) hproper flags
        rw [hpart] at hspec
        exact spec_hasLength hwf hspec h₀ h₁ h₂
      | bitCount header count data =>
        have hspec :=
          spec_peek_bitCount (k := False) True (dispatch n) hproper flags
        rw [hpart] at hspec
        exact spec_hasLength hwf hspec h₀ h₁ h₂
      | bytes header values =>
        by_cases ha : iterator.position % 8 = 0 ∧ l % 8 = 0
        · have hspec := spec_peek_bytes (k := False) True (dispatch n) hproper
            ha.1 (Or.inr ha.2) (by rw [hpart]; exact ha.2) flags
          rw [hpart] at hspec
          exact spec_hasLength hwf hspec h₀ h₁ h₂
        · rw [peekUncheckedOf, BytesChunk.peekUnchecked, hproper.peekUncheckedWith,
            if_neg (by omega)]
          exact hconv
      | byteCount header count data =>
        by_cases ha : iterator.position % 8 = 0 ∧ l % 8 = 0
        · have hspec := spec_peek_byteCount (k := False) True (dispatch n) hwf
            hproper ha.1 (Or.inr ha.2) (by rw [hpart]; exact ha.2) flags
          rw [hpart] at hspec
          exact spec_hasLength hwf hspec h₀ h₁ h₂
        · rw [peekUncheckedOf, ByteCountChunk.peekUnchecked, hproper.peekUncheckedWith,
            if_neg (by omega)]
          exact hconv
      | fields header chunkLength type serialized =>
        rw [peekUncheckedOf, FieldsChunk.peekUnchecked, hproper.check, pure_bind,
          if_neg (by omega), if_neg (fun hw => hproper.not_whole hw.1)]
        exact hconv
      | slice header sliced offset length =>
        obtain ⟨hs, hoffset, -, hend⟩ := hwf
        have h₂ : iterator.position + l ≤ length := h₂
        rw [size] at hn
        rw [peekUncheckedOf, SliceChunk.peekUnchecked, hproper.check, pure_bind,
          if_neg (by omega), if_neg (fun hw => hproper.not_whole hw.1),
          if_neg (fun hw => hproper.not_whole hw.1), if_neg (by omega)]
        exact ih hs rfl (add_nonneg h₀ hoffset) (by simp only [Iterator.forward]; omega) (by omega)
      | sequence header elements =>
        have helems := (wf_sequence _ _).1 hwf
        rw [size] at hn
        rw [peekUncheckedOf, SequenceChunk.peekUnchecked, hproper.check, pure_bind,
          if_neg (by omega), if_neg (fun hw => hproper.not_whole ⟨hw.1.1, Or.inr hw.1.2⟩),
          SequenceChunk.peekIndexed_neg_one hi, pure_bind]
        dsimp only
        have hlt := hproper.lt
        have hsum : (sequence header elements).getChunkLength =
            ((if iterator.isForward then elements else elements.reverse).map
              getChunkLength).sum := by
          rw [getChunkLength_sequence]
          split_ifs
          · rfl
          · rw [List.map_reverse, List.sum_reverse]
        have hmem : ∀ c ∈ if iterator.isForward then elements else elements.reverse,
            c ∈ elements := by
          intro c hc
          split_ifs at hc
          · exact hc
          · exact List.mem_reverse.1 hc
        rw [hsum] at hlt
        obtain ⟨as, c, bs, hsplit, ha₀, ha₁⟩ :=
          exists_append_cons_of_lt_sum (f := getChunkLength) (s := 0) h₀
            (by rw [zero_add]; exact hlt)
        rw [zero_add] at ha₀ ha₁
        rw [hsplit] at hmem ⊢
        have hc := hmem c (by simp)
        have hcs := size_le_sumSizes hc
        rw [SequenceChunk.peekElements_eq (fun c hc => (helems c (hmem c hc)).2) ha₀ ha₁]
        split_ifs with hwhole hinside
        · rw [pure_bind]
          exact Spec.pure ⟨c, rfl, (helems c hc).1, by have := (helems c hc).2; omega⟩
        · rw [bind_assoc]
          refine (ih (helems c hc).1 rfl (by dsimp only; omega) (by dsimp only; omega)
            (by omega)).bind fun r hr => ?_
          exact Spec.pure hr
        · simp only [pure_bind, ho]
          refine ((spec_convertChunk (k := False) (dispatch_ok n).1 (dispatch_ok n).2 hwf (by simp)
            hp h₁ hle (by omega)).mono (by simp) fun c hc => hc).bind ?_
          rintro c ⟨hrep, -⟩
          refine Spec.pure ⟨c, rfl, hrep.wf, ?_⟩
          rw [hrep.length_eq, length_seg hp h₁.le (by rw [hwf.length_cells]; exact hle)]

end Chunk

end Inet
