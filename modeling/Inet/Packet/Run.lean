import Inet.Chunk.Within
import Inet.Packet.Erase
import Inet.Packet.Insert

/-! # Runs of a packet

What every sequence of operations on an initially empty packet keeps. The
operations that change the content leave the index of an iterator as it is, so
it must not be known when they are called, unless the iterator is moved back.
-/

namespace Inet

open Chunk Outcome

namespace Chunk

variable {s : ℕ} {limit l : ℤ} {chunk : Chunk} {iterator : Iterator} {flags : PeekFlags}

/-- A peek of a given length or with a bound returns at most `limit` bits. -/
def PeekFits (this : Chunk) (request : Option PeekRequest) (p l limit : ℤ) : Prop :=
  match request with
  | none => l < 0 → this.BoundedFits p (-l) limit
  | some request =>
    ConvertsWithin request limit ∧ (l < 0 → this.TypedWithin request.predicate p (-l) limit)

theorem specFrom_peekAny_of_unchecked {request : Option PeekRequest}
    (h : SpecFrom True s ((dispatch (chunk.size + 2)).peekUnchecked chunk request iterator l flags)
      (Within s limit)) :
    SpecFrom True s (chunk.peekAny request iterator l flags) (Within s limit) := by
  have hcheck : ∀ r, Within s limit r → Spec True (checkPeekResult r flags) (Within s limit) :=
    fun r hr => (spec_checkPeekResult_eq r flags).mono id fun r' hr' => hr' ▸ hr
  cases request with
  | none => exact h.bind hcheck
  | some request =>
    change SpecFrom True s (do
      checkUsage (flags.allowEmpty = false) _
      let result ← (dispatch (chunk.size + 2)).peekUnchecked chunk (some request) iterator l flags
      checkPeekResult result flags) _
    rw [checkUsage]
    split_ifs
    · rw [pure_bind]
      exact h.bind hcheck
    · trivial

theorem specFrom_peekAny {request : Option PeekRequest} (hwf : chunk.WF)
    (hc : chunk.Consistent iterator) (h₀ : 0 ≤ iterator.position)
    (hend : 0 ≤ l → iterator.position + l ≤ chunk.getChunkLength)
    (hbound : l < 0 → iterator.isForward = true ∧ iterator.position < chunk.getChunkLength)
    (hlo : -limit ≤ l) (hhi : l ≤ limit)
    (hfits : chunk.PeekFits request iterator.position l limit) :
    SpecFrom True s (chunk.peekAny request iterator l flags) (Within s limit) := by
  refine specFrom_peekAny_of_unchecked ?_
  have hi : (dispatch (chunk.size + 2)).peekUnchecked chunk none iterator l flags =
      (dispatch (chunk.size + 2)).peekUnchecked chunk none { iterator with index := -1 } l flags :=
    peekUncheckedOf_index hwf hc l flags
  rcases lt_trichotomy l 0 with hl | rfl | hl
  · obtain ⟨hf, hlt⟩ := hbound hl
    cases request with
    | none =>
      have hspec := (boundedOk _ False chunk iterator.position (-l) limit flags hwf (by simp) h₀ hlt
        (by omega) (hfits hl) le_rfl).specFrom s
      rw [hi, hf]
      rw [neg_neg, not_false_eq_true] at hspec
      refine hspec.mono ?_
      rintro _ ⟨c, n, rfl, hn, hle, hin, hd⟩
      have hlen : c.getChunkLength = n := by
        rw [← hd.wf.length_cells, hd.cells_eq,
          length_seg h₀ hn.le (by rw [hwf.length_cells]; exact hin)]
      exact within_of_wf hd.wf (by omega) (by omega)
    | some request =>
      have hspec := specFrom_peekUnchecked_bounded (s := s) (m := -l) flags
        (chunk.size + 2) hwf hfits.1 hf h₀ hlt (by omega) (by omega) (hfits.2 hl)
      rwa [neg_neg] at hspec
  · cases request with
    | none => exact specFrom_peekUnchecked_zero _ rfl (by omega)
    | some request => exact specFrom_peekUnchecked_zero _ hfits.1.null (by omega)
  · have hend := hend hl.le
    cases request with
    | none =>
      rw [hi]
      refine ((spec_peekUnchecked_length _ hwf
        (show ({ iterator with index := -1 } : Iterator).index = -1 from rfl) h₀ hl hend
          le_rfl).specFrom s).mono ?_
      rintro _ ⟨c, rfl, hcwf, hlen⟩
      exact within_of_wf hcwf (by omega) (by omega)
    | some request =>
      exact specFrom_peekUnchecked_typed _ hwf hfits.1 h₀ (by omega) hl hhi

end Chunk

namespace Packet

/-- The operations that change a packet. -/
inductive Operation where
  | insertAt (chunk : Chunk) (offset : ℤ)
  | insertAtFront (chunk : Chunk)
  | insertAtBack (chunk : Chunk)
  | popAtFront (request : Option PeekRequest) (length : ℤ) (flags : PeekFlags)
  | popAtBack (request : Option PeekRequest) (length : ℤ) (flags : PeekFlags)
  | setFrontOffset (offset : ℤ)
  | setBackOffset (offset : ℤ)
  | eraseAt (offset length : ℤ)
  | replaceAt (request : Option PeekRequest) (chunk : Chunk) (offset length : ℤ) (flags : PeekFlags)
  | updateAt (request : Option PeekRequest) (f : Chunk → ChunkM Chunk) (offset length : ℤ)
    (flags : PeekFlags)

/-- The packet after an operation. -/
def apply (this : Packet) : Operation → ChunkM Packet
  | .insertAt chunk offset => this.insertAt chunk offset
  | .insertAtFront chunk => this.insertAtFront chunk
  | .insertAtBack chunk => this.insertAtBack chunk
  | .popAtFront request length flags => Prod.snd <$> this.popAtFront request length flags
  | .popAtBack request length flags => Prod.snd <$> this.popAtBack request length flags
  | .setFrontOffset offset => this.setFrontOffset offset
  | .setBackOffset offset => this.setBackOffset offset
  | .eraseAt offset length => this.eraseAt offset length
  | .replaceAt request chunk offset length flags =>
    Prod.snd <$> this.replaceAt request chunk offset length flags
  | .updateAt request f offset length flags => this.updateAt request f offset length flags

/-- The packets that are reached, with the next id, by operations that are allowed where they are
applied and that return. -/
inductive Reachable (allowed : Packet → Operation → Prop) : Packet → ℕ → Prop
  | new {packet : Packet} {s s' : ℕ} (h : Packet.new.run s = .ok (packet, s')) :
    Reachable allowed packet s'
  | step {packet packet' : Packet} {s s' : ℕ} (operation : Operation)
    (hreach : Reachable allowed packet s) (hallowed : allowed packet operation)
    (h : (packet.apply operation).run s = .ok (packet', s')) : Reachable allowed packet' s'

/-- The arguments are chunks, and the function of an update makes a chunk of a chunk. -/
def Operation.Valid : Operation → Prop
  | .insertAt chunk _ | .insertAtFront chunk | .insertAtBack chunk => chunk.WF
  | .replaceAt _ chunk _ _ _ => chunk.WF
  | .updateAt _ f _ _ _ => ∀ c : Chunk, c.WF → Spec True (f c) Chunk.WF
  | _ => True

/-- The operation does not change the content under an iterator whose index is known, does not erase
another length than it counts, and does not take more than there is. -/
def Operation.Safe (this : Packet) : Operation → Prop
  | .insertAt .. | .insertAtFront .. | .insertAtBack .. =>
    Unindexed this.frontIterator ∧ Unindexed this.backIterator
  | .popAtFront request length _ =>
    this.content.PeekFits request this.frontIterator.position
      (if length = -1 then -this.getDataLength else length) this.getDataLength
  | .popAtBack request length _ =>
    this.content.PeekFits request this.backIterator.position length this.getDataLength
  | .setFrontOffset _ | .setBackOffset _ => True
  | .eraseAt offset length =>
    0 ≤ length ∧ (this.RemovesInside offset length → offset = length) ∧
      (Unindexed this.frontIterator ∨ offset < this.getFrontOffset) ∧
      (Unindexed this.backIterator ∨ this.getBackOffset < offset + length)
  | .replaceAt request _ offset length _ | .updateAt request _ offset length _ =>
    Unindexed this.frontIterator ∧ Unindexed this.backIterator ∧
      this.content.PeekFits request offset
        (if length = -1 then -(this.getTotalLength - offset) else length)
        (this.getTotalLength - offset)

variable {this : Packet}

theorem iteratorConsistent_of_unindexed {content content' : Chunk} {iterator : Iterator}
    (h : content.IteratorConsistent iterator) (hu : Unindexed iterator) :
    content'.IteratorConsistent iterator := by
  rcases hu with hu | hu
  · exact Or.inl hu
  · exact iteratorConsistent_zero h hu

/-- The packet is consistent and its content can be extended. -/
structure Invariant (this : Packet) : Prop where
  consistent : this.Consistent
  extensible : this.content.Extensible

theorem Edited.invariant {packet : Packet} {xs : List Cell} {front back : ℤ} {k : Prop}
    (h : Edited k this packet xs front back)
    (hf : Unindexed this.frontIterator ∨ front < this.frontIterator.position)
    (hb : Unindexed this.backIterator ∨ back < this.backIterator.position)
    (h₀ : 0 ≤ front) (h₁ : 0 ≤ back) (h₂ : front + back ≤ xs.length) : packet.Invariant := by
  have hfront : packet.frontIterator.position = front := h.front_eq
  have hback := h.back_eq
  have htotal := h.total_eq
  have hbo : packet.getBackOffset = packet.getTotalLength - packet.backIterator.position := rfl
  refine ⟨⟨h.rep.wf, by rw [h.rep.length_eq, htotal], h.isForward, h.isBackward, ?_, ?_, ?_,
    h.front_index ?_, h.back_index ?_⟩, h.extensible⟩
  · rw [getFrontOffset]
    omega
  · rw [getFrontOffset]
    omega
  · omega
  · rw [hfront]
    exact hf
  · rw [hback]
    exact hb

theorem Invariant.withFrontIterator (h : this.Invariant) {iterator : Iterator}
    (hforward : iterator.isForward = this.frontIterator.isForward) (h₀ : 0 ≤ iterator.position)
    (h₁ : iterator.position ≤ this.getBackOffset)
    (hindex : this.content.IteratorConsistent iterator) :
    Invariant { this with frontIterator := iterator } where
  consistent := { h.consistent with
    isForward := hforward.trans h.consistent.isForward
    front_nonneg := h₀
    front_le_back := h₁
    front_index := hindex }
  extensible := h.extensible

theorem Invariant.withBackIterator (h : this.Invariant) {iterator : Iterator}
    (hforward : iterator.isForward = this.backIterator.isForward) (h₀ : 0 ≤ iterator.position)
    (h₁ : this.getFrontOffset ≤ this.getTotalLength - iterator.position)
    (hindex : this.content.IteratorConsistent iterator) :
    Invariant { this with backIterator := iterator } where
  consistent := { h.consistent with
    isBackward := hforward.trans h.consistent.isBackward
    front_le_back := h₁
    back_le := Int.sub_le_self _ h₀
    back_index := hindex }
  extensible := h.extensible

theorem spec_new : Spec True Packet.new Invariant := by
  refine (spec_newHeader).bind fun header _ => Spec.pure ⟨?_, trivial⟩
  exact ⟨trivial, rfl, rfl, rfl, le_rfl, le_rfl, le_rfl, Or.inr rfl, Or.inr rfl⟩

theorem spec_checkUsage_bind {α : Type} {cond : Prop} [Decidable cond] {message : String}
    {f : Unit → ChunkM α} {post : α → Prop} (h : cond → Spec True (f ()) post) :
    Spec True (checkUsage cond message >>= f) post := by
  unfold checkUsage
  split_ifs with hc
  · exact h hc
  · exact Spec.throw trivial

section Steps

variable {request : Option PeekRequest} {chunk : Chunk} {offset length : ℤ} {flags : PeekFlags}

theorem Invariant.spec_insertAt (h : this.Invariant) (hwf : chunk.WF)
    (hf : Unindexed this.frontIterator) (hb : Unindexed this.backIterator) (offset : ℤ) :
    Spec True (this.insertAt chunk offset) Invariant := by
  by_cases hpos : 0 < chunk.getChunkLength
  · by_cases hrange : 0 ≤ offset ∧ offset ≤ this.getTotalLength
    · refine (Packet.spec_insertAt (k := False) h.consistent h.extensible (by simp) hwf hpos
        (by simp)
        hrange.1 hrange.2 (by simp) (by simp)).mono (by simp) fun packet hedit => ?_
      have hlen := length_insertedCells offset h.consistent.wf hwf
        (by rw [h.consistent.length_eq]; exact hrange.2)
      have hcells := h.consistent.wf.length_cells
      have hclen := hwf.length_cells
      have hl := h.consistent.length_eq
      have h₀ := h.consistent.front_nonneg
      have h₁ := h.consistent.front_le_back
      have h₂ := h.consistent.back_le
      have hbo : this.getBackOffset = this.getTotalLength - this.backIterator.position := rfl
      refine hedit.invariant (Or.inl hf) (Or.inl hb) ?_ ?_ ?_
      all_goals split_ifs <;> omega
    · unfold Packet.insertAt
      exact spec_checkUsage_bind fun _ => spec_checkUsage_bind fun h => absurd h hrange
  · unfold Packet.insertAt
    exact spec_checkUsage_bind fun h => absurd h hpos

theorem Invariant.spec_eraseAt (h : this.Invariant) (h₀ : 0 ≤ length)
    (hin : this.RemovesInside offset length → offset = length)
    (hf : Unindexed this.frontIterator ∨ offset < this.getFrontOffset)
    (hb : Unindexed this.backIterator ∨ this.getBackOffset < offset + length) :
    Spec True (this.eraseAt offset length) Invariant := by
  by_cases ho : 0 ≤ offset ∧ offset ≤ this.getTotalLength
  · by_cases hl : -1 ≤ length ∧ offset + length ≤ this.getTotalLength
    · refine (Packet.spec_eraseAt (k := False) h.consistent (by simp) ho.1 h₀ hl.2 hin (by simp)
        (by simp)).mono (by simp) fun packet hedit => ?_
      have hcells := h.consistent.wf.length_cells
      have hlen := h.consistent.length_eq
      have hxs := length_eraseElements this.content.cells ho.1 h₀ (by omega)
      have h₁ := h.consistent.front_nonneg
      have h₂ := h.consistent.front_le_back
      have h₃ := h.consistent.back_le
      have hbo : this.getBackOffset = this.getTotalLength - this.backIterator.position := rfl
      have hfo : this.getFrontOffset = this.frontIterator.position := rfl
      exact hedit.invariant (hf.imp_right (by omega)) (hb.imp_right (by omega)) (by omega)
        (by omega)
        (by omega)
    · unfold Packet.eraseAt
      exact spec_checkUsage_bind fun _ => spec_checkUsage_bind fun h => absurd h hl
  · unfold Packet.eraseAt
    exact spec_checkUsage_bind fun h => absurd h ho

theorem Invariant.spec_setFrontOffset (h : this.Invariant) (offset : ℤ) :
    Spec True (this.setFrontOffset offset) Invariant := by
  refine spec_checkUsage_bind fun ho => ?_
  have hl := h.consistent.length_eq
  have hble := h.consistent.back_le
  have hbo : this.getBackOffset = this.getTotalLength - this.backIterator.position := rfl
  refine (spec_seekIterator offset ho.1 (by omega)).bind ?_
  rintro iterator ⟨hforward, hposition, hindex⟩
  exact Spec.pure (h.withFrontIterator hforward (by omega) (by omega) hindex)

theorem Invariant.spec_setBackOffset (h : this.Invariant) (offset : ℤ) :
    Spec True (this.setBackOffset offset) Invariant := by
  refine spec_checkUsage_bind fun ho => ?_
  have hl := h.consistent.length_eq
  have h₀ : 0 ≤ this.frontIterator.position := h.consistent.front_nonneg
  refine (spec_seekIterator (this.getTotalLength - offset) (by omega) (by omega)).bind ?_
  rintro iterator ⟨hforward, hposition, hindex⟩
  exact Spec.pure (h.withBackIterator hforward (by omega) (by rw [getFrontOffset]; omega) hindex)

theorem Invariant.spec_popAtFront (h : this.Invariant)
    (hfits : this.content.PeekFits request this.frontIterator.position
      (if length = -1 then -this.getDataLength else length) this.getDataLength) :
    Spec True (this.popAtFront request length flags) fun r => r.2.Invariant := by
  have h₀ : 0 ≤ this.frontIterator.position := h.consistent.front_nonneg
  have h₁ := h.consistent.front_le_back
  have h₂ := h.consistent.back_le
  have hl := h.consistent.length_eq
  have hbo : this.getBackOffset = this.getTotalLength - this.backIterator.position := rfl
  have hfo : this.getFrontOffset = this.frontIterator.position := rfl
  have hdata : this.getDataLength = this.getTotalLength - this.frontIterator.position -
    this.backIterator.position := rfl
  have hpeek : Spec True (this.peekAtFront request length flags) fun r =>
      ∀ c, r = some c → 0 ≤ c.getChunkLength ∧ c.getChunkLength ≤ this.getDataLength := by
    refine spec_checkUsage_bind fun hlen => ?_
    intro s
    refine (specFrom_peekAny (s := s) h.consistent.wf
      h.consistent.front_index.consistent h₀ ?_ ?_ ?_ ?_ hfits).mono fun r hr c hc =>
        ⟨(hr c hc).1, (hr c hc).2.1⟩
    · split_ifs <;> omega
    · exact fun hneg => ⟨h.consistent.isForward, by split_ifs at hneg <;> omega⟩
    · split_ifs <;> omega
    · split_ifs <;> omega
  unfold popAtFront
  refine spec_checkUsage_bind fun _ => hpeek.bind fun r hr => ?_
  cases r with
  | none => exact Spec.pure h
  | some c =>
    obtain ⟨hc₀, hc₁⟩ := hr c rfl
    refine (spec_moveIterator h.consistent.wf h.consistent.front_index _).bind ?_
    rintro iterator ⟨hforward, hposition, hindex⟩
    exact Spec.pure (h.withFrontIterator hforward (by omega) (by omega) hindex)

theorem Invariant.spec_popAtBack (h : this.Invariant)
    (hfits : this.content.PeekFits request this.backIterator.position length this.getDataLength) :
    Spec True (this.popAtBack request length flags) fun r => r.2.Invariant := by
  have h₀ : 0 ≤ this.frontIterator.position := h.consistent.front_nonneg
  have h₁ := h.consistent.front_le_back
  have h₂ := h.consistent.back_le
  have hl := h.consistent.length_eq
  have hbo : this.getBackOffset = this.getTotalLength - this.backIterator.position := rfl
  have hfo : this.getFrontOffset = this.frontIterator.position := rfl
  have hdata : this.getDataLength = this.getTotalLength - this.frontIterator.position -
    this.backIterator.position := rfl
  have hpeek : Spec True (this.peekAtBack request length flags) fun r =>
      ∀ c, r = some c → 0 ≤ c.getChunkLength ∧ c.getChunkLength ≤ this.getDataLength := by
    refine spec_checkUsage_bind fun hlen => ?_
    intro s
    exact (specFrom_peekAny (s := s) h.consistent.wf
      h.consistent.back_index.consistent (by omega) (by omega) (by omega) (by omega) (by omega)
      hfits).mono fun r hr c hc => ⟨(hr c hc).1, (hr c hc).2.1⟩
  unfold popAtBack
  refine spec_checkUsage_bind fun _ => hpeek.bind fun r hr => ?_
  cases r with
  | none => exact Spec.pure h
  | some c =>
    obtain ⟨hc₀, hc₁⟩ := hr c rfl
    refine (spec_moveIterator h.consistent.wf h.consistent.back_index _).bind ?_
    rintro iterator ⟨hforward, hposition, hindex⟩
    exact Spec.pure (h.withBackIterator hforward (by omega) (by omega) hindex)

theorem Invariant.withContent (h : this.Invariant) (hf : Unindexed this.frontIterator)
    (hb : Unindexed this.backIterator) {content : Chunk} (hwf : content.WF)
    (hlen : content.getChunkLength = this.getTotalLength) (hext : content.Extensible) :
    Invariant { this with content := content } where
  consistent := { h.consistent with
    wf := hwf
    length_eq := hlen
    front_index := iteratorConsistent_of_unindexed h.consistent.front_index hf
    back_index := iteratorConsistent_of_unindexed h.consistent.back_index hb }
  extensible := hext

theorem Invariant.spec_partAt (h : this.Invariant) (h₀ : 0 ≤ offset) (h₁ : 0 ≤ length)
    (h₂ : offset + length ≤ this.getTotalLength) :
    Spec True (this.partAt offset length) fun parts => ∃ xss : List (List Cell),
      List.Forall₂ (fun c xs => Rep False c xs ∧ 0 < c.getChunkLength) parts xss ∧
        (xss.flatten.length : ℤ) = length := by
  unfold partAt
  split_ifs with hl
  · have hcells : (this.content.cells.length : ℤ) = this.getTotalLength := by
      rw [h.consistent.wf.length_cells, h.consistent.length_eq]
    have hpeek : this.peekAt none offset length {} =
        this.content.peek ⟨true, offset, -1⟩ length {} := by
      unfold peekAt
      dsimp only
      rw [checkUsage, if_pos ⟨h₀, by omega⟩, pure_bind, checkUsage, if_pos ⟨by omega, h₂⟩,
        pure_bind,
        if_neg (by omega)]
      rfl
    rw [hpeek, ← bind_assoc]
    refine ((spec_peek_deref (k := False) h.consistent.wf (by simp) rfl (Or.inl rfl) h₀ hl
      (by rw [h.consistent.length_eq]; exact h₂) {}).mono (by simp) fun c hc => hc).bind fun c hc =>
        ?_
    refine Spec.pure ⟨[_], List.Forall₂.cons hc List.Forall₂.nil, ?_⟩
    rw [List.flatten_singleton, length_seg h₀ h₁ (by rw [hcells]; exact h₂)]
  · exact Spec.pure ⟨[], List.Forall₂.nil, by rw [List.flatten_nil, List.length_nil]; omega⟩

theorem Invariant.spec_sequenceOf (h : this.Invariant) (hf : Unindexed this.frontIterator)
    (hb : Unindexed this.backIterator) (hwf : chunk.WF) (hpos : 0 < chunk.getChunkLength)
    {front back : List Chunk} {xss yss : List (List Cell)}
    (hfront : List.Forall₂ (fun c xs => Rep False c xs ∧ 0 < c.getChunkLength) front xss)
    (hback : List.Forall₂ (fun c xs => Rep False c xs ∧ 0 < c.getChunkLength) back yss)
    (hlen : (xss.flatten.length : ℤ) + chunk.getChunkLength + yss.flatten.length =
      this.getTotalLength) :
    Spec True (sequenceOf (front ++ chunk :: back)) fun content =>
      Invariant { this with content := content } := by
  have hparts := List.rel_append hfront
    (List.Forall₂.cons ⟨hwf.rep (k := False) (by simp), hpos⟩ hback)
  refine (Packet.spec_sequenceOf hparts).mono (by simp) ?_
  rintro content ⟨hrep, header, chunks, rfl⟩
  refine h.withContent hf hb hrep.wf ?_ trivial
  have hclen := hwf.length_cells
  rw [hrep.length_eq, List.flatten_append, List.flatten_cons, List.length_append,
    List.length_append]
  push_cast
  omega

theorem Invariant.specFrom_peekAt (h : this.Invariant) {s : ℕ} (h₀ : 0 ≤ offset)
    (hl : -1 ≤ length ∧ offset + length ≤ this.getTotalLength)
    (hfits : this.content.PeekFits request offset
      (if length = -1 then -(this.getTotalLength - offset) else length)
      (this.getTotalLength - offset)) (ho : offset ≤ this.getTotalLength) :
    SpecFrom True s (this.peekAt request offset length flags)
      (Within s (this.getTotalLength - offset)) := by
  have hlen := h.consistent.length_eq
  unfold peekAt
  dsimp only
  rw [checkUsage, if_pos ⟨h₀, ho⟩, pure_bind, checkUsage, if_pos hl, pure_bind]
  refine specFrom_peekAny h.consistent.wf (Or.inl rfl) h₀ ?_ ?_ ?_ ?_ hfits
  · dsimp only
    split_ifs <;> omega
  · exact fun hneg => ⟨rfl, by dsimp only; split_ifs at hneg <;> omega⟩
  · split_ifs <;> omega
  · split_ifs <;> omega

theorem Invariant.spec_replaceAt (h : this.Invariant) (hwf : chunk.WF)
    (hf : Unindexed this.frontIterator) (hb : Unindexed this.backIterator)
    (hfits : this.content.PeekFits request offset
      (if length = -1 then -(this.getTotalLength - offset) else length)
      (this.getTotalLength - offset)) :
    Spec True (this.replaceAt request chunk offset length flags) fun r => r.2.Invariant := by
  refine spec_checkUsage_bind fun hpos => spec_checkUsage_bind fun ho => ?_
  refine spec_checkUsage_bind fun hl s => ?_
  refine (h.specFrom_peekAt ho.1 hl hfits ho.2).bind fun old hold => ?_
  cases old with
  | none => exact Spec.throw trivial
  | some old =>
    obtain ⟨hold₀, hold₁, -⟩ := hold old rfl
    rw [deref, pure_bind]
    refine (h.spec_partAt le_rfl ho.1 (by omega)).bind ?_
    rintro front ⟨xss, hfront, hxss⟩
    refine (h.spec_partAt (by omega) (by omega) (by omega)).bind ?_
    rintro back ⟨yss, hback, hyss⟩
    refine (spec_true _).bind fun result _ => spec_checkUsage_bind fun hsame => ?_
    split_ifs with hall
    · exact Spec.pure (h.withContent hf hb hwf (by omega) (extensible_of_pos hpos))
    · refine (h.spec_sequenceOf hf hb hwf hpos hfront hback (by omega)).bind fun content hc => ?_
      exact Spec.pure hc

theorem Invariant.spec_updateAt (h : this.Invariant) {f : Chunk → ChunkM Chunk}
    (hupdate : ∀ c : Chunk, c.WF → Spec True (f c) Chunk.WF)
    (hf : Unindexed this.frontIterator) (hb : Unindexed this.backIterator)
    (hfits : this.content.PeekFits request offset
      (if length = -1 then -(this.getTotalLength - offset) else length)
      (this.getTotalLength - offset)) :
    Spec True (this.updateAt request f offset length flags) Invariant := by
  refine spec_checkUsage_bind fun ho => spec_checkUsage_bind fun hl s => SpecFrom.get_bind ?_
  refine (h.specFrom_peekAt ho.1 hl hfits ho.2).bind fun old hold => ?_
  cases old with
  | none => exact Spec.throw trivial
  | some old =>
    obtain ⟨hold₀, hold₁, hnew⟩ := hold old rfl
    rw [deref, pure_bind]
    dsimp only
    by_cases hshared : old.header.id < s
    · -- a shared chunk is a part of the content, and its copy takes its place
      obtain ⟨hwf, hpos⟩ := hnew.resolve_right (by omega)
      rw [mutableCopy, if_pos (by simpa using hshared)]
      refine (spec_makeExclusivelyOwnedMutableChunk old).bind ?_
      rintro _ ⟨newId, rfl⟩
      refine (hupdate _ ((wf_withHeader _ _).2 hwf)).bind fun chunk hc => ?_
      refine spec_checkUsage_bind fun hsame => ?_
      rw [if_pos hshared]
      refine (h.spec_partAt le_rfl ho.1 (by omega)).bind ?_
      rintro front ⟨xss, hfront, hxss⟩
      refine (h.spec_partAt (by omega) (by omega) (by omega)).bind ?_
      rintro back ⟨yss, hback, hyss⟩
      refine (h.spec_sequenceOf hf hb hc (by omega) hfront hback (by omega)).bind fun content hc =>
        ?_
      exact Spec.pure hc
    · refine (spec_true _).bind fun copy _ => (spec_true _).bind fun chunk _ => ?_
      refine spec_checkUsage_bind fun hsame => ?_
      rw [if_neg hshared]
      exact Spec.pure h

end Steps

/-- Every operation keeps the invariant. -/
theorem Invariant.spec_apply (h : this.Invariant) {operation : Operation}
    (hvalid : operation.Valid) (hsafe : operation.Safe this) :
    Spec True (this.apply operation) Invariant := by
  cases operation with
  | insertAt chunk offset => exact h.spec_insertAt hvalid hsafe.1 hsafe.2 offset
  | insertAtFront chunk => exact h.spec_insertAt hvalid hsafe.1 hsafe.2 _
  | insertAtBack chunk => exact h.spec_insertAt hvalid hsafe.1 hsafe.2 _
  | popAtFront request length flags => exact (h.spec_popAtFront hsafe).map
  | popAtBack request length flags => exact (h.spec_popAtBack hsafe).map
  | setFrontOffset offset => exact h.spec_setFrontOffset offset
  | setBackOffset offset => exact h.spec_setBackOffset offset
  | eraseAt offset length =>
    obtain ⟨h₀, hin, hf, hb⟩ := hsafe
    exact h.spec_eraseAt h₀ hin hf hb
  | replaceAt request chunk offset length flags =>
    obtain ⟨hf, hb, hfits⟩ := hsafe
    exact (h.spec_replaceAt hvalid hf hb hfits).map
  | updateAt request f offset length flags =>
    obtain ⟨hf, hb, hfits⟩ := hsafe
    exact h.spec_updateAt hvalid hf hb hfits

/-- The invariant holds in every packet that is reached. -/
theorem Reachable.invariant {packet : Packet} {s : ℕ}
    (h : Reachable (fun packet operation => operation.Valid ∧ operation.Safe packet) packet s) :
    packet.Invariant := by
  induction h with
  | @new packet s s' h =>
    have hspec := spec_new s
    rwa [h] at hspec
  | @step packet packet' s s' operation _ hallowed h ih =>
    have hspec := ih.spec_apply hallowed.1 hallowed.2 s
    rwa [h] at hspec

/-- `peekAtFront` without a length returns bits from the front offset on. -/
def PeeksFront (this : Packet) : Prop :=
  Returns (this.peekAtFront none (-1) {}) fun result =>
    ∃ part, result = some part ∧ 0 < part.getChunkLength ∧
      part.toBits = seg this.content.toBits this.getFrontOffset part.getChunkLength

theorem Invariant.peeksFront (h : this.Invariant) (hc : this.content.Clean)
    (hpos : 0 < this.getDataLength)
    (hfits : this.content.BoundedFits this.getFrontOffset this.getDataLength this.getDataLength) :
    this.PeeksFront := by
  have h₀ := h.consistent.front_nonneg
  have h₁ := h.consistent.front_le_back
  have h₂ := h.consistent.back_le
  have hdata : this.getDataLength = this.getTotalLength - this.frontIterator.position -
    this.backIterator.position := rfl
  have hbo : this.getBackOffset = this.getTotalLength - this.backIterator.position := rfl
  have hfo : this.getFrontOffset = this.frontIterator.position := rfl
  unfold PeeksFront peekAtFront
  dsimp only
  rw [checkUsage, if_pos ⟨le_rfl, by omega⟩, pure_bind, if_pos rfl]
  refine (spec_peek_bounded (k := True) h.consistent.wf (fun _ => hc) h.consistent.isForward
    h.consistent.front_index.consistent h₀ (by rw [h.consistent.length_eq]; omega) hpos hfits
    {}).mono (by simp) ?_
  rintro _ ⟨c, l, rfl, hl, -, hend, hd⟩
  have hlen : c.getChunkLength = l := by
    rw [← hd.wf.length_cells, hd.cells_eq]
    exact length_seg h₀ hl.le (by rw [h.consistent.wf.length_cells]; exact hend)
  refine ⟨c, rfl, by omega, ?_⟩
  rw [toBits, hd.cells_eq, map_seg, hlen, toBits]
  rfl

/-- Every packet that is reached is consistent, and peeking it at the front returns its bits. -/
theorem consistent_of_reachable {packet : Packet} {s : ℕ}
    (h : Reachable (fun packet operation => operation.Valid ∧ operation.Safe packet) packet s) :
    packet.Consistent ∧ (packet.content.Clean → 0 < packet.getDataLength →
      packet.content.BoundedFits packet.getFrontOffset packet.getDataLength packet.getDataLength →
      packet.PeeksFront) :=
  ⟨h.invariant.consistent, h.invariant.peeksFront⟩

theorem consistent_of_two_inserts :
    let header : ChunkHeader := ⟨0, false, false, false⟩
    let packet : Packet :=
      ⟨sequence ⟨2, false, false, false⟩ [bits header [true], bytes header [1]],
      ⟨true, 1, 1⟩, ⟨false, 0, 0⟩, 9⟩
    packet.Consistent ∧ packet.PeeksFront := by
  intro header packet
  have hnew : Reachable (fun packet operation => operation.Valid ∧ operation.Safe packet)
      ⟨empty ⟨1, false, false, false⟩, ⟨true, 0, 0⟩, ⟨false, 0, 0⟩, 0⟩ 2 := .new (s := 1) rfl
  have hone : Reachable (fun packet operation => operation.Valid ∧ operation.Safe packet)
      ⟨bits header [true], ⟨true, 0, 0⟩, ⟨false, 0, 0⟩, 1⟩ 2 :=
    .step (.insertAtBack (bits header [true])) hnew
      ⟨trivial, Or.inr rfl, Or.inr rfl⟩ rfl
  have htwo : Reachable (fun packet operation => operation.Valid ∧ operation.Safe packet)
      ⟨sequence ⟨2, false, false, false⟩ [bits header [true], bytes header [1]], ⟨true, 0, 0⟩,
        ⟨false, 0, 0⟩, 9⟩ 3 :=
    .step (.insertAtBack (bytes header [1])) hone ⟨trivial, Or.inr rfl, Or.inr rfl⟩ rfl
  have hpop :
    Reachable (fun packet operation => operation.Valid ∧ operation.Safe packet) packet 3 :=
    .step (.popAtFront none 1 {}) htwo ⟨trivial, by simp [Operation.Safe, PeekFits]⟩ rfl
  obtain ⟨hcons, hpeek⟩ := consistent_of_reachable hpop
  refine ⟨hcons, hpeek ?_ (by decide) ?_⟩
  · simp [packet, header, ChunkHeader.Clean]
  · simp [packet, BoundedFits, BoundedFitsIn, getChunkLength, getFrontOffset, getDataLength,
      getTotalLength]

/-- A bit is popped and another one is inserted in its place: the two are merged, and the front
iterator still has one element before it. -/
theorem exists_reachable_not_consistent : ∃ (packet : Packet) (s : ℕ),
    Reachable (fun _ operation => operation.Valid) packet s ∧ ¬ packet.Consistent ∧
      ¬ packet.PeeksFront := by
  let header : ChunkHeader := ⟨0, false, false, false⟩
  let packet : Packet := ⟨sequence ⟨3, false, false, false⟩
    [bits ⟨4, false, false, false⟩ [true, false], bytes header [1]], ⟨true, 1, 1⟩,
      ⟨false, 0, 0⟩, 10⟩
  have hnew : Reachable (fun _ operation => operation.Valid)
      ⟨empty ⟨1, false, false, false⟩, ⟨true, 0, 0⟩, ⟨false, 0, 0⟩, 0⟩ 2 := .new (s := 1) rfl
  have hone : Reachable (fun _ operation => operation.Valid)
      ⟨bits header [true], ⟨true, 0, 0⟩, ⟨false, 0, 0⟩, 1⟩ 2 :=
    .step (.insertAtBack (bits header [true])) hnew trivial rfl
  have htwo : Reachable (fun _ operation => operation.Valid)
      ⟨sequence ⟨2, false, false, false⟩ [bits header [true], bytes header [1]], ⟨true, 0, 0⟩,
        ⟨false, 0, 0⟩, 9⟩ 3 :=
    .step (.insertAtBack (bytes header [1])) hone trivial rfl
  have hpop : Reachable (fun _ operation => operation.Valid)
      ⟨sequence ⟨2, false, false, false⟩ [bits header [true], bytes header [1]], ⟨true, 1, 1⟩,
        ⟨false, 0, 0⟩, 9⟩ 3 :=
    .step (.popAtFront none 1 {}) htwo trivial rfl
  refine ⟨packet, 5, .step (.insertAtFront (bits header [false])) hpop trivial rfl,
    fun h => ?_, fun h => ?_⟩
  · rcases h.front_index with hi | hi
    · exact absurd hi (by decide)
    · exact absurd hi (by decide)
  · have hrun : (packet.peekAtFront none (-1) {}).run 5 = .ok (some (bytes header [1]), 5) := rfl
    have hpost := h 5
    rw [hrun] at hpost
    obtain ⟨part, hpart, -, hbits⟩ := hpost
    rw [← Option.some.inj hpart] at hbits
    exact absurd hbits (by decide)

end Packet

end Inet
