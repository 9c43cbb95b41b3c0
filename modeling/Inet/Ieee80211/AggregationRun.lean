import Inet.Ieee80211.AggregationLayout

/-! # A-MPDU round trips

The frames of an aggregate are returned as they were, unless one of them is
marked or has region tags: those would be copied to before the aggregate.
-/

namespace Inet

open Chunk Outcome Packet

namespace Chunk

theorem spec_checkPeekResult_clean {chunk : Chunk} (hpos : 0 < chunk.getChunkLength) :
    Spec True (checkPeekResult (some chunk) {}) fun r => r = some chunk ∧ chunk.Clean := by
  have hne : chunk.getChunkType ≠ .empty := by
    cases chunk <;> simp [getChunkType]
    exact absurd hpos (lt_irrefl _)
  unfold Inet.checkPeekResult
  dsimp only
  rw [if_neg hne]
  simp only [Bool.not_false, Bool.and_true]
  by_cases hincomplete : chunk.isIncomplete = true
  · rw [if_pos hincomplete]
    exact Spec.bind_of_false (Spec.throw trivial)
  rw [if_neg hincomplete]
  by_cases hincorrect : chunk.isIncorrect = true
  · rw [if_pos hincorrect]
    exact Spec.bind_of_false (Spec.throw trivial)
  rw [if_neg hincorrect]
  by_cases hrepresented : chunk.isImproperlyRepresented = true
  · rw [if_pos hrepresented]
    exact Spec.bind_of_false (Spec.throw trivial)
  rw [if_neg hrepresented]
  exact Spec.pure ⟨rfl, Bool.eq_false_of_not_eq_true hincomplete,
    Bool.eq_false_of_not_eq_true hincorrect, Bool.eq_false_of_not_eq_true hrepresented⟩

end Chunk

namespace Packet

theorem spec_insertAtBack_front {this : Packet} (hfront : this.getFrontOffset = 0) (chunk : Chunk) :
    Spec True (this.insertAtBack chunk) fun r => r.getFrontOffset = 0 := by
  unfold insertAtBack insertAt
  refine (spec_true _).bind fun _ _ => ?_
  rw [checkUsage]
  split_ifs with hrange
  · rw [pure_bind]
    refine (spec_true _).bind fun content _ => ?_
    dsimp only
    rw [moveIteratorIf, if_neg (by omega), pure_bind]
    exact (spec_true _).bind fun _ _ => Spec.pure hfront
  · exact Spec.bind_of_false (Spec.throw trivial)

end Packet

namespace Ieee80211

section Aggregation

variable {Class Fields : Type} (std : TagSort Class Fields)

variable {frame : TaggedPacket Class Fields} {frames : List (TaggedPacket Class Fields)}

/-! ## What round trips -/

/-- The packet has the contents of the frame, and its region tags at every position. -/
structure SameFrame (frame packet : TaggedPacket Class Fields) : Prop where
  contents : packet.packet.content.toBits = frame.packet.content.toBits
  regionTags :
    ∀ typeInfo p tag, SharingRegionTagSet.Carries packet.regionTags.regionTags typeInfo p tag ↔
    SharingRegionTagSet.Carries frame.regionTags.regionTags typeInfo p tag

/-- The frames are what deaggregation makes of their aggregate. -/
def RoundTrips (frames : List (TaggedPacket Class Fields)) : Prop :=
  Returns (do deaggregateFrame std (← aggregateFrames std frames)) (List.Forall₂ SameFrame frames)

theorem Subframes.length_le {content : Chunk} {p : ℤ} {mpdus : List Chunk}
    (h : Subframes content p mpdus) (hpos : ∀ mpdu ∈ mpdus, 0 < mpdu.getChunkLength)
    (hne : mpdus ≠ []) : 32 * (mpdus.length : ℤ) ≤ content.getChunkLength - p := by
  induction mpdus generalizing p with
  | nil => exact absurd rfl hne
  | cons mpdu mpdus ih =>
    obtain ⟨hat, -, hrest⟩ := h
    have hle := hat.le
    have hmpdu := hpos mpdu List.mem_cons_self
    cases mpdus with
    | nil =>
      rw [List.length_singleton]
      omega
    | cons next rest =>
      have hnext := ih hrest (fun mpdu hmem => hpos mpdu (List.mem_cons_of_mem _ hmem))
        (List.cons_ne_nil _ _)
      have hpadding : paddingLength mpdu = 8 * ((4 - mpdu.getChunkLength / 8 % 4) % 4) := rfl
      rw [List.length_cons] at hnext ⊢
      rw [List.length_cons]
      push_cast at hnext ⊢
      omega

theorem eq_nil_of_copyTags {source after : SharingRegionTagSet Class Fields} {length : ℤ}
    (htags : ∀ r ∈ source.regionTags, 0 ≤ r.offset)
    (h : (⟨[]⟩ : SharingRegionTagSet Class Fields).copyTags std source 0 (0 - length) length =
      .ok after) : after = ⟨[]⟩ := by
  obtain ⟨cleared, hcleared, h⟩ := Error.exists_of_bind_eq_ok h
  obtain rfl : (⟨[]⟩ : SharingRegionTagSet Class Fields) = cleared := Except.ok.inj hcleared
  rw [SharingRegionTagSet.mapAllTags_eq, Error.ok_bind] at h
  have hcalls : ∀ call ∈ source.regionTags.flatMap (SharingRegionTagSet.callsFor 0 (0 + length)),
      0 ≤ call.1 ∧ call.1 + call.2.1 ≤ 0 + length ∧ call.1 < length := by
    intro call hcall
    obtain ⟨r, hr, hcall⟩ := List.mem_flatMap.1 hcall
    have hoffset := htags r hr
    unfold SharingRegionTagSet.callsFor at hcall
    split_ifs at hcall with hout
    · cases hcall
    · obtain rfl := List.mem_singleton.1 hcall
      dsimp only
      omega
  obtain ⟨hafter, hpos⟩ := SharingRegionTagSet.foldlM_addTagBase
    (fun call hcall => ⟨(hcalls call hcall).1, (hcalls call hcall).2.1⟩) h
  have hnone : source.regionTags.flatMap (SharingRegionTagSet.callsFor 0 (0 + length)) = [] := by
    rw [List.eq_nil_iff_forall_not_mem]
    intro call hcall
    have hlt := (hcalls call hcall).2.2
    have hle := hpos call hcall
    dsimp only [SharingRegionTagSet.copyFor] at hle
    omega
  rw [hnone] at hafter
  cases after
  exact congrArg _ hafter

theorem spec_insertAtBack_untagged {aggregated : TaggedPacket Class Fields}
    (h : aggregated.regionTags = ⟨[]⟩ ∧ aggregated.packet.getFrontOffset = 0) (chunk : Chunk) :
    Spec True (aggregated.insertAtBack std chunk) fun r =>
      r.regionTags = ⟨[]⟩ ∧ r.packet.getFrontOffset = 0 := by
  obtain ⟨packet, regionTags⟩ := aggregated
  obtain ⟨rfl, hfront⟩ := h
  rw [TaggedPacket.insertAtBack_nil]
  exact (spec_insertAtBack_front hfront chunk).bind fun packet hpacket => Spec.pure ⟨rfl, hpacket⟩

theorem spec_aggregateFrom (hframes : ∀ frame ∈ frames, IsFrame frame)
    {aggregated : TaggedPacket Class Fields}
    (h : aggregated.regionTags = ⟨[]⟩ ∧ aggregated.packet.getFrontOffset = 0) :
    Spec True (aggregateFrom std frames aggregated) fun r => r.regionTags = ⟨[]⟩ ∧
      ∀ frame ∈ frames, frame.packet.content.whole.Clean := by
  induction frames generalizing aggregated with
  | nil => exact Spec.pure ⟨h.1, List.forall_mem_nil _⟩
  | cons frame frames ih =>
    have hframe := hframes frame List.mem_cons_self
    have hrest := fun frame hmem => hframes frame (List.mem_cons_of_mem _ hmem)
    have hpos := hframe.pos
    rw [← getChunkLength_whole hframe.wf] at hpos
    rw [aggregateFrom]
    refine (spec_true _).bind fun header _ => ?_
    rw [peekAll_eq hframe]
    refine (spec_checkPeekResult_clean hpos).bind ?_
    rintro _ ⟨rfl, hclean⟩
    refine (spec_true _).bind fun mpdu _ => ?_
    refine (spec_true _).bind fun bytes _ => ?_
    refine (spec_true _).bind fun subframeHeader _ => ?_
    refine (spec_insertAtBack_untagged std h _).bind fun aggregated h => ?_
    refine (spec_insertAtBack_untagged std h _).bind ?_
    rintro ⟨packet, _⟩ ⟨rfl, hfront⟩
    have hcopy : Spec True (TaggedPacket.copyTags std ⟨packet, ⟨[]⟩⟩ frame 0
        (packet.getFrontOffset - frame.packet.getDataLength) frame.packet.getDataLength :
          ChunkM (TaggedPacket Class Fields)) fun r =>
            r.regionTags = ⟨[]⟩ ∧ r.packet.getFrontOffset = 0 := by
      unfold TaggedPacket.copyTags
      rw [hfront]
      refine (spec_liftM (fun _ _ => trivial) fun _ hok => eq_nil_of_copyTags std
        (fun r hr => (hframe.tags r hr).1) hok).bind ?_
      rintro _ rfl
      exact Spec.pure ⟨rfl, hfront⟩
    refine hcopy.bind fun aggregated h => ?_
    refine (spec_true _).bind fun _ _ => ?_
    dsimp only
    split_ifs
    · refine (spec_true _).bind fun header' _ => ?_
      refine (spec_insertAtBack_untagged std h _).bind fun aggregated h => ?_
      exact (ih hrest h).mono id fun r hr => ⟨hr.1, List.forall_mem_cons.2 ⟨hclean, hr.2⟩⟩
    · exact (ih hrest h).mono id fun r hr => ⟨hr.1, List.forall_mem_cons.2 ⟨hclean, hr.2⟩⟩

theorem spec_extractFrame (packet : Packet) {frames : List (TaggedPacket Class Fields)}
    (h : ∀ frame ∈ frames, frame.regionTags = ⟨[]⟩) (mpdu : Chunk) (offset : ℤ) :
    Spec True (extractFrame std ⟨packet, ⟨[]⟩⟩ frames mpdu offset) fun r =>
      ∀ frame ∈ r, frame.regionTags = ⟨[]⟩ := by
  unfold extractFrame TaggedPacket.new
  simp only [bind_assoc, pure_bind, TaggedPacket.insertAtBack_nil]
  refine (spec_true _).bind fun _ _ => ?_
  refine (spec_true _).bind fun _ _ => ?_
  unfold TaggedPacket.copyTags
  rw [bind_assoc]
  refine (returns_liftM (TaggedPacket.copyTags_nil std _ _ _)).bind ?_
  rintro _ rfl
  refine Spec.pure (List.forall_mem_append.2 ⟨h, List.forall_mem_singleton.2 rfl⟩)

theorem spec_visitSubframesFrom (aggregated : Packet) (length : ℤ) (turns : ℕ) (packet : Packet)
    {frames : List (TaggedPacket Class Fields)} (h : ∀ frame ∈ frames, frame.regionTags = ⟨[]⟩) :
    Spec True (visitSubframesFrom (fun frames _ _ _ => pure frames)
      (extractFrame std ⟨aggregated, ⟨[]⟩⟩) length turns packet frames) fun r =>
        ∀ frame ∈ r.2, frame.regionTags = ⟨[]⟩ := by
  induction turns generalizing packet frames with
  | zero => exact Spec.throw trivial
  | succ turns ih =>
    rw [visitSubframesFrom]
    by_cases hdata : 0 < packet.getDataLength
    · rw [if_neg (not_not.2 hdata)]
      by_cases hshort : packet.getDataLength < 8 * 4
      · rw [if_pos hshort]
        exact Spec.pure h
      rw [if_neg hshort]
      refine (spec_true _).bind fun _ _ => (spec_true _).bind fun popped _ => ?_
      refine (spec_true _).bind fun delimiter _ => ?_
      dsimp only
      rw [pure_bind]
      split_ifs
      · exact ih _ h
      · refine (spec_true _).bind fun popped' _ => (spec_true _).bind fun mpdu _ => ?_
        refine (spec_extractFrame std aggregated h mpdu _).bind fun frames h => ?_
        split_ifs
        · exact Spec.pure h
        · exact Spec.pure h
        · refine (spec_true _).bind fun moved _ => ?_
          split_ifs
          · exact Spec.pure h
          · exact ih _ h
      · exact Spec.pure h
    · rw [if_pos hdata]
      exact Spec.pure h

theorem spec_deaggregateFrame (packet : Packet) :
    Spec True (deaggregateFrame std (⟨packet, ⟨[]⟩⟩ : TaggedPacket Class Fields)) fun r =>
      ∀ frame ∈ r, frame.regionTags = ⟨[]⟩ := by
  have hnil : ∀ frame ∈ ([] : List (TaggedPacket Class Fields)), frame.regionTags = ⟨[]⟩ :=
    List.forall_mem_nil _
  unfold deaggregateFrame visitSubframes
  refine (spec_true _).bind fun length _ => ?_
  dsimp only
  split_ifs
  · exact Spec.pure hnil
  · exact Spec.pure hnil
  · rw [bind_assoc]
    refine (spec_true _).bind fun _ _ => ?_
    rw [bind_assoc]
    refine (spec_true _).bind fun content _ => ?_
    exact (spec_visitSubframesFrom std packet length _ _ hnil).bind fun r hr => Spec.pure hr

/-! ## The round trip -/

theorem SameFrame.regionTags_eq {packet : TaggedPacket Class Fields} (h : SameFrame frame packet)
    (hframe : IsFrame frame) (hnil : packet.regionTags = ⟨[]⟩) : frame.regionTags = ⟨[]⟩ := by
  have hempty : frame.regionTags.regionTags = [] := by
    rw [List.eq_nil_iff_forall_not_mem]
    intro r hr
    have hcarries : SharingRegionTagSet.Carries frame.regionTags.regionTags r.tag.typeInfo r.offset
        (r.tag.atDistance (r.offset - r.offset)) := by
      have hlength := (hframe.tags r hr).2
      refine ⟨r, hr, rfl, ⟨le_rfl, ?_⟩, rfl⟩
      unfold RegionTag.getEndOffset
      omega
    rw [← h.regionTags, hnil] at hcarries
    obtain ⟨_, hmem, -⟩ := hcarries
    cases hmem
  cases hset : frame.regionTags
  rw [hset] at hempty
  exact congrArg _ hempty

theorem RoundTrips.untagged (h : RoundTrips std frames)
    (hframes : ∀ frame ∈ frames, IsFrame frame) :
    ∀ frame ∈ frames, Untagged frame := by
  have hspec : Spec True (do deaggregateFrame std (← aggregateFrames std frames)) fun r =>
      (∀ frame ∈ r, frame.regionTags = ⟨[]⟩) ∧
        ∀ frame ∈ frames, frame.packet.content.whole.Clean := by
    unfold aggregateFrames TaggedPacket.new Packet.new
    simp only [bind_assoc, pure_bind]
    refine (spec_true _).bind fun header _ => ?_
    refine (spec_aggregateFrom std hframes ⟨rfl, rfl⟩).bind ?_
    rintro ⟨packet, _⟩ ⟨rfl, hclean⟩
    exact (spec_deaggregateFrame std packet).mono id fun r hr => ⟨hr, hclean⟩
  obtain ⟨extracted, _, hrun, hsame⟩ := h.exists_run 0
  obtain ⟨hnil, hclean⟩ := hspec.of_run hrun
  intro frame hmem
  obtain ⟨i, rfl⟩ := List.get_of_mem hmem
  obtain ⟨hlength, hsame⟩ := List.forall₂_iff_get.1 hsame
  have hi : i.1 < extracted.length := hlength ▸ i.2
  exact ⟨hclean _ hmem, (hsame i.1 i.2 hi).regionTags_eq (hframes _ hmem)
    (hnil _ (List.get_mem extracted ⟨i.1, hi⟩))⟩

/-- A packet of two bytes with the region tags. -/
def twoBytes (regionTags : List (RegionTag ℕ Unit)) : TaggedPacket ℕ Unit :=
  ⟨ofContent (.bytes ⟨0, false, false, false⟩ [1, 2]), ⟨regionTags⟩⟩

end Aggregation

end Ieee80211

end Inet
