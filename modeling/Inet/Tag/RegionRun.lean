import Inet.Tag.Filling

/-! # Runs on a set of region tags

Every operation keeps the regions of a type disjoint, if filling a range finds
the regions that reach into it in their order.
-/

namespace Inet

open Outcome

namespace SharingRegionTagSet

open RegionTag

variable {Class Fields : Type}

inductive Operation (Class Fields : Type) where
  | addTag (typeInfo : TypeInfo Class) (offset length : ℤ)
  | addTagIfAbsent (typeInfo : TypeInfo Class) (offset length : ℤ)
  | addTagsWhereAbsent (typeInfo : TypeInfo Class) (offset length : ℤ)
  | removeTag (typeInfo : TypeInfo Class) (offset length : ℤ)
  | removeTagsWherePresent (typeInfo : TypeInfo Class) (offset length : ℤ)
  | clearTags (offset length : ℤ) (f : TagBase Class Fields → Bool)
  | copyTags (source : SharingRegionTagSet Class Fields) (sourceOffset offset length : ℤ)
  -- who holds a tag for update writes its fields
  | setTag (index : ℕ) (tag : TagBase Class Fields)

namespace Operation

/-- The other set that the operation reads. -/
def source : Operation Class Fields → Option (SharingRegionTagSet Class Fields)
  | copyTags source _ _ _ => some source
  | _ => none

/-- The range is not empty, and a tag keeps its type. -/
def Allowed (this : SharingRegionTagSet Class Fields) : Operation Class Fields → Prop
  | addTag _ _ length => 0 < length
  | addTagIfAbsent _ _ length => 0 < length
  | addTagsWhereAbsent _ _ length => 0 < length
  | removeTag _ _ length => 0 < length
  | removeTagsWherePresent _ _ length => 0 < length
  | clearTags _ length _ => 0 < length
  | copyTags _ _ _ length => 0 < length
  | setTag index tag => ∀ r ∈ this.regionTags[index]?, tag.typeInfo = r.tag.typeInfo

/-- Filling a range finds the regions in an order that it can rely on. -/
def Safe (this : SharingRegionTagSet Class Fields) : Operation Class Fields → Prop
  | addTagsWhereAbsent typeInfo offset length => InOrder this.regionTags typeInfo offset length
  | _ => True

end Operation

section Run

variable [DecidableEq Class] (std : TagSort Class Fields) (defaults : Class → Fields)

def apply (this : SharingRegionTagSet Class Fields) :
    Operation Class Fields → Except Error (SharingRegionTagSet Class Fields)
  | .addTag typeInfo offset length => do
    return (← this.addTag defaults typeInfo offset length).2
  | .addTagIfAbsent typeInfo offset length => do
    return (← this.addTagIfAbsent defaults typeInfo offset length).2
  | .addTagsWhereAbsent typeInfo offset length => do
    return (← this.addTagsWhereAbsent std defaults typeInfo offset length).2
  | .removeTag typeInfo offset length => do
    return (← this.removeTag typeInfo offset length).2
  | .removeTagsWherePresent typeInfo offset length => do
    return (← this.removeTagsWherePresent std typeInfo offset length).2
  | .clearTags offset length f => this.clearTags std offset length f
  | .copyTags source sourceOffset offset length =>
    this.copyTags std source sourceOffset offset length
  | .setTag index tag => return this.setTag index tag

/-- The sets that operations make of empty sets, if every one of them is safe. -/
inductive Reachable (safe : SharingRegionTagSet Class Fields → Operation Class Fields → Prop) :
    SharingRegionTagSet Class Fields → Prop
  | empty : Reachable safe ⟨[]⟩
  | apply {this after : SharingRegionTagSet Class Fields} (operation : Operation Class Fields)
      (hthis : Reachable safe this) (hsource : ∀ source ∈ operation.source, Reachable safe source)
      (hallowed : operation.Allowed this) (hsafe : safe this operation)
      (heq : this.apply std defaults operation = .ok after) : Reachable safe after

end Run

variable {std : TagSort Class Fields} {defaults : Class → Fields}
  {this after source : SharingRegionTagSet Class Fields}
    {regionTags : List (RegionTag Class Fields)}
  {tag : TagBase Class Fields} {offset length sourceOffset : ℤ}

theorem Separate.addTagBase (h : Separate this.regionTags) (hlength : 0 < length)
    (hfree : ∀ r ∈ this.regionTags, tag.typeInfo = r.tag.typeInfo →
      offset + length ≤ r.offset ∨ r.getEndOffset ≤ offset)
    (heq : this.addTagBase offset length tag = .ok after) : Separate after.regionTags := by
  obtain ⟨s, hs, heq⟩ := Error.exists_of_bind_eq_ok heq
  obtain ⟨hle, -, rfl⟩ := of_new_eq_ok hs
  cases heq
  refine h.append ⟨by simpa using ⟨hle, hlength⟩, List.pairwise_singleton _ _⟩ ?_
  intro r hr s hs htype
  obtain rfl := List.mem_singleton.1 hs
  exact (hfree r hr htype.symm).symm

theorem parts_modify {index : ℕ} (hvalid : ∀ r ∈ regionTags, r.Valid)
    (htype : ∀ r ∈ regionTags[index]?, tag.typeInfo = r.tag.typeInfo) :
    List.Forall₂ (fun r s => Parts r [s]) regionTags
      (regionTags.modify index fun r => { r with tag }) := by
  induction regionTags generalizing index with
  | nil => simp
  | cons r regionTags ih =>
    obtain ⟨hr, hvalid⟩ := List.forall_mem_cons.1 hvalid
    cases index with
    | zero =>
      refine .cons ⟨?_, List.pairwise_singleton _ _⟩
        (List.forall₂_same.2 fun s hs => Parts.self (hvalid s hs))
      simp only [List.mem_singleton, forall_eq]
      exact ⟨⟨hr.offset, hr.length⟩, htype r rfl, le_rfl, le_rfl⟩
    | succ index => exact .cons (Parts.self hr) (ih hvalid htype)

theorem Separate.setTag {index : ℕ} (h : Separate this.regionTags)
    (htype : ∀ r ∈ this.regionTags[index]?, tag.typeInfo = r.tag.typeInfo) :
    Separate (this.setTag index tag).regionTags := by
  have hsep := (h.parts (parts_modify h.valid htype)).1
  rwa [List.flatMap_singleton'] at hsep

section Copy

/-- The calls of `mapAllTags` for a region. -/
def callsFor (startOffset endOffset : ℤ) (r : RegionTag Class Fields) :
    List (ℤ × ℤ × TagBase Class Fields) :=
  if endOffset ≤ r.offset ∨ r.getEndOffset ≤ startOffset then []
  else [(max r.offset startOffset, min r.getEndOffset endOffset - max r.offset startOffset, r.tag)]

theorem map_eq {startOffset endOffset : ℤ} {r : RegionTag Class Fields} :
    r.map startOffset endOffset = .ok (callsFor startOffset endOffset r) := by
  unfold RegionTag.map callsFor getStartOffset
  have hend : r.getEndOffset = r.offset + r.length := rfl
  split_ifs
  · rfl
  · rw [max_eq_left (by omega), min_eq_left (by omega), hend, add_sub_cancel_left]
    rfl
  · rw [max_eq_right (by omega), min_eq_right (by omega)]
    rfl
  · rw [max_eq_right (by omega), min_eq_left (by omega)]
    rfl
  · rw [max_eq_left (by omega), min_eq_right (by omega)]
    rfl
  · omega

theorem mapAllTags_eq : this.mapAllTags offset length =
    .ok (this.regionTags.flatMap (callsFor offset (offset + length))) := by
  have hmapM (regionTags : List (RegionTag Class Fields)) :
      regionTags.mapM (RegionTag.map offset (offset + length)) =
        .ok (regionTags.map (callsFor offset (offset + length))) := by
    induction regionTags with
    | nil => rfl
    | cons r regionTags ih =>
      rw [List.mapM_cons, map_eq, ih]
      rfl
  rw [mapAllTags, hmapM]
  rfl

/-- The region that a call of `mapAllTags` adds to the set. -/
def copyFor (shift : ℤ) (call : ℤ × ℤ × TagBase Class Fields) : RegionTag Class Fields :=
  ⟨call.1 + shift, call.2.1, call.2.2⟩

theorem foldlM_addTagBase {shift : ℤ} {calls : List (ℤ × ℤ × TagBase Class Fields)}
    (hcalls : ∀ call ∈ calls, sourceOffset ≤ call.1 ∧ call.1 + call.2.1 ≤ sourceOffset + length)
    (heq : calls.foldlM (fun (this : SharingRegionTagSet Class Fields) (o, l, tag) =>
      this.addTagBase ((if o < sourceOffset then sourceOffset else o) + shift)
        ((if sourceOffset + length < o + l then sourceOffset + length else o + l) -
          if o < sourceOffset then sourceOffset else o) tag) this = .ok after) :
    after.regionTags = this.regionTags ++ calls.map (copyFor shift) ∧
      ∀ call ∈ calls, 0 ≤ (copyFor shift call).offset := by
  induction calls generalizing this with
  | nil =>
    cases heq
    simp
  | cons call calls ih =>
    obtain ⟨hcall, hcalls⟩ := List.forall_mem_cons.1 hcalls
    rw [List.foldlM_cons] at heq
    obtain ⟨next, hnext, heq⟩ := Error.exists_of_bind_eq_ok heq
    simp only [if_neg (not_lt.2 hcall.1), if_neg (not_lt.2 hcall.2), add_sub_cancel_left] at hnext
    obtain ⟨s, hs, hnext⟩ := Error.exists_of_bind_eq_ok hnext
    obtain ⟨hle, -, rfl⟩ := of_new_eq_ok hs
    cases hnext
    obtain ⟨hafter, hpos⟩ := ih hcalls heq
    refine ⟨?_, List.forall_mem_cons.2 ⟨hle, hpos⟩⟩
    rw [hafter, List.append_assoc]
    rfl

theorem Separate.copyTags (h : Separate this.regionTags) (hs : Separate source.regionTags)
    (hlength : 0 < length)
    (heq : this.copyTags std source sourceOffset offset length = .ok after) :
    Separate after.regionTags := by
  obtain ⟨cleared, hcleared, heq⟩ := Error.exists_of_bind_eq_ok heq
  obtain ⟨hsep, hout⟩ := (clearTags_spec h hlength).of_eq_ok hcleared
  rw [mapAllTags_eq, Error.ok_bind] at heq
  have hcall : ∀ r ∈ source.regionTags,
      ∀ call ∈ callsFor sourceOffset (sourceOffset + length) r, call.2.2 = r.tag ∧ 0 < call.2.1 ∧
        sourceOffset ≤ call.1 ∧ call.1 + call.2.1 ≤ sourceOffset + length ∧
          r.offset ≤ call.1 ∧ call.1 + call.2.1 ≤ r.getEndOffset := by
    intro r hr call hcall
    have hpos := (hs.valid r hr).length
    have hend : r.getEndOffset = r.offset + r.length := rfl
    unfold callsFor at hcall
    split_ifs at hcall with hout
    · cases hcall
    · obtain rfl := List.mem_singleton.1 hcall
      refine ⟨rfl, ?_, ?_, ?_, ?_, ?_⟩
      all_goals simp only; omega
  obtain ⟨hafter, hpos⟩ := foldlM_addTagBase (fun call hc => by
    obtain ⟨r, hr, hc⟩ := List.mem_flatMap.1 hc
    have := hcall r hr call hc
    exact ⟨this.2.2.1, this.2.2.2.1⟩) heq
  rw [hafter]
  refine hsep.append ⟨?_, ?_⟩ ?_
  · intro s hs'
    obtain ⟨call, hc, rfl⟩ := List.mem_map.1 hs'
    obtain ⟨r, hr, hc'⟩ := List.mem_flatMap.1 hc
    exact ⟨hpos call hc, (hcall r hr call hc').2.1⟩
  · refine List.pairwise_map.2 (List.pairwise_flatMap.2 ⟨fun r _ => ?_, ?_⟩)
    · unfold callsFor
      split_ifs
      · exact List.Pairwise.nil
      · exact List.pairwise_singleton _ _
    · refine (List.Pairwise.and_mem.1 hs.apart).imp fun {r s} ⟨hr, hs, hrs⟩ call hc call' hc'
        htype => ?_
      obtain ⟨htag, -, -, -, hlo, hhi⟩ := hcall r hr call hc
      obtain ⟨htag', -, -, -, hlo', hhi'⟩ := hcall s hs call' hc'
      simp only [copyFor, htag, htag'] at htype
      have := hrs htype
      simp only [copyFor, getEndOffset_mk]
      omega
  · intro r hr s hs' _
    obtain ⟨call, hc, rfl⟩ := List.mem_map.1 hs'
    obtain ⟨q, hq, hc⟩ := List.mem_flatMap.1 hc
    obtain ⟨-, -, hlo, hhi, -, -⟩ := hcall q hq call hc
    have := hout (fun _ => rfl) r hr
    simp only [copyFor, getEndOffset_mk]
    omega

end Copy

variable [DecidableEq Class] {typeInfo : TypeInfo Class}

theorem getTagIndexFrom_eq_ok {start : ℕ} {index : Option ℕ}
    (h : getTagIndexFrom typeInfo offset length regionTags start = .ok index) :
    (index = none → ∀ r ∈ regionTags, typeInfo = r.tag.typeInfo →
      offset + length ≤ r.offset ∨ r.getEndOffset ≤ offset) ∧
    ∀ i ∈ index, i < start + regionTags.length := by
  induction regionTags generalizing start with
  | nil =>
    cases h
    simp
  | cons r regionTags ih =>
    rw [getTagIndexFrom] at h
    split_ifs at h with hskip hequal
    · obtain ⟨hnone, hsome⟩ := ih h
      constructor
      · refine fun hi => List.forall_mem_cons.2 ⟨fun htype => ?_, hnone hi⟩
        exact hskip.resolve_left (not_not.2 htype)
      · intro i hi
        have := hsome i hi
        rw [List.length_cons]
        omega
    · cases h
      refine ⟨nofun, fun i hi => ?_⟩
      cases hi
      rw [List.length_cons]
      omega

theorem findTag_eq_ok_none (h : this.findTag typeInfo offset length = .ok none) :
    ∀ r ∈ this.regionTags, typeInfo = r.tag.typeInfo →
      offset + length ≤ r.offset ∨ r.getEndOffset ≤ offset := by
  obtain ⟨index, hindex, h⟩ := Error.exists_of_bind_eq_ok h
  obtain ⟨hnone, hsome⟩ := getTagIndexFrom_eq_ok hindex
  cases index with
  | none => exact hnone rfl
  | some i =>
    have hlt := hsome i rfl
    rw [Nat.zero_add] at hlt
    dsimp only at h
    rw [List.getElem?_eq_getElem hlt] at h
    cases h

theorem addTagsWhereAbsent_eq_ok
    {r : List (RegionTag Class Fields) × SharingRegionTagSet Class Fields}
    (h : Separate this.regionTags)
    (heq : this.addTagsWhereAbsent std defaults typeInfo offset length = .ok r) :
    ∃ mid, Prepared typeInfo offset (offset + length) this.regionTags mid ∧
      r.1 = regionsFor (TagBase.makeShared defaults typeInfo)
        (gaps (offset + length) (ranges typeInfo mid) offset) ∧
      (∀ g ∈ gaps (offset + length) (ranges typeInfo mid) offset, 0 ≤ g.1) ∧
      r.2.regionTags.Perm (mid ++ r.1) := by
  obtain ⟨first, hfirst, heq⟩ := Error.exists_of_bind_eq_ok heq
  have hsplit := (splitTags_spec h offset).of_eq_ok hfirst
  obtain ⟨second, hsecond, heq⟩ := Error.exists_of_bind_eq_ok heq
  have hsplit' := (splitTags_spec hsplit.separate (offset + length)).of_eq_ok hsecond
  exact ⟨second.regionTags, Prepared.of_splits hsplit hsplit', addTagsWhereAbsentBase_eq_ok heq⟩

theorem exists_addTagsWhereAbsent_eq_ok (h : Separate this.regionTags) (hoffset : 0 ≤ offset)
    (hlength : 0 < length) :
    ∃ r, this.addTagsWhereAbsent std defaults typeInfo offset length = .ok r := by
  have hspec {s : SharingRegionTagSet Class Fields} (hs : Separate s.regionTags) (o : ℤ) :
      ReturnsWith (s.splitTags std o (hasType typeInfo)) _ := splitTags_spec hs o
  obtain ⟨first, hfirst, hsplit⟩ := hspec h offset
  obtain ⟨second, hsecond, -⟩ := hspec hsplit.separate (offset + length)
  rw [addTagsWhereAbsent, hfirst, Error.ok_bind, hsecond, Error.ok_bind]
  exact exists_addTagsWhereAbsentBase_eq_ok hoffset hlength

theorem fills_iff_inOrder {r : List (RegionTag Class Fields) × SharingRegionTagSet Class Fields}
    (h : Separate this.regionTags) (hlength : 0 < length)
    (heq : this.addTagsWhereAbsent std defaults typeInfo offset length = .ok r) :
    Fills typeInfo offset length this.regionTags r.1 r.2.regionTags ↔
      InOrder this.regionTags typeInfo offset length := by
  obtain ⟨mid, hprepared, hresult, hle, hafter⟩ := addTagsWhereAbsent_eq_ok h heq
  have htype := TagBase.typeInfo_makeShared defaults typeInfo
  rw [hresult] at hafter ⊢
  exact ⟨fun hfills => hprepared.inOrder_of_fills hlength hfills,
    fun hin => hprepared.fills hlength hin htype hle hafter⟩

theorem Separate.addTagsWhereAbsent
    {r : List (RegionTag Class Fields) × SharingRegionTagSet Class Fields}
    (h : Separate this.regionTags) (hlength : 0 < length)
    (hin : InOrder this.regionTags typeInfo offset length)
    (heq : this.addTagsWhereAbsent std defaults typeInfo offset length = .ok r) :
    Separate r.2.regionTags := by
  obtain ⟨mid, hprepared, hresult, hle, hafter⟩ := addTagsWhereAbsent_eq_ok h heq
  rw [hresult] at hafter
  exact (hprepared.separate_append hlength hin (TagBase.typeInfo_makeShared defaults typeInfo)
    hle).perm hafter

theorem Separate.apply {operation : Operation Class Fields} (h : Separate this.regionTags)
    (hsource : ∀ source ∈ operation.source, Separate source.regionTags)
    (hallowed : operation.Allowed this) (hsafe : operation.Safe this)
    (heq : this.apply std defaults operation = .ok after) : Separate after.regionTags := by
  cases operation with
  | addTag typeInfo offset length =>
    obtain ⟨r, hr, heq⟩ := Error.exists_of_bind_eq_ok heq
    cases heq
    obtain ⟨index, hindex, hr⟩ := Error.exists_of_bind_eq_ok hr
    by_cases hne : index ≠ none
    · rw [if_pos hne] at hr
      cases hr
    · rw [if_neg hne] at hr
      obtain ⟨next, hnext, hr⟩ := Error.exists_of_bind_eq_ok hr
      cases hr
      refine h.addTagBase hallowed (fun r hr htype => ?_) hnext
      rw [TagBase.typeInfo_makeShared] at htype
      exact (getTagIndexFrom_eq_ok hindex).1 (not_not.1 hne) r hr htype
  | addTagIfAbsent typeInfo offset length =>
    obtain ⟨r, hr, heq⟩ := Error.exists_of_bind_eq_ok heq
    cases heq
    obtain ⟨found, hfound, hr⟩ := Error.exists_of_bind_eq_ok hr
    cases found with
    | some tag =>
      cases hr
      exact h
    | none =>
      obtain ⟨next, hnext, hr⟩ := Error.exists_of_bind_eq_ok hr
      cases hr
      refine h.addTagBase hallowed (fun r hr htype => ?_) hnext
      rw [TagBase.typeInfo_makeShared] at htype
      exact findTag_eq_ok_none hfound r hr htype
  | addTagsWhereAbsent typeInfo offset length =>
    obtain ⟨r, hr, heq⟩ := Error.exists_of_bind_eq_ok heq
    cases heq
    exact h.addTagsWhereAbsent hallowed hsafe hr
  | removeTag typeInfo offset length =>
    obtain ⟨r, hr, heq⟩ := Error.exists_of_bind_eq_ok heq
    cases heq
    obtain ⟨index, -, hr⟩ := Error.exists_of_bind_eq_ok hr
    cases index with
    | none => cases hr
    | some index =>
      cases hr
      exact h.sublist (List.eraseIdx_sublist _ _)
  | removeTagsWherePresent typeInfo offset length =>
    obtain ⟨r, hr, heq⟩ := Error.exists_of_bind_eq_ok heq
    cases heq
    obtain ⟨result, -, hr⟩ := Error.exists_of_bind_eq_ok hr
    obtain ⟨next, hnext, hr⟩ := Error.exists_of_bind_eq_ok hr
    cases hr
    exact ((clearTags_spec h hallowed).of_eq_ok hnext).1
  | clearTags offset length f => exact ((clearTags_spec h hallowed).of_eq_ok heq).1
  | copyTags source sourceOffset offset length =>
    exact h.copyTags (hsource source rfl) hallowed heq
  | setTag index tag =>
    cases heq
    exact h.setTag hallowed

theorem separate_of_reachable
    (h : Reachable std defaults (fun this operation => operation.Safe this) this) :
    Separate this.regionTags := by
  induction h with
  | empty => exact Separate.nil
  | apply _ _ _ hallowed hsafe heq ih ihsource => exact ih.apply ihsource hallowed hsafe heq

/-- The regions of a type are disjoint, and filling a range fills exactly its gaps where it finds
the regions in order. -/
theorem disjoint_and_fills_iff
    (h : Reachable std defaults (fun this operation => operation.Safe this) this) :
    this.regionTags.Pairwise (fun r s => r.tag.typeInfo = s.tag.typeInfo →
      r.getEndOffset ≤ s.offset ∨ s.getEndOffset ≤ r.offset) ∧
    ∀ typeInfo offset length, 0 < length →
      (0 ≤ offset → ∃ r, this.addTagsWhereAbsent std defaults typeInfo offset length = .ok r) ∧
      ∀ r, this.addTagsWhereAbsent std defaults typeInfo offset length = .ok r →
        (Fills typeInfo offset length this.regionTags r.1 r.2.regionTags ↔
          InOrder this.regionTags typeInfo offset length) := by
  have hsep := separate_of_reachable h
  refine ⟨hsep.apart, fun typeInfo offset length hlength => ⟨fun hoffset => ?_, fun r hr => ?_⟩⟩
  · exact exists_addTagsWhereAbsent_eq_ok hsep hoffset hlength
  · exact fills_iff_inOrder hsep hlength hr

/-- `std::sort` as an insertion sort. -/
def insertionTagSort (Class Fields : Type) : TagSort Class Fields where
  sort := List.insertionSort fun r s => r.offset ≤ s.offset
  perm := List.perm_insertionSort _
  pairwise regionTags :=
    have : Std.Total fun (r s : RegionTag Class Fields) => r.offset ≤ s.offset :=
      ⟨fun r s => le_total r.offset s.offset⟩
    have : IsTrans (RegionTag Class Fields) fun r s => r.offset ≤ s.offset :=
      ⟨fun _ _ _ => le_trans⟩
    List.pairwise_insertionSort _ regionTags

/-- Two regions of a type, the later one in front. -/
def twoRegions : SharingRegionTagSet ℕ Unit := ⟨[⟨10, 5, .other 0 ()⟩, ⟨0, 5, .other 0 ()⟩]⟩

theorem reachable_twoRegions
    {safe : SharingRegionTagSet ℕ Unit → Operation ℕ Unit → Prop}
    (h : ∀ this typeInfo offset length,
      safe this (.addTag typeInfo offset length)) :
    Reachable (insertionTagSort ℕ Unit) (fun _ => ()) safe twoRegions :=
  .apply (.addTag (some 0) 0 5)
    (.apply (.addTag (some 0) 10 5) .empty nofun (show (0 : ℤ) < 5 by decide) (h _ _ _ _) rfl)
    nofun (show (0 : ℤ) < 5 by decide) (h _ _ _ _) rfl

theorem disjoint_and_fills_iff_twoRegions :
    ∃ r, twoRegions.addTagsWhereAbsent (insertionTagSort ℕ Unit) (fun _ => ()) (some 0) 7 10 =
      .ok r ∧
      Fills (some 0) 7 10 twoRegions.regionTags r.1 r.2.regionTags := by
  obtain ⟨-, h⟩ := disjoint_and_fills_iff (reachable_twoRegions fun _ _ _ _ => trivial)
  obtain ⟨hexists, hiff⟩ := h (some 0) 7 10 (by decide)
  obtain ⟨r, hr⟩ := hexists (by decide)
  refine ⟨r, hr, (hiff r hr).2 (Or.inr ?_)⟩
  simp [twoRegions, getEndOffset]

/-- The sweep fills what the second region covers. -/
theorem exists_reachable_overlapping : ∃ this : SharingRegionTagSet ℕ Unit,
    Reachable (insertionTagSort ℕ Unit) (fun _ => ()) (fun _ _ => True) this ∧
      ¬ this.regionTags.Pairwise fun r s => r.tag.typeInfo = s.tag.typeInfo →
        r.getEndOffset ≤ s.offset ∨ s.getEndOffset ≤ r.offset :=
  ⟨_, .apply (.addTagsWhereAbsent (some 0) 0 20)
    (reachable_twoRegions fun _ _ _ _ => trivial) nofun (show (0 : ℤ) < 20 by decide)
    trivial rfl, by decide⟩

end SharingRegionTagSet

end Inet
