import Inet.Tag.Regions

/-! # Filling the gaps of a tag type

`addTagsWhereAbsent` sweeps the vector once. What it adds is exactly what is
missing if the regions that reach into the range stand in their order, or if a
split sorts them first.
-/

namespace Inet

open Outcome

namespace SharingRegionTagSet

open RegionTag

variable {Class Fields : Type} [DecidableEq Class] {std : TagSort Class Fields}
  {defaults : Class → Fields} {this : SharingRegionTagSet Class Fields}
  {regionTags : List (RegionTag Class Fields)} {typeInfo : TypeInfo Class}
  {tag : TagBase Class Fields} {offset length p : ℤ}

instance (r : RegionTag Class Fields) (p : ℤ) : Decidable (r.Covers p) :=
  inferInstanceAs (Decidable (r.offset ≤ p ∧ p < r.getEndOffset))

/-- The tags of a type that a position carries. -/
def tagsAt (regionTags : List (RegionTag Class Fields)) (typeInfo : TypeInfo Class) (p : ℤ) :
    List (TagBase Class Fields) :=
  regionTags.filterMap fun r =>
    if r.tag.typeInfo = typeInfo ∧ r.Covers p then some (r.tag.atDistance (p - r.offset)) else none

theorem mem_tagsAt : tag ∈ tagsAt regionTags typeInfo p ↔ Carries regionTags typeInfo p tag := by
  simp only [tagsAt, List.mem_filterMap, Carries, Option.ite_none_right_eq_some, Option.some.injEq,
    and_assoc]

theorem tagsAt_eq_nil_iff : tagsAt regionTags typeInfo p = [] ↔
    ∀ r ∈ regionTags, r.tag.typeInfo = typeInfo → ¬ r.Covers p := by
  simp only [tagsAt, List.filterMap_eq_nil_iff, ite_eq_right_iff, reduceCtorEq, imp_false, not_and]

theorem exists_tagsAt_eq (h : Separate regionTags) (hp : tagsAt regionTags typeInfo p ≠ []) :
    ∃ tag, tagsAt regionTags typeInfo p = [tag] := by
  have hpairwise : (tagsAt regionTags typeInfo p).Pairwise fun _ _ => False := by
    refine List.pairwise_filterMap.2 (h.apart.imp fun {r s} hrs => ?_)
    intro tag htag tag' htag'
    simp only [Option.ite_none_right_eq_some] at htag htag'
    obtain ⟨⟨hr, hrp⟩, -⟩ := htag
    obtain ⟨⟨hs, hsp⟩, -⟩ := htag'
    have := hrs (hr.trans hs.symm)
    unfold Covers at hrp hsp
    omega
  rcases hat : tagsAt regionTags typeInfo p with - | ⟨tag, - | ⟨tag', tags⟩⟩
  · exact absurd hat hp
  · exact ⟨tag, rfl⟩
  · rw [hat] at hpairwise
    exact ((List.pairwise_cons.1 hpairwise).1 tag' List.mem_cons_self).elim

/-- A longest part of the range without a tag of the type. -/
structure MaximalGap (regionTags : List (RegionTag Class Fields)) (typeInfo : TypeInfo Class)
    (lo hi a b : ℤ) : Prop where
  lt : a < b
  lo_le : lo ≤ a
  le_hi : b ≤ hi
  untagged : ∀ p, a ≤ p → p < b → tagsAt regionTags typeInfo p = []
  left : a = lo ∨ tagsAt regionTags typeInfo (a - 1) ≠ []
  right : b = hi ∨ tagsAt regionTags typeInfo b ≠ []

/-- What filling a range with tags of a type is to do. -/
structure Fills (typeInfo : TypeInfo Class) (offset length : ℤ)
    (before result after : List (RegionTag Class Fields)) : Prop where
  one : ∀ p, offset ≤ p → p < offset + length → ∃ tag, tagsAt after typeInfo p = [tag]
  kept : ∀ p, ∀ tag ∈ tagsAt before typeInfo p, tag ∈ tagsAt after typeInfo p
  result_iff : ∀ a b, (∃ r ∈ result, r.offset = a ∧ r.getEndOffset = b) ↔
    MaximalGap before typeInfo offset (offset + length) a b
  ascending : result.Pairwise fun r s => r.getEndOffset ≤ s.offset

/-- A region crosses an end of the range, so that a split sorts the vector, or no region that
reaches into the range stands behind one that starts later. -/
def InOrder (regionTags : List (RegionTag Class Fields)) (typeInfo : TypeInfo Class)
    (offset length : ℤ) : Prop :=
  (∃ r ∈ regionTags, r.tag.typeInfo = typeInfo ∧ (r.Crosses offset ∨ r.Crosses (offset + length))) ∨
    regionTags.Pairwise fun r s => r.tag.typeInfo = typeInfo → s.tag.typeInfo = typeInfo →
      offset < s.getEndOffset → s.offset < offset + length → r.offset < s.offset

/-- The ranges of the regions of a type, in the order of the vector. -/
def ranges (typeInfo : TypeInfo Class) (regionTags : List (RegionTag Class Fields)) :
    List (ℤ × ℤ) :=
  (regionTags.filter fun r => hasType typeInfo r.tag).map fun r => (r.offset, r.getEndOffset)

theorem hasType_iff : hasType typeInfo tag = true ↔ tag.typeInfo = typeInfo := by
  rw [hasType, decide_eq_true_eq, eq_comm]

theorem forall_mem_ranges {P : ℤ × ℤ → Prop} : (∀ x ∈ ranges typeInfo regionTags, P x) ↔
    ∀ r ∈ regionTags, r.tag.typeInfo = typeInfo → P (r.offset, r.getEndOffset) := by
  simp only [ranges, List.forall_mem_map, List.mem_filter, hasType_iff, and_imp]

theorem pairwise_ranges {P : ℤ × ℤ → ℤ × ℤ → Prop} : (ranges typeInfo regionTags).Pairwise P ↔
    regionTags.Pairwise fun r s => r.tag.typeInfo = typeInfo → s.tag.typeInfo = typeInfo →
      P (r.offset, r.getEndOffset) (s.offset, s.getEndOffset) := by
  simp only [ranges, List.pairwise_map, List.pairwise_filter, hasType_iff]

theorem sweep_eq (endOffset o : ℤ) : sweep typeInfo endOffset tag regionTags o =
    (gaps endOffset (ranges typeInfo regionTags) o).mapM fun g => new g.1 (g.2 - g.1) tag := by
  induction regionTags generalizing o with
  | nil =>
    rw [sweep, ranges, List.filter_nil, List.map_nil, gaps]
    simp only [sub_pos]
    split_ifs
    · rw [List.mapM_cons]
      rfl
    · rfl
  | cons r regionTags ih =>
    rw [sweep]
    have hmin : (if endOffset - o < r.offset - o then endOffset - o else r.offset - o) =
        min r.offset endOffset - o := by
      split_ifs <;> omega
    have hmax (x : ℤ) : (if x < r.getEndOffset then r.getEndOffset else x) =
        max x r.getEndOffset := by
      split_ifs <;> omega
    by_cases htype : typeInfo = r.tag.typeInfo
    · have hranges : ranges typeInfo (r :: regionTags) =
          (r.offset, r.getEndOffset) :: ranges typeInfo regionTags := by
        simp [ranges, hasType, htype]
      rw [if_pos htype, hranges, gaps]
      dsimp only [getStartOffset]
      simp only [sub_pos, hmin, hmax, add_sub_cancel, ih]
      split_ifs
      · rw [List.mapM_cons, List.mapM_nil]
        rfl
      · rw [List.mapM_cons]
      · rfl
      · rfl
    · have hranges : ranges typeInfo (r :: regionTags) = ranges typeInfo regionTags := by
        simp [ranges, hasType, htype]
      rw [if_neg htype, hranges, ih]

variable {before result after : List (RegionTag Class Fields)} {lo hi : ℤ}

/-- The regions of the type that a sweep from `lo` to `hi` meets. -/
structure Aligned (regionTags : List (RegionTag Class Fields)) (typeInfo : TypeInfo Class)
    (lo hi : ℤ) : Prop where
  separate : Separate regionTags
  not_crosses : ∀ r ∈ regionTags, r.tag.typeInfo = typeInfo → ¬ r.Crosses lo ∧ ¬ r.Crosses hi

namespace Aligned

theorem lt (h : Aligned regionTags typeInfo lo hi) : ∀ x ∈ ranges typeInfo regionTags, x.1 < x.2 :=
  forall_mem_ranges.2 fun r hr _ => by
    have := (h.separate.valid r hr).length
    unfold getEndOffset
    simp only
    omega

theorem le_or_le (h : Aligned regionTags typeInfo lo hi) :
    (∀ x ∈ ranges typeInfo regionTags, x.2 ≤ lo ∨ lo ≤ x.1) ∧
      ∀ x ∈ ranges typeInfo regionTags, x.2 ≤ hi ∨ hi ≤ x.1 := by
  constructor
  all_goals
    refine forall_mem_ranges.2 fun r hr htype => ?_
    have := h.not_crosses r hr htype
    unfold Crosses at this
    simp only
    omega

theorem disjoint (h : Aligned regionTags typeInfo lo hi) :
    (ranges typeInfo regionTags).Pairwise fun x y => x.2 ≤ y.1 ∨ y.2 ≤ x.1 :=
  pairwise_ranges.2 (h.separate.apart.imp fun hrs hr hs => hrs (hr.trans hs.symm))

theorem ordered_iff (h : Aligned regionTags typeInfo lo hi) :
    ((ranges typeInfo regionTags).Pairwise fun x y => y.2 ≤ lo ∨ hi ≤ y.1 ∨ x.2 ≤ y.1) ↔
      regionTags.Pairwise fun r s => r.tag.typeInfo = typeInfo → s.tag.typeInfo = typeInfo →
        lo < s.getEndOffset → s.offset < hi → r.offset < s.offset := by
  rw [pairwise_ranges]
  have hboth := List.Pairwise.and_mem.1 h.separate.apart
  constructor
  · refine fun hp => (hp.and hboth).imp fun ⟨hrs, hr, _⟩ htype htype' hlo hhi => ?_
    have := (h.separate.valid _ hr).length
    have := hrs htype htype'
    simp only [getEndOffset] at *
    omega
  · refine fun hp => (hp.and hboth).imp fun ⟨hrs, hr, hs, hapart⟩ htype htype' => ?_
    have := (h.separate.valid _ hr).length
    have := (h.separate.valid _ hs).length
    have := hapart (htype.trans htype'.symm)
    have := hrs htype htype'
    simp only [getEndOffset] at *
    omega

end Aligned

theorem tagsAt_ne_nil_iff : tagsAt regionTags typeInfo p ≠ [] ↔
    ∃ x ∈ ranges typeInfo regionTags, x.1 ≤ p ∧ p < x.2 := by
  rw [Ne, tagsAt_eq_nil_iff, ← not_iff_not, not_not]
  simp only [not_exists, not_and, ranges, List.mem_map, List.mem_filter, hasType_iff, Covers]
  constructor
  · rintro h x ⟨r, ⟨hr, htype⟩, rfl⟩
    exact h r hr htype
  · exact fun h r hr htype => h _ ⟨r, ⟨hr, htype⟩, rfl⟩

theorem isGap_iff (h : Separate regionTags) {a b : ℤ} :
    IsGap (ranges typeInfo regionTags) lo hi (a, b) ↔ MaximalGap regionTags typeInfo lo hi a b := by
  have hpos : ∀ x ∈ ranges typeInfo regionTags, x.1 < x.2 := forall_mem_ranges.2 fun r hr _ => by
    have := (h.valid r hr).length
    unfold getEndOffset
    simp only
    omega
  constructor
  · rintro ⟨hlt, hlo, hhi, hclear, hleft, hright⟩
    refine ⟨hlt, hlo, hhi, fun p hp hp' => ?_, hleft.imp_right fun ⟨x, hx, hxa⟩ => ?_,
      hright.imp_right fun ⟨x, hx, hxb⟩ => ?_⟩
    · by_contra hne
      obtain ⟨x, hx, hxp⟩ := tagsAt_ne_nil_iff.1 hne
      have := hclear x hx
      omega
    · have := hpos x hx
      exact tagsAt_ne_nil_iff.2 ⟨x, hx, by omega⟩
    · have := hpos x hx
      exact tagsAt_ne_nil_iff.2 ⟨x, hx, by omega⟩
  · rintro ⟨hlt, hlo, hhi, huntagged, hleft, hright⟩
    have hout (q : ℤ) (hq : a ≤ q) (hq' : q < b) (x : ℤ × ℤ) (hx : x ∈ ranges typeInfo regionTags) :
        ¬ (x.1 ≤ q ∧ q < x.2) := fun hin =>
      tagsAt_ne_nil_iff.2 ⟨x, hx, hin⟩ (huntagged q hq hq')
    refine ⟨hlt, hlo, hhi, fun x hx => ?_, hleft.imp_right fun hne => ?_,
      hright.imp_right fun hne => ?_⟩
    · have := hpos x hx
      have := hout (max a x.1) (le_max_left _ _)
      by_contra hin
      exact this (by omega) x hx (by omega)
    · obtain ⟨x, hx, hxa⟩ := tagsAt_ne_nil_iff.1 hne
      have := hout a le_rfl hlt x hx
      exact ⟨x, hx, by omega⟩
    · obtain ⟨x, hx, hxb⟩ := tagsAt_ne_nil_iff.1 hne
      have := hout (b - 1) (by omega) (by omega) x hx
      exact ⟨x, hx, by omega⟩

/-- The set that is swept: both ends of the range have been split. -/
structure Prepared (typeInfo : TypeInfo Class) (lo hi : ℤ)
    (before mid : List (RegionTag Class Fields)) :
    Prop where
  aligned : Aligned mid typeInfo lo hi
  carries : ∀ p tag, Carries mid typeInfo p tag ↔ Carries before typeInfo p tag
  sorted : (∃ r ∈ before, r.tag.typeInfo = typeInfo ∧ (r.Crosses lo ∨ r.Crosses hi)) →
    mid.Pairwise fun r s => r.offset ≤ s.offset
  same : (¬ ∃ r ∈ before, r.tag.typeInfo = typeInfo ∧ (r.Crosses lo ∨ r.Crosses hi)) → mid = before

theorem Prepared.of_splits {first : List (RegionTag Class Fields)}
    {mid : List (RegionTag Class Fields)}
    (h : SplitAt lo (hasType typeInfo) before first)
    (h' : SplitAt hi (hasType typeInfo) first mid) :
    Prepared typeInfo lo hi before mid := by
  have hfirst (hno : ¬ ∃ r ∈ before, r.tag.typeInfo = typeInfo ∧ r.Crosses lo) :
    first = before := by
    refine h.same fun ⟨r, hr, hf, ho⟩ => hno ⟨r, hr, hasType_iff.1 hf, ho⟩
  constructor
  · refine ⟨h'.separate, fun s hs htype => ?_⟩
    obtain ⟨r, hr, hrs, hcross⟩ := h'.within s hs
    have hrtype := hrs.typeInfo.symm.trans htype
    obtain ⟨q, hq, hqr, hcross'⟩ := h.within r hr
    have hqtype := hqr.typeInfo.symm.trans hrtype
    refine ⟨fun hlo => ?_, hcross (hasType_iff.2 hrtype)⟩
    exact hcross' (hasType_iff.2 hqtype)
      ⟨lt_of_le_of_lt hrs.offset hlo.1, hlo.2.trans_le hrs.endOffset⟩
  · exact fun p tag => (h'.carries typeInfo p tag).trans (h.carries typeInfo p tag)
  · rintro ⟨r, hr, htype, hcross⟩
    by_cases hlo : ∃ r ∈ before, r.tag.typeInfo = typeInfo ∧ r.Crosses lo
    · obtain ⟨r, hr, htype, hcross⟩ := hlo
      have hsorted := h.sorted ⟨r, hr, hasType_iff.2 htype, hcross⟩
      by_cases hhi : ∃ r ∈ first, hasType typeInfo r.tag ∧ r.Crosses hi
      · exact h'.sorted hhi
      · exact h'.same hhi ▸ hsorted
    · have heq := hfirst hlo
      rcases hcross with hcross | hcross
      · exact absurd ⟨r, hr, htype, hcross⟩ hlo
      · exact h'.sorted ⟨r, heq ▸ hr, hasType_iff.2 htype, hcross⟩
  · intro hno
    have heq := hfirst fun ⟨r, hr, htype, hcross⟩ => hno ⟨r, hr, htype, Or.inl hcross⟩
    rw [← heq]
    refine h'.same fun ⟨r, hr, hf, hcross⟩ => ?_
    exact hno ⟨r, heq ▸ hr, hasType_iff.1 hf, Or.inr hcross⟩

namespace Prepared

variable {mid : List (RegionTag Class Fields)}

theorem maximalGap_iff (h : Prepared typeInfo lo hi before mid) {a b : ℤ} :
    MaximalGap mid typeInfo lo hi a b ↔ MaximalGap before typeInfo lo hi a b := by
  have hnil (p : ℤ) : tagsAt mid typeInfo p = [] ↔ tagsAt before typeInfo p = [] := by
    simp only [List.eq_nil_iff_forall_not_mem, mem_tagsAt, h.carries]
  constructor
  all_goals
    rintro ⟨hlt, hlo, hhi, huntagged, hleft, hright⟩
    exact ⟨hlt, hlo, hhi, fun p hp hp' => by simpa only [hnil] using huntagged p hp hp',
      by simpa only [ne_eq, hnil] using hleft, by simpa only [ne_eq, hnil] using hright⟩

theorem sweepable (h : Prepared typeInfo offset (offset + length) before mid)
    (hin : InOrder before typeInfo offset length) :
    Sweepable (ranges typeInfo mid) offset (offset + length) := by
  refine ⟨h.aligned.lt, h.aligned.le_or_le.1, h.aligned.le_or_le.2, h.aligned.ordered_iff.2 ?_⟩
  by_cases hcross : ∃ r ∈ before, r.tag.typeInfo = typeInfo ∧
      (r.Crosses offset ∨ r.Crosses (offset + length))
  · have hboth := (h.sorted hcross).and (List.Pairwise.and_mem.1 h.aligned.separate.apart)
    refine hboth.imp fun ⟨hle, hr, hs, hapart⟩ htype htype' _ _ => ?_
    have := (h.aligned.separate.valid _ hr).length
    have := (h.aligned.separate.valid _ hs).length
    have := hapart (htype.trans htype'.symm)
    simp only [getEndOffset] at this
    omega
  · rw [h.same hcross]
    exact hin.resolve_left hcross

theorem inOrder (h : Prepared typeInfo offset (offset + length) before mid) (hlength : 0 < length)
    (hclear : ∀ g ∈ gaps (offset + length) (ranges typeInfo mid) offset,
      ∀ x ∈ ranges typeInfo mid, x.2 ≤ g.1 ∨ g.2 ≤ x.1) :
        InOrder before typeInfo offset length := by
  by_cases hcross : ∃ r ∈ before, r.tag.typeInfo = typeInfo ∧
      (r.Crosses offset ∨ r.Crosses (offset + length))
  · exact Or.inl hcross
  · have hordered := ordered_of_clear (lt_add_of_pos_right offset hlength) h.aligned.lt
      h.aligned.le_or_le.1 h.aligned.le_or_le.2 h.aligned.disjoint hclear
    rw [h.aligned.ordered_iff, h.same hcross] at hordered
    exact Or.inr hordered

end Prepared

/-- The region tags that are made for ranges. -/
def regionsFor (tag : TagBase Class Fields) (gs : List (ℤ × ℤ)) : List (RegionTag Class Fields) :=
  gs.map fun g => ⟨g.1, g.2 - g.1, tag⟩

omit [DecidableEq Class] in
theorem of_mapM_new_eq_ok {gs : List (ℤ × ℤ)}
    (h : gs.mapM (fun g => new g.1 (g.2 - g.1) tag) = .ok result) :
    result = regionsFor tag gs ∧ ∀ g ∈ gs, 0 ≤ g.1 := by
  induction gs generalizing result with
  | nil =>
    cases h
    exact ⟨rfl, by simp⟩
  | cons g gs ih =>
    rw [List.mapM_cons] at h
    obtain ⟨r, hr, h⟩ := Error.exists_of_bind_eq_ok h
    obtain ⟨rs, hrs, h⟩ := Error.exists_of_bind_eq_ok h
    cases h
    obtain ⟨hle, -, rfl⟩ := of_new_eq_ok hr
    obtain ⟨rfl, hgs⟩ := ih hrs
    exact ⟨rfl, List.forall_mem_cons.2 ⟨hle, hgs⟩⟩

theorem addTagsWhereAbsentBase_eq_ok
    {r : List (RegionTag Class Fields) × SharingRegionTagSet Class Fields}
    (h : this.addTagsWhereAbsentBase std typeInfo offset length tag = .ok r) :
    r.1 = regionsFor tag (gaps (offset + length) (ranges typeInfo this.regionTags) offset) ∧
      (∀ g ∈ gaps (offset + length) (ranges typeInfo this.regionTags) offset, 0 ≤ g.1) ∧
      r.2.regionTags.Perm (this.regionTags ++ r.1) := by
  obtain ⟨result, hresult, h⟩ := Error.exists_of_bind_eq_ok h
  rw [sweep_eq] at hresult
  obtain ⟨rfl, hle⟩ := of_mapM_new_eq_ok hresult
  split_ifs at h with hne
  · cases h
    exact ⟨rfl, hle, std.perm _⟩
  · cases h
    refine ⟨rfl, hle, ?_⟩
    rw [not_not.1 hne, List.append_nil]

theorem exists_addTagsWhereAbsentBase_eq_ok (hoffset : 0 ≤ offset) (hlength : 0 < length) :
    ∃ r, this.addTagsWhereAbsentBase std typeInfo offset length tag = .ok r := by
  have hmapM : ReturnsWith ((gaps (offset + length) (ranges typeInfo this.regionTags) offset).mapM
      fun g => new g.1 (g.2 - g.1) tag) fun _ => True := by
    refine (ReturnsWith.mapM fun g hg => (?_ : ReturnsWith _ fun _ => True)).mono fun _ _ => trivial
    obtain ⟨hle, hlt⟩ := gaps_bounds (lt_add_of_pos_right offset hlength) hg
    exact ⟨_, new_eq (hoffset.trans hle) (sub_nonneg.2 hlt.le) tag, trivial⟩
  rw [← sweep_eq] at hmapM
  obtain ⟨result, hresult, -⟩ := hmapM
  rw [addTagsWhereAbsentBase, hresult, Error.ok_bind]
  split_ifs <;> exact ⟨_, rfl⟩

namespace Prepared

variable {mid : List (RegionTag Class Fields)} {gs : List (ℤ × ℤ)}

/-- What is added keeps apart from what was there. -/
theorem separate_append (h : Prepared typeInfo offset (offset + length) before mid)
    (hlength : 0 < length) (hin : InOrder before typeInfo offset length)
    (htype : tag.typeInfo = typeInfo)
    (hle : ∀ g ∈ gaps (offset + length) (ranges typeInfo mid) offset, 0 ≤ g.1) :
    Separate (mid ++ regionsFor tag (gaps (offset + length) (ranges typeInfo mid) offset)) := by
  have hsweep := h.sweepable hin
  have hlt := lt_add_of_pos_right offset hlength
  refine h.aligned.separate.append ⟨?_, ?_⟩ ?_
  · intro r hr
    obtain ⟨g, hg, rfl⟩ := List.mem_map.1 hr
    exact ⟨hle g hg, sub_pos.2 ((mem_gaps_iff hsweep hlt).1 hg).lt⟩
  · refine List.pairwise_map.2 ((pairwise_gaps hsweep hlt).imp fun hgg _ => Or.inl ?_)
    simp only [getEndOffset_mk]
    omega
  · intro r hr s hs hrs
    obtain ⟨g, hg, rfl⟩ := List.mem_map.1 hs
    have hgap := (mem_gaps_iff hsweep hlt).1 hg
    have := forall_mem_ranges.1 hgap.clear r hr (hrs.trans htype)
    simp only [getEndOffset_mk] at this ⊢
    omega

theorem fills (h : Prepared typeInfo offset (offset + length) before mid) (hlength : 0 < length)
    (hin : InOrder before typeInfo offset length) (htype : tag.typeInfo = typeInfo)
    (hle : ∀ g ∈ gaps (offset + length) (ranges typeInfo mid) offset, 0 ≤ g.1)
    (hafter : after.Perm
      (mid ++ regionsFor tag (gaps (offset + length) (ranges typeInfo mid) offset))) :
    Fills typeInfo offset length before
      (regionsFor tag (gaps (offset + length) (ranges typeInfo mid) offset)) after := by
  have hsweep := h.sweepable hin
  have hlt := lt_add_of_pos_right offset hlength
  have hkept (p : ℤ) (tag' : TagBase Class Fields) (htag : Carries mid typeInfo p tag') :
      tag' ∈ tagsAt after typeInfo p := by
    obtain ⟨r, hr, hrest⟩ := htag
    exact mem_tagsAt.2 ⟨r, hafter.mem_iff.2 (List.mem_append_left _ hr), hrest⟩
  constructor
  · intro p hp hp'
    refine exists_tagsAt_eq ((h.separate_append hlength hin htype hle).perm hafter) ?_
    by_cases hmid : tagsAt mid typeInfo p = []
    · have hfree : ∀ x ∈ ranges typeInfo mid, p < x.1 ∨ x.2 ≤ p := by
        intro x hx
        by_contra hin
        exact tagsAt_ne_nil_iff.2 ⟨x, hx, by omega⟩ hmid
      obtain ⟨g, hg, hgp⟩ := exists_mem_gaps hsweep hp hp' hfree
      have hmem : (⟨g.1, g.2 - g.1, tag⟩ : RegionTag Class Fields) ∈ after :=
        hafter.mem_iff.2 (List.mem_append_right _ (List.mem_map.2 ⟨g, hg, rfl⟩))
      refine List.ne_nil_of_mem (mem_tagsAt.2 ⟨_, hmem, htype, ⟨hgp.1, ?_⟩, rfl⟩)
      rw [getEndOffset_mk]
      omega
    · obtain ⟨tag', htag'⟩ := List.exists_mem_of_ne_nil _ hmid
      exact List.ne_nil_of_mem (hkept p tag' (mem_tagsAt.1 htag'))
  · intro p tag' htag'
    exact hkept p tag' ((h.carries p tag').2 (mem_tagsAt.1 htag'))
  · intro a b
    rw [← h.maximalGap_iff, ← isGap_iff h.aligned.separate, ← mem_gaps_iff hsweep hlt]
    constructor
    · rintro ⟨r, hr, rfl, rfl⟩
      obtain ⟨g, hg, rfl⟩ := List.mem_map.1 hr
      rw [getEndOffset_mk, add_sub_cancel]
      exact hg
    · intro hg
      exact ⟨_, List.mem_map.2 ⟨_, hg, rfl⟩, rfl, by rw [getEndOffset_mk, add_sub_cancel]⟩
  · refine List.pairwise_map.2 ((pairwise_gaps hsweep hlt).imp fun hgg => ?_)
    simp only [getEndOffset_mk]
    omega

theorem inOrder_of_fills (h : Prepared typeInfo offset (offset + length) before mid)
    (hlength : 0 < length) (hfills : Fills typeInfo offset length before
      (regionsFor tag (gaps (offset + length) (ranges typeInfo mid) offset)) after) :
    InOrder before typeInfo offset length := by
  refine h.inOrder hlength fun g hg => ?_
  have hgap := (hfills.result_iff g.1 g.2).1 ⟨_, List.mem_map.2 ⟨g, hg, rfl⟩, rfl, by
    rw [getEndOffset_mk, add_sub_cancel]⟩
  rw [← h.maximalGap_iff, ← isGap_iff h.aligned.separate] at hgap
  exact hgap.clear

end Prepared

end SharingRegionTagSet

end Inet
