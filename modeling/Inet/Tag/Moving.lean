import Inet.Tag.RegionRun

/-! # Region tags of data that moves

Erasing clears the tags of the erased data and moves those behind it; inserting
moves the tags of what is behind the inserted data. Tags that keep their value
when their region changes are looked up by type and position.
-/

namespace Inet

open Outcome

variable {Class Fields : Type}

namespace RegionTag

variable {r s : RegionTag Class Fields} {o e c p shift total : ℤ}

/-- A region of data of the length, with a tag that keeps its value when the region changes. -/
structure InData (total : ℤ) (r : RegionTag Class Fields) : Prop where
  offset : 0 ≤ r.offset
  length : 0 ≤ r.length
  endOffset : r.getEndOffset ≤ total
  keeps : r.tag.typeInfo ≠ none

/-- A part of a region. -/
structure Inside (r s : RegionTag Class Fields) : Prop where
  length : 0 ≤ s.length
  typeInfo : s.tag.typeInfo = r.tag.typeInfo
  offset : r.offset ≤ s.offset
  endOffset : s.getEndOffset ≤ r.getEndOffset

theorem Inside.refl (h : 0 ≤ r.length) : Inside r r := ⟨h, rfl, le_rfl, le_rfl⟩

theorem InData.inside (h : InData total r) (hin : Inside r s) : InData total s where
  offset := h.offset.trans hin.offset
  length := hin.length
  endOffset := hin.endOffset.trans h.endOffset
  keeps := hin.typeInfo ▸ h.keeps

theorem changeRegion_of_keeps {tag : TagBase Class Fields} (h : tag.typeInfo ≠ none) (o l : ℤ) :
    tag.changeRegion o l = tag := by
  cases tag with
  | identityTag identityStart => exact absurd rfl h
  | other typeInfo fields => rfl

theorem atDistance_of_keeps {tag : TagBase Class Fields} (h : tag.typeInfo ≠ none) (distance : ℤ) :
    tag.atDistance distance = tag := changeRegion_of_keeps h distance 0

/-- The region after the last loop of `moveTags`. -/
def moved (o e shift : ℤ) (r : RegionTag Class Fields) : RegionTag Class Fields :=
  if o ≤ r.offset ∧ r.getEndOffset ≤ e then ⟨r.offset + shift, r.length, r.tag⟩ else r

end RegionTag

namespace SharingRegionTagSet

open RegionTag

variable (std : TagSort Class Fields) (this : SharingRegionTagSet Class Fields)

/-- What `Packet::eraseAt` does with the tags of the data, which has the total length. -/
def eraseTags (total offset length : ℤ) : Except Error (SharingRegionTagSet Class Fields) := do
  let this ← this.clearTags std offset length fun _ => true
  this.moveTags std (offset + length) (total - offset - length) (-length)

/-- What `Packet::insertAt` does with the tags of the data, which has the total length. -/
def insertTags (total offset length : ℤ) : Except Error (SharingRegionTagSet Class Fields) :=
  this.moveTags std offset (total - offset) length

/-- Every position before the erased data keeps its tags, and those behind it go back. -/
def ErasesTags (total offset length : ℤ) : Prop :=
  ReturnsWith (this.eraseTags std total offset length) fun after => ∀ typeInfo p tag,
    Carries after.regionTags typeInfo p tag ↔ p < offset ∧ Carries this.regionTags typeInfo p tag ∨
      offset ≤ p ∧ Carries this.regionTags typeInfo (p + length) tag

/-- Every position before the inserted data keeps its tags, and the other ones go on. -/
def InsertsTags (total offset length : ℤ) : Prop :=
  ReturnsWith (this.insertTags std total offset length) fun after => ∀ typeInfo p tag,
    Carries after.regionTags typeInfo p tag ↔ p < offset ∧ Carries this.regionTags typeInfo p tag ∨
      offset + length ≤ p ∧ Carries this.regionTags typeInfo (p - length) tag

variable {std this} {regionTags : List (RegionTag Class Fields)} {typeInfo : TypeInfo Class}
  {tag : TagBase Class Fields} {r : RegionTag Class Fields} {o e c p shift total offset length : ℤ}

theorem carries_iff (h : ∀ r ∈ regionTags, InData total r) : Carries regionTags typeInfo p tag ↔
    ∃ r ∈ regionTags, r.tag.typeInfo = typeInfo ∧ r.Covers p ∧ r.tag = tag := by
  constructor
  · rintro ⟨r, hr, htype, hp, htag⟩
    rw [atDistance_of_keeps (h r hr).keeps] at htag
    exact ⟨r, hr, htype, hp, htag⟩
  · rintro ⟨r, hr, htype, hp, htag⟩
    refine ⟨r, hr, htype, hp, ?_⟩
    rw [atDistance_of_keeps (h r hr).keeps]
    exact htag

theorem carries_singleton : Carries [r] typeInfo p tag ↔
    r.tag.typeInfo = typeInfo ∧ r.Covers p ∧ r.tag.atDistance (p - r.offset) = tag := by
  unfold Carries
  simp only [List.mem_singleton, exists_eq_left]

/-! ## Cutting regions -/

/-- The regions that are left do not reach over the range, and show what was shown outside of it. -/
structure Cuts (o e : ℤ) (regionTags after : List (RegionTag Class Fields)) : Prop where
  inside : ∀ s ∈ after, ∃ r ∈ regionTags, Inside r s
  apart : ∀ s ∈ after, s.getEndOffset ≤ o ∨ e ≤ s.offset
  carries : ∀ typeInfo p tag, Carries after typeInfo p tag ↔
    Carries regionTags typeInfo p tag ∧ ¬ (o ≤ p ∧ p < e)

theorem Cuts.inData (h : Cuts o e regionTags after) (hin : ∀ r ∈ regionTags, InData total r) :
    ∀ s ∈ after, InData total s := by
  intro s hs
  obtain ⟨r, hr, hinside⟩ := h.inside s hs
  exact (hin r hr).inside hinside

theorem Cuts.apart_of (h : Cuts o e regionTags after) {a b : ℤ}
    (hapart : ∀ r ∈ regionTags, r.getEndOffset ≤ a ∨ b ≤ r.offset) :
    ∀ s ∈ after, s.getEndOffset ≤ a ∨ b ≤ s.offset := by
  intro s hs
  obtain ⟨r, hr, hinside⟩ := h.inside s hs
  exact (hapart r hr).imp hinside.endOffset.trans hinside.offset.trans'

theorem Cuts.perm (h : Cuts o e regionTags after) {after' : List (RegionTag Class Fields)}
    (hp : after'.Perm after) : Cuts o e regionTags after' where
  inside s hs := h.inside s (hp.mem_iff.1 hs)
  apart s hs := h.apart s (hp.mem_iff.1 hs)
  carries typeInfo p tag := (Carries.perm hp).trans (h.carries typeInfo p tag)

theorem Cuts.flatMap {α : Type} {turns : List α} {parts : α → List (RegionTag Class Fields)}
    (h : List.Forall₂ (fun r turn => Cuts o e [r] (parts turn)) regionTags turns) :
    Cuts o e regionTags (turns.flatMap parts) where
  inside s hs := by
    obtain ⟨turn, hturn, hs⟩ := List.mem_flatMap.1 hs
    obtain ⟨r, hr, hcuts⟩ := exists_of_forall₂_of_mem h hturn
    obtain ⟨r', hr', hinside⟩ := hcuts.inside s hs
    rw [List.mem_singleton.1 hr'] at hinside
    exact ⟨r, hr, hinside⟩
  apart s hs := by
    obtain ⟨turn, hturn, hs⟩ := List.mem_flatMap.1 hs
    obtain ⟨r, -, hcuts⟩ := exists_of_forall₂_of_mem h hturn
    exact hcuts.apart s hs
  carries typeInfo p tag :=
    carries_flatMap_and (h.imp fun _ _ hcuts => hcuts.carries typeInfo p tag)

theorem carries_before (ho : o ≤ r.getEndOffset) : Carries (before o r) typeInfo p tag ↔
    Carries [r] typeInfo p tag ∧ p < o := by
  unfold before
  rw [carries_singleton]
  split_ifs with hlt
  · rw [carries_singleton]
    simp only [Covers, getEndOffset_mk]
    constructor
    · rintro ⟨htype, hp, htag⟩
      exact ⟨⟨htype, ⟨hp.1, by omega⟩, htag⟩, by omega⟩
    · rintro ⟨⟨htype, hp, htag⟩, hbefore⟩
      exact ⟨htype, ⟨hp.1, by omega⟩, htag⟩
  · constructor
    · rintro ⟨s, hs, -⟩
      cases hs
    · rintro ⟨⟨-, hp, -⟩, hbefore⟩
      exact absurd (hp.1.trans_lt hbefore) hlt

theorem carries_behind (he : r.offset ≤ e) : Carries (behind e r) typeInfo p tag ↔
    Carries [r] typeInfo p tag ∧ e ≤ p := by
  have hdistance : (r.tag.changeRegion (e - r.offset) 0).atDistance (p - e) =
      r.tag.atDistance (p - r.offset) := by
    rw [TagBase.atDistance, TagBase.changeRegion_changeRegion, TagBase.atDistance]
    congr 1
    omega
  unfold behind
  rw [carries_singleton]
  split_ifs with hlt
  · rw [carries_singleton]
    simp only [Covers, getEndOffset_mk, hdistance, TagBase.typeInfo_changeRegion]
    constructor
    · rintro ⟨htype, hp, htag⟩
      exact ⟨⟨htype, ⟨by omega, by omega⟩, htag⟩, hp.1⟩
    · rintro ⟨⟨htype, hp, htag⟩, hbehind⟩
      exact ⟨htype, ⟨hbehind, by omega⟩, htag⟩
  · constructor
    · rintro ⟨s, hs, -⟩
      cases hs
    · rintro ⟨⟨-, hp, -⟩, hbehind⟩
      exact absurd (hbehind.trans_lt hp.2) hlt

theorem cuts_before_behind (ho : o ≤ r.getEndOffset) (he : r.offset ≤ e) :
    Cuts o e [r] (before o r ++ behind e r) where
  inside s hs := by
    refine ⟨r, List.mem_singleton_self r, ?_⟩
    unfold before behind at hs
    rcases List.mem_append.1 hs with hs | hs
    · split_ifs at hs with hlt
      · obtain rfl := List.mem_singleton.1 hs
        exact ⟨sub_nonneg.2 hlt.le, rfl, le_rfl, by simpa using ho⟩
      · cases hs
    · split_ifs at hs with hlt
      · obtain rfl := List.mem_singleton.1 hs
        exact ⟨sub_nonneg.2 hlt.le, TagBase.typeInfo_changeRegion _ 0, he, by simp⟩
      · cases hs
  apart s hs := by
    unfold before behind at hs
    rcases List.mem_append.1 hs with hs | hs
    · split_ifs at hs with hlt
      · obtain rfl := List.mem_singleton.1 hs
        exact .inl (by simp)
      · cases hs
    · split_ifs at hs with hlt
      · obtain rfl := List.mem_singleton.1 hs
        exact .inr le_rfl
      · cases hs
  carries typeInfo p tag := by
    have houtside : p < o ∨ e ≤ p ↔ ¬ (o ≤ p ∧ p < e) := by omega
    rw [carries_append, carries_before ho, carries_behind he, ← and_or_left, houtside]

/-- A region that does not reach into the range. -/
theorem cuts_self (hr : 0 ≤ r.length) (h : r.getEndOffset ≤ o ∨ e ≤ r.offset) :
    Cuts o e [r] [r] where
  inside s hs := by
    obtain rfl := List.mem_singleton.1 hs
    exact ⟨s, hs, Inside.refl hr⟩
  apart s hs := List.mem_singleton.1 hs ▸ h
  carries typeInfo p tag := by
    refine (and_iff_left_of_imp fun hcarries => ?_).symm
    obtain ⟨-, ⟨hstart, hend⟩, -⟩ := carries_singleton.1 hcarries
    omega

theorem clear_cuts (hr : InData total r) :
    ReturnsWith (r.clear o e fun _ => true) fun turn => Cuts o e [r] turn.1 := by
  by_cases h : o < r.getEndOffset ∧ r.offset < e
  · exact ⟨_, clear_of_meets hr.offset rfl h.1 h.2, cuts_before_behind h.1.le h.2.le⟩
  · exact ⟨_, clear_of_not fun hmeets => h hmeets.2, cuts_self hr.length (by omega)⟩

theorem split_cuts (hr : InData total r) :
    ReturnsWith (r.split o fun _ => true) fun turn => Cuts o o [r] (turn.1 :: turn.2) := by
  by_cases h : r.Crosses o
  · refine ⟨_, split_of_crosses hr.offset rfl h, ?_⟩
    have hcuts := cuts_before_behind h.2.le h.1.le
    rw [before, if_pos h.1, behind, if_pos h.2] at hcuts
    exact hcuts
  · refine ⟨_, split_of_not fun hcrosses => h hcrosses.2, cuts_self hr.length ?_⟩
    by_contra hreaches
    exact h ⟨by omega, by omega⟩

theorem clearTags_cuts (h : ∀ r ∈ this.regionTags, InData total r) (offset length : ℤ) :
    ReturnsWith (this.clearTags std offset length fun _ => true) fun after =>
      Cuts offset (offset + length) this.regionTags after.regionTags := by
  have hturns := ReturnsWith.mapM fun r hr =>
    @clear_cuts Class Fields r offset (offset + length) total (h r hr)
  refine hturns.bind fun turns hturns => ?_
  have hcuts := Cuts.flatMap hturns
  dsimp only
  split_ifs
  · exact ⟨_, rfl, hcuts.perm (std.perm _)⟩
  · exact ⟨_, rfl, hcuts⟩

theorem splitTags_cuts (h : ∀ r ∈ this.regionTags, InData total r) (o : ℤ) :
    ReturnsWith (this.splitTags std o fun _ => true) fun after =>
      Cuts o o this.regionTags after.regionTags := by
  have hturns := ReturnsWith.mapM fun r hr => @split_cuts Class Fields r o total (h r hr)
  refine hturns.bind fun turns hturns => ?_
  have hcuts := Cuts.flatMap hturns
  have hperm := List.map_append_flatMap_perm turns Prod.fst Prod.snd
  dsimp only
  split_ifs with hne
  · exact ⟨_, rfl, hcuts.perm ((std.perm _).trans hperm)⟩
  · rw [not_not.1 hne, List.append_nil] at hperm
    exact ⟨_, rfl, hcuts.perm hperm⟩

/-! ## Moving regions -/

theorem mapM_moved (h : ∀ r ∈ regionTags, InData total r) (hshift : 0 ≤ o + shift) :
    regionTags.mapM
      (fun regionTag => (if o ≤ regionTag.getStartOffset ∧ regionTag.getEndOffset ≤ e then
      regionTag.setOffset (regionTag.offset + shift) else return regionTag : Except Error _)) =
      .ok (regionTags.map (moved o e shift)) := by
  induction regionTags with
  | nil => rfl
  | cons r regionTags ih =>
    obtain ⟨hr, hrest⟩ := List.forall_mem_cons.1 h
    have hmoved : (if o ≤ r.getStartOffset ∧ r.getEndOffset ≤ e then
        r.setOffset (r.offset + shift) else return r : Except Error _) =
          .ok (moved o e shift r) := by
      unfold getStartOffset moved
      by_cases hcond : o ≤ r.offset ∧ r.getEndOffset ≤ e
      · rw [if_pos hcond, if_pos hcond, setOffset_eq (by omega), changeRegion_of_keeps hr.keeps]
      · rw [if_neg hcond, if_neg hcond]
        rfl
    rw [List.mapM_cons, hmoved, Error.ok_bind, ih hrest, Error.ok_bind]
    rfl

theorem carries_moved (h : ∀ r ∈ regionTags, InData e r) (hco : c ≤ o)
    (hapart : ∀ r ∈ regionTags, r.getEndOffset ≤ c ∨ o ≤ r.offset) :
    Carries (regionTags.map (moved o e shift)) typeInfo p tag ↔
      p < c ∧ Carries regionTags typeInfo p tag ∨
        o ≤ p - shift ∧ Carries regionTags typeInfo (p - shift) tag := by
  rw [carries_iff h, carries_iff h]
  constructor
  · rintro ⟨s, hs, htype, ⟨hstart, hend⟩, htag⟩
    obtain ⟨r, hr, rfl⟩ := List.mem_map.1 hs
    unfold moved at *
    split_ifs at * with hcond
    · rw [atDistance_of_keeps (h r hr).keeps] at htag
      rw [getEndOffset_mk] at hend
      dsimp only at hstart
      have hlength : r.getEndOffset = r.offset + r.length := rfl
      exact .inr ⟨by omega, r, hr, htype, ⟨by omega, by omega⟩, htag⟩
    · rw [atDistance_of_keeps (h r hr).keeps] at htag
      have hbefore := (hapart r hr).resolve_right fun hle => hcond ⟨hle, (h r hr).endOffset⟩
      exact .inl ⟨by omega, r, hr, htype, ⟨hstart, hend⟩, htag⟩
  · have hkeeps (r : RegionTag Class Fields) (hr : r ∈ regionTags) (d : ℤ) :
        r.tag.atDistance d = r.tag := atDistance_of_keeps (h r hr).keeps d
    rintro (⟨hlt, r, hr, htype, ⟨hstart, hend⟩, rfl⟩ | ⟨hle, r, hr, htype, ⟨hstart, hend⟩, rfl⟩)
    · refine ⟨r, List.mem_map.2 ⟨r, hr, if_neg fun hcond => ?_⟩, htype,
        ⟨hstart, hend⟩, hkeeps r hr _⟩
      omega
    · have hbehind := (hapart r hr).resolve_left (by omega)
      have hlength : r.getEndOffset = r.offset + r.length := rfl
      refine ⟨_, List.mem_map.2 ⟨r, hr, if_pos ⟨hbehind, (h r hr).endOffset⟩⟩, htype, ⟨?_, ?_⟩,
        hkeeps r hr _⟩
      · dsimp only
        omega
      · rw [getEndOffset_mk]
        omega

/-! ## Erasing and inserting -/

theorem eraseTags_spec (h : ∀ r ∈ this.regionTags, InData total r) (ho : 0 ≤ offset)
    (hl : 0 ≤ length) :
    ReturnsWith (this.eraseTags std total offset length) fun after => ∀ typeInfo p tag,
      Carries after.regionTags typeInfo p tag ↔ p < offset ∧
        Carries this.regionTags typeInfo p tag ∨
        offset ≤ p ∧ Carries this.regionTags typeInfo (p + length) tag ∧
          ¬ (offset + length ≤ p ∧ p < 2 * (offset + length)) := by
  unfold eraseTags
  refine (clearTags_cuts h _ _).bind fun erased herased => ?_
  have hin := herased.inData h
  unfold moveTags
  dsimp only
  rw [if_neg (by omega)]
  refine (splitTags_cuts hin _).bind fun split hsplit => ?_
  have hin' := hsplit.inData hin
  rw [if_neg (by omega)]
  refine (clearTags_cuts hin' _ _).bind fun cleared hcleared => ?_
  have hin'' := hcleared.inData hin'
  rw [show offset + length + (total - offset - length) = total by omega,
    mapM_moved hin'' (by omega)]
  refine ⟨_, rfl, fun typeInfo p tag => ?_⟩
  rw [carries_moved hin'' (show offset ≤ offset + length by omega)
    (hcleared.apart_of (hsplit.apart_of herased.apart)), hcleared.carries, hsplit.carries,
    herased.carries, hcleared.carries, hsplit.carries, herased.carries, sub_neg_eq_add p]
  constructor
  · rintro (⟨hlt, ⟨⟨hp, -⟩, -⟩, -⟩ | ⟨hge, ⟨⟨hp, -⟩, -⟩, hout⟩)
    · exact .inl ⟨hlt, hp⟩
    · exact .inr ⟨by omega, hp, by omega⟩
  · rintro (⟨hlt, hp⟩ | ⟨hge, hp, hout⟩)
    · exact .inl ⟨hlt, ⟨⟨hp, by omega⟩, by omega⟩, by omega⟩
    · exact .inr ⟨by omega, ⟨⟨hp, by omega⟩, by omega⟩, by omega⟩

theorem insertsTags (h : ∀ r ∈ this.regionTags, InData total r) (ho : 0 ≤ offset)
    (hle : offset ≤ total) (hl : 0 < length) : this.InsertsTags std total offset length := by
  unfold InsertsTags insertTags moveTags
  dsimp only
  rw [if_pos hl]
  refine (splitTags_cuts h _).bind fun split hsplit => ?_
  have hin := hsplit.inData h
  rw [if_pos hl]
  refine (clearTags_cuts hin _ _).bind fun cleared hcleared => ?_
  have hin' := hcleared.inData hin
  rw [show offset + (total - offset) = total by omega] at hcleared ⊢
  rw [mapM_moved hin' (by omega)]
  refine ⟨_, rfl, fun typeInfo p tag => ?_⟩
  have hinside (p : ℤ) (hp : Carries this.regionTags typeInfo p tag) : p < total := by
    obtain ⟨r, hr, -, hcovers, -⟩ := hp
    exact hcovers.2.trans_le (h r hr).endOffset
  rw [carries_moved hin' le_rfl (hcleared.apart_of hsplit.apart), hcleared.carries, hsplit.carries,
    hcleared.carries, hsplit.carries]
  constructor
  · rintro (⟨hlt, ⟨hp, -⟩, -⟩ | ⟨hge, ⟨hp, -⟩, -⟩)
    · exact .inl ⟨hlt, hp⟩
    · exact .inr ⟨by omega, hp⟩
  · rintro (⟨hlt, hp⟩ | ⟨hge, hp⟩)
    · exact .inl ⟨hlt, ⟨hp, by omega⟩, by omega⟩
    · have hlt := hinside _ hp
      exact .inr ⟨by omega, ⟨hp, by omega⟩, by omega⟩

/-- Inserted data always takes the tags behind it along. Erasing does so exactly if no tag is where
`moveTags` clears: behind the erased data at a distance of its length, for as long as what is up to
its end. -/
theorem tags_follow_data (h : ∀ r ∈ this.regionTags, InData total r) (ho : 0 ≤ offset)
    (hl : 0 ≤ length) :
    (this.ErasesTags std total offset length ↔
      ∀ typeInfo p tag, Carries this.regionTags typeInfo p tag →
        ¬ (offset + 2 * length ≤ p ∧ p < 2 * offset + 3 * length)) ∧
    (offset ≤ total → 0 < length → this.InsertsTags std total offset length) := by
  refine ⟨?_, insertsTags h ho⟩
  obtain ⟨after, hafter, hcarries⟩ :=
    @eraseTags_spec Class Fields std this total offset length h ho hl
  constructor
  · intro herases typeInfo p tag hp hcleared
    have hmoved := (herases.of_eq_ok hafter typeInfo (p - length) tag).2
      (.inr ⟨by omega, by rwa [sub_add_cancel]⟩)
    rcases (hcarries _ _ _).1 hmoved with ⟨hlt, -⟩ | ⟨-, -, hout⟩
    · omega
    · exact hout ⟨by omega, by omega⟩
  · intro hfree
    refine ⟨after, hafter, fun typeInfo p tag => ?_⟩
    rw [hcarries]
    refine or_congr_right (and_congr_right fun hge => ?_)
    refine and_iff_left_of_imp fun hp hout => ?_
    exact hfree _ _ _ hp ⟨by omega, by omega⟩

/-- The tags of the first position and of two later ones. -/
def threePositions : SharingRegionTagSet ℕ Unit := ⟨[⟨0, 1, .other 0 ()⟩, ⟨3, 2, .other 1 ()⟩]⟩

theorem tags_follow_data_threePositions :
    threePositions.ErasesTags (insertionTagSort ℕ Unit) 8 1 2 ∧
      threePositions.InsertsTags (insertionTagSort ℕ Unit) 8 4 3 := by
  have hin : ∀ r ∈ threePositions.regionTags, InData 8 r := by
    rw [threePositions, List.forall_mem_cons, List.forall_mem_singleton]
    exact ⟨⟨le_rfl, by decide, by decide, nofun⟩, ⟨by decide, by decide, by decide, nofun⟩⟩
  have herases := (@tags_follow_data ℕ Unit (insertionTagSort ℕ Unit) threePositions 8 1 2 hin
    (by decide) (by decide)).1
  have hinserts := (@tags_follow_data ℕ Unit (insertionTagSort ℕ Unit) threePositions 8 4 3 hin
    (by decide) (by decide)).2 (by decide) (by decide)
  refine ⟨herases.2 ?_, hinserts⟩
  rintro typeInfo p tag ⟨r, hr, -, ⟨hstart, hend⟩, -⟩
  rw [threePositions, List.mem_cons, List.mem_singleton] at hr
  rcases hr with rfl | rfl
  · rw [getEndOffset_mk] at hend
    omega
  · rw [getEndOffset_mk] at hend
    omega

/-- One of four positions is erased, and the tag of the last one is lost. -/
theorem exists_not_erasesTags : ∃ this : SharingRegionTagSet ℕ Unit,
    (∀ r ∈ this.regionTags, InData 4 r) ∧ ¬ this.ErasesTags (insertionTagSort ℕ Unit) 4 1 1 := by
  refine ⟨⟨[⟨3, 1, .other 0 ()⟩]⟩, ?_, fun h => ?_⟩
  · rw [List.forall_mem_singleton]
    exact ⟨by decide, by decide, by decide, nofun⟩
  · have hrun : (⟨[⟨3, 1, .other 0 ()⟩]⟩ : SharingRegionTagSet ℕ Unit).eraseTags
        (insertionTagSort ℕ Unit) 4 1 1 = .ok ⟨[]⟩ := by
      rfl
    have hmoved := (h.of_eq_ok hrun (some 0) 2 (.other 0 ())).2
      (.inr ⟨by decide, _, List.mem_cons_self, rfl, ⟨by decide, by decide⟩, rfl⟩)
    obtain ⟨r, hr, -⟩ := hmoved
    cases hr

end SharingRegionTagSet

end Inet
