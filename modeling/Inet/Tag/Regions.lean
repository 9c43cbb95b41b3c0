import Inet.Lib.Gaps
import Inet.Lib.Outcome
import Inet.Tag.SharingRegionTagSet
import Mathlib.Data.List.Perm.Basic
import Mathlib.Data.List.Sort

/-! # Regions of a tag type

The regions of a type stay apart, and a position carries at most one tag of a
type. Filling a range finds its gaps when the regions come in their order.
-/

namespace Inet

open Outcome

variable {Class Fields : Type}

namespace TagBase

variable {tag : TagBase Class Fields}

/-- The tag that a position of a region has, when it is that far from the start of the region. -/
def atDistance (tag : TagBase Class Fields) (distance : ℤ) : TagBase Class Fields :=
  tag.changeRegion distance 0

@[simp] theorem changeRegion_zero (l : ℤ) : tag.changeRegion 0 l = tag := by
  cases tag <;> rfl

@[simp] theorem typeInfo_changeRegion (o l : ℤ) :
  (tag.changeRegion o l).typeInfo = tag.typeInfo := by
  cases tag with
  | identityTag identityStart =>
    rw [changeRegion]
    split_ifs <;> rfl
  | other typeInfo fields => rfl

theorem changeRegion_changeRegion (o o' l l' : ℤ) :
    (tag.changeRegion o l).changeRegion o' l' = tag.changeRegion (o + o') 0 := by
  have hne (start : BitVec 64) (o l : ℤ) :
    (identityTag start : TagBase Class Fields).changeRegion o l =
      identityTag (start + BitVec.ofInt 64 o) := by
    rw [changeRegion]
    split_ifs with h
    · rw [h]
      simp
    · rfl
  cases tag with
  | identityTag identityStart => rw [hne, hne, hne, BitVec.ofInt_add, BitVec.add_assoc]
  | other typeInfo fields => rfl

theorem typeInfo_makeShared (defaults : Class → Fields) (typeInfo : TypeInfo Class) :
    (makeShared defaults typeInfo : TagBase Class Fields).typeInfo = typeInfo := by
  cases typeInfo <;> rfl

end TagBase

namespace RegionTag

variable {r s t : RegionTag Class Fields} {p o e : ℤ} {f : TagBase Class Fields → Bool}

/-- The region has positions, and they are not negative. -/
structure Valid (r : RegionTag Class Fields) : Prop where
  offset : 0 ≤ r.offset
  length : 0 < r.length

def Covers (r : RegionTag Class Fields) (p : ℤ) : Prop := r.offset ≤ p ∧ p < r.getEndOffset

/-- A position in the region that is not its first one. -/
def Crosses (r : RegionTag Class Fields) (p : ℤ) : Prop := r.offset < p ∧ p < r.getEndOffset

/-- Regions of different tags may overlap. -/
def Apart (r s : RegionTag Class Fields) : Prop :=
  r.tag.typeInfo = s.tag.typeInfo → r.getEndOffset ≤ s.offset ∨ s.getEndOffset ≤ r.offset

theorem Apart.symm (h : Apart r s) : Apart s r := fun htype => (h htype.symm).symm

/-- A part of a region that keeps its type. -/
structure Within (r s : RegionTag Class Fields) : Prop where
  valid : s.Valid
  typeInfo : s.tag.typeInfo = r.tag.typeInfo
  offset : r.offset ≤ s.offset
  endOffset : s.getEndOffset ≤ r.getEndOffset

theorem Within.refl (h : r.Valid) : Within r r := ⟨h, rfl, le_rfl, le_rfl⟩

theorem Apart.within {r' s' : RegionTag Class Fields} (h : Apart r s) (hr : Within r r')
    (hs : Within s s') : Apart r' s' := by
  intro htype
  rw [hr.typeInfo, hs.typeInfo] at htype
  exact (h htype).imp (fun hle => hr.endOffset.trans (hle.trans hs.offset))
    fun hle => hs.endOffset.trans (hle.trans hr.offset)

/-- Parts of a region that stay apart from each other. -/
structure Parts (r : RegionTag Class Fields) (parts : List (RegionTag Class Fields)) : Prop where
  within : ∀ s ∈ parts, Within r s
  apart : parts.Pairwise Apart

theorem Parts.self (h : r.Valid) : Parts r [r] :=
  ⟨by simpa using Within.refl h, List.pairwise_singleton _ _⟩

@[simp] theorem getEndOffset_mk (o l : ℤ) (tag : TagBase Class Fields) :
    (RegionTag.mk o l tag).getEndOffset = o + l := rfl

theorem new_eq (ho : 0 ≤ o) (hl : 0 ≤ e) (tag : TagBase Class Fields) :
    new o e tag = .ok ⟨o, e, tag⟩ := by
  rw [new, Error.assert_of_pos ho, Error.assert_of_pos hl]
  rfl

theorem of_new_eq_ok {tag : TagBase Class Fields} (h : new o e tag = .ok r) :
    0 ≤ o ∧ 0 ≤ e ∧ r = ⟨o, e, tag⟩ := by
  obtain ⟨_, ho, h⟩ := Error.exists_of_bind_eq_ok h
  obtain ⟨_, hl, h⟩ := Error.exists_of_bind_eq_ok h
  cases h
  exact ⟨Error.of_assert_eq_ok ho, Error.of_assert_eq_ok hl, rfl⟩

theorem setOffset_eq (h : 0 ≤ o) :
    r.setOffset o = .ok ⟨o, r.length, r.tag.changeRegion (o - r.offset) 0⟩ := by
  rw [setOffset, Error.assert_of_pos h, Error.ok_bind]
  split_ifs with hne
  · rfl
  · rw [not_not.1 hne, sub_self, TagBase.changeRegion_zero, ← not_not.1 hne]
    rfl

theorem setLength_eq (h : 0 ≤ e) : r.setLength e = .ok ⟨r.offset, e, r.tag⟩ := by
  rw [setLength, Error.assert_of_pos h, Error.ok_bind]
  split_ifs with hne
  · rw [TagBase.changeRegion_zero]
    rfl
  · rw [← not_not.1 hne]
    rfl

theorem split_of_crosses (hr : 0 ≤ r.offset) (hf : f r.tag) (ho : r.Crosses o) :
    r.split o f = .ok (⟨r.offset, o - r.offset, r.tag⟩,
      [⟨o, r.getEndOffset - o, r.tag.changeRegion (o - r.offset) 0⟩]) := by
  obtain ⟨hlt, hgt⟩ := ho
  rw [split, if_pos ⟨hf, hlt, hgt⟩, setOffset_eq (hr.trans hlt.le), Error.ok_bind,
    setLength_eq (sub_nonneg.2 hgt.le), Error.ok_bind, getStartOffset,
    setLength_eq (sub_nonneg.2 hlt.le)]
  rfl

theorem split_of_not (h : ¬ (f r.tag ∧ r.Crosses o)) : r.split o f = .ok (r, []) := if_neg h

/-- The part of a region before the cleared range. -/
def before (o : ℤ) (r : RegionTag Class Fields) : List (RegionTag Class Fields) :=
  if r.offset < o then [⟨r.offset, o - r.offset, r.tag⟩] else []

/-- The part of a region behind the cleared range. -/
def behind (e : ℤ) (r : RegionTag Class Fields) : List (RegionTag Class Fields) :=
  if e < r.getEndOffset then [⟨e, r.getEndOffset - e, r.tag.changeRegion (e - r.offset) 0⟩] else []

theorem clear_of_not (h : ¬ (f r.tag ∧ o < r.getEndOffset ∧ r.offset < e)) :
    r.clear o e f = .ok ([r], false) := by
  by_cases hf : f r.tag
  · rw [clear, if_neg (by simpa using hf), if_pos]
    · rfl
    · unfold getStartOffset
      by_contra hin
      exact h ⟨hf, by omega, by omega⟩
  · exact if_pos hf

theorem clear_of_meets (hr : 0 ≤ r.offset) (hf : f r.tag) (ho : o < r.getEndOffset)
    (he : r.offset < e) : r.clear o e f = .ok (before o r ++ behind e r, true) := by
  rw [clear, if_neg (by simpa using hf), getStartOffset, if_neg (by omega), before, behind]
  split_ifs with hin hmid hend hstart
  all_goals first | omega | skip
  · rfl
  · rw [setLength_eq (by omega), Error.ok_bind, setOffset_eq (by omega), Error.ok_bind,
      setOffset_eq (by omega), Error.ok_bind, setLength_eq (by omega),
      TagBase.changeRegion_changeRegion, sub_add_sub_cancel, sub_self, TagBase.changeRegion_zero]
    rfl
  · rw [setLength_eq (by omega)]
    rfl
  · rw [setLength_eq (by omega), Error.ok_bind, setOffset_eq (by omega)]
    rfl

theorem clear_spec (hr : r.Valid) (hoe : o < e) :
    ReturnsWith (r.clear o e f) fun turn => Parts r turn.1 ∧
      ∀ s ∈ turn.1, f r.tag → s.getEndOffset ≤ o ∨ e ≤ s.offset := by
  have hpos := hr.offset
  have hend : r.getEndOffset = r.offset + r.length := rfl
  by_cases h : f r.tag ∧ o < r.getEndOffset ∧ r.offset < e
  · obtain ⟨hf, ho, he⟩ := h
    refine ⟨_, clear_of_meets hpos hf ho he, ⟨?_, ?_⟩, ?_⟩
    · intro s hs
      unfold before behind at hs
      rcases List.mem_append.1 hs with hs | hs
      all_goals
        split_ifs at hs
        · obtain rfl := List.mem_singleton.1 hs
          constructor
          · constructor <;> simp only <;> omega
          all_goals simp <;> omega
        · cases hs
    · unfold before behind
      split_ifs
      · refine List.pairwise_pair.2 fun _ => Or.inl ?_
        simp only [getEndOffset_mk]
        omega
      all_goals simp
    · intro s hs _
      unfold before behind at hs
      rcases List.mem_append.1 hs with hs | hs
      all_goals
        split_ifs at hs
        · obtain rfl := List.mem_singleton.1 hs
          simp only [getEndOffset_mk]
          omega
        · cases hs
  · refine ⟨_, clear_of_not h, Parts.self hr, ?_⟩
    intro s hs hf
    obtain rfl := List.mem_singleton.1 hs
    by_contra hin
    exact h ⟨hf, by omega, by omega⟩

end RegionTag

namespace SharingRegionTagSet

open RegionTag

variable {std : TagSort Class Fields} {defaults : Class → Fields}
  {this : SharingRegionTagSet Class Fields} {regionTags regionTags' : List (RegionTag Class Fields)}
  {offset length : ℤ} {f : TagBase Class Fields → Bool}

/-- Every region has positions, and the regions of a type are disjoint. -/
structure Separate (regionTags : List (RegionTag Class Fields)) : Prop where
  valid : ∀ r ∈ regionTags, r.Valid
  apart : regionTags.Pairwise Apart

theorem Separate.nil : Separate ([] : List (RegionTag Class Fields)) := ⟨by simp, .nil⟩

theorem Separate.perm (h : Separate regionTags) (hp : regionTags'.Perm regionTags) :
    Separate regionTags' :=
  ⟨fun r hr => h.valid r (hp.mem_iff.1 hr), (hp.pairwise_iff fun h => h.symm).2 h.apart⟩

theorem Separate.sublist (h : Separate regionTags) (hs : regionTags'.Sublist regionTags) :
    Separate regionTags' :=
  ⟨fun r hr => h.valid r (hs.mem hr), h.apart.sublist hs⟩

theorem Separate.append (h : Separate regionTags) (h' : Separate regionTags')
    (hd : ∀ r ∈ regionTags, ∀ s ∈ regionTags', Apart r s) : Separate (regionTags ++ regionTags') :=
  ⟨List.forall_mem_append.2 ⟨h.valid, h'.valid⟩, List.pairwise_append.2 ⟨h.apart, h'.apart, hd⟩⟩

theorem exists_of_forall₂_of_mem {α β : Type} {rel : α → β → Prop} {as : List α} {bs : List β}
    {b : β}
    (h : List.Forall₂ rel as bs) (hb : b ∈ bs) : ∃ a ∈ as, rel a b := by
  induction h with
  | nil => cases hb
  | @cons a b' as bs hab _ ih =>
    rcases List.mem_cons.1 hb with rfl | hb
    · exact ⟨a, List.mem_cons_self, hab⟩
    · obtain ⟨a', ha', hab'⟩ := ih hb
      exact ⟨a', List.mem_cons_of_mem a ha', hab'⟩

theorem Separate.parts {α : Type} {turns : List α} {parts : α → List (RegionTag Class Fields)}
    (h : Separate regionTags)
    (hp : List.Forall₂ (fun r turn => Parts r (parts turn)) regionTags turns) :
    Separate (turns.flatMap parts) ∧
      ∀ s ∈ turns.flatMap parts, ∃ r ∈ regionTags, Within r s := by
  induction hp with
  | nil => exact ⟨Separate.nil, by simp⟩
  | @cons r turn rs turns hr _ ih =>
    obtain ⟨hhead, htail⟩ := List.pairwise_cons.1 h.apart
    obtain ⟨hsep, hwithin⟩ := ih (h.sublist (List.sublist_cons_self r rs))
    rw [List.flatMap_cons]
    constructor
    · refine Separate.append ⟨fun s hs => (hr.within s hs).valid, hr.apart⟩ hsep ?_
      intro s hs t ht
      obtain ⟨r', hr', ht⟩ := hwithin t ht
      exact (hhead r' hr').within (hr.within s hs) ht
    · intro s hs
      rcases List.mem_append.1 hs with hs | hs
      · exact ⟨r, List.mem_cons_self, hr.within s hs⟩
      · obtain ⟨r', hr', hs⟩ := hwithin s hs
        exact ⟨r', List.mem_cons_of_mem r hr', hs⟩

theorem clearTags_spec (h : Separate this.regionTags) (hl : 0 < length) :
    ReturnsWith (this.clearTags std offset length f) fun s => Separate s.regionTags ∧
      ((∀ tag, f tag) → ∀ r ∈ s.regionTags, r.getEndOffset ≤ offset ∨ offset + length ≤
        r.offset) := by
  have hturns := ReturnsWith.mapM fun r hr =>
    clear_spec (f := f) (h.valid r hr) (lt_add_of_pos_right offset hl)
  refine hturns.bind fun turns hturns => ?_
  have hsep := (h.parts (hturns.imp fun _ _ => And.left)).1
  have hclear : (∀ tag, f tag) → ∀ r ∈ turns.flatMap Prod.fst,
      r.getEndOffset ≤ offset ∨ offset + length ≤ r.offset := by
    intro hf s hs
    obtain ⟨turn, hturn, hs⟩ := List.mem_flatMap.1 hs
    obtain ⟨r, -, -, hr⟩ := exists_of_forall₂_of_mem hturns hturn
    exact hr s hs (hf r.tag)
  dsimp only
  split_ifs
  · exact ⟨_, rfl, hsep.perm (std.perm _), fun hf r hr => hclear hf r ((std.perm _).mem_iff.1 hr)⟩
  · exact ⟨_, rfl, hsep, hclear⟩

/-- A position carries a tag of the type. -/
def Carries (regionTags : List (RegionTag Class Fields)) (typeInfo : TypeInfo Class) (p : ℤ)
    (tag : TagBase Class Fields) : Prop :=
  ∃ r ∈ regionTags, r.tag.typeInfo = typeInfo ∧ r.Covers p ∧ r.tag.atDistance (p - r.offset) = tag

theorem Carries.perm {typeInfo : TypeInfo Class} {p : ℤ} {tag : TagBase Class Fields}
    (hp : regionTags'.Perm regionTags) :
    Carries regionTags' typeInfo p tag ↔ Carries regionTags typeInfo p tag := by
  unfold Carries
  simp only [hp.mem_iff]

theorem carries_split {r : RegionTag Class Fields} {typeInfo : TypeInfo Class} {o p : ℤ}
    {tag : TagBase Class Fields} (ho : r.Crosses o) :
    Carries [⟨r.offset, o - r.offset, r.tag⟩,
      ⟨o, r.getEndOffset - o, r.tag.changeRegion (o - r.offset) 0⟩] typeInfo p tag ↔
      Carries [r] typeInfo p tag := by
  obtain ⟨hlt, hgt⟩ := ho
  have hdistance : (r.tag.changeRegion (o - r.offset) 0).atDistance (p - o) =
      r.tag.atDistance (p - r.offset) := by
    rw [TagBase.atDistance, TagBase.changeRegion_changeRegion, TagBase.atDistance]
    congr 1
    omega
  simp only [Carries, List.mem_cons, List.not_mem_nil, or_false, exists_eq_or_imp, exists_eq_left,
    hdistance, TagBase.typeInfo_changeRegion, Covers, getEndOffset_mk]
  constructor
  · rintro (⟨htype, hp, htag⟩ | ⟨htype, hp, htag⟩)
    · exact ⟨htype, ⟨hp.1, by omega⟩, htag⟩
    · exact ⟨htype, ⟨by omega, by omega⟩, htag⟩
  · rintro ⟨htype, hp, htag⟩
    rcases lt_or_ge p o with hpo | hpo
    · exact Or.inl ⟨htype, ⟨hp.1, by omega⟩, htag⟩
    · exact Or.inr ⟨htype, ⟨hpo, by omega⟩, htag⟩

theorem parts_split {r : RegionTag Class Fields} {o : ℤ} (hr : r.Valid) (ho : r.Crosses o) :
    Parts r [⟨r.offset, o - r.offset, r.tag⟩,
      ⟨o, r.getEndOffset - o, r.tag.changeRegion (o - r.offset) 0⟩] := by
  obtain ⟨hlt, hgt⟩ := ho
  have hpos := hr.offset
  constructor
  · simp only [List.forall_mem_cons, List.not_mem_nil, false_imp_iff, implies_true, and_true]
    constructor
    · exact ⟨⟨hpos, by simp only; omega⟩, rfl, le_rfl, by simp only [getEndOffset_mk]; omega⟩
    · exact ⟨⟨by simp only; omega, by simp only; omega⟩, TagBase.typeInfo_changeRegion _ 0, hlt.le,
        by simp only [getEndOffset_mk]; omega⟩
  · refine List.pairwise_pair.2 fun _ => Or.inl ?_
    simp only [getEndOffset_mk]
    omega

/-- What a turn of `splitTags` leaves of a region. -/
structure SplitsTo (o : ℤ) (f : TagBase Class Fields → Bool) (r : RegionTag Class Fields)
    (turn : RegionTag Class Fields × List (RegionTag Class Fields)) : Prop where
  parts : Parts r (turn.1 :: turn.2)
  carries : ∀ typeInfo p tag, Carries (turn.1 :: turn.2) typeInfo p tag ↔ Carries [r] typeInfo p tag
  crosses : f r.tag → ∀ s ∈ turn.1 :: turn.2, ¬ s.Crosses o
  inserted : turn.2 ≠ [] ↔ f r.tag ∧ r.Crosses o
  kept : turn.2 = [] → turn.1 = r

theorem split_spec {r : RegionTag Class Fields} {o : ℤ} (hr : r.Valid) :
    ReturnsWith (r.split o f) (SplitsTo o f r) := by
  by_cases h : f r.tag ∧ r.Crosses o
  · refine ⟨_, split_of_crosses hr.offset h.1 h.2, parts_split hr h.2, fun _ _ _ =>
      carries_split h.2,
      fun _ => ?_, by simp [h], by simp⟩
    simp [Crosses]
  · refine ⟨_, split_of_not h, Parts.self hr, fun _ _ _ => Iff.rfl, fun hf => ?_, by simpa using h,
      fun _ => rfl⟩
    simpa using fun ho => h ⟨hf, ho⟩

theorem carries_append {parts parts' : List (RegionTag Class Fields)} {typeInfo : TypeInfo Class}
    {p : ℤ} {tag : TagBase Class Fields} : Carries (parts ++ parts') typeInfo p tag ↔
      Carries parts typeInfo p tag ∨ Carries parts' typeInfo p tag := by
  simp only [Carries, List.mem_append, or_and_right, exists_or]

theorem carries_flatMap_and {α : Type} {turns : List α} {parts : α → List (RegionTag Class Fields)}
    {typeInfo : TypeInfo Class} {p : ℤ} {tag : TagBase Class Fields} {condition : Prop}
    (h : List.Forall₂ (fun r turn => Carries (parts turn) typeInfo p tag ↔
      Carries [r] typeInfo p tag ∧ condition) regionTags turns) :
    Carries (turns.flatMap parts) typeInfo p tag ↔ Carries regionTags typeInfo p tag ∧
      condition := by
  induction h with
  | nil =>
    refine iff_of_false ?_ fun hnil => ?_
    · rintro ⟨r, hr, -⟩
      cases hr
    · obtain ⟨r, hr, -⟩ := hnil.1
      cases hr
  | @cons r turn rs turns hr _ ih =>
    rw [List.flatMap_cons, carries_append, hr, ih, ← or_and_right, ← carries_append]
    rfl

theorem carries_flatMap {α : Type} {turns : List α} {parts : α → List (RegionTag Class Fields)}
    {typeInfo : TypeInfo Class} {p : ℤ} {tag : TagBase Class Fields}
    (h : List.Forall₂
      (fun r turn => Carries (parts turn) typeInfo p tag ↔ Carries [r] typeInfo p tag)
      regionTags turns) :
    Carries (turns.flatMap parts) typeInfo p tag ↔ Carries regionTags typeInfo p tag := by
  rw [carries_flatMap_and (h.imp fun _ _ hr => hr.trans (and_iff_left trivial).symm), and_true]

section Turns

variable {o : ℤ} {turns : List (RegionTag Class Fields × List (RegionTag Class Fields))}

theorem inserted_ne_nil_iff (h : List.Forall₂ (SplitsTo o f) regionTags turns) :
    turns.flatMap Prod.snd ≠ [] ↔ ∃ r ∈ regionTags, f r.tag ∧ r.Crosses o := by
  induction h with
  | nil => simp
  | cons hsplit _ ih =>
    rw [List.flatMap_cons, Ne, List.append_eq_nil_iff, not_and_or, ← Ne, ← Ne, hsplit.inserted, ih]
    simp

theorem map_fst_of_inserted_eq_nil (h : List.Forall₂ (SplitsTo o f) regionTags turns) :
    turns.flatMap Prod.snd = [] → turns.map Prod.fst = regionTags := by
  induction h with
  | nil => simp
  | cons hsplit _ ih =>
    rw [List.flatMap_cons, List.append_eq_nil_iff]
    rintro ⟨hnil, hrest⟩
    rw [List.map_cons, hsplit.kept hnil, ih hrest]

end Turns

/-- The set after `splitTags`: either nothing was split, or the vector is sorted. -/
structure SplitAt (o : ℤ) (f : TagBase Class Fields → Bool)
    (before after : List (RegionTag Class Fields)) :
    Prop where
  separate : Separate after
  within : ∀ s ∈ after, ∃ r ∈ before, Within r s ∧ (f r.tag → ¬ s.Crosses o)
  carries : ∀ typeInfo p tag, Carries after typeInfo p tag ↔ Carries before typeInfo p tag
  sorted : (∃ r ∈ before, f r.tag ∧ r.Crosses o) → after.Pairwise fun r s => r.offset ≤ s.offset
  same : (¬ ∃ r ∈ before, f r.tag ∧ r.Crosses o) → after = before

theorem splitTags_spec (h : Separate this.regionTags) (o : ℤ) :
    ReturnsWith (this.splitTags std o f) fun s => SplitAt o f this.regionTags s.regionTags := by
  have hturns := ReturnsWith.mapM fun r hr => split_spec (o := o) (f := f) (h.valid r hr)
  refine hturns.bind fun turns hturns => ?_
  have hperm := List.map_append_flatMap_perm turns Prod.fst Prod.snd
  have hparts :
    List.Forall₂ (fun r (turn : RegionTag Class Fields × List (RegionTag Class Fields)) =>
      Parts r (turn.1 :: turn.2)) this.regionTags turns := hturns.imp fun _ _ => SplitsTo.parts
  have hsep := (h.parts hparts).1
  have hwithin : ∀ s ∈ turns.flatMap fun turn => turn.1 :: turn.2,
      ∃ r ∈ this.regionTags, Within r s ∧ (f r.tag → ¬ s.Crosses o) := by
    intro s hs
    obtain ⟨turn, hturn, hs⟩ := List.mem_flatMap.1 hs
    obtain ⟨r, hr, hsplit⟩ := exists_of_forall₂_of_mem hturns hturn
    exact ⟨r, hr, hsplit.parts.within s hs, fun hf => hsplit.crosses hf s hs⟩
  have hcarries (typeInfo : TypeInfo Class) (p : ℤ) (tag : TagBase Class Fields) :=
    carries_flatMap (hturns.imp fun _ _ h => h.carries typeInfo p tag)
  have hinserted := inserted_ne_nil_iff hturns
  dsimp only
  split_ifs with hne
  · have hsort := (std.perm (turns.map Prod.fst ++ turns.flatMap Prod.snd)).trans hperm
    exact ⟨_, rfl, hsep.perm hsort, fun s hs => hwithin s (hsort.mem_iff.1 hs),
      fun typeInfo p tag => (Carries.perm hsort).trans (hcarries typeInfo p tag),
      fun _ => std.pairwise _, fun hno => absurd (hinserted.1 hne) hno⟩
  · have hnil := not_not.1 hne
    rw [hnil, List.append_nil] at hperm
    exact ⟨_, rfl, hsep.perm hperm, fun s hs => hwithin s (hperm.mem_iff.1 hs),
      fun typeInfo p tag => (Carries.perm hperm).trans (hcarries typeInfo p tag),
      fun hex => absurd hnil (hinserted.2 hex), fun _ => map_fst_of_inserted_eq_nil hturns hnil⟩

end SharingRegionTagSet

end Inet
