import Inet.Buffer.Refine

/-! # Regions without their data

What `replace` does to the places of the regions of a chunk buffer does not
depend on the data. Here a region is a range, and its offsets are in bytes.
-/

namespace Inet

structure RegionRange where
  offset : ℤ
  length : ℕ
  deriving DecidableEq, Repr

namespace RegionRange

def getStartOffset (this : RegionRange) : ℤ := this.offset

def getEndOffset (this : RegionRange) : ℤ := this.offset + this.length

/-- The region between two offsets. -/
def between (startOffset endOffset : ℤ) : RegionRange :=
  ⟨startOffset, (endOffset - startOffset).toNat⟩

/-- `std::lower_bound` with `compareStartOffset`. -/
def lowerBoundStartOffset (regions : List RegionRange) (newRegion : RegionRange) : ℕ :=
  regions.findIdx fun region => !decide (region.getStartOffset < newRegion.getStartOffset)

/-- `std::upper_bound` with `compareStartOffset`. -/
def upperBoundStartOffset (regions : List RegionRange) (newRegion : RegionRange) : ℕ :=
  regions.findIdx fun region => newRegion.getStartOffset < region.getStartOffset

/-- `std::upper_bound` with `compareEndOffset`. -/
def upperBoundEndOffset (regions : List RegionRange) (newRegion : RegionRange) : ℕ :=
  regions.findIdx fun region => newRegion.getEndOffset < region.getEndOffset

/-- The loop of `sliceRegions`. It ends when the new region splits an old one. -/
def sliceLoop (newRegion : RegionRange) : List RegionRange → List RegionRange
  | [] => []
  | oldRegion :: regions =>
    if newRegion.getEndOffset ≤ oldRegion.getStartOffset ∨
        oldRegion.getEndOffset ≤ newRegion.getStartOffset then
      oldRegion :: sliceLoop newRegion regions
    else if newRegion.getStartOffset ≤ oldRegion.getStartOffset ∧
        oldRegion.getEndOffset ≤ newRegion.getEndOffset then
      sliceLoop newRegion regions
    else if oldRegion.getStartOffset < newRegion.getStartOffset ∧
        newRegion.getEndOffset < oldRegion.getEndOffset then
      between oldRegion.getStartOffset newRegion.getStartOffset ::
        between newRegion.getEndOffset oldRegion.getEndOffset :: regions
    else if oldRegion.getEndOffset ≤ newRegion.getEndOffset then
      between oldRegion.getStartOffset newRegion.getStartOffset :: sliceLoop newRegion regions
    else if newRegion.getStartOffset ≤ oldRegion.getStartOffset then
      between newRegion.getEndOffset oldRegion.getEndOffset :: sliceLoop newRegion regions
    else
      oldRegion :: sliceLoop newRegion regions

def sliceRegions (regions : List RegionRange) (newRegion : RegionRange) : List RegionRange :=
  if regions.isEmpty then
    regions
  else
    let lower := lowerBoundStartOffset regions newRegion - 1
    let upper := upperBoundEndOffset regions newRegion
    let upper := if upper ≠ regions.length then upper + 1 else upper
    regions.take lower ++ sliceLoop newRegion ((regions.take upper).drop lower) ++
      regions.drop (max lower upper)

/-- `mergeRegions`: the two regions, or the one that they make if they touch. -/
def mergeRegions (previousRegion nextRegion : RegionRange) : List RegionRange :=
  if previousRegion.getEndOffset = nextRegion.getStartOffset then
    [⟨previousRegion.offset, previousRegion.length + nextRegion.length⟩]
  else [previousRegion, nextRegion]

/-- `mergeRegions` with the region behind the new one, if there is one. -/
def mergeNext (region : RegionRange) : Option RegionRange → List RegionRange
  | none => [region]
  | some nextRegion => mergeRegions region nextRegion

/-- `mergeRegions` with the region before the new one, and then with the one behind it. -/
def mergeBoth (previousRegion : Option RegionRange) (region : RegionRange)
    (nextRegion : Option RegionRange) : List RegionRange :=
  match previousRegion with
  | none => mergeNext region nextRegion
  | some previousRegion =>
    if previousRegion.getEndOffset = region.getStartOffset then
      mergeNext ⟨previousRegion.offset, previousRegion.length + region.length⟩ nextRegion
    else previousRegion :: mergeNext region nextRegion

/-- What `replace` does with the regions that `sliceRegions` has cut. -/
def insertRegion (regions : List RegionRange) (newRegion : RegionRange) : List RegionRange :=
  match regions.head?, regions.getLast? with
  | some front, some back =>
    if back.getEndOffset ≤ newRegion.getStartOffset then
      regions.dropLast ++ mergeRegions back newRegion
    else if newRegion.getEndOffset ≤ front.getStartOffset then
      mergeRegions newRegion front ++ regions.tail
    else
      let index := upperBoundStartOffset regions newRegion
      (regions.take index).dropLast ++
        mergeBoth (regions.take index).getLast? newRegion (regions.drop index).head? ++
        (regions.drop index).tail
  | _, _ => [newRegion]

def replace (regions : List RegionRange) (offset length : ℤ) :
    Except Error (List RegionRange) := do
  checkUsage (offset ≥ 0) "offset is invalid"
  checkUsage (length > 0) "chunk is empty"
  let newRegion : RegionRange := ⟨offset, length.toNat⟩
  return insertRegion (sliceRegions regions newRegion) newRegion

/-- The span of a region. -/
def span (this : RegionRange) : Span Unit := ⟨this.offset, List.replicate this.length ()⟩

variable {regions : List RegionRange} {region newRegion previous next : RegionRange} {o e : ℤ}

@[simp] theorem offset_span : region.span.offset = region.getStartOffset := rfl

@[simp] theorem stop_span : region.span.stop = region.getEndOffset := by
  simp [Span.stop, span, getEndOffset]

theorem span_ne_nil_iff :
    region.span.values ≠ [] ↔ region.getStartOffset < region.getEndOffset := by
  simp only [span, getStartOffset, getEndOffset, ne_eq, List.replicate_eq_nil_iff]
  omega

section Slice

theorem before_span (h₀ : region.getStartOffset < o) (h₁ : o ≤ region.getEndOffset) :
    Span.before o region.span = [(between region.getStartOffset o).span] := by
  unfold getEndOffset at h₁
  unfold getStartOffset at h₀
  rw [Span.before, if_pos (by exact h₀)]
  simp only [span, between, getStartOffset, List.take_replicate]
  congr 4
  omega

theorem behind_span (h₀ : region.getStartOffset ≤ e) (h₁ : e < region.getEndOffset) :
    Span.behind e region.span = [(between e region.getEndOffset).span] := by
  rw [Span.behind, if_pos (by rwa [stop_span])]
  unfold getEndOffset at h₁ ⊢
  unfold getStartOffset at h₀
  simp only [span, between, List.drop_replicate]
  congr 4
  omega

theorem map_span_sliceLoop (hsep : Span.Separated (regions.map span)) :
    (sliceLoop newRegion regions).map span = (regions.map span).flatMap
      (Span.cut newRegion.getStartOffset newRegion.getEndOffset) := by
  induction regions with
  | nil => rfl
  | cons old regions ih =>
    rw [List.map_cons, Span.separated_cons] at hsep
    obtain ⟨-, hgap, hrest⟩ := hsep
    rw [List.map_cons, List.flatMap_cons, Span.cut, stop_span, offset_span, sliceLoop]
    by_cases hout : newRegion.getEndOffset ≤ old.getStartOffset ∨
        old.getEndOffset ≤ newRegion.getStartOffset
    · rw [if_pos hout, if_pos hout, List.map_cons, ih hrest]
      rfl
    rw [if_neg hout, if_neg hout]
    have hbefore : ¬ old.getStartOffset < newRegion.getStartOffset →
        Span.before newRegion.getStartOffset old.span = [] := fun h => if_neg h
    have hbehind : ¬ newRegion.getEndOffset < old.getEndOffset →
        Span.behind newRegion.getEndOffset old.span = [] := fun h => if_neg (by rwa [stop_span])
    split_ifs with hcover hsplit hend hstart
    · rw [hbefore (by omega), hbehind (by omega), ih hrest]
      rfl
    · -- the other regions do not meet the new one
      have hrest' : (regions.map span).flatMap
          (Span.cut newRegion.getStartOffset newRegion.getEndOffset) = regions.map span := by
        refine Span.flatMap_cut_of_outside fun s hs => Or.inl ?_
        have hlt := hgap s hs
        rw [stop_span] at hlt
        omega
      rw [before_span hsplit.1 (by omega), behind_span (by omega) hsplit.2, hrest']
      rfl
    · rw [hbehind (by omega), before_span (by omega) (by omega), List.map_cons, ih hrest]
      rfl
    · rw [hbefore (by omega), behind_span (by omega) (by omega), List.map_cons, ih hrest]
      rfl
    · omega

theorem map_span_sliceRegions (newRegion : RegionRange)
    (hsep : Span.Separated (regions.map span)) :
    (sliceRegions regions newRegion).map span = (regions.map span).flatMap
      (Span.cut newRegion.getStartOffset newRegion.getEndOffset) := by
  unfold sliceRegions
  split_ifs with hempty
  · rw [List.isEmpty_iff.1 hempty]
    rfl
  · dsimp only
    set lower := lowerBoundStartOffset regions newRegion - 1 with hlower
    set upper := if upperBoundEndOffset regions newRegion ≠ regions.length then
      upperBoundEndOffset regions newRegion + 1
      else upperBoundEndOffset regions newRegion with hupper
    obtain ⟨hmiddle, hcut⟩ := hsep.flatMap_cut_search (fun _ => rfl)
      (fun r _ => r.stop_span.symm) hlower hupper
    rw [hcut, List.map_append, List.map_append, map_span_sliceLoop hmiddle]

end Slice

section Merge

/-- Two touching regions as one. -/
def fuse (previous next : RegionRange) : RegionRange :=
  ⟨previous.offset, previous.length + next.length⟩

theorem span_fuse : (fuse previous next).span = Span.fuse previous.span next.span := by
  simp [fuse, span, Span.fuse, List.replicate_append_replicate]

theorem map_span_mergeRegions (hstop : region.getStartOffset < next.getEndOffset) :
    (mergeRegions region next).map span = Span.put region.span [next.span] := by
  rw [Span.put_cons_of_lt (by rwa [stop_span]), stop_span, offset_span, mergeRegions]
  split_ifs
  · rw [← span_fuse]
    rfl
  · rfl

theorem map_span_mergeNext {next : Option RegionRange}
    (hn : ∀ n ∈ next, region.getStartOffset < n.getEndOffset) :
    (mergeNext region next).map span = Span.put region.span (next.toList.map span) := by
  cases next with
  | none => rfl
  | some next => exact map_span_mergeRegions (hn next rfl)

theorem map_span_mergeBoth {previous next : Option RegionRange}
    (hp : ∀ p ∈ previous, p.getStartOffset < p.getEndOffset ∧
      p.getEndOffset ≤ region.getStartOffset)
    (hn : ∀ n ∈ next, region.getStartOffset < n.getEndOffset) :
    (mergeBoth previous region next).map span =
      Span.put region.span ((previous.toList ++ next.toList).map span) := by
  cases previous with
  | none => exact map_span_mergeNext hn
  | some previous =>
    obtain ⟨hpos, hle⟩ := hp previous rfl
    have hle' : previous.span.stop ≤ region.span.offset := by rwa [stop_span]
    have hput := Span.put_cons_of_le (next.toList.map span) hle'
    rw [Option.toList_some, List.map_append, List.map_singleton, List.singleton_append, hput,
      stop_span, offset_span, mergeBoth]
    split_ifs with htouch
    · have hn' : ∀ n ∈ next, (fuse previous region).getStartOffset < n.getEndOffset :=
        fun n hmem => (hpos.trans_le hle).trans (hn n hmem)
      rw [← span_fuse, ← map_span_mergeNext hn']
      rfl
    · rw [List.map_cons, map_span_mergeNext hn]

end Merge

section Insert

variable (hsep : Span.Separated (regions.map span))
  (hpos : newRegion.getStartOffset < newRegion.getEndOffset)
  (hclear : Span.Clear newRegion.span (regions.map span))

include hsep in
theorem pos_of_mem (h : region ∈ regions) : region.getStartOffset < region.getEndOffset :=
  span_ne_nil_iff.1 (hsep.ne_nil _ (List.mem_map_of_mem h))

include hclear in
theorem clear_of_mem (h : region ∈ regions) :
    region.getEndOffset ≤ newRegion.getStartOffset ∨
      newRegion.getEndOffset ≤ region.getStartOffset := by
  have := hclear _ (List.mem_map_of_mem h)
  rwa [stop_span, stop_span] at this

include hpos hclear in
theorem getEndOffset_le_of_mem_take
    (h : region ∈ regions.take (upperBoundStartOffset regions newRegion)) :
    region.getEndOffset ≤ newRegion.getStartOffset := by
  obtain ⟨j, hj, rfl⟩ := List.mem_iff_getElem.1 h
  rw [List.length_take] at hj
  rw [List.getElem_take]
  have hnot := List.not_of_lt_findIdx (show j < upperBoundStartOffset regions newRegion by omega)
  rw [decide_eq_false_iff_not, not_lt] at hnot
  rcases clear_of_mem hclear (List.getElem_mem (show j < regions.length by omega)) with hle | hle
  · exact hle
  · exact absurd (hpos.trans_le hle) (not_lt.2 hnot)

include hsep hclear in
theorem le_getStartOffset_of_mem_drop
    (h : region ∈ regions.drop (upperBoundStartOffset regions newRegion)) :
    newRegion.getEndOffset ≤ region.getStartOffset := by
  have hmem := List.mem_of_mem_drop h
  obtain ⟨j, hj, rfl⟩ := List.mem_iff_getElem.1 h
  rw [List.length_drop] at hj
  rw [List.getElem_drop] at hmem ⊢
  have hlen : upperBoundStartOffset regions newRegion < regions.length := by omega
  have hp := List.findIdx_getElem (w := hlen)
  rw [decide_eq_true_eq] at hp
  have hle : regions[upperBoundStartOffset regions newRegion].getStartOffset ≤
      regions[upperBoundStartOffset regions newRegion + j].getStartOffset := by
    rcases Nat.eq_zero_or_pos j with rfl | hj
    · exact le_rfl
    · have hgap := List.pairwise_iff_getElem.1 (List.pairwise_map.1 hsep.gap) _
        (upperBoundStartOffset regions newRegion + j) hlen (by omega) (by omega)
      rw [stop_span] at hgap
      exact ((pos_of_mem hsep (List.getElem_mem hlen)).trans hgap).le
  have hlt := pos_of_mem hsep hmem
  rcases clear_of_mem hclear hmem with h | h
  · exact absurd (hp.trans_le (hle.trans (hlt.le.trans h))) (lt_irrefl _)
  · exact h

/-- `insertRegion` as if the vector was always searched for the place of the new region. -/
def insertSearched (regions : List RegionRange) (newRegion : RegionRange) : List RegionRange :=
  let index := upperBoundStartOffset regions newRegion
  (regions.take index).dropLast ++
    mergeBoth (regions.take index).getLast? newRegion (regions.drop index).head? ++
    (regions.drop index).tail

include hsep in
theorem upperBoundStartOffset_of_last {back : RegionRange} (hback : regions.getLast? = some back)
    (hle : back.getEndOffset ≤ newRegion.getStartOffset) :
    upperBoundStartOffset regions newRegion = regions.length := by
  obtain ⟨init, rfl⟩ := List.getLast?_eq_some_iff.1 hback
  have hlt := pos_of_mem hsep (List.mem_append_right init (List.mem_singleton_self back))
  apply List.findIdx_eq_length.2
  intro region hregion
  have hle' : region.getStartOffset ≤ newRegion.getStartOffset := by
    rcases List.mem_append.1 hregion with h | h
    · have hpos := pos_of_mem hsep hregion
      rw [List.map_append, Span.separated_append] at hsep
      have hgap := hsep.2.2 _ (List.mem_map_of_mem h) back.span (by simp)
      rw [stop_span, offset_span] at hgap
      omega
    · obtain rfl := List.mem_singleton.1 h
      omega
  simpa using hle'

include hsep hpos in
theorem insertRegion_eq : insertRegion regions newRegion = insertSearched regions newRegion := by
  unfold insertRegion insertSearched
  cases hregions : regions with
  | nil => rfl
  | cons front rest =>
    rw [← hregions]
    obtain ⟨back, hback⟩ : ∃ back, regions.getLast? = some back :=
      Option.ne_none_iff_exists'.1 (by simp [hregions])
    have hhead : regions.head? = some front := by rw [hregions, List.head?_cons]
    rw [hhead, hback]
    dsimp only
    split_ifs with hlast hfirst
    · rw [upperBoundStartOffset_of_last hsep hback hlast, List.take_length, List.drop_length, hback]
      simp [mergeBoth, mergeRegions, mergeNext]
    · have hindex : upperBoundStartOffset regions newRegion = 0 := by
        rw [upperBoundStartOffset, hregions, List.findIdx_cons,
          decide_eq_true (hpos.trans_le hfirst), cond_true]
      rw [hindex, List.take_zero, List.drop_zero, hhead]
      rfl
    · rfl

include hsep hpos hclear in
theorem put_insertSearched :
    Span.put newRegion.span (regions.map span) = (insertSearched regions newRegion).map span := by
  unfold insertSearched
  set index := upperBoundStartOffset regions newRegion with hindex
  have htake : ∀ region ∈ regions.take index, region.getEndOffset ≤ newRegion.getStartOffset :=
    fun region => getEndOffset_le_of_mem_take hpos hclear
  have hdrop : ∀ region ∈ regions.drop index, newRegion.getEndOffset ≤ region.getStartOffset :=
    fun region => le_getStartOffset_of_mem_drop hsep hclear
  have hprevious : ∀ p ∈ (regions.take index).getLast?,
      p.getStartOffset < p.getEndOffset ∧ p.getEndOffset ≤ newRegion.getStartOffset := by
    intro p hp
    have hmem := List.mem_of_getLast? hp
    exact ⟨pos_of_mem hsep (List.mem_of_mem_take hmem), htake p hmem⟩
  have hnext : ∀ n ∈ (regions.drop index).head?, newRegion.getStartOffset < n.getEndOffset := by
    intro n hn
    have hmem := List.mem_of_head? hn
    exact hpos.trans_le ((hdrop n hmem).trans (pos_of_mem hsep (List.mem_of_mem_drop hmem)).le)
  have hbefore : ∀ s ∈ (regions.take index).dropLast.map span, s.stop < newRegion.span.offset := by
    intro s hs
    obtain ⟨r, hr, rfl⟩ := List.mem_map.1 hs
    obtain ⟨last, hlast⟩ : ∃ last, (regions.take index).getLast? = some last := by
      apply Option.ne_none_iff_exists'.1
      intro hnone
      rw [List.getLast?_eq_none_iff.1 hnone] at hr
      cases hr
    have hgap := (List.pairwise_map.1 hsep.gap).sublist (List.take_sublist index regions)
    rw [← ChunkBuffer.dropLast_append_getLast?_toList (regions.take index), hlast] at hgap
    have hlt := (List.pairwise_append.1 hgap).2.2 r hr last (by simp)
    obtain ⟨hlt', hle⟩ := hprevious last hlast
    exact hlt.trans (hlt'.trans_le hle)
  have hsplit : regions = (regions.take index).dropLast ++ ((regions.take index).getLast?.toList ++
      ((regions.drop index).head?.toList ++ (regions.drop index).tail)) := by
    rw [← List.append_assoc, ChunkBuffer.dropLast_append_getLast?_toList,
      ChunkBuffer.head?_toList_append_tail, List.take_append_drop]
  have hbetween := Span.put_between
    (p := (regions.take index).getLast?.map span)
    (n := (regions.drop index).head?.map span)
    (r := (regions.drop index).tail.map span) hbefore ?_ ?_ ?_
  · rw [Option.toList_map, Option.toList_map, ← List.map_append, ← List.map_append,
      ← List.map_append, ← hsplit, ← List.map_append,
      ← map_span_mergeBoth hprevious hnext] at hbetween
    rw [hbetween, List.map_append, List.map_append, List.append_assoc]
  · intro s hs
    obtain ⟨p, hp, rfl⟩ := Option.mem_map.1 hs
    rw [stop_span]
    exact hprevious p hp
  · intro s hs
    obtain ⟨n, hn, rfl⟩ := Option.mem_map.1 hs
    rw [stop_span]
    exact hnext n hn
  · intro hnone
    rw [Option.map_eq_none_iff, List.head?_eq_none_iff] at hnone
    rw [hnone]
    rfl

end Insert

/-- The regions hold the byte at an offset. -/
def Holds (regions : List RegionRange) (i : ℤ) : Prop :=
  ∃ region ∈ regions, region.getStartOffset ≤ i ∧ i < region.getEndOffset

/-- The regions are not empty, sorted, and there is a gap between any two of them. -/
def Separated (regions : List RegionRange) : Prop := Span.Separated (regions.map span)

theorem holds_iff {i : ℤ} : Holds regions i ↔ (Span.lookup (regions.map span) i).isSome := by
  rw [Span.lookup_isSome_iff]
  simp [Holds]

theorem eq_of_mem_of_mem {other : RegionRange} {i : ℤ} (hsep : Separated regions)
    (hr : region ∈ regions) (hother : other ∈ regions) (h₀ : region.getStartOffset ≤ i)
    (h₁ : i < region.getEndOffset) (h₂ : other.getStartOffset ≤ i) (h₃ : i < other.getEndOffset) :
    region = other := by
  have hgap := Span.eq_or_gap_of_mem hsep (List.mem_map_of_mem hr) (List.mem_map_of_mem hother)
  rw [stop_span, stop_span, offset_span, offset_span] at hgap
  rcases hgap with heq | hlt | hlt
  · have hlength := congrArg (fun s => s.values.length) heq
    have hoffset := congrArg Span.offset heq
    cases region
    cases other
    simp_all [span, getStartOffset]
  · omega
  · omega

theorem not_holds_getEndOffset (hsep : Separated regions) (hr : region ∈ regions) :
    ¬ Holds regions region.getEndOffset := by
  rintro ⟨other, hother, hle, hlt⟩
  have hpos := pos_of_mem hsep hr
  have hgap := Span.eq_or_gap_of_mem hsep (List.mem_map_of_mem hr) (List.mem_map_of_mem hother)
  rw [stop_span, stop_span, offset_span, offset_span] at hgap
  rcases hgap with heq | hlt' | hlt'
  · have hstop := congrArg Span.stop heq
    rw [stop_span, stop_span] at hstop
    omega
  · omega
  · omega

theorem separated_cons : Separated (region :: regions) ↔
    region.getStartOffset < region.getEndOffset ∧
      (∀ other ∈ regions, region.getEndOffset < other.getStartOffset) ∧ Separated regions := by
  unfold Separated
  rw [List.map_cons, Span.separated_cons, span_ne_nil_iff, List.forall_mem_map]
  simp only [stop_span, offset_span]

theorem holds_cons {i : ℤ} : Holds (region :: regions) i ↔
    (region.getStartOffset ≤ i ∧ i < region.getEndOffset) ∨ Holds regions i := by
  simp [Holds]

theorem le_of_holds_cons {i : ℤ} (hsep : Separated (region :: regions))
    (hi : Holds (region :: regions) i) : region.getStartOffset ≤ i := by
  obtain ⟨hpos, hgap, -⟩ := separated_cons.1 hsep
  obtain ⟨hle, -⟩ | ⟨other, hother, hle, -⟩ := holds_cons.1 hi
  · exact hle
  · have := hgap other hother
    omega

/-- Separated regions are determined by the bytes that they hold. -/
theorem eq_of_holds_iff (hsep : Separated regions) (hsep' : Separated regions')
    (h : ∀ i, Holds regions i ↔ Holds regions' i) : regions = regions' := by
  induction regions generalizing regions' with
  | nil =>
    cases regions' with
    | nil => rfl
    | cons region' regions' =>
      have hpos := (separated_cons.1 hsep').1
      have hheld := (h region'.getStartOffset).2 (holds_cons.2 (Or.inl ⟨le_rfl, hpos⟩))
      simp [Holds] at hheld
  | cons region regions ih =>
    cases regions' with
    | nil =>
      have hpos := (separated_cons.1 hsep).1
      have hheld := (h region.getStartOffset).1 (holds_cons.2 (Or.inl ⟨le_rfl, hpos⟩))
      simp [Holds] at hheld
    | cons region' regions' =>
      obtain ⟨hpos, hgap, hrest⟩ := separated_cons.1 hsep
      obtain ⟨hpos', hgap', hrest'⟩ := separated_cons.1 hsep'
      have hle := le_of_holds_cons hsep ((h _).2 (holds_cons.2 (Or.inl ⟨le_rfl, hpos'⟩)))
      have hle' := le_of_holds_cons hsep' ((h _).1 (holds_cons.2 (Or.inl ⟨le_rfl, hpos⟩)))
      have hend : region.getEndOffset = region'.getEndOffset := by
        rcases lt_trichotomy region.getEndOffset region'.getEndOffset with hlt | heq | hlt
        · exact absurd ((h _).2 (holds_cons.2 (Or.inl ⟨by omega, hlt⟩)))
            (not_holds_getEndOffset hsep List.mem_cons_self)
        · exact heq
        · exact absurd ((h _).1 (holds_cons.2 (Or.inl ⟨by omega, hlt⟩)))
            (not_holds_getEndOffset hsep' List.mem_cons_self)
      have heq : region = region' := by
        cases region
        cases region'
        simp only [getStartOffset, getEndOffset] at hle hle' hend
        rw [mk.injEq]
        omega
      subst heq
      rw [ih hrest hrest' fun i => ?_]
      have hi := h i
      rw [holds_cons, holds_cons] at hi
      constructor
      · intro hheld
        refine (hi.1 (Or.inr hheld)).resolve_left ?_
        rintro ⟨-, hlt⟩
        obtain ⟨other, hother, hstart, -⟩ := hheld
        have := hgap other hother
        omega
      · intro hheld
        refine (hi.2 (Or.inr hheld)).resolve_left ?_
        rintro ⟨-, hlt⟩
        obtain ⟨other, hother, hstart, -⟩ := hheld
        have := hgap' other hother
        omega

theorem find?_eq_some_of_unique {P : RegionRange → Bool} (hr : region ∈ regions)
    (hP : P region) (hunique : ∀ other ∈ regions, P other → other = region) :
    regions.find? P = some region := by
  cases hfind : regions.find? P with
  | none => exact absurd hP (List.find?_eq_none.1 hfind region hr)
  | some other => rw [hunique other (List.mem_of_find?_eq_some hfind) (List.find?_some hfind)]

theorem of_replace_eq_ok {result : List RegionRange} {offset length : ℤ} (hsep : Separated regions)
    (h : replace regions offset length = .ok result) :
    0 < length ∧ Separated result ∧
      ∀ i, Holds result i ↔ (offset ≤ i ∧ i < offset + length) ∨ Holds regions i := by
  unfold replace at h
  obtain ⟨_, -, h⟩ := Error.exists_of_bind_eq_ok h
  obtain ⟨_, hlength, h⟩ := Error.exists_of_bind_eq_ok h
  have hpos : length > 0 := by
    by_contra hneg
    simp [checkUsage, hneg] at hlength
  obtain rfl : insertRegion (sliceRegions regions ⟨offset, length.toNat⟩) ⟨offset, length.toNat⟩ =
    result := by simpa using h
  set newRegion : RegionRange := ⟨offset, length.toNat⟩ with hnew
  have hstart : newRegion.getStartOffset = offset := rfl
  have hend : newRegion.getEndOffset = offset + length := by
    simp only [hnew, getEndOffset]
    omega
  have hlt : newRegion.getStartOffset < newRegion.getEndOffset := by omega
  have hne := span_ne_nil_iff.2 hlt
  have hslice := map_span_sliceRegions newRegion hsep
  have hcut := Span.separated_flatMap_cut hsep (Or.inl hlt)
  have hclear : Span.Clear newRegion.span ((sliceRegions regions newRegion).map span) := by
    intro s hs
    rw [hslice] at hs
    obtain ⟨t, ht, hs⟩ := List.mem_flatMap.1 hs
    obtain ⟨-, -, -, hout⟩ := Span.mem_cut hs (hsep.ne_nil t ht)
    rwa [stop_span]
  have hcut' := hcut
  rw [← hslice] at hcut'
  have hput : (insertRegion (sliceRegions regions newRegion) newRegion).map span =
      Span.put newRegion.span ((sliceRegions regions newRegion).map span) := by
    rw [insertRegion_eq hcut' hlt, put_insertSearched hcut' hlt hclear]
  refine ⟨hpos, ?_, fun i => ?_⟩
  · unfold Separated
    rw [hput]
    exact Span.separated_put hcut' hne hclear
  · rw [holds_iff, holds_iff, hput, Span.lookup_put hcut' hne hclear, hslice,
      Span.lookup_flatMap_cut hlt.le, hstart, hend, Option.isSome_or, Bool.or_eq_true,
      Span.get_isSome_iff, offset_span, stop_span, hstart, hend]
    split_ifs with hin
    · simp [hin]
    · simp [hin]

end RegionRange

end Inet
