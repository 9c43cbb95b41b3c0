import Inet.Buffer.Basic
import Inet.Lib.Span
import Inet.Packet.Content

/-! # Chunk buffers store spans

Every function of the buffer does to the cells of the regions what the
operations on spans do.
-/

namespace Inet

open Chunk Outcome

namespace ChunkBuffer

/-- The cells of a region. -/
def Region.span (this : Region) : Span Cell := ⟨this.offset, this.data.cells⟩

/-- The data of a region can be peeked and merged without change. -/
structure Region.Ok (this : Region) : Prop where
  wf : this.data.WF
  clean : this.data.Clean
  noClash : NoClash this.data.cells

theorem Region.Ok.stop_span {region : Region} (h : region.Ok) :
    region.span.stop = region.getEndOffset := by
  rw [Span.stop, Region.span, Region.getEndOffset, h.wf.length_cells]

/-- The regions hold the spans. -/
structure Holds (regions : List Region) (spans : List (Span Cell)) : Prop where
  ok : ∀ region ∈ regions, region.Ok
  spans_eq : regions.map Region.span = spans

variable {regions : List Region} {spans spans' : List (Span Cell)} {region newRegion : Region}

theorem holds_nil : Holds [] [] := ⟨by simp, rfl⟩

theorem Holds.cons (hr : region.Ok) (h : Holds regions spans) :
    Holds (region :: regions) (region.span :: spans) :=
  ⟨List.forall_mem_cons.2 ⟨hr, h.ok⟩, by rw [List.map_cons, h.spans_eq]⟩

theorem Holds.append {regions' : List Region} (h : Holds regions spans)
    (h' : Holds regions' spans') : Holds (regions ++ regions') (spans ++ spans') :=
  ⟨List.forall_mem_append.2 ⟨h.ok, h'.ok⟩, by rw [List.map_append, h.spans_eq, h'.spans_eq]⟩

theorem holds_of_ok (h : ∀ region ∈ regions, region.Ok) :
    Holds regions (regions.map Region.span) := ⟨h, rfl⟩

section Slice

theorem spec_peekRegion (h : region.Ok) {a b : ℤ} (h₀ : region.getStartOffset ≤ a) (h₁ : a < b)
    (h₂ : b ≤ region.getEndOffset) :
    Returns (peekRegion region a b) fun c =>
      Region.Ok ⟨a, c⟩ ∧ c.cells = seg region.data.cells (a - region.getStartOffset) (b - a) := by
  have hend : region.getEndOffset = region.getStartOffset + region.data.getChunkLength := rfl
  have hspec := spec_peek_deref (k := True) h.wf (fun _ => h.clean) rfl
    (consistent_ofPosition region.data (a - region.getStartOffset))
    (by simp only [Iterator.ofPosition]; omega) (show 0 < b - a by omega)
    (by simp only [Iterator.ofPosition]; omega) {}
  refine hspec.mono (by simp) ?_
  rintro c ⟨hrep, -⟩
  have hcells : c.cells = seg region.data.cells (a - region.getStartOffset) (b - a) :=
    hrep.cells_eq (h.noClash.seg _ _)
  exact ⟨⟨hrep.wf, hrep.clean trivial, hcells ▸ h.noClash.seg _ _⟩, hcells⟩

theorem spec_peekRegion_before (h : region.Ok) {o : ℤ} (h₀ : region.getStartOffset < o)
    (h₁ : o ≤ region.getEndOffset) :
    Returns (peekRegion region region.getStartOffset o) fun c =>
      Holds [⟨region.offset, c⟩] (Span.before o region.span) := by
  refine (spec_peekRegion h le_rfl h₀ h₁).mono id ?_
  rintro c ⟨hok, hcells⟩
  refine ⟨fun r hr => List.mem_singleton.1 hr ▸ hok, ?_⟩
  rw [Span.before, if_pos (show region.span.offset < o from h₀), List.map_singleton, Region.span]
  dsimp only
  rw [hcells, seg, sub_self, Int.toNat_zero, List.drop_zero]
  rfl

theorem spec_peekRegion_behind (h : region.Ok) {e : ℤ} (h₀ : region.getStartOffset ≤ e)
    (h₁ : e < region.getEndOffset) :
    Returns (peekRegion region e region.getEndOffset) fun c =>
      Holds [⟨e, c⟩] (Span.behind e region.span) := by
  refine (spec_peekRegion h h₀ h₁ le_rfl).mono id ?_
  rintro c ⟨hok, hcells⟩
  refine ⟨fun r hr => List.mem_singleton.1 hr ▸ hok, ?_⟩
  have hlen := h.wf.length_cells
  have hend : region.getEndOffset = region.offset + region.data.getChunkLength := rfl
  have hstart : region.getStartOffset = region.offset := rfl
  rw [Span.behind, if_pos (by rw [h.stop_span]; exact h₁), List.map_singleton, Region.span]
  dsimp only
  rw [hcells, seg, List.take_of_length_le (by rw [List.length_drop]; omega)]
  rfl

theorem spec_sliceLoop (hok : ∀ region ∈ regions, region.Ok)
    (hsep : Span.Separated (regions.map Region.span)) :
    Returns (sliceLoop newRegion regions) fun rs =>
      Holds rs ((regions.map Region.span).flatMap
        (Span.cut newRegion.getStartOffset newRegion.getEndOffset)) := by
  induction regions with
  | nil => exact Spec.pure holds_nil
  | cons old regions ih =>
    rw [List.forall_mem_cons] at hok
    rw [List.map_cons, Span.separated_cons] at hsep
    obtain ⟨-, hgap, hrest⟩ := hsep
    have hstop := hok.1.stop_span
    have hoff : old.span.offset = old.getStartOffset := rfl
    rw [List.map_cons, List.flatMap_cons, Span.cut, hstop, hoff, sliceLoop]
    by_cases hout : newRegion.getEndOffset ≤ old.getStartOffset ∨
        old.getEndOffset ≤ newRegion.getStartOffset
    · rw [if_pos hout, if_pos hout]
      exact (ih hok.2 hrest).bind fun rs hrs => Spec.pure (Holds.cons hok.1 hrs)
    rw [if_neg hout, if_neg hout]
    have hbefore : ¬ old.getStartOffset < newRegion.getStartOffset →
        Span.before newRegion.getStartOffset old.span = [] := fun h => if_neg h
    have hbehind : ¬ newRegion.getEndOffset < old.getEndOffset →
        Span.behind newRegion.getEndOffset old.span = [] := fun h => if_neg (by rwa [hstop])
    split_ifs with hcover hsplit hend hstart
    · rw [hbefore (by omega), hbehind (by omega)]
      exact ih hok.2 hrest
    · -- the other regions do not meet the new one
      have hrest' : (regions.map Region.span).flatMap
          (Span.cut newRegion.getStartOffset newRegion.getEndOffset) = regions.map Region.span := by
        refine Span.flatMap_cut_of_outside fun s hs => Or.inl ?_
        have := hgap s hs
        omega
      refine (spec_peekRegion_before hok.1 hsplit.1 (by omega)).bind fun previous hp => ?_
      refine (spec_peekRegion_behind hok.1 (by omega) hsplit.2).bind fun next hn => ?_
      rw [hrest']
      exact Spec.pure ((hp.append hn).append (holds_of_ok hok.2))
    · rw [hbehind (by omega), List.append_nil]
      refine (spec_peekRegion_before hok.1 (by omega) (by omega)).bind fun data hd => ?_
      exact (ih hok.2 hrest).bind fun rs hrs => Spec.pure (hd.append hrs)
    · rw [hbefore (by omega), List.nil_append]
      refine (spec_peekRegion_behind hok.1 (by omega) (by omega)).bind fun data hd => ?_
      exact (ih hok.2 hrest).bind fun rs hrs => Spec.pure (hd.append hrs)
    · omega

theorem spec_sliceRegions (newRegion : Region) (hok : ∀ region ∈ regions, region.Ok)
    (hsep : Span.Separated (regions.map Region.span)) :
    Returns (sliceRegions regions newRegion) fun rs =>
      Holds rs ((regions.map Region.span).flatMap
        (Span.cut newRegion.getStartOffset newRegion.getEndOffset)) := by
  unfold sliceRegions
  split_ifs with hempty
  · rw [List.isEmpty_iff.1 hempty]
    exact Spec.pure holds_nil
  · dsimp only
    set lower := lowerBoundStartOffset regions newRegion - 1 with hlower
    set upper := if upperBoundEndOffset regions newRegion ≠ regions.length then
      upperBoundEndOffset regions newRegion + 1
      else upperBoundEndOffset regions newRegion with hupper
    obtain ⟨hmiddle, hcut⟩ := hsep.flatMap_cut_search (fun _ => rfl)
      (fun r hr => (hok r hr).stop_span.symm) hlower hupper
    have hok' : ∀ region ∈ (regions.take upper).drop lower, region.Ok :=
      fun r hr => hok r (List.mem_of_mem_take (List.mem_of_mem_drop hr))
    refine (spec_sliceLoop hok' hmiddle).bind fun sliced hs => Spec.pure ?_
    have hl := holds_of_ok fun r (hr : r ∈ regions.take lower) => hok r (List.mem_of_mem_take hr)
    have hr := holds_of_ok fun r (hr : r ∈ regions.drop (max lower upper)) =>
      hok r (List.mem_of_mem_drop hr)
    rw [hcut]
    exact (hl.append hs).append hr

end Slice

section Merge

variable {previous next : Region}

/-- What `mergeRegions` makes of two regions: one region in either place if they touch. -/
def Merged (previous next : Region) (result : Option Region × Option Region) : Prop :=
  if previous.span.stop = next.span.offset then
    ∃ region : Region, region.Ok ∧ region.span = Span.fuse previous.span next.span ∧
      (result = (some region, none) ∨ result = (none, some region))
  else result = (some previous, some next)

theorem spec_mergeRegions (hp : previous.Ok) (hn : next.Ok)
    (hppos : 0 < previous.data.getChunkLength) (hnpos : 0 < next.data.getChunkLength)
    (hclash : previous.span.stop = next.span.offset →
      NoClash (previous.data.cells ++ next.data.cells)) :
    Returns (mergeRegions previous next) (Merged previous next) := by
  have hoffset : next.span.offset = next.getStartOffset := rfl
  unfold mergeRegions Merged
  rw [hp.stop_span, hoffset] at hclash ⊢
  by_cases htouch : previous.getEndOffset = next.getStartOffset
  · simp only [if_pos htouch]
    have hn' := hclash htouch
    have hregion : ∀ data, Rep True data (previous.data.cells ++ next.data.cells) →
        Region.Ok ⟨previous.offset, data⟩ ∧
          Region.span ⟨previous.offset, data⟩ = Span.fuse previous.span next.span := by
      intro data hrep
      have hcells := hrep.cells_eq hn'
      refine ⟨⟨hrep.wf, hrep.clean trivial, hcells ▸ hn'⟩, ?_⟩
      rw [Region.span, hcells]
      rfl
    split_ifs with hback hfront
    · have hspec := spec_mergeAtSide (k := True) hp.wf (extensible_of_pos hppos)
        (fun _ => hp.clean) hn.wf hnpos (fun _ => hn.clean) hback
      refine (hspec.mono (by simp) fun _ h => h).bind fun data hrep => Spec.pure ?_
      exact ⟨_, (hregion data hrep).1, (hregion data hrep).2, Or.inl rfl⟩
    · have hspec := spec_mergeAtSide (k := True) hn.wf (extensible_of_pos hnpos)
        (fun _ => hn.clean) hp.wf hppos (fun _ => hp.clean) hfront
      refine (hspec.mono (by simp) fun _ h => h).bind fun data hrep => Spec.pure ?_
      exact ⟨_, (hregion data hrep).1, (hregion data hrep).2, Or.inr rfl⟩
    · have hspec := Packet.spec_sequenceOf (k := True) (List.Forall₂.cons
        ⟨hp.wf.rep fun _ => hp.clean, hppos⟩ (List.Forall₂.cons
          ⟨hn.wf.rep fun _ => hn.clean, hnpos⟩ List.Forall₂.nil))
      rw [show Packet.sequenceOf [previous.data, next.data] =
        mergeAsSequence previous.data
          next.data by simp [Packet.sequenceOf, mergeAsSequence]] at hspec
      refine (hspec.mono (by simp) fun _ h => h.1).bind fun data hrep => Spec.pure ?_
      simp only [List.flatten_cons, List.flatten_nil, List.append_nil] at hrep
      exact ⟨_, (hregion data hrep).1, (hregion data hrep).2, Or.inl rfl⟩
  · simp only [if_neg htouch]
    exact Spec.pure rfl

theorem Merged.holds {result : Option Region × Option Region} (hp : previous.Ok) (hn : next.Ok)
    (h : Merged previous next result) :
    Holds (eraseEmptyRegions [result.1, result.2])
      (if previous.span.stop = next.span.offset then [Span.fuse previous.span next.span]
        else [previous.span, next.span]) := by
  unfold Merged at h
  split_ifs at h ⊢
  · obtain ⟨region, hok, hspan, rfl | rfl⟩ := h
    all_goals
      rw [← hspan]
      exact Holds.cons hok holds_nil
  · subst h
    exact Holds.cons hp (Holds.cons hn holds_nil)

/-- A region that is not empty. -/
structure Region.Filled (this : Region) : Prop extends this.Ok where
  pos : 0 < this.data.getChunkLength

theorem Region.Filled.offset_lt_stop (h : region.Filled) :
    region.span.offset < region.span.stop := by
  have hstop := h.stop_span
  have hpos := h.pos
  have hend : region.getEndOffset = region.span.offset + region.data.getChunkLength := rfl
  omega

theorem Region.filled_of_fuse {s t : Span Cell} (hok : region.Ok) (hspan : region.span = s.fuse t)
    (hs : s.values ≠ []) : region.Filled := by
  refine ⟨hok, ?_⟩
  rw [← hok.wf.length_cells, show region.data.cells = s.values ++ t.values from
    congrArg Span.values hspan, List.length_append]
  have := List.length_pos_iff.2 hs
  omega

theorem Region.Filled.cells_ne_nil (h : region.Filled) : region.span.values ≠ [] := by
  refine List.length_pos_iff.1 ?_
  have := h.pos
  have := h.wf.length_cells
  change 0 < region.data.cells.length
  omega

theorem spec_mergeRegions_put (hr : region.Filled) (hn : next.Filled)
    (hstop : region.span.stop ≤ next.span.offset)
    (hclash : ∀ s ∈ Span.put region.span [next.span], NoClash s.values) :
    Returns (mergeRegions region next) fun result =>
      Holds (eraseEmptyRegions [result.1, result.2]) (Span.put region.span [next.span]) := by
  have hlt := hn.offset_lt_stop
  have hlt' := hr.offset_lt_stop
  rw [Span.put_cons_of_lt (by omega)] at hclash ⊢
  refine (spec_mergeRegions hr.toOk hn.toOk hr.pos hn.pos fun htouch => ?_).mono id
    fun result hmerged => hmerged.holds hr.toOk hn.toOk
  exact hclash (Span.fuse region.span next.span) (by rw [if_pos htouch]; simp)

theorem spec_mergeNext {next : Option Region} (hr : region.Filled)
    (hn : ∀ n ∈ next, n.Filled ∧ region.span.stop ≤ n.span.offset)
    (hclash : ∀ s ∈ Span.put region.span (next.toList.map Region.span), NoClash s.values)
    (previous : Option Region) :
    Returns (mergeNext previous (some region) next) fun merged =>
      ∃ rs, merged = previous :: rs ∧
        Holds (eraseEmptyRegions rs) (Span.put region.span (next.toList.map Region.span)) := by
  cases next with
  | none => exact Spec.pure ⟨[some region], rfl, Holds.cons hr.toOk holds_nil⟩
  | some next =>
    obtain ⟨hnext, hstop⟩ := hn next rfl
    exact (spec_mergeRegions_put hr hnext hstop hclash).bind
      fun result h => Spec.pure ⟨[result.1, result.2], rfl, h⟩

def mergeBoth (previousRegion : Option Region) (region : Region) (nextRegion : Option Region) :
    ChunkM (List (Option Region)) := do
  let (previousRegion, region) ← mergePrevious previousRegion region
  mergeNext previousRegion region nextRegion

theorem spec_mergeBoth {previous next : Option Region} (hr : region.Filled)
    (hp : ∀ p ∈ previous, p.Filled ∧ p.span.stop ≤ region.span.offset)
    (hn : ∀ n ∈ next, n.Filled ∧ region.span.stop ≤ n.span.offset)
    (hclash : ∀ s ∈ Span.put region.span ((previous.toList ++ next.toList).map Region.span),
      NoClash s.values) :
    Returns (mergeBoth previous region next) fun merged =>
      Holds (eraseEmptyRegions merged)
        (Span.put region.span ((previous.toList ++ next.toList).map Region.span)) := by
  have hlt := hr.offset_lt_stop
  cases previous with
  | none =>
    refine (spec_mergeNext hr hn hclash none).mono id ?_
    rintro merged ⟨rs, rfl, hrs⟩
    exact hrs
  | some previous =>
    obtain ⟨hprev, hstop⟩ := hp previous rfl
    have hput := Span.put_cons_of_le (next.toList.map Region.span) hstop
    rw [Option.toList_some, List.map_append, List.map_singleton, List.singleton_append, hput]
      at hclash ⊢
    have hmerge := spec_mergeRegions hprev.toOk hr.toOk hprev.pos hr.pos fun htouch => by
      rw [if_pos htouch] at hclash
      obtain ⟨t, ht, hpart⟩ := Span.exists_mem_put (previous.span.fuse region.span)
        (next.toList.map Region.span)
      exact (hclash t ht).of_isInfix hpart
    refine hmerge.bind fun result hmerged => ?_
    unfold Merged at hmerged
    split_ifs at hmerged hclash ⊢ with htouch
    · -- the region they make takes the place of the new one
      obtain ⟨fused, hok, hspan, hresult⟩ := hmerged
      have hfused : fused.Filled := Region.filled_of_fuse hok hspan hprev.cells_ne_nil
      have hn' : ∀ n ∈ next, n.Filled ∧ fused.span.stop ≤ n.span.offset := by
        rw [hspan, Span.stop_fuse htouch]
        exact hn
      rw [← hspan] at hclash ⊢
      rcases hresult with rfl | rfl
      · cases next with
        | none => exact Spec.pure (Holds.cons hok holds_nil)
        | some next =>
          obtain ⟨hnext, hstop⟩ := hn' next rfl
          exact (spec_mergeRegions_put hfused hnext hstop hclash).bind fun result h => Spec.pure h
      · refine (spec_mergeNext hfused hn' hclash none).mono id ?_
        rintro merged ⟨rs, rfl, hrs⟩
        exact hrs
    · subst hmerged
      refine (spec_mergeNext hr hn (fun s hs => hclash s (by simp [hs]))
        (some previous)).mono id ?_
      rintro merged ⟨rs, rfl, hrs⟩
      exact Holds.cons hprev.toOk hrs

end Merge

section Insert

variable (hsep : Span.Separated (regions.map Region.span)) (hr : newRegion.Filled)
  (hclear : Span.Clear newRegion.span (regions.map Region.span))

include hsep in
theorem filled_of_mem (hok : ∀ region ∈ regions, region.Ok) (h : region ∈ regions) :
    region.Filled := by
  refine ⟨hok region h, ?_⟩
  rw [← (hok region h).wf.length_cells]
  exact_mod_cast List.length_pos_iff.2 (hsep.ne_nil _ (List.mem_map_of_mem h))

include hr hclear in
theorem stop_le_of_mem_take (h : region ∈ regions.take (upperBoundStartOffset regions newRegion)) :
    region.span.stop ≤ newRegion.span.offset := by
  obtain ⟨j, hj, rfl⟩ := List.mem_iff_getElem.1 h
  rw [List.length_take] at hj
  rw [List.getElem_take]
  have hnot := List.not_of_lt_findIdx (show j < upperBoundStartOffset regions newRegion by omega)
  rw [decide_eq_false_iff_not, not_lt] at hnot
  have hlt := hr.offset_lt_stop
  rcases hclear _ (List.mem_map_of_mem (List.getElem_mem (show j < regions.length by omega)))
    with hle | hle
  · exact hle
  · exact absurd (hlt.trans_le hle) (not_lt.2 hnot)

include hsep hclear in
theorem stop_le_of_mem_drop (hok : ∀ region ∈ regions, region.Ok)
    (h : region ∈ regions.drop (upperBoundStartOffset regions newRegion)) :
    newRegion.span.stop ≤ region.span.offset := by
  have hmem := List.mem_of_mem_drop h
  obtain ⟨j, hj, rfl⟩ := List.mem_iff_getElem.1 h
  rw [List.length_drop] at hj
  rw [List.getElem_drop] at hmem ⊢
  have hlen : upperBoundStartOffset regions newRegion < regions.length := by omega
  have hp := List.findIdx_getElem (w := hlen)
  rw [decide_eq_true_eq] at hp
  have hle : regions[upperBoundStartOffset regions newRegion].span.offset ≤
      regions[upperBoundStartOffset regions newRegion + j].span.offset := by
    rcases Nat.eq_zero_or_pos j with rfl | hj
    · exact le_rfl
    · have hgap := List.pairwise_iff_getElem.1 (List.pairwise_map.1 hsep.gap) _
        (upperBoundStartOffset regions newRegion + j) hlen (by omega) (by omega)
      exact ((filled_of_mem hsep hok (List.getElem_mem hlen)).offset_lt_stop.trans hgap).le
  have hlt := (filled_of_mem hsep hok hmem).offset_lt_stop
  rcases hclear _ (List.mem_map_of_mem hmem) with h | h
  · exact absurd (hp.trans_le (hle.trans (hlt.le.trans h))) (lt_irrefl _)
  · exact h

/-- `insertRegion` as if the vector was always searched for the place of the new region. -/
def insertSearched (regions : List Region) (newRegion : Region) : ChunkM (List Region) := do
  let index := upperBoundStartOffset regions newRegion
  let merged ← mergeBoth (regions.take index).getLast? newRegion (regions.drop index).head?
  return (regions.take index).dropLast ++ eraseEmptyRegions merged ++ (regions.drop index).tail

include hsep in
theorem upperBoundStartOffset_of_last (hok : ∀ region ∈ regions, region.Ok) {back : Region}
    (hback : regions.getLast? = some back) (hle : back.getEndOffset ≤ newRegion.offset) :
    upperBoundStartOffset regions newRegion = regions.length := by
  obtain ⟨init, rfl⟩ := List.getLast?_eq_some_iff.1 hback
  have hstop := (hok back (by simp)).stop_span
  have hlt := (filled_of_mem hsep hok (List.mem_append_right _ (by simp)) :
    back.Filled).offset_lt_stop
  refine List.findIdx_eq_length.2 fun region hregion => ?_
  have hle' : region.getStartOffset ≤ newRegion.getStartOffset := by
    rcases List.mem_append.1 hregion with h | h
    · rw [List.map_append, Span.separated_append] at hsep
      have hgap := hsep.2.2 _ (List.mem_map_of_mem h) back.span (by simp)
      have hpos := (filled_of_mem hsep.1 (fun r hr => hok r (by simp [hr])) h).offset_lt_stop
      change region.span.offset ≤ newRegion.offset
      omega
    · obtain rfl := List.mem_singleton.1 h
      change region.span.offset ≤ newRegion.offset
      omega
  simpa using hle'

include hsep hr in
theorem insertRegion_eq (hok : ∀ region ∈ regions, region.Ok) :
    insertRegion regions newRegion = insertSearched regions newRegion := by
  unfold insertRegion insertSearched
  cases hregions : regions with
  | nil => rfl
  | cons front rest =>
    rw [← hregions]
    obtain ⟨back, hback⟩ : ∃ back, regions.getLast? = some back :=
      Option.ne_none_iff_exists'.1 (by simp [hregions])
    have hhead : regions.head? = some front := by rw [hregions, List.head?_cons]
    rw [hhead, hback]
    dsimp only
    split_ifs with hlast hfirst
    · rw [upperBoundStartOffset_of_last hsep hok hback hlast, List.take_length, List.drop_length,
        hback]
      simp [mergeBoth, mergePrevious, mergeNext]
    · have hindex : upperBoundStartOffset regions newRegion = 0 := by
        have hpos := hr.pos
        rw [upperBoundStartOffset, hregions, List.findIdx_cons,
          decide_eq_true (show newRegion.getStartOffset < front.getStartOffset by
            change newRegion.offset < _
            omega), cond_true]
      rw [hindex, List.take_zero, List.drop_zero, hhead]
      simp only [mergeBoth, mergePrevious, mergeNext, pure_bind, bind_assoc, List.getLast?_nil,
        List.dropLast_nil, List.nil_append]
      rfl
    · simp [mergeBoth]

theorem dropLast_append_getLast?_toList {α : Type} (xs : List α) :
    xs.dropLast ++ xs.getLast?.toList = xs := by
  rcases xs.eq_nil_or_concat with rfl | ⟨init, last, rfl⟩
  · rfl
  · simp

theorem head?_toList_append_tail {α : Type} (xs : List α) : xs.head?.toList ++ xs.tail = xs := by
  cases xs <;> rfl

include hsep hr hclear in
theorem spec_insertRegion (hok : ∀ region ∈ regions, region.Ok)
    (hclash : ∀ s ∈ Span.put newRegion.span (regions.map Region.span), NoClash s.values) :
    Returns (insertRegion regions newRegion) fun rs =>
      Holds rs (Span.put newRegion.span (regions.map Region.span)) := by
  rw [insertRegion_eq hsep hr hok, insertSearched]
  set index := upperBoundStartOffset regions newRegion with hindex
  have htake : ∀ region ∈ regions.take index, region.span.stop ≤ newRegion.span.offset :=
    fun region => stop_le_of_mem_take hr hclear
  have hdrop : ∀ region ∈ regions.drop index, newRegion.span.stop ≤ region.span.offset :=
    fun region => stop_le_of_mem_drop hsep hclear hok
  have hfilled : ∀ region ∈ regions, region.Filled := fun region => filled_of_mem hsep hok
  have hsplit : regions = (regions.take index).dropLast ++ ((regions.take index).getLast?.toList ++
      ((regions.drop index).head?.toList ++ (regions.drop index).tail)) := by
    rw [← List.append_assoc, dropLast_append_getLast?_toList, head?_toList_append_tail,
      List.take_append_drop]
  have hput : Span.put newRegion.span (regions.map Region.span) =
      (regions.take index).dropLast.map Region.span ++
        (Span.put newRegion.span (((regions.take index).getLast?.toList ++
          (regions.drop index).head?.toList).map Region.span) ++
            (regions.drop index).tail.map Region.span) := by
    have hl : ∀ s ∈ (regions.take index).dropLast.map Region.span,
        s.stop < newRegion.span.offset := by
      intro s hs
      obtain ⟨r, hr, rfl⟩ := List.mem_map.1 hs
      obtain ⟨last, hlast⟩ : ∃ last, (regions.take index).getLast? = some last := by
        refine Option.ne_none_iff_exists'.1 fun hnone => ?_
        rw [List.getLast?_eq_none_iff.1 hnone] at hr
        cases hr
      have hmem := List.mem_of_getLast? hlast
      have hgap := (List.pairwise_map.1 hsep.gap).sublist (List.take_sublist index regions)
      rw [← dropLast_append_getLast?_toList (regions.take index), hlast] at hgap
      have hlt := (List.pairwise_append.1 hgap).2.2 r hr last (by simp)
      exact hlt.trans ((hfilled last (List.mem_of_mem_take hmem)).offset_lt_stop.trans_le
        (htake last hmem))
    have hbetween := Span.put_between
      (p := (regions.take index).getLast?.map Region.span)
      (n := (regions.drop index).head?.map Region.span)
      (r := (regions.drop index).tail.map Region.span) hl ?_ ?_ ?_
    · rw [Option.toList_map, Option.toList_map, ← List.map_append, ← List.map_append,
        ← List.map_append, ← hsplit, ← List.map_append] at hbetween
      exact hbetween
    · intro s hs
      obtain ⟨p, hp, rfl⟩ := Option.mem_map.1 hs
      have hmem := List.mem_of_getLast? hp
      exact ⟨(hfilled p (List.mem_of_mem_take hmem)).offset_lt_stop, htake p hmem⟩
    · intro s hs
      obtain ⟨n, hn, rfl⟩ := Option.mem_map.1 hs
      have hmem := List.mem_of_head? hn
      exact hr.offset_lt_stop.trans_le ((hdrop n hmem).trans
        (hfilled n (List.mem_of_mem_drop hmem)).offset_lt_stop.le)
    · intro hnone
      rw [Option.map_eq_none_iff, List.head?_eq_none_iff] at hnone
      rw [hnone]
      rfl
  rw [hput] at hclash ⊢
  refine (spec_mergeBoth hr ?_ ?_ fun s hs => hclash s (List.mem_append_right _
    (List.mem_append_left _ hs))).bind fun merged hm => Spec.pure ?_
  · intro p hp
    have hmem := List.mem_of_getLast? hp
    exact ⟨hfilled p (List.mem_of_mem_take hmem), htake p hmem⟩
  · intro n hn
    have hmem := List.mem_of_head? hn
    exact ⟨hfilled n (List.mem_of_mem_drop hmem), hdrop n hmem⟩
  · rw [List.append_assoc]
    exact (holds_of_ok fun r hr => hok r (List.mem_of_mem_take (List.dropLast_subset _ hr))).append
      (hm.append (holds_of_ok fun r hr => hok r (List.mem_of_mem_drop (List.mem_of_mem_tail hr))))

end Insert

end ChunkBuffer

end Inet
