import Inet.Lib.Segment

/-! # Separated spans

A partial map from positions to values, stored as the list of its maximal runs
of defined positions. Clearing a range cuts the spans, and writing a span
fuses it with the spans it touches.
-/

namespace Inet

/-- Values at consecutive positions. -/
structure Span (α : Type) where
  offset : ℤ
  values : List α

namespace Span

variable {α : Type} {s t new : Span α} {spans : List (Span α)} {o e i : ℤ}

/-- The position behind the last value. -/
def stop (s : Span α) : ℤ := s.offset + s.values.length

/-- The value at a position. -/
def get (s : Span α) (i : ℤ) : Option α :=
  if s.offset ≤ i then s.values[(i - s.offset).toNat]? else none

theorem get_eq_none_iff : s.get i = none ↔ i < s.offset ∨ s.stop ≤ i := by
  unfold get stop
  split_ifs with h
  · rw [List.getElem?_eq_none_iff]
    omega
  · simp only [true_iff]
    omega

theorem get_isSome_iff : (s.get i).isSome ↔ s.offset ≤ i ∧ i < s.stop := by
  rw [← Option.ne_none_iff_isSome, Ne, get_eq_none_iff]
  omega

/-- The value that the spans have at a position. -/
def lookup (spans : List (Span α)) (i : ℤ) : Option α := spans.findSome? fun s => s.get i

@[simp] theorem lookup_nil : lookup ([] : List (Span α)) i = none := rfl

@[simp] theorem lookup_cons : lookup (s :: spans) i = (s.get i).or (lookup spans i) := by
  unfold lookup
  rw [List.findSome?_cons]
  cases s.get i <;> rfl

theorem lookup_append {spans' : List (Span α)} :
    lookup (spans ++ spans') i = (lookup spans i).or (lookup spans' i) := by
  unfold lookup
  rw [List.findSome?_append]

/-- The spans are not empty, sorted, and there is a gap between any two of them. -/
structure Separated (spans : List (Span α)) : Prop where
  ne_nil : ∀ s ∈ spans, s.values ≠ []
  gap : spans.Pairwise fun s t => s.stop < t.offset

theorem offset_lt_stop (h : s.values ≠ []) : s.offset < s.stop := by
  have := List.length_pos_iff.2 h
  unfold stop
  omega

theorem separated_nil : Separated ([] : List (Span α)) := ⟨by simp, List.Pairwise.nil⟩

theorem separated_cons :
    Separated (s :: spans) ↔
      s.values ≠ [] ∧ (∀ t ∈ spans, s.stop < t.offset) ∧ Separated spans := by
  constructor
  · intro h
    have hne := List.forall_mem_cons.1 h.ne_nil
    have hgap := List.pairwise_cons.1 h.gap
    exact ⟨hne.1, hgap.1, hne.2, hgap.2⟩
  · rintro ⟨hne, hgap, h⟩
    exact ⟨List.forall_mem_cons.2 ⟨hne, h.ne_nil⟩, List.pairwise_cons.2 ⟨hgap, h.gap⟩⟩

theorem separated_append {spans' : List (Span α)} :
    Separated (spans ++ spans') ↔ Separated spans ∧ Separated spans' ∧
      ∀ s ∈ spans, ∀ t ∈ spans', s.stop < t.offset := by
  constructor
  · intro h
    have hne := List.forall_mem_append.1 h.ne_nil
    obtain ⟨hl, hr, hgap⟩ := List.pairwise_append.1 h.gap
    exact ⟨⟨hne.1, hl⟩, ⟨hne.2, hr⟩, hgap⟩
  · rintro ⟨hl, hr, hgap⟩
    exact ⟨List.forall_mem_append.2 ⟨hl.ne_nil, hr.ne_nil⟩,
      List.pairwise_append.2 ⟨hl.gap, hr.gap, hgap⟩⟩

section Cut

/-- The part of a span before a position. -/
def before (o : ℤ) (s : Span α) : List (Span α) :=
  if s.offset < o then [⟨s.offset, s.values.take (o - s.offset).toNat⟩] else []

/-- The part of a span from a position in it on. -/
def behind (e : ℤ) (s : Span α) : List (Span α) :=
  if e < s.stop then [⟨e, s.values.drop (e - s.offset).toNat⟩] else []

theorem lookup_before : lookup (before o s) i = if i < o then s.get i else none := by
  unfold before
  split_ifs with hlo hi hi
  · simp only [lookup_cons, lookup_nil, Option.or_none, get]
    rw [List.getElem?_take]
    split_ifs <;> first | rfl | omega
  · rw [lookup_cons, lookup_nil, Option.or_none, get_eq_none_iff]
    simp only [stop, List.length_take]
    omega
  · rw [lookup_nil, eq_comm, get_eq_none_iff]
    omega
  · rfl

theorem lookup_behind (h : s.offset ≤ e) :
    lookup (behind e s) i = if e ≤ i then s.get i else none := by
  unfold behind
  split_ifs with hhi hi hi
  · simp only [lookup_cons, lookup_nil, Option.or_none, get]
    rw [if_pos hi, if_pos (h.trans hi), List.getElem?_drop]
    congr 1
    omega
  · rw [lookup_cons, lookup_nil, Option.or_none, get_eq_none_iff]
    exact Or.inl (not_le.1 hi)
  · rw [lookup_nil, eq_comm, get_eq_none_iff]
    omega
  · rfl

theorem mem_before (h : t ∈ before o s) (hs : s.values ≠ []) :
    t.values ≠ [] ∧ t.offset = s.offset ∧ t.stop ≤ s.stop ∧ t.stop ≤ o := by
  have hlen := List.length_pos_iff.2 hs
  unfold before at h
  split_ifs at h with hlo
  · obtain rfl := List.mem_singleton.1 h
    refine ⟨List.length_pos_iff.1 ?_, rfl, ?_, ?_⟩
    all_goals simp only [stop, List.length_take]; omega
  · cases h

theorem mem_behind (h : t ∈ behind e s) (hle : s.offset ≤ e) :
    t.values ≠ [] ∧ t.offset = e ∧ t.stop = s.stop := by
  unfold behind at h
  split_ifs at h with hhi
  · obtain rfl := List.mem_singleton.1 h
    have hstop : s.stop = s.offset + s.values.length := rfl
    refine ⟨List.length_pos_iff.1 ?_, rfl, ?_⟩
    all_goals simp only [stop, List.length_drop]; omega
  · cases h

/-- What is left of a span when a range is cleared. -/
def cut (o e : ℤ) (s : Span α) : List (Span α) :=
  if e ≤ s.offset ∨ s.stop ≤ o then [s] else before o s ++ behind e s

theorem cut_of_outside (h : e ≤ s.offset ∨ s.stop ≤ o) : cut o e s = [s] := if_pos h

theorem flatMap_cut_of_outside (h : ∀ s ∈ spans, e ≤ s.offset ∨ s.stop ≤ o) :
    spans.flatMap (cut o e) = spans := by
  induction spans with
  | nil => rfl
  | cons s spans ih =>
    rw [List.forall_mem_cons] at h
    rw [List.flatMap_cons, cut_of_outside h.1, ih h.2]
    rfl

/-! Binary searches find the elements of a list whose spans a cut meets. -/

section Search

variable {ι : Type} {f : ι → Span α} {start stop' : ι → ℤ} {l : List ι} {r : ι}

/-- Before the first element that does not start before the cut, all but the last one end before
the cut. -/
theorem Separated.stop_lt_of_mem_take (h : Separated (l.map f))
    (hstart : ∀ r, start r = (f r).offset)
    (hr : r ∈ l.take ((l.findIdx fun r => !decide (start r < o)) - 1)) : (f r).stop < o := by
  obtain ⟨j, hj, rfl⟩ := List.mem_iff_getElem.1 hr
  rw [List.length_take] at hj
  rw [List.getElem_take]
  have hidx : j + 1 < l.findIdx fun r => !decide (start r < o) := by omega
  have hlen : j + 1 < l.length := lt_of_lt_of_le hidx List.findIdx_le_length
  have hnot := List.not_of_lt_findIdx hidx
  rw [Bool.not_eq_false', decide_eq_true_eq, hstart] at hnot
  have hgap := List.pairwise_iff_getElem.1 (List.pairwise_map.1 h.gap) j (j + 1) (by omega) hlen
    (by omega)
  exact hgap.trans hnot

/-- Behind the first element that ends behind the cut, all start behind the cut. -/
theorem Separated.lt_offset_of_mem_drop (h : Separated (l.map f))
    (hstop : ∀ r ∈ l, stop' r = (f r).stop) {k : ℕ}
    (hk : (if (l.findIdx fun r => e < stop' r) ≠ l.length then
      (l.findIdx fun r => e < stop' r) + 1 else l.findIdx fun r => e < stop' r) ≤ k)
    (hr : r ∈ l.drop k) : e < (f r).offset := by
  obtain ⟨j, hj, rfl⟩ := List.mem_iff_getElem.1 hr
  rw [List.length_drop] at hj
  rw [List.getElem_drop]
  have hle : (l.findIdx fun r => e < stop' r) ≤ l.length := List.findIdx_le_length
  have hlen : (l.findIdx fun r => e < stop' r) < l.length := by
    split_ifs at hk <;> omega
  rw [if_pos hlen.ne] at hk
  have hp := List.findIdx_getElem (w := hlen)
  rw [decide_eq_true_eq, hstop _ (List.getElem_mem hlen)] at hp
  have hgap := List.pairwise_iff_getElem.1 (List.pairwise_map.1 h.gap) _ (k + j) hlen (by omega)
    (by omega)
  exact hp.trans hgap

/-- The list as it is taken apart by two indices in any order. -/
theorem take_append_take_drop_append_drop (l : List ι) (a b : ℕ) :
    l.take a ++ (l.take b).drop a ++ l.drop (max a b) = l := by
  rcases Nat.le_total a b with h | h
  · have htake : l.take a = (l.take b).take a := by rw [List.take_take, min_eq_left h]
    rw [max_eq_right h, htake, List.take_append_drop, List.take_append_drop]
  · rw [max_eq_left h, List.drop_of_length_le (by rw [List.length_take]; omega), List.append_nil,
      List.take_append_drop]

/-- The elements before and behind those found stay as they are. -/
theorem Separated.flatMap_cut_search (h : Separated (l.map f))
    (hstart : ∀ r, start r = (f r).offset) (hstop : ∀ r ∈ l, stop' r = (f r).stop) {a b : ℕ}
    (ha : a = (l.findIdx fun r => !decide (start r < o)) - 1)
    (hb : b = if (l.findIdx fun r => e < stop' r) ≠ l.length then
      (l.findIdx fun r => e < stop' r) + 1 else l.findIdx fun r => e < stop' r) :
    Separated (((l.take b).drop a).map f) ∧ (l.map f).flatMap (cut o e) =
      (l.take a).map f ++ (((l.take b).drop a).map f).flatMap (cut o e) ++
        (l.drop (max a b)).map f := by
  have hsplit := take_append_take_drop_append_drop l a b
  have hleft : ∀ s ∈ (l.take a).map f, e ≤ s.offset ∨ s.stop ≤ o := by
    intro s hs
    obtain ⟨r, hr, rfl⟩ := List.mem_map.1 hs
    exact Or.inr (h.stop_lt_of_mem_take hstart (ha ▸ hr)).le
  have hright : ∀ s ∈ (l.drop (max a b)).map f, e ≤ s.offset ∨ s.stop ≤ o := by
    intro s hs
    obtain ⟨r, hr, rfl⟩ := List.mem_map.1 hs
    exact Or.inl (h.lt_offset_of_mem_drop hstop (hb ▸ le_max_right a b) hr).le
  constructor
  · rw [← hsplit, List.map_append, List.map_append, separated_append, separated_append] at h
    exact h.1.2.1
  · conv_lhs => rw [← hsplit]
    rw [List.map_append, List.map_append, List.flatMap_append, List.flatMap_append,
      flatMap_cut_of_outside hleft, flatMap_cut_of_outside hright]

end Search

theorem lookup_cut (hoe : o ≤ e) :
    lookup (cut o e s) i = if o ≤ i ∧ i < e then none else s.get i := by
  unfold cut
  by_cases hout : e ≤ s.offset ∨ s.stop ≤ o
  · rw [if_pos hout, lookup_cons, lookup_nil, Option.or_none]
    split_ifs with hin
    · rw [get_eq_none_iff]
      omega
    · rfl
  · rw [if_neg hout, lookup_append, lookup_before, lookup_behind (by omega)]
    by_cases hlo : i < o
    · rw [if_pos hlo, if_neg (by omega), if_neg (by omega), Option.or_none]
    · rw [if_neg hlo, Option.none_or]
      by_cases hhi : e ≤ i
      · rw [if_pos hhi, if_neg (by omega)]
      · rw [if_neg hhi, if_pos (by omega)]

/-- Clearing a range clears its positions and no others. -/
theorem lookup_flatMap_cut (hoe : o ≤ e) :
    lookup (spans.flatMap (cut o e)) i = if o ≤ i ∧ i < e then none else lookup spans i := by
  induction spans with
  | nil => simp
  | cons s spans ih =>
    rw [List.flatMap_cons, lookup_append, lookup_cut hoe, ih, lookup_cons]
    split_ifs <;> rfl

theorem mem_cut (ht : t ∈ cut o e s) (hs : s.values ≠ []) :
    t.values ≠ [] ∧ s.offset ≤ t.offset ∧ t.stop ≤ s.stop ∧ (t.stop ≤ o ∨ e ≤ t.offset) := by
  unfold cut at ht
  split_ifs at ht with hout
  · obtain rfl := List.mem_singleton.1 ht
    exact ⟨hs, le_rfl, le_rfl, hout.symm⟩
  · rcases List.mem_append.1 ht with h | h
    · obtain ⟨hne, ho, hstop, hlo⟩ := mem_before h hs
      exact ⟨hne, ho.ge, hstop, Or.inl hlo⟩
    · obtain ⟨hne, ho, hstop⟩ := mem_behind h (by omega)
      exact ⟨hne, by omega, hstop.le, Or.inr ho.ge⟩

/-- A range that does not split a span into touching parts. -/
theorem separated_cut (hs : s.values ≠ []) (h : o < e ∨ o ≤ s.offset ∨ s.stop ≤ o) :
    Separated (cut o e s) := by
  unfold cut
  split_ifs with hout
  · exact separated_cons.2 ⟨hs, by simp, separated_nil⟩
  · have hbefore : Separated (before o s) := by
      refine ⟨fun t ht => (mem_before ht hs).1, ?_⟩
      unfold before
      split_ifs <;> simp
    have hbehind : Separated (behind e s) := by
      refine ⟨fun t ht => (mem_behind ht (by omega)).1, ?_⟩
      unfold behind
      split_ifs <;> simp
    refine separated_append.2 ⟨hbefore, hbehind, fun t ht u hu => ?_⟩
    obtain ⟨hne, ho, -, hstop⟩ := mem_before ht hs
    obtain ⟨-, hu, -⟩ := mem_behind hu (by omega)
    have := offset_lt_stop hne
    omega

/-- Clearing a range leaves separated spans, unless it is empty and lies inside one. -/
theorem separated_flatMap_cut (h : Separated spans)
    (hoe : o < e ∨ ∀ s ∈ spans, o ≤ s.offset ∨ s.stop ≤ o) :
    Separated (spans.flatMap (cut o e)) := by
  induction spans with
  | nil => exact separated_nil
  | cons s spans ih =>
    obtain ⟨hne, hgap, hrest⟩ := separated_cons.1 h
    rw [List.flatMap_cons, separated_append]
    refine ⟨separated_cut hne (hoe.imp_right fun h => h s (by simp)),
      ih hrest (hoe.imp_right fun h t ht => h t (by simp [ht])), fun t ht u hu => ?_⟩
    obtain ⟨v, hv, hu⟩ := List.mem_flatMap.1 hu
    have := (mem_cut ht hne).2.2.1
    have := (mem_cut hu (hrest.ne_nil v hv)).2.1
    have := hgap v hv
    omega

/-- A cleared span is cut away. -/
theorem flatMap_cut_mem {l r : List (Span α)} (hsep : Separated (l ++ s :: r)) :
    (l ++ s :: r).flatMap (cut s.offset s.stop) = l ++ r := by
  rw [separated_append, separated_cons] at hsep
  obtain ⟨-, ⟨hne, hr, -⟩, hl⟩ := hsep
  have hlt := offset_lt_stop hne
  have hcut : cut s.offset s.stop s = [] := by
    rw [cut, if_neg (by omega), before, if_neg (lt_irrefl _), behind, if_neg (lt_irrefl _)]
    rfl
  rw [List.flatMap_append, List.flatMap_cons, hcut,
    flatMap_cut_of_outside fun t ht => Or.inr (hl t ht s (by simp)).le,
    flatMap_cut_of_outside fun t ht => Or.inl (hr t ht).le]
  rfl

end Cut

section Put

/-- Two touching spans as one. -/
def fuse (s t : Span α) : Span α := ⟨s.offset, s.values ++ t.values⟩

theorem stop_fuse (h : s.stop = t.offset) : (fuse s t).stop = t.stop := by
  simp only [stop, fuse, List.length_append] at *
  omega

theorem get_fuse (h : s.stop = t.offset) : (fuse s t).get i = (s.get i).or (t.get i) := by
  have hlen : s.offset + s.values.length = t.offset := h
  change (if s.offset ≤ i then (s.values ++ t.values)[(i - s.offset).toNat]? else none) = _
  by_cases hi : i < t.offset
  · rw [show t.get i = none from get_eq_none_iff.2 (Or.inl hi), Option.or_none, get]
    split_ifs with hge
    · rw [List.getElem?_append_left (by omega)]
    · rfl
  · rw [show s.get i = none from get_eq_none_iff.2 (Or.inr (by omega)), Option.none_or, get,
      if_pos (by omega), if_pos (by omega), List.getElem?_append_right (by omega)]
    congr 1
    omega

/-- Writing a span where nothing is stored: it is fused with the spans that it touches. -/
def put (new : Span α) : List (Span α) → List (Span α)
  | [] => [new]
  | s :: spans =>
    if s.stop < new.offset then s :: put new spans
    else if s.stop = new.offset then put (fuse s new) spans
    else if new.stop = s.offset then fuse new s :: spans
    else new :: s :: spans

/-- Nothing is stored where the span is to be written. -/
def Clear (new : Span α) (spans : List (Span α)) : Prop :=
  ∀ s ∈ spans, s.stop ≤ new.offset ∨ new.stop ≤ s.offset

theorem put_append {spans' : List (Span α)} (h : ∀ s ∈ spans, s.stop < new.offset) :
    put new (spans ++ spans') = spans ++ put new spans' := by
  induction spans with
  | nil => rfl
  | cons s spans ih =>
    rw [List.forall_mem_cons] at h
    rw [List.cons_append, put, if_pos h.1, ih h.2, List.cons_append]

/-- The next span is not before the written one. -/
theorem put_cons_of_lt (h : new.offset < s.stop) :
    put new (s :: spans) =
      if new.stop = s.offset then fuse new s :: spans else new :: s :: spans := by
  rw [put, if_neg (by omega), if_neg (by omega)]

/-- The next span is before the written one. -/
theorem put_cons_of_le (spans : List (Span α)) (h : s.stop ≤ new.offset) :
    put new (s :: spans) =
      if s.stop = new.offset then put (fuse s new) spans else s :: put new spans := by
  rw [put]
  split_ifs <;> first | rfl | omega

/-- Only the first span behind the written one can be changed. -/
theorem put_cons_eq_append (h : new.offset < s.stop) :
    put new (s :: spans) = put new [s] ++ spans := by
  rw [put_cons_of_lt h, put_cons_of_lt h]
  split_ifs <;> rfl

/-- Writing a span between the spans before it and those behind it. -/
theorem put_between {l r : List (Span α)} {p n : Option (Span α)}
    (hl : ∀ s ∈ l, s.stop < new.offset) (hp : ∀ s ∈ p, s.offset < s.stop ∧ s.stop ≤ new.offset)
    (hn : ∀ s ∈ n, new.offset < s.stop) (hr : n = none → r = []) :
    put new (l ++ (p.toList ++ (n.toList ++ r))) = l ++ (put new (p.toList ++ n.toList) ++ r) := by
  rw [put_append hl]
  congr 1
  cases n with
  | none => rw [hr rfl, List.append_nil, List.append_nil]
  | some n =>
    have hlt := hn n rfl
    cases p with
    | none => exact put_cons_eq_append hlt
    | some p =>
      obtain ⟨hpos, hle⟩ := hp p rfl
      simp only [Option.toList_some, List.singleton_append]
      rw [put_cons_of_le _ hle, put_cons_of_le _ hle]
      split_ifs
      · exact put_cons_eq_append (hpos.trans_le (hle.trans hlt.le))
      · rw [put_cons_eq_append hlt]
        rfl

theorem or_left_comm_of_disjoint {x y z : Option α} (h : x = none ∨ y = none) :
    x.or (y.or z) = y.or (x.or z) := by
  rcases h with rfl | rfl
  · rw [Option.none_or, Option.none_or]
  · rw [Option.none_or, Option.none_or]

/-- A span that touches the next spans at most from behind stays clear of the rest. -/
theorem Clear.fuse (hsep : Separated (s :: spans)) (htouch : s.stop = new.offset)
    (h : Clear new (s :: spans)) : Clear (Span.fuse s new) spans := by
  intro t ht
  have hgap := (separated_cons.1 hsep).2.1 t ht
  have hlt := offset_lt_stop ((separated_cons.1 hsep).2.2.ne_nil t ht)
  rw [stop_fuse htouch]
  rcases h t (by simp [ht]) with h | h
  · omega
  · exact Or.inr h

/-- Writing a span defines its positions and no others. -/
theorem lookup_put (hsep : Separated spans) (hnew : new.values ≠ []) (hclear : Clear new spans) :
    lookup (put new spans) i = (new.get i).or (lookup spans i) := by
  induction spans generalizing new with
  | nil => rw [put, lookup_cons]
  | cons s spans ih =>
    obtain ⟨hs, hgap, hrest⟩ := separated_cons.1 hsep
    have hdisjoint : s.get i = none ∨ new.get i = none := by
      have := hclear s (by simp)
      rw [get_eq_none_iff, get_eq_none_iff]
      omega
    rw [put]
    split_ifs with hlt htouch hbehind
    · rw [lookup_cons, ih hrest hnew fun t ht => hclear t (by simp [ht]),
        or_left_comm_of_disjoint hdisjoint, lookup_cons]
    · rw [ih hrest (by simp [fuse, hs]) (hclear.fuse hsep htouch), get_fuse htouch, Option.or_assoc,
        or_left_comm_of_disjoint hdisjoint, lookup_cons]
    · rw [lookup_cons, get_fuse hbehind, Option.or_assoc, lookup_cons]
    · rw [lookup_cons]

theorem mem_put (h : t ∈ put new spans) :
    t.offset = new.offset ∨ ∃ u ∈ spans, t.offset = u.offset := by
  induction spans generalizing new with
  | nil =>
    obtain rfl := List.mem_singleton.1 h
    exact Or.inl rfl
  | cons s spans ih =>
    rw [put] at h
    split_ifs at h
    · rcases List.mem_cons.1 h with rfl | h
      · exact Or.inr ⟨t, by simp, rfl⟩
      · exact (ih h).imp_right fun ⟨u, hu, he⟩ => ⟨u, by simp [hu], he⟩
    · rcases ih h with he | ⟨u, hu, he⟩
      · exact Or.inr ⟨s, by simp, he⟩
      · exact Or.inr ⟨u, by simp [hu], he⟩
    · rcases List.mem_cons.1 h with rfl | h
      · exact Or.inl rfl
      · exact Or.inr ⟨t, by simp [h], rfl⟩
    · rcases List.mem_cons.1 h with rfl | h
      · exact Or.inl rfl
      · exact Or.inr ⟨t, h, rfl⟩

/-- The written values stand in one of the spans. -/
theorem exists_mem_put (new : Span α) (spans : List (Span α)) :
    ∃ t ∈ put new spans, new.values <:+: t.values := by
  induction spans generalizing new with
  | nil => exact ⟨new, by simp [put], List.infix_rfl⟩
  | cons s spans ih =>
    rw [put]
    split_ifs
    · obtain ⟨t, ht, hpart⟩ := ih new
      exact ⟨t, by simp [ht], hpart⟩
    · obtain ⟨t, ht, hpart⟩ := ih (fuse s new)
      exact ⟨t, ht, (List.suffix_append _ _).isInfix.trans hpart⟩
    · exact ⟨fuse new s, by simp, (List.prefix_append _ _).isInfix⟩
    · exact ⟨new, by simp, List.infix_rfl⟩

/-- Writing a span leaves separated spans. -/
theorem separated_put (hsep : Separated spans) (hnew : new.values ≠ [])
    (hclear : Clear new spans) : Separated (put new spans) := by
  induction spans generalizing new with
  | nil => exact separated_cons.2 ⟨hnew, by simp, separated_nil⟩
  | cons s spans ih =>
    obtain ⟨hs, hgap, hrest⟩ := separated_cons.1 hsep
    have hlt := offset_lt_stop hs
    have hnlt := offset_lt_stop hnew
    have hmem := hclear s (by simp)
    rw [put]
    split_ifs with hbefore htouch hbehind
    · refine separated_cons.2
        ⟨hs, fun t ht => ?_, ih hrest hnew fun t ht => hclear t (by simp [ht])⟩
      rcases mem_put ht with he | ⟨u, hu, he⟩
      · omega
      · rw [he]
        exact hgap u hu
    · exact ih hrest (by simp [fuse, hs]) (hclear.fuse hsep htouch)
    · refine separated_cons.2 ⟨by simp [fuse, hs], fun t ht => ?_, hrest⟩
      rw [stop_fuse hbehind]
      exact hgap t ht
    · refine separated_cons.2 ⟨hnew, fun t ht => ?_, hsep⟩
      rcases List.mem_cons.1 ht with rfl | ht
      · omega
      · have := hgap t ht
        omega

end Put

/-- The values of a span are looked up at its positions. -/
theorem lookup_of_mem (hsep : Separated spans) (ht : t ∈ spans) (h₀ : t.offset ≤ i)
    (h₁ : i < t.stop) : lookup spans i = t.get i := by
  induction spans with
  | nil => cases ht
  | cons s spans ih =>
    obtain ⟨hs, hgap, hrest⟩ := separated_cons.1 hsep
    rw [lookup_cons]
    rcases List.mem_cons.1 ht with rfl | ht
    · rw [Option.or_of_isSome (get_isSome_iff.2 ⟨h₀, h₁⟩)]
    · have := hgap t ht
      rw [get_eq_none_iff.2 (Or.inr (by omega)), Option.none_or, ih hrest ht]

theorem lookup_isSome_iff : (lookup spans i).isSome ↔ ∃ s ∈ spans, s.offset ≤ i ∧ i < s.stop := by
  unfold lookup
  rw [List.findSome?_isSome_iff]
  exact exists_congr fun s => and_congr_right fun _ => get_isSome_iff

theorem eq_or_gap_of_mem (hsep : Separated spans) (hs : s ∈ spans) (ht : t ∈ spans) :
    s = t ∨ s.stop < t.offset ∨ t.stop < s.offset := by
  have hgap := List.pairwise_iff_getElem.1 hsep.gap
  obtain ⟨j, hj, rfl⟩ := List.mem_iff_getElem.1 hs
  obtain ⟨k, hk, rfl⟩ := List.mem_iff_getElem.1 ht
  rcases lt_trichotomy j k with hlt | rfl | hlt
  · exact Or.inr (Or.inl (hgap j k hj hk hlt))
  · exact Or.inl rfl
  · exact Or.inr (Or.inr (hgap k j hk hj hlt))

/-- A range that is stored and has gaps at its ends is a span. -/
theorem exists_mem_of_exact (hsep : Separated spans) (hoe : o < e)
    (h : ∀ i, o ≤ i → i < e → (lookup spans i).isSome) (hfirst : lookup spans (o - 1) = none)
    (hlast : lookup spans e = none) : ∃ s ∈ spans, s.offset = o ∧ s.stop = e := by
  obtain ⟨s, hs, hle, hlt⟩ := lookup_isSome_iff.1 (h o le_rfl hoe)
  have hout : ∀ i, lookup spans i = none → ¬ (s.offset ≤ i ∧ i < s.stop) := by
    intro i hi hin
    simpa [hi] using lookup_isSome_iff.2 ⟨s, hs, hin⟩
  have h₀ := hout _ hfirst
  have h₁ := hout _ hlast
  refine ⟨s, hs, by omega, ?_⟩
  by_contra hne
  obtain ⟨t, ht, htle, htlt⟩ := lookup_isSome_iff.1 (h s.stop (by omega) (by omega))
  rcases eq_or_gap_of_mem hsep hs ht with rfl | hgap | hgap <;> omega

/-- What holds of the values at neighbouring positions holds along every span. -/
theorem isChain_of_lookup {r : α → α → Prop} (hsep : Separated spans) (ht : t ∈ spans)
    (h : ∀ i a b, lookup spans i = some a → lookup spans (i + 1) = some b → r a b) :
    t.values.IsChain r := by
  rw [List.isChain_iff_getElem]
  intro n hn
  have hstop : t.stop = t.offset + t.values.length := rfl
  have hget : ∀ m, (hm : m < t.values.length) →
      lookup spans (t.offset + m) = some t.values[m] := by
    intro m hm
    rw [lookup_of_mem hsep ht (by omega) (by omega), get, if_pos (by omega),
      show (t.offset + m - t.offset).toNat = m by omega, List.getElem?_eq_getElem hm]
  refine h (t.offset + n) _ _ (hget n (by omega)) ?_
  rw [add_assoc]
  exact_mod_cast hget (n + 1) hn

end Span

end Inet
