import Inet.Common.Topology
import Inet.Lib.ShortestPath
import Mathlib.Data.Finset.Card
import Mathlib.Data.List.Pairwise

/-! # Weighted shortest paths

A node that has been taken out of the queue is settled: no other node of the
queue is nearer, so no link improves it any more. Each link to a settled node is
relaxed when the turn of that node is over, and the first link of a node is the
one that attains its distance.
-/

namespace Inet.Topology

variable {N L K : Type}

section Queue

variable [LinearOrder K] {dist : N → WithTop K} {remote v : N} {d : WithTop K} {q : List N}

theorem mem_insertOrdered : v ∈ insertOrdered dist remote d q ↔ v = remote ∨ v ∈ q := by
  induction q with
  | nil => simp [insertOrdered]
  | cons u q ih =>
    unfold insertOrdered
    split_ifs
    · simp
    · simp [ih, or_left_comm]

theorem nodup_insertOrdered (h : q.Nodup) (hremote : remote ∉ q) :
    (insertOrdered dist remote d q).Nodup := by
  induction q with
  | nil => simp [insertOrdered]
  | cons u q ih =>
    obtain ⟨hu, hq⟩ := List.nodup_cons.1 h
    unfold insertOrdered
    split_ifs
    · exact List.nodup_cons.2 ⟨hremote, h⟩
    · rw [List.mem_cons, not_or] at hremote
      refine List.nodup_cons.2 ⟨?_, ih hq hremote.2⟩
      rw [mem_insertOrdered]
      rintro (heq | hmem)
      · exact hremote.1 heq.symm
      · exact hu hmem

theorem pairwise_insertOrdered (h : q.Pairwise fun u v => dist u ≤ dist v) (hd : dist remote = d) :
    (insertOrdered dist remote d q).Pairwise fun u v => dist u ≤ dist v := by
  induction q with
  | nil => simp [insertOrdered]
  | cons u q ih =>
    obtain ⟨hu, hq⟩ := List.pairwise_cons.1 h
    unfold insertOrdered
    split_ifs with hlt
    · refine List.pairwise_cons.2 ⟨fun v hv => ?_, h⟩
      rw [hd]
      rcases List.mem_cons.1 hv with rfl | hv
      · exact hlt.le
      · exact hlt.le.trans (hu v hv)
    · refine List.pairwise_cons.2 ⟨fun v hv => ?_, ih hq⟩
      rcases mem_insertOrdered.1 hv with rfl | hv
      · exact (not_lt.1 hlt).trans_eq hd.symm
      · exact hu v hv

end Queue

/-- The graph of the enabled links that come from enabled nodes. -/
def graph (t : Topology N L K) : WeightedGraph N L K where
  source := t.srcNode
  dest := t.destNode
  usable l := t.linkEnabled l = true ∧ t.enabled (t.srcNode l) = true
  edge := t.linkWeight
  node := t.weight

variable [DecidableEq N] [AddCommMonoid K]

theorem ite_add_weight (t : Topology N L K) (target current : N) (d : WithTop K) :
    (if current ≠ target then d + t.weight current else d) =
      d + t.graph.price target current := by
  by_cases h : current = target
  · rw [if_neg (not_not.2 h), h, WeightedGraph.price_target, add_zero]
  · rw [if_pos h, WeightedGraph.price_of_ne h]
    rfl

variable [LinearOrder K]

/-- The state of the search when the nodes of a set have been settled and some of the links are
still pending. -/
structure Searching (t : Topology N L K) (target : N) (settled : Finset N) (pending : List L)
    (s : Search N L K) : Prop where
  dist_target : s.dist target = 0
  nonneg : ∀ v, 0 ≤ s.dist v
  sorted : s.q.Pairwise fun u v => s.dist u ≤ s.dist v
  nodup : s.q.Nodup
  mem_q : ∀ v, v ∈ s.q ↔ s.dist v ≠ ⊤ ∧ v ∉ settled
  ne_top : ∀ u ∈ settled, s.dist u ≠ ⊤
  le : ∀ u ∈ settled, ∀ v ∈ s.q, s.dist u ≤ s.dist v
  attained : ∀ v ≠ target, s.dist v ≠ ⊤ → ∃ l, (s.outPaths v).head? = some l ∧ t.srcNode l = v ∧
    t.graph.usable l ∧ t.destNode l ∈ settled ∧
    s.dist v = s.dist (t.destNode l) + t.linkWeight l + t.graph.price target (t.destNode l)
  relaxed : ∀ l, t.graph.usable l → t.destNode l ∈ settled → l ∈ pending ∨
    s.dist (t.srcNode l) ≤
      s.dist (t.destNode l) + t.linkWeight l + t.graph.price target (t.destNode l)

variable {t : Topology N L K} {target current : N} {settled : Finset N} {pending : List L} {l : L}
  {s : Search N L K}

theorem searching_start : t.Searching target ∅ [] (start target) := by
  have hdist (v : N) (hv : v ≠ target) : (start (L := L) (K := K) target).dist v = ⊤ := by
    simp [start, hv]
  have htarget : (start (L := L) (K := K) target).dist target = 0 := by simp [start]
  constructor
  · exact htarget
  · intro v
    by_cases hv : v = target
    · rw [hv, htarget]
    · rw [hdist v hv]
      exact le_top
  · exact List.pairwise_singleton _ _
  · exact List.nodup_singleton _
  · intro v
    by_cases hv : v = target
    · simp [hv, start]
    · simp [hv, start]
  · simp
  · simp
  · intro v hv hne
    exact absurd (hdist v hv) hne
  · simp

theorem Searching.pop {q : List N} (h : t.Searching target settled [] s) (hq : s.q = current :: q) :
    t.Searching target (insert current settled) (t.inLinks current) { s with q := q } ∧
      current ∉ settled ∧ ∀ u ∈ insert current settled, s.dist u ≤ s.dist current := by
  have hsorted := h.sorted
  have hnodup := h.nodup
  have hmem := h.mem_q
  have hle := h.le
  rw [hq] at hsorted hnodup hmem hle
  obtain ⟨hfirst, hsorted⟩ := List.pairwise_cons.1 hsorted
  obtain ⟨hnew, hnodup⟩ := List.nodup_cons.1 hnodup
  obtain ⟨hcurrent, hunsettled⟩ := (hmem current).1 List.mem_cons_self
  refine ⟨⟨h.dist_target, h.nonneg, hsorted, hnodup, fun v => ?_, fun u hu => ?_,
    fun u hu v hv => ?_, fun v hv hne => ?_, fun l husable hdest => ?_⟩, hunsettled,
    fun u hu => ?_⟩
  · have hv := hmem v
    rw [List.mem_cons] at hv
    rw [Finset.mem_insert, not_or]
    constructor
    · intro hvq
      obtain ⟨hne, hsettled⟩ := hv.1 (.inr hvq)
      exact ⟨hne, fun heq => hnew (heq ▸ hvq), hsettled⟩
    · rintro ⟨hne, hother, hsettled⟩
      exact (hv.2 ⟨hne, hsettled⟩).resolve_left hother
  · rcases Finset.mem_insert.1 hu with rfl | hu
    · exact hcurrent
    · exact h.ne_top u hu
  · rcases Finset.mem_insert.1 hu with rfl | hu
    · exact hfirst v hv
    · exact hle u hu v (List.mem_cons_of_mem _ hv)
  · obtain ⟨l, hhead, hsrc, husable, hdest, heq⟩ := h.attained v hv hne
    exact ⟨l, hhead, hsrc, husable, Finset.mem_insert_of_mem hdest, heq⟩
  · rcases Finset.mem_insert.1 hdest with hdest | hdest
    · exact .inl ((t.mem_inLinks l current).2 hdest)
    · exact .inr ((h.relaxed l husable hdest).resolve_left (List.not_mem_nil))
  · rcases Finset.mem_insert.1 hu with rfl | hu
    · exact le_rfl
    · exact hle u hu current List.mem_cons_self

theorem Searching.keep (h : t.Searching target settled (l :: pending) s)
    (hle : t.graph.usable l → s.dist (t.srcNode l) ≤
      s.dist (t.destNode l) + t.linkWeight l + t.graph.price target (t.destNode l))
    {outPaths : N → List L}
    (hhead : ∀ v l, (s.outPaths v).head? = some l → (outPaths v).head? = some l) :
    t.Searching target settled pending { s with outPaths := outPaths } := by
  refine { h with attained := fun v hv hne => ?_, relaxed := fun l' husable hdest => ?_ }
  · obtain ⟨l, hl, hrest⟩ := h.attained v hv hne
    exact ⟨l, hhead v l hl, hrest⟩
  · rcases h.relaxed l' husable hdest with hmem | hrelaxed
    · rcases List.mem_cons.1 hmem with rfl | hmem
      · exact .inr (hle husable)
      · exact .inl hmem
    · exact .inr hrelaxed

theorem Searching.improve (h : t.Searching target settled (l :: pending) s)
    (husable : t.graph.usable l) (hdest : t.destNode l ∈ settled)
    (hremote : t.srcNode l ∉ settled) (hne : t.srcNode l ≠ target) {d : WithTop K}
    (hd : d = s.dist (t.destNode l) + t.linkWeight l + t.graph.price target (t.destNode l))
    (htop : d ≠ ⊤) (hlt : d < s.dist (t.srcNode l)) (hlower : ∀ u ∈ settled, s.dist u ≤ d)
    {paths : List L} :
    t.Searching target settled pending
      { dist := Function.update s.dist (t.srcNode l) d
        outPaths := Function.update s.outPaths (t.srcNode l) (l :: paths)
        q := insertOrdered (Function.update s.dist (t.srcNode l) d) (t.srcNode l) d
          (s.q.filter (· ≠ t.srcNode l)) } := by
  have hself : Function.update s.dist (t.srcNode l) d (t.srcNode l) = d := Function.update_self ..
  have hother (v : N) (hv : v ≠ t.srcNode l) :
    Function.update s.dist (t.srcNode l) d v = s.dist v :=
    Function.update_of_ne hv ..
  have hsettled (u : N) (hu : u ∈ settled) : Function.update s.dist (t.srcNode l) d u = s.dist u :=
    hother u fun heq => hremote (heq ▸ hu)
  have hdecreases (v : N) : Function.update s.dist (t.srcNode l) d v ≤ s.dist v := by
    by_cases hv : v = t.srcNode l
    · rw [hv, hself]
      exact hlt.le
    · rw [hother v hv]
  have hfilter (v : N) : v ∈ s.q.filter (· ≠ t.srcNode l) ↔ v ∈ s.q ∧ v ≠ t.srcNode l := by
    simp
  constructor <;> dsimp only
  · rw [hother target hne.symm, h.dist_target]
  · intro v
    by_cases hv : v = t.srcNode l
    · rw [hv, hself]
      exact (h.nonneg _).trans (hlower _ hdest)
    · rw [hother v hv]
      exact h.nonneg v
  · apply pairwise_insertOrdered _ hself
    apply (h.sorted.filter _).imp_of_mem
    intro u v hu hv hle
    rw [hother u ((hfilter u).1 hu).2, hother v ((hfilter v).1 hv).2]
    exact hle
  · exact nodup_insertOrdered (h.nodup.filter _) (by simp)
  · intro v
    rw [mem_insertOrdered, hfilter, h.mem_q]
    by_cases hv : v = t.srcNode l
    · subst hv
      simp [htop, hremote]
    · simp [hv]
  · intro u hu
    rw [hsettled u hu]
    exact h.ne_top u hu
  · intro u hu v hv
    rw [hsettled u hu]
    rcases mem_insertOrdered.1 hv with rfl | hv
    · rw [hself]
      exact hlower u hu
    · rw [hfilter] at hv
      rw [hother v hv.2]
      exact h.le u hu v hv.1
  · intro v hv hvtop
    by_cases heq : v = t.srcNode l
    · subst heq
      refine ⟨l, by rw [Function.update_self]; rfl, rfl, husable, hdest, ?_⟩
      rw [hself, hsettled _ hdest, hd]
    · rw [hother v heq] at hvtop
      obtain ⟨l', hl', hsrc, husable', hdest', hdist⟩ := h.attained v hv hvtop
      refine ⟨l', ?_, hsrc, husable', hdest', ?_⟩
      · rw [Function.update_of_ne heq, hl']
      · rw [hother v heq, hsettled _ hdest', hdist]
  · intro l' husable' hdest'
    rw [hsettled _ hdest']
    rcases h.relaxed l' husable' hdest' with hmem | hrelaxed
    · rcases List.mem_cons.1 hmem with rfl | hmem
      · rw [hself, hd]
        exact .inr le_rfl
      · exact .inl hmem
    · exact .inr ((hdecreases _).trans hrelaxed)

theorem Searching.relaxed_of_nil (h : t.Searching target settled [] s) (hq : s.q = []) :
    t.graph.Relaxed target s.dist := by
  intro l husable
  by_cases htop : s.dist (t.destNode l) = ⊤
  · refine le_of_le_of_eq le_top ?_
    change _ = s.dist (t.destNode l) + _ + _
    rw [htop, WithTop.top_add, WithTop.top_add]
  · have hsettled : t.destNode l ∈ settled := by
      by_contra hnot
      have hmem := (h.mem_q _).2 ⟨htop, hnot⟩
      rw [hq] at hmem
      cases hmem
    exact (h.relaxed l husable hsettled).resolve_left List.not_mem_nil

theorem Searching.attained_of_nil (h : t.Searching target settled [] s) :
    t.graph.Attained target s.dist fun v => (s.outPaths v).head? := by
  intro v hv hne
  obtain ⟨l, hhead, hsrc, husable, -, heq⟩ := h.attained v hv hne
  exact ⟨l, hhead, hsrc, husable, heq⟩

section Visits

variable [DecidableEq L] [IsOrderedCancelAddMonoid K]

theorem Searching.visitLink (hpos : t.graph.Positive)
    (h : t.Searching target settled (l :: pending) s) (hdest : t.destNode l = current)
    (hcurrent : current ∈ settled) (hlast : ∀ u ∈ settled, s.dist u ≤ s.dist current) :
    ∃ s', t.visitLink target true current s l = .ok s' ∧ t.Searching target settled pending s' ∧
      ∀ u ∈ settled, s'.dist u = s.dist u := by
  unfold Topology.visitLink
  have hskip (hnot : ¬ t.graph.usable l) : t.Searching target settled pending s :=
    h.keep (fun husable => absurd husable hnot) fun _ _ hhead => hhead
  by_cases hlink : t.linkEnabled l = false
  · rw [if_pos hlink]
    exact ⟨s, rfl, hskip fun husable => Bool.false_ne_true (hlink.symm.trans husable.1),
      fun _ _ => rfl⟩
  rw [if_neg hlink]
  simp only [if_true]
  by_cases hnode : t.enabled (t.srcNode l) = false
  · rw [if_pos hnode]
    exact ⟨s, rfl, hskip fun husable => Bool.false_ne_true (hnode.symm.trans husable.2),
      fun _ _ => rfl⟩
  have husable : t.graph.usable l :=
    ⟨Bool.eq_true_of_not_eq_false hlink, Bool.eq_true_of_not_eq_false hnode⟩
  have hweight : t.linkWeight l > 0 := hpos.edge_pos l
  rw [if_neg hnode, Error.assert_of_pos hweight, Error.ok_bind, ite_add_weight]
  subst hdest
  set d := s.dist (t.destNode l) + t.linkWeight l + t.graph.price target (t.destNode l) with hd
  have hgreater : s.dist (t.destNode l) < d := hpos.lt_add (h.ne_top _ hcurrent)
  by_cases hbetter : d ≠ ⊤ ∧ s.dist (t.srcNode l) > d
  · rw [if_pos hbetter]
    have hremote : t.srcNode l ∉ settled := fun hmem =>
      absurd ((hlast _ hmem).trans_lt hgreater) hbetter.2.not_gt
    have hne : t.srcNode l ≠ target := by
      intro heq
      have hlt := hbetter.2
      rw [heq, h.dist_target] at hlt
      exact absurd ((h.nonneg _).trans_lt hgreater) hlt.not_gt
    have hq : (if s.dist (t.srcNode l) ≠ ⊤ then s.q.filter (· ≠ t.srcNode l) else s.q) =
        s.q.filter (· ≠ t.srcNode l) := by
      split_ifs with htop
      · rfl
      · rw [eq_comm, List.filter_eq_self]
        intro v hv
        have hne : v ≠ t.srcNode l := by
          rintro rfl
          exact htop ((h.mem_q _).1 hv).1
        simpa using hne
    rw [hq]
    refine ⟨_, rfl, h.improve husable hcurrent hremote hne hd hbetter.1 hbetter.2
      fun u hu => (hlast u hu).trans hgreater.le, fun u hu => ?_⟩
    apply Function.update_of_ne
    rintro rfl
    exact hremote hu
  · rw [if_neg hbetter]
    have hle : s.dist (t.srcNode l) ≤ d := by
      by_cases htop : d = ⊤
      · rw [htop]
        exact le_top
      · exact not_lt.1 fun hlt => hbetter ⟨htop, hlt⟩
    by_cases hmem : l ∉ s.outPaths (t.srcNode l)
    · rw [if_pos hmem]
      refine ⟨_, rfl, h.keep (fun _ => hle) fun v first hfirst => ?_, fun _ _ => rfl⟩
      by_cases hv : v = t.srcNode l
      · subst hv
        rw [Function.update_self, List.head?_append, hfirst]
        rfl
      · rw [Function.update_of_ne hv, hfirst]
    · rw [if_neg hmem]
      exact ⟨s, rfl, h.keep (fun _ => hle) fun _ _ hhead => hhead, fun _ _ => rfl⟩

theorem Searching.visitLinks (hpos : t.graph.Positive)
    (h : t.Searching target settled pending s) (hdest : ∀ l ∈ pending, t.destNode l = current)
    (hcurrent : current ∈ settled) (hlast : ∀ u ∈ settled, s.dist u ≤ s.dist current) :
    ∃ s', pending.foldlM (t.visitLink target true current) s = .ok s' ∧
      t.Searching target settled [] s' := by
  induction pending generalizing s with
  | nil => exact ⟨s, rfl, h⟩
  | cons l pending ih =>
    obtain ⟨s₁, hrun, h₁, hkeeps⟩ :=
      h.visitLink hpos (hdest l List.mem_cons_self) hcurrent hlast
    have hlast₁ (u : N) (hu : u ∈ settled) : s₁.dist u ≤ s₁.dist current := by
      rw [hkeeps u hu, hkeeps current hcurrent]
      exact hlast u hu
    obtain ⟨s', hrest, h'⟩ := ih h₁ (fun l hl => hdest l (List.mem_cons_of_mem _ hl)) hlast₁
    refine ⟨s', ?_, h'⟩
    rw [List.foldlM_cons, hrun, Error.ok_bind, hrest]

theorem Searching.visitNodes (hpos : t.graph.Positive) {rounds : ℕ}
    (h : t.Searching target settled [] s)
    (hrounds : t.nodes.toFinset.card < settled.card + rounds) :
    ∃ s' settled', t.visitNodes target true rounds s = .ok (some s') ∧ s'.q = [] ∧
      t.Searching target settled' [] s' := by
  induction rounds generalizing s settled with
  | zero =>
    have hsub : settled ⊆ t.nodes.toFinset := fun v _ => List.mem_toFinset.2 (t.mem_nodes v)
    exact absurd (Finset.card_le_card hsub) hrounds.not_ge
  | succ rounds ih =>
    cases hq : s.q with
    | nil =>
      refine ⟨s, settled, ?_, hq, h⟩
      simp only [Topology.visitNodes, hq, Error.pure_eq_ok]
    | cons current q =>
      obtain ⟨hpop, hnew, hlast⟩ := h.pop hq
      obtain ⟨s₁, hlinks, h₁⟩ := hpop.visitLinks hpos (fun l hl => (t.mem_inLinks l current).1 hl)
        (Finset.mem_insert_self ..) hlast
      have hcard : t.nodes.toFinset.card < (insert current settled).card + rounds := by
        rw [Finset.card_insert_of_notMem hnew]
        omega
      obtain ⟨s', settled', hrun, hempty, h'⟩ := ih h₁ hcard
      refine ⟨s', settled', ?_, hempty, h'⟩
      have hweight : t.weight current ≥ 0 := hpos.node_nonneg current
      simp only [Topology.visitNodes, hq, if_true]
      rw [Error.assert_of_pos hweight, Error.ok_bind, hlinks, Error.ok_bind, hrun]

end Visits

end Inet.Topology
