import Inet.Rip.Advances

/-! # Routes are invalidated once

A learned route that becomes unreachable should keep the time at which that
happened, be reported as changed once, and be usable again as soon as the
hold-down time is over. So it is in the runs in which no route is invalidated
again while it is unreachable.
-/

namespace Inet

namespace Rip

variable {A : Type} {c : Parameters} {s s' t : Rip A} {k n now : ℕ}

/-- How often triggered updates have reported a route on an interface. -/
def timesReported (k i : ℕ) (reports : List (Report A)) : ℕ :=
  (reports.filter fun report =>
    report.changedOnly ∧ report.interfaceId = i ∧ ∃ entry ∈ report.entries, entry.1 = k).length

/-- The learned route is in the table, and unreachable. -/
def IsInvalid (k : ℕ) (s : Rip A) : Prop := ∃ r ∈ s.ripRoutingTable, r.id = k ∧ r.Invalid

/-- In every run of allowed events, a learned route that becomes unreachable at some time and stays
so keeps that time as the one of its invalidation. It is reported as changed in at most one
triggered update per interface, and the response that offers a finite metric after the hold-down
time makes it reachable. -/
def InvalidatedOnce [DecidableEq A] (c : Parameters) (Allowed : Rip A → ℕ → Event A → Prop) :
    Prop :=
  ∀ (s t u : Rip A) (now k : ℕ) (e : Event A), Run c Allowed initial s →
    (∃ r ∈ s.ripRoutingTable, r.id = k ∧ r.type = .rte ∧ r.metric ≠ infiniteMetric) →
    s.Due now e → Allowed s now e → step c now e s = .ok t →
    Run c (fun s now e => Allowed s now e ∧ s.IsInvalid k) t u → u.IsInvalid k →
    (∀ r ∈ u.ripRoutingTable, r.id = k → r.lastInvalid = now) ∧
      (∀ i, timesReported k i (u.sent.drop s.sent.length) ≤ 1) ∧
      ∀ (time : ℕ) (srcAddr : A) (interfaceId : ℕ) (entry : RipEntry A)
        (incomingIe : RipNetworkInterface) (r : RipRoute A), now + c.holdDownTime ≤ time →
        u.findRipInterfaceById interfaceId = some incomingIe →
        u.findRipRoute entry.address entry.prefixLength = some r → r.id = k →
        entry.metricVia incomingIe < infiniteMetric →
        ∃ v, step c time (.responseEntry srcAddr interfaceId entry) u = .ok v ∧
          ∀ r' ∈ v.ripRoutingTable, r'.id = k → r'.metric < infiniteMetric

theorem length_le_one_of_nodup {α β : Type} {f : α → β} {b : β} {l : List α}
    (hl : (l.map f).Nodup) (hb : ∀ a ∈ l, f a = b) : l.length ≤ 1 := by
  match l with
  | [] => exact Nat.zero_le _
  | [_] => exact le_rfl
  | a₁ :: a₂ :: l =>
    rw [List.map_cons, List.nodup_cons, hb a₁ (by simp), ← hb a₂ (by simp)] at hl
    exact absurd (by simp) hl.1

theorem timesReported_append (k i : ℕ) (l l' : List (Report A)) :
    timesReported k i (l ++ l') = timesReported k i l + timesReported k i l' := by
  rw [timesReported, List.filter_append, List.length_append]
  rfl

theorem timesReported_le_one (k i : ℕ) {reports : List (Report A)}
    (h : ((reports.filter (·.changedOnly)).map (·.interfaceId)).Nodup) :
    timesReported k i reports ≤ 1 := by
  refine length_le_one_of_nodup (f := (·.interfaceId)) (b := i) ?_ fun report hreport => ?_
  · refine List.Sublist.nodup (List.Sublist.map _ ?_) h
    refine List.monotone_filter_right _ fun report hreport => ?_
    exact (of_decide_eq_true hreport).1
  · exact (of_decide_eq_true (List.mem_filter.1 hreport).2).2.1

theorem exists_of_timesReported_pos {i : ℕ} {reports : List (Report A)}
    (h : 0 < timesReported k i reports) :
    ∃ report ∈ reports, report.changedOnly = true ∧ ∃ entry ∈ report.entries, entry.1 = k := by
  obtain ⟨report, hreport⟩ := List.exists_mem_of_length_pos h
  obtain ⟨hmem, hp⟩ := List.mem_filter.1 hreport
  obtain ⟨hc, -, hentry⟩ := of_decide_eq_true hp
  exact ⟨report, hmem, hc, hentry⟩

/-- The route has been unreachable since then. A report about it is either sent or still to come. -/
structure InvalidSince (k n now : ℕ) (s : Rip A) : Prop where
  length_le : n ≤ s.sent.length
  lastInvalid : Holds k (fun r => r.lastInvalid = now) s
  reported : Holds k (fun r => ∀ i,
    timesReported k i (s.sent.drop n) + (if r.changed then 1 else 0) ≤ 1) s

theorem IsInvalid.lt_nextId (h : s.IsInvalid k) (hs : s.Consistent) : k < s.nextId := by
  obtain ⟨r, hr, rfl, -⟩ := h
  exact hs.lt_nextId r hr

theorem IsInvalid.holds (h : s.IsInvalid k) (hs : s.Consistent) : Holds k RipRoute.Invalid s := by
  obtain ⟨r, hr, rfl, hi⟩ := h
  intro r' hr' hid
  rwa [hs.owned.eq_of_id hr' hr hid]

theorem Advances.origin_of_lt (h : Advances now s t) (hk : k < s.nextId) {r' : RipRoute A}
    (hr' : r' ∈ t.ripRoutingTable) (hid : r'.id = k) :
    ∃ r ∈ s.ripRoutingTable, r.id = k ∧ Moves now r r' := by
  rcases h.origin r' hr' with ⟨r, hr, hid', hmoves⟩ | hle
  · exact ⟨r, hr, hid'.symm.trans hid, hmoves⟩
  · rw [hid] at hle
    exact absurd hk (Nat.not_lt_of_le hle)

theorem Advances.invalidSince (hs : s.Consistent) (h : Advances now s t) {r : RipRoute A}
    (hr : r ∈ s.ripRoutingTable) (hid : r.id = k) (hvalid : r.metric ≠ infiniteMetric)
    (ht : t.IsInvalid k) : InvalidSince k s.sent.length now t := by
  have hk : k < s.nextId := hid ▸ hs.lt_nextId r hr
  obtain ⟨reports, hsent, hnodup, htruthful⟩ := h.sent
  constructor
  · rw [hsent, List.length_append]
    exact Nat.le_add_right _ _
  · intro r' hr' hid'
    obtain ⟨r₀, hr₀, hid₀, hmoves⟩ := h.origin_of_lt hk hr' hid'
    obtain rfl := hs.owned.eq_of_id hr₀ hr (hid₀.trans hid.symm)
    exact hmoves.fresh hvalid (ht.holds h.consistent r' hr' hid').2
  · intro r' hr' hid' i
    rw [hsent, List.drop_left]
    rcases Nat.eq_zero_or_pos (timesReported k i reports) with hzero | hpos
    · rw [hzero]
      split_ifs <;> decide
    · obtain ⟨report, hreport, hc, entry, hentry, hentry'⟩ := exists_of_timesReported_pos hpos
      have hchanged := (htruthful report hreport hc entry hentry).2 r' hr'
        (hid'.trans hentry'.symm)
      simpa [hchanged] using timesReported_le_one k i hnodup

/-- An event while the route stays unreachable. -/
theorem InvalidSince.advances {time : ℕ} (hsince : InvalidSince k n now s) (hs : s.Consistent)
    (hi : s.IsInvalid k) (h : Advances time s t) (ht : t.IsInvalid k) :
    InvalidSince k n now t := by
  have hk := hi.lt_nextId hs
  obtain ⟨reports, hsent, hnodup, htruthful⟩ := h.sent
  constructor
  · rw [hsent, List.length_append]
    exact Nat.le_trans hsince.length_le (Nat.le_add_right _ _)
  · intro r' hr' hid'
    obtain ⟨r, hr, hid, hmoves⟩ := h.origin_of_lt hk hr' hid'
    have hkept := hmoves.kept (hi.holds hs r hr hid) (ht.holds h.consistent r' hr' hid').2
    exact hkept.1.trans (hsince.lastInvalid r hr hid)
  · intro r' hr' hid' i
    obtain ⟨r, hr, hid, hmoves⟩ := h.origin_of_lt hk hr' hid'
    have hkept := hmoves.kept (hi.holds hs r hr hid) (ht.holds h.consistent r' hr' hid').2
    have hreported := hsince.reported r hr hid i
    rw [hsent, List.drop_append_of_le_length hsince.length_le, timesReported_append]
    rcases Nat.eq_zero_or_pos (timesReported k i reports) with hzero | hpos
    · rw [hzero, Nat.add_zero]
      refine Nat.le_trans (Nat.add_le_add_left ?_ _) hreported
      by_cases hc' : r'.changed = true
      · rw [if_pos hc', if_pos (hkept.2 hc')]
      · rw [if_neg hc']
        exact Nat.zero_le _
    · obtain ⟨report, hreport, hc, entry, hentry, hentry'⟩ := exists_of_timesReported_pos hpos
      obtain ⟨hbefore, hafter⟩ := htruthful report hreport hc entry hentry
      have hchanged := hbefore r hr (hid.trans hentry'.symm) (hi.holds hs r hr hid)
      have hchanged' := hafter r' hr' (hid'.trans hentry'.symm)
      rw [if_pos hchanged] at hreported
      rw [hchanged', if_neg (by simp), Nat.add_zero]
      exact Nat.le_trans (Nat.add_le_add_left (timesReported_le_one k i hnodup) _) hreported

theorem consistent_initial : Consistent (initial : Rip A) :=
  ⟨List.nodup_nil, by simp [initial], List.nodup_nil, by simp [initial]⟩

variable [DecidableEq A]

theorem Run.consistent (h : Run c (Careful c) s t) (hs : s.Consistent) : t.Consistent := by
  induction h with
  | refl => exact hs
  | cons hdue hcareful hstep _ ih => exact ih (step_advances hs hdue hcareful hstep).consistent

theorem Run.invalidSince (h : Run c (fun s now e => Careful c s now e ∧ s.IsInvalid k) s t)
    (hs : s.Consistent) (hsince : s.IsInvalid k → InvalidSince k n now s) (ht : t.IsInvalid k) :
    t.Consistent ∧ InvalidSince k n now t := by
  induction h with
  | refl => exact ⟨hs, hsince ht⟩
  | cons hdue hallowed hstep _ ih =>
    have hadvances := step_advances hs hdue hallowed.1 hstep
    exact ih hadvances.consistent
      (fun hi => (hsince hallowed.2).advances hs hallowed.2 hadvances hi) ht

theorem invalidatedOnce_of_careful (c : Parameters) :
    InvalidatedOnce (A := A) c (Careful c) := by
  rintro s t u now k e hrun ⟨r, hr, hid, -, hvalid⟩ hdue hcareful hstep hstays hu
  have hs := hrun.consistent consistent_initial
  have hadvances := step_advances hs hdue hcareful hstep
  obtain ⟨hconsistent, hsince⟩ := hstays.invalidSince hadvances.consistent
    (fun ht => hadvances.invalidSince hs hr hid hvalid ht) hu
  refine ⟨hsince.lastInvalid, fun i => ?_, ?_⟩
  · obtain ⟨r', hr', hid', -⟩ := hu
    exact Nat.le_trans (Nat.le_add_right _ _) (hsince.reported r' hr' hid' i)
  · intro time srcAddr interfaceId entry incomingIe r' htime hie hfind hid' hmetric
    have hr' := of_findRipRoute hfind
    have hstart : Consistent { u with simTime := time } :=
      ⟨hconsistent.1, hconsistent.2, hconsistent.3, hconsistent.4⟩
    have hlate : r'.lastInvalid + c.holdDownTime ≤ time := by
      rwa [hsince.lastInvalid r' hr' hid']
    have hrevives : ∃ v,
        processEntry c srcAddr incomingIe entry { u with simTime := time } = .ok v ∧
        Holds r'.id (fun x => x.metric < infiniteMetric) v :=
      processEntry_revives hstart hfind (hu.holds hconsistent r' hr' hid') hmetric hlate
    obtain ⟨v, hv, hrevived⟩ := hrevives
    refine ⟨v, ?_, hid' ▸ hrevived⟩
    rw [step, handle]
    have hie' : findRipInterfaceById { u with simTime := time } interfaceId = some incomingIe := hie
    rw [hie']
    exact hv

section Examples

instance (s : Rip A) (now : ℕ) (e : Event A) : Decidable (s.Due now e) := by
  unfold Due
  cases e <;> infer_instance

instance (r : RipRoute A) : Decidable r.Invalid := inferInstanceAs (Decidable (_ ∧ _))

instance (c : Parameters) (s : Rip A) (now : ℕ) (e : Event A) : Decidable (Careful c s now e) := by
  unfold Careful
  have (r : RipRoute A) : Decidable (∀ ie, e = .interfaceDown ie → r.ie ≠ some ie) :=
    match e with
    | .interfaceDown ie => decidable_of_iff (r.ie ≠ some ie) (by simp)
    | .startup .. | .updateTimer | .triggeredUpdateTimer | .request .. | .responseEntry .. |
      .interfaceCreated .. | .interfaceDeleted .. | .interfaceUp .. | .routeDeleted .. |
      .routeAdded .. | .routeChanged .. | .stop | .crash => isTrue (by simp)
  infer_instance

instance (k : ℕ) (s : Rip A) : Decidable (s.IsInvalid k) :=
  inferInstanceAs (Decidable (∃ r ∈ s.ripRoutingTable, _ ∧ _))

/-- The state behind a run of events. -/
def play (c : Parameters) (allowed : Rip A → ℕ → Event A → Bool) :
    List (ℕ × Event A) → Rip A → Option (Rip A)
  | [], s => some s
  | (now, e) :: es, s =>
    if s.Due now e ∧ allowed s now e then
      match step c now e s with
      | .ok t => play c allowed es t
      | .error _ => none
    else none

theorem run_of_play {allowed : Rip A → ℕ → Event A → Bool} {Allowed : Rip A → ℕ → Event A → Prop}
    (hallowed : ∀ s now e, allowed s now e = true → Allowed s now e) {es : List (ℕ × Event A)}
    (h : play c allowed es s = some t) : Run c Allowed s t := by
  induction es generalizing s with
  | nil =>
    obtain rfl := Option.some.inj h
    exact .refl s
  | cons e es ih =>
    rw [play] at h
    split_ifs at h with hdue
    cases hstep : step c e.1 e.2 s with
    | error _ => simp [hstep] at h
    | ok u =>
      simp only [hstep] at h
      exact .cons hdue.1 (hallowed s e.1 e.2 hdue.2) hstep (ih h)

/-- The default parameters, in seconds. -/
def defaultParameters : Parameters where
  updateInterval := 30
  routeExpiryTime := 180
  routePurgeTime := 120
  holdDownTime := 0
  triggeredUpdate := true
  triggeredUpdateDelay := fun _ => 2

def lan : RipNetworkInterface where
  id := 1
  metric := 1
  mode := .splitHorizonPoisonReverse
  isUp := true
  metric_lt := by decide

/-- A neighbor offers a route, and is silent from then on. -/
def learnedRoute : List (ℕ × Event ℕ) :=
  [(0, .startup [lan] []), (0, .responseEntry 7 1 ⟨5, 24, none, 0, 1⟩), (2, .triggeredUpdateTimer),
    (30, .updateTimer), (60, .updateTimer), (90, .updateTimer), (120, .updateTimer),
    (150, .updateTimer)]

/-- The route expires at 180 s. The triggered update two seconds later invalidates it again. -/
theorem not_invalidatedOnce :
    ¬InvalidatedOnce (A := ℕ) defaultParameters fun _ _ _ => True := by
  intro h
  have hplay : ((play defaultParameters (fun _ _ _ => true) learnedRoute initial).any fun s =>
      decide (s.Due 180 .updateTimer ∧
        ∃ r ∈ s.ripRoutingTable, r.id = 1 ∧ r.type = .rte ∧ r.metric ≠ infiniteMetric) &&
      match step defaultParameters 180 .updateTimer s with
      | .ok t => (play defaultParameters (fun s _ _ => decide (s.IsInvalid 1))
          [(182, .triggeredUpdateTimer)] t).any fun u =>
            decide (u.IsInvalid 1 ∧ ∃ r ∈ u.ripRoutingTable, r.id = 1 ∧ r.lastInvalid ≠ 180)
      | .error _ => false) = true := by
    decide +kernel
  obtain ⟨s, hs, hplay⟩ := (Option.any_eq_true _ _).1 hplay
  obtain ⟨hbefore, hplay⟩ := Bool.and_eq_true_iff.1 hplay
  obtain ⟨hdue, hlearned⟩ := of_decide_eq_true hbefore
  cases hstep : step defaultParameters 180 .updateTimer s with
  | error _ => simp [hstep] at hplay
  | ok t =>
    simp only [hstep] at hplay
    obtain ⟨u, hu, hplay⟩ := (Option.any_eq_true _ _).1 hplay
    obtain ⟨hinvalid, r, hr, hid, hlate⟩ := of_decide_eq_true hplay
    refine hlate ((h s t u 180 1 .updateTimer (run_of_play (fun _ _ _ _ => trivial) hs) hlearned
      hdue trivial hstep (run_of_play ?_ hu) hinvalid).1 r hr hid)
    exact fun s _ _ hi => ⟨trivial, of_decide_eq_true hi⟩

/-- The default parameters, but for a hold-down time. -/
def holdDownParameters : Parameters :=
  { defaultParameters with holdDownTime := 20 }

/-- The neighbor poisons the route at 40 s, and offers it again at 70 s. -/
theorem invalidatedOnce_poisoned : ∃ u v : Rip ℕ, u.IsInvalid 1 ∧
    (∀ r ∈ u.ripRoutingTable, r.id = 1 → r.lastInvalid = 40) ∧
    step holdDownParameters 70 (.responseEntry 7 1 ⟨5, 24, none, 0, 1⟩) u = .ok v ∧
    ∀ r ∈ v.ripRoutingTable, r.id = 1 → r.metric < infiniteMetric := by
  have hplay :
    ((play holdDownParameters (fun s now e => decide (Careful holdDownParameters s now e))
      (learnedRoute.take 4) initial).any fun s =>
      decide (s.Due 40 (.responseEntry 7 1 ⟨5, 24, none, 0, 16⟩) ∧
        ∃ r ∈ s.ripRoutingTable, r.id = 1 ∧ r.type = .rte ∧ r.metric ≠ infiniteMetric) &&
      match step holdDownParameters 40 (.responseEntry 7 1 ⟨5, 24, none, 0, 16⟩) s with
      | .ok t => (play holdDownParameters
          (fun s now e => decide (Careful holdDownParameters s now e ∧ s.IsInvalid 1))
          [(42, .triggeredUpdateTimer), (60, .updateTimer)] t).any fun u =>
            decide (u.IsInvalid 1 ∧ (∃ i ∈ u.findRipInterfaceById 1, i.metric = 1) ∧
              ∃ r ∈ u.findRipRoute 5 24, r.id = 1)
      | .error _ => false) = true := by
    decide +kernel
  obtain ⟨s, hs, hplay⟩ := (Option.any_eq_true _ _).1 hplay
  obtain ⟨hbefore, hplay⟩ := Bool.and_eq_true_iff.1 hplay
  obtain ⟨hdue, hlearned⟩ := of_decide_eq_true hbefore
  cases hstep : step holdDownParameters 40 (.responseEntry 7 1 ⟨5, 24, none, 0, 16⟩) s with
  | error _ => simp [hstep] at hplay
  | ok t =>
    simp only [hstep] at hplay
    obtain ⟨u, hu, hplay⟩ := (Option.any_eq_true _ _).1 hplay
    obtain ⟨hinvalid, ⟨i, hi, hmetric⟩, r, hr, hid⟩ := of_decide_eq_true hplay
    obtain ⟨hlast, -, hrevives⟩ := invalidatedOnce_of_careful holdDownParameters s t u 40 1 _
      (run_of_play (fun _ _ _ h => of_decide_eq_true h) hs) hlearned hdue
      (fun r hr hi => ⟨fun ⟨_, hmem, _⟩ => absurd hmem List.not_mem_nil, by rintro _ ⟨⟩⟩) hstep
      (run_of_play (fun _ _ _ h => of_decide_eq_true h) hu) hinvalid
    obtain ⟨v, hv, hvalid⟩ := hrevives 70 7 1 ⟨5, 24, none, 0, 1⟩ i r (by decide) hi hr hid
      (by rw [RipEntry.metricVia, hmetric]; decide)
    exact ⟨u, v, hinvalid, hlast, hv, hvalid⟩

end Examples

end Rip

end Inet
