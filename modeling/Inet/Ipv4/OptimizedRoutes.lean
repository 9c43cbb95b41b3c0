import Inet.Ipv4.MergeAttempts

/-! # The checks of the route optimizer

The lookups of the optimizer begin with the first route of the table, whatever
the beginning they are given. The loop returns if these find no route before
that in any of its attempts.
-/

namespace Inet.Ipv4NetworkConfigurator

open Ipv4

variable {T T' : List RouteInfo} {I J X Y : RouteInfo} {o p : OriginalRouteInfo}
  {Q : OriginalRouteInfo → Prop} {os : List OriginalRouteInfo} {i j rounds : ℕ} {merged : Bool}
  {pairs : List (ℕ × ℕ)}

section Loop

theorem Valid.of_tryPairs_eq_ok (h : Valid Q os T) (hpairs : ∀ pair ∈ pairs, pair.2 < pair.1)
    (hok : tryPairs T pairs = .ok (merged, T')) :
    if merged then Valid Q os T' ∧ T'.length + 1 = T.length else T' = T := by
  induction pairs with
  | nil =>
    obtain ⟨rfl, rfl⟩ := Prod.mk.inj (Except.ok.inj hok)
    rw [if_neg Bool.false_ne_true]
  | cons pair pairs ih =>
    obtain ⟨i, j⟩ := pair
    rw [List.forall_mem_cons] at hpairs
    unfold tryPairs at hok
    cases hI : T[i]? with
    | none =>
      rw [hI] at hok
      cases hok
    | some I =>
      cases hJ : T[j]? with
      | none =>
        rw [hI, hJ] at hok
        cases hok
      | some J =>
        rw [hI, hJ] at hok
        dsimp only at hok
        split_ifs at hok with hcolor
        · obtain ⟨⟨merged', T''⟩, htry, hok⟩ := Error.exists_of_bind_eq_ok hok
          have hattempt := h.of_tryToMergeTwoRoutes_eq_ok hI hJ hpairs.1 htry
          dsimp only at hok
          cases merged' with
          | true =>
            obtain ⟨rfl, rfl⟩ := Prod.mk.inj (Except.ok.inj hok)
            exact hattempt
          | false =>
            rw [if_neg Bool.false_ne_true] at hattempt hok
            rw [hattempt] at hok
            exact ih hpairs.2 hok
        · exact ih hpairs.2 hok

/-- The attempts that the loops of `tryToMergeAnyTwoRoutes` make. -/
def pairAttempts (routeInfos : List RouteInfo) : List (ℕ × ℕ) → List Attempt
  | [] => []
  | (i, j) :: pairs =>
    match routeInfos[i]?, routeInfos[j]? with
    | some routeInfoI, some routeInfoJ =>
      if routeInfoI.color = routeInfoJ.color ∧ routesCanBeNeighbors routeInfos i j then
        ⟨routeInfos, i, j, routeInfoI, routeInfoJ⟩ ::
          match tryToMergeTwoRoutes routeInfos i j routeInfoI routeInfoJ with
          | .ok (false, routeInfos) => pairAttempts routeInfos pairs
          | _ => []
      else pairAttempts routeInfos pairs
    | _, _ => []

/-- The attempts of the optimizer loop. -/
def loopAttempts : ℕ → List RouteInfo → List Attempt
  | 0, _ => []
  | rounds + 1, routeInfos =>
    pairAttempts routeInfos (indexPairs routeInfos.length) ++
      match tryToMergeAnyTwoRoutes routeInfos with
      | .ok (true, routeInfos) => loopAttempts rounds routeInfos
      | _ => []

theorem exists_tryPairs_eq_ok (h : Valid Q os T)
    (hpairs : ∀ pair ∈ pairs, pair.2 < pair.1 ∧ pair.1 < T.length)
    (hstays : ∀ attempt ∈ pairAttempts T pairs, attempt.StaysBehind) :
    ∃ r, tryPairs T pairs = .ok r := by
  induction pairs with
  | nil => exact ⟨_, rfl⟩
  | cons pair pairs ih =>
    obtain ⟨i, j⟩ := pair
    rw [List.forall_mem_cons] at hpairs
    obtain ⟨⟨hlt, hi⟩, hpairs⟩ := hpairs
    have hI : T[i]? = some T[i] := List.getElem?_eq_getElem hi
    have hJ : T[j]? = some T[j] := List.getElem?_eq_getElem (lt_trans hlt hi)
    unfold pairAttempts at hstays
    unfold tryPairs
    rw [hI, hJ] at hstays ⊢
    dsimp only at hstays ⊢
    split_ifs at hstays ⊢ with hcolor
    · rw [List.forall_mem_cons] at hstays
      obtain ⟨merged, T', htry⟩ :=
        exists_tryToMergeTwoRoutes_eq_ok h hI hJ hlt hcolor.1 hstays.1
      have hattempt := h.of_tryToMergeTwoRoutes_eq_ok hI hJ hlt htry
      rw [htry] at hstays ⊢
      rw [Error.ok_bind]
      cases merged with
      | true => exact ⟨_, rfl⟩
      | false =>
        rw [if_neg Bool.false_ne_true] at hattempt
        rw [hattempt] at hstays ⊢
        exact ih hpairs hstays.2
    · exact ih hpairs hstays

theorem mem_indexPairs {size : ℕ} {pair : ℕ × ℕ} (h : pair ∈ indexPairs size) :
    pair.2 < pair.1 ∧ pair.1 < size := by
  unfold indexPairs at h
  simp only [List.mem_flatMap, List.mem_map, List.mem_reverse, List.mem_range] at h
  obtain ⟨i, hi, j, hj, rfl⟩ := h
  exact ⟨hj, hi⟩

theorem Valid.of_mergeLoop_eq_ok (h : Valid Q os T) (hok : mergeLoop rounds T = .ok (some T')) :
    Valid Q os T' := by
  induction rounds generalizing T with
  | zero => cases hok
  | succ rounds ih =>
    obtain ⟨⟨merged, T''⟩, htry, hok⟩ := Error.exists_of_bind_eq_ok hok
    have hround := h.of_tryPairs_eq_ok (fun pair hpair => (mem_indexPairs hpair).1) htry
    dsimp only at hok
    cases merged with
    | true => exact ih hround.1 hok
    | false =>
      rw [if_neg Bool.false_ne_true] at hround hok
      obtain rfl := Option.some.inj (Except.ok.inj hok)
      rwa [hround]

/-- Every round but the last removes a route. -/
theorem exists_mergeLoop_eq_ok (h : Valid Q os T) (hrounds : T.length < rounds)
    (hstays : ∀ attempt ∈ loopAttempts rounds T, attempt.StaysBehind) :
    ∃ T', mergeLoop rounds T = .ok (some T') := by
  induction rounds generalizing T with
  | zero => cases hrounds
  | succ rounds ih =>
    unfold loopAttempts tryToMergeAnyTwoRoutes at hstays
    rw [List.forall_mem_append] at hstays
    obtain ⟨⟨merged, T''⟩, htry⟩ :=
      exists_tryPairs_eq_ok h (fun pair hpair => mem_indexPairs hpair) hstays.1
    have hround := h.of_tryPairs_eq_ok (fun pair hpair => (mem_indexPairs hpair).1) htry
    unfold mergeLoop tryToMergeAnyTwoRoutes
    rw [htry] at hstays ⊢
    rw [Error.ok_bind]
    cases merged with
    | true =>
      rw [if_pos rfl] at hround
      exact ih hround.1 (by omega) hstays.2
    | false => exact ⟨_, rfl⟩

end Loop

section Initial

/-- A netmask of ones before zeros. -/
def Contiguous (netmask : Ipv4Address) : Prop :=
  ∃ length ≤ 32, netmask = BitVec.allOnes 32 <<< (32 - length)

theorem Contiguous.exists_getLsbD {netmask : Ipv4Address} (h : Contiguous netmask) :
    ∃ s ≤ 32, ∀ k, netmask.getLsbD k = (decide (s ≤ k) && decide (k < 32)) := by
  obtain ⟨length, hlength, rfl⟩ := h
  refine ⟨32 - length, by omega, fun k => ?_⟩
  rw [BitVec.getLsbD_shiftLeft, BitVec.getLsbD_allOnes]
  by_cases hk : k < 32
  · by_cases hs : 32 - length ≤ k
    · simp [hk, hs, not_lt.2 hs]
      omega
    · simp [hk, hs, not_le.1 hs]
  · simp [hk]

theorem getLsbD_of_le {m₁ m₂ : Ipv4Address} (h₁ : Contiguous m₁) (h₂ : Contiguous m₂)
    (hle : m₁.toNat ≤ m₂.toNat) {k : ℕ} (hk : m₁.getLsbD k = true) : m₂.getLsbD k = true := by
  obtain ⟨s₁, -, hs₁⟩ := h₁.exists_getLsbD
  obtain ⟨s₂, -, hs₂⟩ := h₂.exists_getLsbD
  by_contra hnot
  rw [hs₁, Bool.and_eq_true, decide_eq_true_eq, decide_eq_true_eq] at hk
  rw [hs₂, Bool.and_eq_true, decide_eq_true_eq, decide_eq_true_eq] at hnot
  -- then the second netmask has bits of the first one only, and lacks one
  have hand : m₂ &&& m₁ = m₂ := by
    apply BitVec.eq_of_getLsbD_eq
    intro l hl
    rw [BitVec.getLsbD_and, hs₁, hs₂]
    by_cases hl₂ : s₂ ≤ l
    · have hl₁ : s₁ ≤ l := by omega
      simp [hl₁, hl₂]
    · simp [hl₂]
  have hle' : m₂.toNat ≤ m₁.toNat := by
    rw [← hand, BitVec.toNat_and]
    exact Nat.and_le_right
  have heq : m₁ = m₂ := BitVec.eq_of_toNat_eq (le_antisymm hle hle')
  have hbit := congrArg (fun v => v.getLsbD k) heq
  simp only [hs₁, hs₂] at hbit
  simp [hk.1, hk.2] at hbit
  omega

/-- A well-formed original route. -/
structure OriginalRouteInfo.Ok (this : OriginalRouteInfo) : Prop where
  contiguous : Contiguous this.netmask
  noHostBits : this.destination &&& this.netmask = this.destination

variable {f : OriginalRouteInfo → List OriginalRouteInfo}

theorem destination_eq_of_le (hp : p.Ok) (ho : o.Ok)
    (hmask : o.netmask.toNat ≤ p.netmask.toNat)
    (hmatch : (p.toRouteInfo (f p)).isMatching o.destination = true) :
    p.destination = o.destination := by
  obtain ⟨-, hbits⟩ := isMatching_iff.1 hmatch
  change ∀ k, p.netmask.getLsbD k = true →
    o.destination.getLsbD k = p.destination.getLsbD k at hbits
  apply BitVec.eq_of_getLsbD_eq
  intro k _
  cases hk : p.netmask.getLsbD k with
  | true => exact (hbits k hk).symm
  | false =>
    have hpk : p.destination.getLsbD k = false := by
      rw [← hp.noHostBits, BitVec.getLsbD_and, hk, Bool.and_false]
    have hok : o.netmask.getLsbD k = false := by
      by_contra hne
      rw [getLsbD_of_le ho.contiguous hp.contiguous hmask (by simpa using hne)] at hk
      cases hk
    rw [hpk, ← ho.noHostBits, BitVec.getLsbD_and, hok, Bool.and_false]

theorem destination_eq_of_isMatching (hp : p.Ok) (ho : o.Ok)
    (hle : key (p.toRouteInfo (f p)) ≤ key (o.toRouteInfo (f o)))
    (hmatch : (p.toRouteInfo (f p)).isMatching o.destination = true) :
    p.destination = o.destination ∧ o.netmask.toNat ≤ p.netmask.toNat := by
  have hlt₁ := o.netmask.isLt
  have hlt₂ := o.destination.isLt
  have hlt₃ := p.netmask.isLt
  have hmask : o.netmask.toNat ≤ p.netmask.toNat := by
    unfold key OriginalRouteInfo.toRouteInfo at hle
    dsimp only at hle
    omega
  exact ⟨destination_eq_of_le hp ho hmask hmatch, hmask⟩

theorem exists_addRouteInfo_eq_append (hsorted : (T.map key).Pairwise (· ≤ ·)) (X : RouteInfo) :
    ∃ l r, T = l ++ r ∧ (addRouteInfo T X).2 = l ++ X :: r ∧
      ((addRouteInfo T X).2.map key).Pairwise (· ≤ ·) := by
  obtain ⟨l, r, rfl, hl, hr⟩ := exists_split (fun other => routeInfoLessThan X other) T
  have hadd : (addRouteInfo (l ++ r) X).2 = l ++ X :: r := by
    unfold addRouteInfo upperBound
    rw [findIdx_append_eq hl hr]
    exact insertIdx_length_append l r X
  refine ⟨l, r, rfl, hadd, ?_⟩
  have hle : ∀ Y ∈ l, key Y ≤ key X := by
    intro Y hY
    have hnot := hl Y hY
    rw [← Bool.not_eq_true, routeInfoLessThan_iff] at hnot
    omega
  have hge : ∀ Y ∈ r, key X ≤ key Y := by
    intro Y hY
    cases r with
    | nil => cases hY
    | cons Z r =>
      have hlt := routeInfoLessThan_iff.1 (hr Z rfl)
      rw [List.map_append, List.map_cons, List.pairwise_append, List.pairwise_cons] at hsorted
      rcases List.mem_cons.1 hY with rfl | hY
      · exact hlt.le
      · exact hlt.le.trans (hsorted.2.1.1 _ (List.mem_map_of_mem hY))
  rw [hadd, List.map_append, List.map_cons, List.pairwise_append, List.pairwise_cons]
  rw [List.map_append, List.pairwise_append] at hsorted
  refine ⟨hsorted.1, ⟨fun k hk => ?_, hsorted.2.1⟩, fun k hk l' hl' => ?_⟩
  · obtain ⟨Y, hY, rfl⟩ := List.mem_map.1 hk
    exact hge Y hY
  · rcases List.mem_cons.1 hl' with rfl | hl'
    · obtain ⟨Y, hY, rfl⟩ := List.mem_map.1 hk
      exact hle Y hY
    · exact hsorted.2.2 k hk l' hl'

theorem initialTable_spec (os : List OriginalRouteInfo)
    (attach : OriginalRouteInfo → List OriginalRouteInfo) :
    (initialTable os attach).Perm (os.map fun o => o.toRouteInfo (attach o)) ∧
      ((initialTable os attach).map key).Pairwise (· ≤ ·) := by
  suffices h : ∀ T : List RouteInfo, (T.map key).Pairwise (· ≤ ·) →
      (os.foldl (fun T o => (addRouteInfo T (o.toRouteInfo (attach o))).2) T).Perm
        (T ++ os.map fun o => o.toRouteInfo (attach o)) ∧
      ((os.foldl (fun T o => (addRouteInfo T (o.toRouteInfo (attach o))).2) T).map key).Pairwise
        (· ≤ ·) from h [] List.Pairwise.nil
  induction os with
  | nil =>
    intro T hT
    exact ⟨by simp, hT⟩
  | cons o os ih =>
    intro T hT
    obtain ⟨l, r, rfl, hadd, hsorted⟩ := exists_addRouteInfo_eq_append hT (o.toRouteInfo (attach o))
    obtain ⟨hperm, hsorted'⟩ := ih _ hsorted
    refine ⟨hperm.trans ?_, hsorted'⟩
    rw [hadd, List.map_cons]
    refine List.Perm.trans (List.Perm.append_right _ List.perm_middle) ?_
    exact List.perm_middle.symm

theorem exists_of_mem_initialTable (h : X ∈ initialTable os f) :
    ∃ o ∈ os, X = o.toRouteInfo (f o) := by
  obtain ⟨o, ho, rfl⟩ := List.mem_map.1 ((initialTable_spec os f).1.mem_iff.1 h)
  exact ⟨o, ho, rfl⟩

/-- No original route with the same destination has a longer prefix. -/
def Leads (os : List OriginalRouteInfo) (o : OriginalRouteInfo) : Prop :=
  ∀ p ∈ os, p.destination = o.destination → p.netmask.toNat ≤ o.netmask.toNat

/-- Original routes as the optimizer expects them. -/
structure WellFormed (os : List OriginalRouteInfo) : Prop where
  ok : ∀ o ∈ os, o.Ok
  nodup : (os.map fun o => (o.destination, o.netmask)).Nodup

theorem exists_leads (n : ℕ) {o : OriginalRouteInfo} (ho : o ∈ os)
    (hn : 2 ^ 32 - o.netmask.toNat ≤ n) :
    ∃ l ∈ os, l.destination = o.destination ∧ Leads os l := by
  induction n generalizing o with
  | zero =>
    have := o.netmask.isLt
    omega
  | succ n ih =>
    by_cases hleads : Leads os o
    · exact ⟨o, ho, rfl, hleads⟩
    · unfold Leads at hleads
      push Not at hleads
      obtain ⟨p, hp, hdest, hlt⟩ := hleads
      have hisLt := p.netmask.isLt
      obtain ⟨l, hl, hl', hleads⟩ := ih hp (by omega)
      exact ⟨l, hl, hl'.trans hdest, hleads⟩

theorem WellFormed.eq_of_leads (h : WellFormed os) (hp : p ∈ os) (ho : o ∈ os)
    (hleads : Leads os o) (hdest : p.destination = o.destination)
    (hle : o.netmask.toNat ≤ p.netmask.toNat) : p = o := by
  have hmask : p.netmask = o.netmask :=
    BitVec.eq_of_toNat_eq (le_antisymm (hleads p hp hdest) hle)
  exact List.inj_on_of_nodup_map h.nodup hp ho (Prod.ext hdest hmask)

theorem isMatching_toRouteInfo : (o.toRouteInfo (f o)).isMatching o.destination = true :=
  isMatching_iff.2 ⟨rfl, fun _ _ => rfl⟩

theorem strict_initialTable (h : WellFormed os) :
    Strict (Leads os) (initialTable os fun o => [o]) := by
  obtain ⟨hperm, hsorted⟩ := initialTable_spec os fun o => [o]
  have hnodup : ((initialTable os fun o => [o]).map fun X => (X.destination, X.netmask)).Nodup := by
    rw [(hperm.map _).nodup_iff, List.map_map]
    exact h.nodup
  constructor
  · have hboth := (List.pairwise_map.1 hsorted).and (List.pairwise_map.1 hnodup)
    refine hboth.imp_of_mem fun {Y X} hY hX hYX _ o ho hleads => ?_
    obtain ⟨p, hp, rfl⟩ := exists_of_mem_initialTable hY
    obtain ⟨o', ho', rfl⟩ := exists_of_mem_initialTable hX
    obtain rfl : o = o' := List.mem_singleton.1 ho
    by_contra hmatch
    have hdest := destination_eq_of_isMatching (f := fun o => [o]) (h.ok p hp) (h.ok o ho')
      hYX.1 (by simpa using hmatch)
    rw [h.eq_of_leads hp ho' hleads hdest.1 hdest.2] at hYX
    exact hYX.2 rfl
  · intro X hX _ o ho
    obtain ⟨o', ho', rfl⟩ := exists_of_mem_initialTable hX
    obtain rfl : o = o' := List.mem_singleton.1 ho
    exact ⟨isMatching_toRouteInfo (f := fun o => [o]), rfl⟩

theorem valid_initialTable (h : WellFormed os) :
    Valid (Leads os) os (initialTable os fun o => [o]) where
  enabled X hX := by
    obtain ⟨o, -, rfl⟩ := exists_of_mem_initialTable hX
    rfl
  sorted := (initialTable_spec os _).2
  noHostBits X hX := by
    obtain ⟨o, ho, rfl⟩ := exists_of_mem_initialTable hX
    exact (h.ok o ho).noHostBits
  strict := strict_initialTable h
  perm := by
    have hperm := (initialTable_spec os fun o => [o]).1.flatMap_right RouteInfo.originalRouteInfos
    refine hperm.trans (List.Perm.of_eq ?_)
    rw [List.flatMap_map]
    exact List.flatMap_singleton' os

end Initial

section Check

theorem Strict.find?_eq_some (h : Strict Q T) (hX : X ∈ T) (henabled : X.enabled = true)
    (ho : o ∈ X.originalRouteInfos) (hQ : Q o) :
    (T.find? fun r => r.isMatching o.destination) = some X := by
  obtain ⟨l, r, rfl⟩ := List.append_of_mem hX
  have hmatch := (h.matching X hX henabled o ho).1
  rw [find?_append_eq fun Y hY =>
    (List.pairwise_append.1 h.first).2.2 Y hY X List.mem_cons_self henabled o ho hQ,
    List.find?_cons_of_pos (by exact hmatch)]

theorem find?_initialTable (h : WellFormed os) (ho : o ∈ os) (hleads : Leads os o)
    (attach : OriginalRouteInfo → List OriginalRouteInfo) :
    ((initialTable os attach).find? fun r => r.isMatching o.destination) =
      some (o.toRouteInfo (attach o)) := by
  obtain ⟨hperm, hsorted⟩ := initialTable_spec os attach
  have hmem : o.toRouteInfo (attach o) ∈ initialTable os attach :=
    hperm.mem_iff.2 (List.mem_map_of_mem ho)
  cases hfind : (initialTable os attach).find? fun r => r.isMatching o.destination with
  | none =>
    have hnot := List.find?_eq_none.1 hfind _ hmem
    exact absurd isMatching_toRouteInfo hnot
  | some X =>
    obtain ⟨l, r, hT, hl, hX⟩ := exists_of_find?_eq_some hfind
    rw [hT] at hmem hsorted
    rcases List.mem_append.1 hmem with hmem | hmem
    · exact absurd (hl _ hmem) (by simp [isMatching_toRouteInfo])
    rcases List.mem_cons.1 hmem with heq | hr
    · rw [heq]
    · have hXmem : X ∈ initialTable os attach := by
        rw [hT]
        simp
      obtain ⟨p, hp, rfl⟩ := exists_of_mem_initialTable hXmem
      rw [List.map_append, List.map_cons, List.pairwise_append, List.pairwise_cons] at hsorted
      have hle := hsorted.2.1.1 _ (List.mem_map_of_mem hr)
      have hdest := destination_eq_of_isMatching (h.ok p hp) (h.ok o ho) hle hX
      rw [h.eq_of_leads hp ho hleads hdest.1 hdest.2]

theorem Valid.exists_find? (h : Valid (Leads os) os T) (hos : WellFormed os) (ho : o ∈ os)
    (attach : OriginalRouteInfo → List OriginalRouteInfo) :
    ∃ l ∈ os, l.destination = o.destination ∧ Leads os l ∧
      ∃ X, (T.find? fun r => r.isMatching o.destination) = some X ∧ X.color = l.color ∧
        ((initialTable os attach).find? fun r => r.isMatching o.destination) =
          some (l.toRouteInfo (attach l)) := by
  obtain ⟨l, hl, hdest, hleads⟩ := exists_leads _ ho le_rfl
  obtain ⟨X, hX, hlX⟩ := List.mem_flatMap.1 (h.perm.mem_iff.2 hl)
  have henabled := h.enabled X hX
  rw [← hdest]
  exact ⟨l, hl, rfl, hleads, X, h.strict.find?_eq_some hX henabled hlX hleads,
    (h.strict.matching X hX henabled l hlX).2, find?_initialTable hos hl hleads attach⟩

theorem checkOriginalRoutes_eq_ok (h : Valid (Leads os) os T) (hos : WellFormed os) :
    checkOriginalRoutes T (initialTable os fun _ => []) (initialTable os fun _ => []) =
      .ok () := by
  suffices hall : ∀ L : List RouteInfo, (∀ r ∈ L, r ∈ initialTable os fun _ => []) →
      checkOriginalRoutes T (initialTable os fun _ => []) L = .ok () from hall _ fun _ hr => hr
  intro L hL
  induction L with
  | nil => rfl
  | cons r L ih =>
    rw [List.forall_mem_cons] at hL
    obtain ⟨o, ho, rfl⟩ := exists_of_mem_initialTable hL.1
    obtain ⟨l, -, -, -, X, hX, hcolor, hfind⟩ := h.exists_find? hos ho fun _ => []
    have hcondition : (T.find? fun r => r.isMatching o.destination).isSome = true ∧
        (T.find? fun r => r.isMatching o.destination).map RouteInfo.color =
          ((initialTable os fun _ => []).find? fun r => r.isMatching o.destination).map
            RouteInfo.color := by
      rw [hX, hfind]
      exact ⟨rfl, congrArg some hcolor⟩
    unfold checkOriginalRoutes findBestMatchingRouteInfo
    rw [List.take_length, List.take_length]
    exact Error.bind_of_eq_ok (Error.assert_of_pos hcondition) (ih hL.2)

end Check

end Inet.Ipv4NetworkConfigurator
