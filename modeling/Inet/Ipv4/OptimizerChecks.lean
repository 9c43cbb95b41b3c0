import Inet.Ipv4.OptimizedRoutes

/-! # When the checks of the route optimizer hold

No assertion fails in an attempt whose lookups find no route before their
beginning, in whatever order the merges are attempted. That is so for every
attempt if the destinations are pairwise distinct. Two routes with the same
destination can make an assertion fail.
-/

namespace Inet.Ipv4NetworkConfigurator

open Ipv4

variable {I S : Type} [DecidableEq I] [DecidableEq S]
  {routes : List (Ipv4Route I S)} {colorToRoute : List (Ipv4Route I S)}
  {os : List OriginalRouteInfo} {T : List RouteInfo}

/-- The original routes in the format of the optimizer. -/
def originalRouteInfos (routes : List (Ipv4Route I S)) : List OriginalRouteInfo :=
  (colorRoutes [] routes).2

/-- The routes that a list can have for the optimizer. -/
structure RoutesOk (routes : List (Ipv4Route I S)) : Prop where
  contiguous : ∀ route ∈ routes, Contiguous route.netmask
  noHostBits : ∀ route ∈ routes, route.destination &&& route.netmask = route.destination
  nodup : (routes.map fun route => (route.destination, route.netmask)).Nodup

theorem map_colorRoutes (colorToRoute routes : List (Ipv4Route I S)) :
    (colorRoutes colorToRoute routes).2.map (fun o => (o.destination, o.netmask)) =
      routes.map fun route => (route.destination, route.netmask) := by
  induction routes generalizing colorToRoute with
  | nil => rfl
  | cons route routes ih =>
    unfold colorRoutes
    dsimp only
    rw [List.map_cons, List.map_cons, ih]

theorem exists_of_mem_originalRouteInfos {o : OriginalRouteInfo}
    (h : o ∈ originalRouteInfos routes) :
    ∃ route ∈ routes, route.destination = o.destination ∧ route.netmask = o.netmask := by
  have hmem : (o.destination, o.netmask) ∈
      routes.map fun route => (route.destination, route.netmask) := by
    rw [← map_colorRoutes []]
    exact List.mem_map_of_mem h
  obtain ⟨route, hroute, heq⟩ := List.mem_map.1 hmem
  exact ⟨route, hroute, congrArg Prod.fst heq, congrArg Prod.snd heq⟩

theorem RoutesOk.wellFormed (h : RoutesOk routes) : WellFormed (originalRouteInfos routes) where
  ok o ho := by
    obtain ⟨route, hroute, hdest, hmask⟩ := exists_of_mem_originalRouteInfos ho
    refine ⟨?_, ?_⟩
    · rw [← hmask]
      exact h.contiguous route hroute
    · rw [← hdest, ← hmask]
      exact h.noHostBits route hroute
  nodup := by
    unfold originalRouteInfos
    rw [map_colorRoutes]
    exact h.nodup

theorem leads_of_nodup (h : (routes.map Ipv4Route.destination).Nodup) {o : OriginalRouteInfo}
    (ho : o ∈ originalRouteInfos routes) :
    Leads (originalRouteInfos routes) o := by
  intro p hp hdest
  obtain ⟨r, hr, hr₁, hr₂⟩ := exists_of_mem_originalRouteInfos hp
  obtain ⟨r', hr', hr₁', hr₂'⟩ := exists_of_mem_originalRouteInfos ho
  have heq : r = r' := List.inj_on_of_nodup_map h hr hr' (hr₁.trans (hdest.trans hr₁'.symm))
  rw [← hr₂, ← hr₂', heq]

theorem Strict.mono {Q Q' : OriginalRouteInfo → Prop} (h : Strict Q T)
    (hQ : ∀ o ∈ attached T, Q' o → Q o) : Strict Q' T := by
  have hmem : ∀ X ∈ T, ∀ o ∈ X.originalRouteInfos, o ∈ attached T :=
    fun X hX o ho => List.mem_flatMap.2 ⟨X, hX, ho⟩
  constructor
  · refine h.first.imp_of_mem fun {Y X} _ hX hYX henabled o ho hQ' => ?_
    exact hYX henabled o ho (hQ o (hmem X hX o ho) hQ')
  · exact h.matching

theorem Valid.mono {Q Q' : OriginalRouteInfo → Prop} (h : Valid Q os T)
    (hQ : ∀ o ∈ os, Q' o → Q o) : Valid Q' os T :=
  { h with strict := h.strict.mono fun o ho => hQ o (h.perm.mem_iff.1 ho) }

section Attempts

/-- An attempt to merge two routes of one color. -/
structure Attempt.Possible (this : Attempt) : Prop where
  second : this.routeInfos[this.i]? = some this.routeInfoI
  first : this.routeInfos[this.j]? = some this.routeInfoJ
  lt : this.j < this.i
  color : this.routeInfoI.color = this.routeInfoJ.color

def Attempt.run (this : Attempt) : Except Error (Bool × List RouteInfo) :=
  tryToMergeTwoRoutes this.routeInfos this.i this.j this.routeInfoI this.routeInfoJ

/-- The tables after any attempts. -/
inductive Attempted (os : List OriginalRouteInfo) : List RouteInfo → Prop
  | init : Attempted os (initialTable os fun o => [o])
  | attempt {attempt : Attempt} {T' : List RouteInfo} {merged : Bool} :
    Attempted os attempt.routeInfos → attempt.Possible → attempt.run = .ok (merged, T') →
    Attempted os T'

variable {Q : OriginalRouteInfo → Prop} {attempt : Attempt} {pairs : List (ℕ × ℕ)} {rounds : ℕ}

theorem Attempted.valid (h : Attempted os T)
    (hinit : Valid Q os (initialTable os fun o => [o])) : Valid Q os T := by
  induction h with
  | init => exact hinit
  | @attempt attempt T' merged _ hpossible hok ih =>
    have hattempt :=
      ih.of_tryToMergeTwoRoutes_eq_ok hpossible.second hpossible.first hpossible.lt hok
    cases merged with
    | true => exact hattempt.1
    | false =>
      rw [if_neg Bool.false_ne_true] at hattempt
      rwa [hattempt]

/-- The loops make possible attempts on tables that have been reached. -/
theorem Attempted.of_pairs (hT : Attempted os T) (hpairs : ∀ pair ∈ pairs, pair.2 < pair.1) :
    (∀ attempt ∈ pairAttempts T pairs, Attempted os attempt.routeInfos ∧ attempt.Possible) ∧
      ∀ merged T', tryPairs T pairs = .ok (merged, T') → Attempted os T' := by
  induction pairs generalizing T with
  | nil =>
    refine ⟨by simp [pairAttempts], fun merged T' hok => ?_⟩
    obtain ⟨rfl, rfl⟩ := Prod.mk.inj (Except.ok.inj hok)
    exact hT
  | cons pair pairs ih =>
    obtain ⟨i, j⟩ := pair
    rw [List.forall_mem_cons] at hpairs
    unfold pairAttempts tryPairs
    cases hI : T[i]? with
    | none => exact ⟨by simp, fun merged T' hok => by cases hok⟩
    | some routeInfoI =>
      cases hJ : T[j]? with
      | none => exact ⟨by simp, fun merged T' hok => by cases hok⟩
      | some routeInfoJ =>
        dsimp only
        split_ifs with hcolor
        · have hpossible : (Attempt.mk T i j routeInfoI routeInfoJ).Possible :=
            ⟨hI, hJ, hpairs.1, hcolor.1⟩
          cases htry : tryToMergeTwoRoutes T i j routeInfoI routeInfoJ with
          | error e =>
            exact ⟨List.forall_mem_cons.2 ⟨⟨hT, hpossible⟩, by simp⟩,
              fun merged T' hok => by cases hok⟩
          | ok result =>
            obtain ⟨merged', T''⟩ := result
            have hT'' : Attempted os T'' := Attempted.attempt hT hpossible htry
            cases merged' with
            | true =>
              refine ⟨List.forall_mem_cons.2 ⟨⟨hT, hpossible⟩, by simp⟩, fun merged T' hok => ?_⟩
              obtain ⟨rfl, rfl⟩ := Prod.mk.inj (Except.ok.inj hok)
              exact hT''
            | false =>
              exact ⟨List.forall_mem_cons.2 ⟨⟨hT, hpossible⟩, (ih hT'' hpairs.2).1⟩,
                (ih hT'' hpairs.2).2⟩
        · exact ih hT hpairs.2

theorem Attempted.of_mem_loopAttempts (hT : Attempted os T)
    (h : attempt ∈ loopAttempts rounds T) :
    Attempted os attempt.routeInfos ∧ attempt.Possible := by
  induction rounds generalizing T with
  | zero => cases h
  | succ rounds ih =>
    obtain ⟨hattempts, hround⟩ :=
      hT.of_pairs fun pair hpair => (@mem_indexPairs T.length pair hpair).1
    unfold loopAttempts tryToMergeAnyTwoRoutes at h
    rcases List.mem_append.1 h with h | h
    · exact hattempts attempt h
    · cases htry : tryPairs T (indexPairs T.length) with
      | error e =>
        rw [htry] at h
        cases h
      | ok result =>
        obtain ⟨merged, T'⟩ := result
        rw [htry] at h
        cases merged with
        | true => exact ih (hround true T' htry) h
        | false => cases h

/-- If every original route is attached to the first route that matches it, then an attempt looks
for none of them in the wrong place. -/
theorem Valid.staysBehind (h : Valid (fun _ => True) os attempt.routeInfos)
    (hpossible : attempt.Possible) : attempt.StaysBehind := by
  obtain ⟨T, i, j, routeInfoI, routeInfoJ⟩ := attempt
  obtain ⟨hI, hJ, hlt, hcolor⟩ := hpossible
  dsimp only at h hI hJ hlt hcolor
  obtain ⟨A, B, C, rfl, hj, hi⟩ := exists_two_of_getElem? hI hJ hlt
  obtain ⟨C₁, C₂, rfl, -, -, hadd, -⟩ := exists_tryToMergeTwoRoutes_eq h hi hj hcolor
  have hfirst := h.strict.first
  simp only [List.pairwise_append, List.pairwise_cons] at hfirst
  obtain ⟨-, ⟨hJafter, -, ⟨hIafter, -, -, hC⟩, hBafter⟩, hAafter⟩ := hfirst
  have hIenabled := h.enabled routeInfoI (by simp)
  have hJenabled := h.enabled routeInfoJ (by simp)
  unfold Attempt.StaysBehind Attempt.added
  rw [hadd]
  intro _
  refine ⟨fun Y hY o ho => ?_, fun Y hY o ho => ?_, fun Y hY o ho => ?_⟩
  · rw [show routesBefore A routeInfoJ B routeInfoI C₁ ++ mergedRouteInfo routeInfoI routeInfoJ ::
      C₂ = (A ++ routeInfoJ.setEnabled false :: B ++ [routeInfoI.setEnabled false]) ++
        (C₁ ++ mergedRouteInfo routeInfoI routeInfoJ :: C₂) by simp [routesBefore],
      List.take_left' (by simp; omega)] at hY
    simp only [List.mem_append, List.mem_cons, List.not_mem_nil, or_false] at hY
    rcases hY with (hY | rfl | hY) | rfl
    · exact hAafter Y hY routeInfoI (by simp) hIenabled o ho trivial
    · rfl
    · exact hBafter Y hY routeInfoI (by simp) hIenabled o ho trivial
    · rfl
  · rw [show routesBefore A routeInfoJ B routeInfoI C₁ ++ mergedRouteInfo routeInfoI routeInfoJ ::
      C₂ = (A ++ [routeInfoJ.setEnabled false]) ++ (B ++ routeInfoI.setEnabled false :: C₁ ++
        mergedRouteInfo routeInfoI routeInfoJ :: C₂) by simp [routesBefore],
      List.take_left' (by simp; omega)] at hY
    rcases List.mem_append.1 hY with hY | hY
    · exact hAafter Y hY routeInfoJ (by simp) hJenabled o ho trivial
    · rw [List.mem_singleton.1 hY]
      rfl
  · rw [List.take_left' rfl] at hY
    rw [show routesBefore A routeInfoJ B routeInfoI C₁ ++ mergedRouteInfo routeInfoI routeInfoJ ::
      C₂ = (routesBefore A routeInfoJ B routeInfoI C₁ ++ [mergedRouteInfo routeInfoI routeInfoJ])
        ++ C₂ by simp, List.drop_left' (by simp)] at ho
    obtain ⟨X, hX, hoX⟩ := List.mem_flatMap.1 (List.mem_filter.1 ho).1
    have hXenabled := h.enabled X (by simp [hX])
    unfold routesBefore at hY
    simp only [List.mem_append, List.mem_cons] at hY
    rcases hY with hY | rfl | hY | rfl | hY
    · exact hAafter Y hY X (by simp [hX]) hXenabled o hoX trivial
    · rfl
    · exact hBafter Y hY X (by simp [hX]) hXenabled o hoX trivial
    · rfl
    · exact hC Y hY X hX hXenabled o hoX trivial

end Attempts

/-- The optimizer returns if its attempts are allowed, every original route is attached to exactly
one route after every attempt, no assertion of an allowed attempt fails, and an attempt that fails
changes nothing. -/
structure ChecksHold (Allowed : Attempt → Prop) (routes : List (Ipv4Route I S)) : Prop where
  returns : ∀ rounds, (originalRouteInfos routes).length < rounds →
    (∀ attempt ∈ loopAttempts rounds (initialTable (originalRouteInfos routes) fun o => [o]),
      Allowed attempt) →
    ∃ result, optimizeRoutes rounds routes = .ok (some result)
  attached_once : ∀ T, Attempted (originalRouteInfos routes) T →
    (attached T).Nodup ∧ ∀ o, o ∈ attached T ↔ o ∈ originalRouteInfos routes
  attempts : ∀ attempt : Attempt, Attempted (originalRouteInfos routes) attempt.routeInfos →
    attempt.Possible → Allowed attempt → ∃ merged T', attempt.run = .ok (merged, T')
  unchanged : ∀ (attempt : Attempt) (T : List RouteInfo),
    Attempted (originalRouteInfos routes) attempt.routeInfos → attempt.Possible →
    attempt.run = .ok (false, T) → T = attempt.routeInfos

theorem exists_optimizeTable_eq_ok (hos : WellFormed os) {rounds : ℕ} (hrounds : os.length < rounds)
    (hstays : ∀ attempt ∈ loopAttempts rounds (initialTable os fun o => [o]),
      attempt.StaysBehind) :
    ∃ T, optimizeTable rounds os = .ok (some T) := by
  have hvalid := valid_initialTable hos
  have hlength : (initialTable os fun o => [o]).length = os.length := by
    rw [(initialTable_spec os fun o => [o]).1.length_eq, List.length_map]
  obtain ⟨T, hloop⟩ := exists_mergeLoop_eq_ok hvalid (hlength.le.trans_lt hrounds) hstays
  refine ⟨T, ?_⟩
  unfold optimizeTable
  dsimp only
  rw [checkOriginalRoutes_eq_ok hvalid hos, Error.ok_bind, hloop, Error.ok_bind]
  dsimp only
  rw [checkOriginalRoutes_eq_ok (hvalid.of_mergeLoop_eq_ok hloop) hos]
  rfl

/-- With distinct destinations every attempt is allowed. -/
theorem Attempted.staysBehind_of_nodup (hok : RoutesOk routes)
    (h : (routes.map Ipv4Route.destination).Nodup) {attempt : Attempt}
    (hT : Attempted (originalRouteInfos routes) attempt.routeInfos)
    (hpossible : attempt.Possible) : attempt.StaysBehind := by
  have hvalid := (valid_initialTable hok.wellFormed).mono
    fun o ho (_ : True) => leads_of_nodup h ho
  exact (hT.valid hvalid).staysBehind hpossible

theorem ChecksHold.of_staysBehind {Allowed : Attempt → Prop} (hok : RoutesOk routes)
    (h : ∀ attempt : Attempt, Attempted (originalRouteInfos routes) attempt.routeInfos →
      attempt.Possible → Allowed attempt → attempt.StaysBehind) : ChecksHold Allowed routes := by
  have hos := hok.wellFormed
  have hvalid := valid_initialTable hos
  refine ⟨fun rounds hrounds hallowed => ?_, fun T hT => ?_,
    fun attempt hT hpossible hallowed => ?_, fun attempt T hT hpossible hrun => ?_⟩
  · have hstays : ∀ attempt ∈ loopAttempts rounds
        (initialTable (originalRouteInfos routes) fun o => [o]), attempt.StaysBehind := by
      intro attempt hattempt
      obtain ⟨hT, hpossible⟩ := Attempted.init.of_mem_loopAttempts hattempt
      exact h attempt hT hpossible (hallowed attempt hattempt)
    obtain ⟨T, hT⟩ := exists_optimizeTable_eq_ok hos hrounds hstays
    refine ⟨T.filterMap (toIpv4Route (colorRoutes [] routes).1), ?_⟩
    unfold optimizeRoutes
    dsimp only
    unfold originalRouteInfos at hT
    rw [hT]
    rfl
  · have hperm := (hT.valid hvalid).perm
    refine ⟨hperm.nodup_iff.2 ?_, fun o => hperm.mem_iff⟩
    exact List.Nodup.of_map _ hos.nodup
  · exact exists_tryToMergeTwoRoutes_eq_ok (hT.valid hvalid) hpossible.second hpossible.first
      hpossible.lt hpossible.color (h attempt hT hpossible hallowed)
  · have hattempt := (hT.valid hvalid).of_tryToMergeTwoRoutes_eq_ok hpossible.second
      hpossible.first hpossible.lt hrun
    rwa [if_neg Bool.false_ne_true] at hattempt

theorem checksHold_of_staysBehind (hok : RoutesOk routes) :
    ChecksHold Attempt.StaysBehind routes ∧
      ((routes.map Ipv4Route.destination).Nodup → ChecksHold (fun _ => True) routes) :=
  ⟨.of_staysBehind hok fun _ _ _ h => h,
    fun hnodup => .of_staysBehind hok fun _ hT hpossible _ => hT.staysBehind_of_nodup hok hnodup
      hpossible⟩

/-- Two routes with the destination 10.0.0.0 beside two networks that are merged. -/
def besideSameDestination : List (Ipv4Route ℕ ℕ) :=
  [⟨0x0a000000, 0xffff0000, 1, 0, 0, 0⟩, ⟨0x0a000000, 0xff000000, 2, 0, 0, 0⟩,
    ⟨0x0c000000, 0xff000000, 3, 0, 0, 0⟩, ⟨0x0d000000, 0xff000000, 3, 0, 0, 0⟩]

theorem returns_besideSameDestination :
    ∃ result, optimizeRoutes 5 besideSameDestination = .ok (some result) ∧ result.length = 3 := by
  have hok : RoutesOk besideSameDestination := by
    refine ⟨?_, by decide, by decide⟩
    unfold besideSameDestination
    simp only [List.forall_mem_cons]
    exact ⟨⟨16, by decide, by decide⟩, ⟨8, by decide, by decide⟩, ⟨8, by decide, by decide⟩,
      ⟨8, by decide, by decide⟩, by simp⟩
  obtain ⟨result, hresult⟩ := (checksHold_of_staysBehind hok).1.returns 5 (by decide) (by decide)
  have hlength : (optimizeRoutes 5 besideSameDestination).map (Option.map List.length) =
      .ok (some 3) := rfl
  rw [hresult] at hlength
  exact ⟨result, hresult, Option.some.inj (Except.ok.inj hlength)⟩

/-- Two routes with the destination 10.0.0.0: the longer one takes the original route of the other
one, when that is merged with the route to 11.0.0.0. -/
def sameDestination : List (Ipv4Route ℕ ℕ) :=
  [⟨0x0a000000, 0xffff0000, 1, 0, 0, 0⟩, ⟨0x0a000000, 0xff000000, 2, 0, 0, 0⟩,
    ⟨0x0b000000, 0xff000000, 2, 0, 0, 0⟩]

theorem not_checksHold_sameDestination :
    RoutesOk sameDestination ∧ ¬ ChecksHold (fun _ => True) sameDestination := by
  refine ⟨⟨?_, by decide, by decide⟩, ?_⟩
  · unfold sameDestination
    simp only [List.forall_mem_cons]
    exact ⟨⟨16, by decide, by decide⟩, ⟨8, by decide, by decide⟩, ⟨8, by decide, by decide⟩,
      by simp⟩
  · rintro ⟨hreturns, -, -, -⟩
    obtain ⟨result, h⟩ := hreturns 4 (by decide) fun _ _ => trivial
    have herror : optimizeRoutes 4 sameDestination = .error (.assertion
        "matchingRouteInfo && matchingRouteInfo->color == originalRouteInfo->color") := rfl
    rw [herror] at h
    cases h

end Inet.Ipv4NetworkConfigurator
