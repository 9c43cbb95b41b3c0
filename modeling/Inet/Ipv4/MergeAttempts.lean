import Inet.Ipv4.MergedRoutes

/-! # Attempts to merge two routes

An attempt that fails leaves the table as it was. If no lookup finds a route
before the beginning it is given, then an attempt does not fail an assertion:
the checks before the merge imply those behind it.
-/

namespace Inet.Ipv4NetworkConfigurator

open Ipv4

variable {T T' A B C C₁ C₂ : List RouteInfo} {I J M X : RouteInfo} {o : OriginalRouteInfo}
  {Q : OriginalRouteInfo → Prop} {os : List OriginalRouteInfo} {i j m : ℕ} {merged : Bool}

theorem exists_two_of_getElem? (hI : T[i]? = some I) (hJ : T[j]? = some J) (hlt : j < i) :
    ∃ A B C, T = A ++ J :: (B ++ I :: C) ∧ j = A.length ∧ i = A.length + 1 + B.length := by
  obtain ⟨l, C, rfl, rfl⟩ := exists_append_cons_of_getElem? hI
  rw [List.getElem?_append_left hlt] at hJ
  obtain ⟨A, B, rfl, rfl⟩ := exists_append_cons_of_getElem? hJ
  refine ⟨A, B, C, by simp, rfl, ?_⟩
  rw [List.length_append, List.length_cons]
  omega

theorem modify_modify_eq (f : RouteInfo → RouteInfo) (hi : i = A.length + 1 + B.length)
    (hj : j = A.length) :
    ((A ++ J :: (B ++ I :: C)).modify i f).modify j f = A ++ f J :: (B ++ f I :: C) := by
  have hi' : i = (A ++ J :: B).length := by
    rw [List.length_append, List.length_cons]
    omega
  rw [show A ++ J :: (B ++ I :: C) = (A ++ J :: B) ++ I :: C by simp, hi', modify_append_cons,
    List.append_assoc, List.cons_append, hj, modify_append_cons]

theorem setEnabled_setEnabled (h : X.enabled = true) :
    (X.setEnabled false).setEnabled true = X := by
  cases X
  cases h
  rfl

/-- An attempt in its parts. -/
theorem exists_tryToMergeTwoRoutes_eq (h : Valid Q os (A ++ J :: (B ++ I :: C)))
    (hi : i = A.length + 1 + B.length) (hj : j = A.length) (hcolor : I.color = J.color) :
    ∃ C₁ C₂, C = C₁ ++ C₂ ∧
      (∀ X ∈ routesBefore A J B I C₁, key X ≤ key (mergedRouteInfo I J)) ∧
      (∀ X ∈ C₂, key (mergedRouteInfo I J) ≤ key X) ∧
      addRouteInfo (((A ++ J :: (B ++ I :: C)).modify i (·.setEnabled false)).modify j
        (·.setEnabled false)) (mergedRouteInfo I J) = ((routesBefore A J B I C₁).length,
          routesBefore A J B I C₁ ++ mergedRouteInfo I J :: C₂) ∧
      tryToMergeTwoRoutes (A ++ J :: (B ++ I :: C)) i j I J =
        if keepsOriginalRoutes (routesBefore A J B I C₁ ++ mergedRouteInfo I J :: C₂) i j
            (routesBefore A J B I C₁).length I J then do
          return (true, ← mergeAt (routesBefore A J B I C₁ ++ mergedRouteInfo I J :: C₂) i j
            (routesBefore A J B I C₁).length I J)
        else return (false, A ++ J :: (B ++ I :: C)) := by
  have hIhost := h.noHostBits I (by simp)
  obtain ⟨C₁, C₂, rfl, hadd, hbefore, hafter⟩ := exists_addRouteInfo_eq h.sorted
    (key_le_mergedRouteInfo_left (J := J) hIhost)
  have hdisabled : ((A ++ J :: (B ++ I :: (C₁ ++ C₂))).modify i (·.setEnabled false)).modify j
      (·.setEnabled false) = A ++ J.setEnabled false :: (B ++ I.setEnabled false :: (C₁ ++ C₂)) :=
    modify_modify_eq _ hi hj
  refine ⟨C₁, C₂, rfl, hbefore, hafter, by rw [hdisabled, hadd], ?_⟩
  have hlen : (routesBefore A J B I C₁).length > i ∧ (routesBefore A J B I C₁).length > j := by
    unfold routesBefore
    simp only [List.length_append, List.length_cons]
    omega
  have hrestore : ((((routesBefore A J B I C₁ ++ mergedRouteInfo I J :: C₂).modify i
      (·.setEnabled true)).modify j (·.setEnabled true)).eraseIdx
        (routesBefore A J B I C₁).length) = A ++ J :: (B ++ I :: (C₁ ++ C₂)) := by
    have hP : routesBefore A J B I C₁ ++ mergedRouteInfo I J :: C₂ = A ++ J.setEnabled false ::
        (B ++ I.setEnabled false :: (C₁ ++ mergedRouteInfo I J :: C₂)) := by
      simp [routesBefore]
    have hlen' : (routesBefore A J B I C₁).length = (A ++ J :: (B ++ I :: C₁)).length := by
      simp [routesBefore]
    rw [hP, modify_modify_eq _ hi hj, setEnabled_setEnabled (h.enabled J (by simp)),
      setEnabled_setEnabled (h.enabled I (by simp)), hlen',
      show A ++ J :: (B ++ I :: (C₁ ++ mergedRouteInfo I J :: C₂)) =
        (A ++ J :: (B ++ I :: C₁)) ++ mergedRouteInfo I J :: C₂ by simp, eraseIdx_append_cons]
    simp
  unfold tryToMergeTwoRoutes
  dsimp only
  rw [Error.assert_of_pos hcolor, Error.ok_bind, hdisabled, hadd]
  dsimp only
  rw [Error.assert_of_pos hlen, Error.ok_bind, hrestore]

theorem Valid.of_tryToMergeTwoRoutes_eq_ok (h : Valid Q os T) (hI : T[i]? = some I)
    (hJ : T[j]? = some J) (hlt : j < i)
    (hok : tryToMergeTwoRoutes T i j I J = .ok (merged, T')) :
    if merged then Valid Q os T' ∧ T'.length + 1 = T.length else T' = T := by
  have hcolor : I.color = J.color := by
    unfold tryToMergeTwoRoutes at hok
    obtain ⟨_, hassert, -⟩ := Error.exists_of_bind_eq_ok hok
    exact Error.of_assert_eq_ok hassert
  obtain ⟨A, B, C, rfl, hj, hi⟩ := exists_two_of_getElem? hI hJ hlt
  obtain ⟨C₁, C₂, rfl, hbefore, hafter, -, heq⟩ := exists_tryToMergeTwoRoutes_eq h hi hj hcolor
  rw [heq] at hok
  split_ifs at hok
  · obtain ⟨T'', hmerge, hok⟩ := Error.exists_of_bind_eq_ok hok
    obtain ⟨rfl, rfl⟩ := Prod.mk.inj (Except.ok.inj hok)
    rw [if_pos rfl]
    exact h.of_mergeAt_eq_ok hi hj rfl rfl rfl (noHostBits_mergedRouteInfo I J) hbefore hafter
      hmerge
  · obtain ⟨rfl, rfl⟩ := Prod.mk.inj (Except.ok.inj hok)
    rw [if_neg Bool.false_ne_true]

section Checks

/-- No lookup of these original routes finds a route before the beginning. -/
def NoneBefore (routeInfos : List RouteInfo) (begin : ℕ) (os : List OriginalRouteInfo) : Prop :=
  ∀ Y ∈ routeInfos.take begin, ∀ o ∈ os, Y.isMatching o.destination = false

instance (routeInfos : List RouteInfo) (begin : ℕ) (os : List OriginalRouteInfo) :
    Decidable (NoneBefore routeInfos begin os) :=
  inferInstanceAs (Decidable (∀ Y ∈ routeInfos.take begin, ∀ o ∈ os,
    Y.isMatching o.destination = false))

/-- The lookups for the two merged routes and for the original routes that the merged one takes
from the routes behind it, in the table with the merged route at an index. -/
structure LookupsStay (routeInfos : List RouteInfo) (i j m : ℕ) (I J : RouteInfo) : Prop where
  second : NoneBefore routeInfos (i + 1) I.originalRouteInfos
  first : NoneBefore routeInfos (j + 1) J.originalRouteInfos
  following : NoneBefore routeInfos m ((attached (routeInfos.drop (m + 1))).filter fun o =>
    (mergedRouteInfo I J).isMatching o.destination)

instance (routeInfos : List RouteInfo) (i j m : ℕ) (I J : RouteInfo) :
    Decidable (LookupsStay routeInfos i j m I J) :=
  decidable_of_iff (NoneBefore routeInfos (i + 1) I.originalRouteInfos ∧
    NoneBefore routeInfos (j + 1) J.originalRouteInfos ∧
    NoneBefore routeInfos m ((attached (routeInfos.drop (m + 1))).filter fun o =>
      (mergedRouteInfo I J).isMatching o.destination))
    ⟨fun h => ⟨h.1, h.2.1, h.2.2⟩, fun h => ⟨h.second, h.first, h.following⟩⟩

/-- The arguments of `tryToMergeTwoRoutes`. -/
structure Attempt where
  routeInfos : List RouteInfo
  i : ℕ
  j : ℕ
  routeInfoI : RouteInfo
  routeInfoJ : RouteInfo

/-- The index of the merged route and the table with it. -/
def Attempt.added (this : Attempt) : ℕ × List RouteInfo :=
  addRouteInfo ((this.routeInfos.modify this.i (·.setEnabled false)).modify this.j
    (·.setEnabled false)) (mergedRouteInfo this.routeInfoI this.routeInfoJ)

/-- If an attempt passes its checks, then no lookup finds a route before its beginning. -/
def Attempt.StaysBehind (this : Attempt) : Prop :=
  keepsOriginalRoutes this.added.2 this.i this.j this.added.1 this.routeInfoI this.routeInfoJ →
    LookupsStay this.added.2 this.i this.j this.added.1 this.routeInfoI this.routeInfoJ

instance (this : Attempt) : Decidable this.StaysBehind := by
  unfold Attempt.StaysBehind
  infer_instance

theorem exists_of_find?_eq_some {d : Ipv4Address} {P : List RouteInfo}
    (h : (P.find? fun r => r.isMatching d) = some X) :
    ∃ l r, P = l ++ X :: r ∧ (∀ Y ∈ l, Y.isMatching d = false) ∧ X.isMatching d = true := by
  obtain ⟨hX, l, r, rfl, hl⟩ := List.find?_eq_some_iff_append.1 h
  exact ⟨l, r, rfl, fun Y hY => by simpa using hl Y hY, hX⟩

theorem color_eq_of_not_interrupts {begin' end' : ℕ} (hlt : begin' < end')
    (h : interruptsAnyOriginalRoute T begin' end' os = false) (ho : o ∈ os)
    (hfind : ((T.take end').find? fun r => r.isMatching o.destination) = some X) :
    X.color = o.color := by
  unfold interruptsAnyOriginalRoute at h
  rw [decide_eq_false_iff_not] at h
  by_contra hne
  refine h ⟨hlt, List.any_eq_true.2 ⟨o, ho, ?_⟩⟩
  unfold interruptsOriginalRoute findBestMatchingRouteInfo
  rw [hfind]
  simpa using hne

theorem routed_of_color {P : List RouteInfo} (hM : M.isMatching o.destination = true)
    (hcolor : M.color = o.color)
    (h : ∀ X, (P.find? fun r => r.isMatching o.destination) = some X → X.color = o.color) :
    Routed (P ++ [M]) o := by
  cases hfind : P.find? fun r => r.isMatching o.destination with
  | none =>
    refine ⟨P, M, [], rfl, fun Y hY => ?_, hM, hcolor⟩
    simpa using List.find?_eq_none.1 hfind Y hY
  | some X =>
    obtain ⟨l, r, rfl, hl, hX⟩ := exists_of_find?_eq_some hfind
    exact ⟨l, X, r ++ [M], by simp, hl, hX, h X hfind⟩

theorem find?_append_eq {P R : List RouteInfo} {d : Ipv4Address}
    (hP : ∀ Y ∈ P, Y.isMatching d = false) :
    ((P ++ R).find? fun r => r.isMatching d) = R.find? fun r => r.isMatching d := by
  rw [List.find?_append, List.find?_eq_none.2 fun Y hY => by simp [hP Y hY], Option.none_or]

theorem exists_mergeAt_eq_ok (h : Valid Q os (A ++ J :: (B ++ I :: (C₁ ++ C₂))))
    (hi : i = A.length + 1 + B.length) (hj : j = A.length)
    (hm : m = (routesBefore A J B I C₁).length) (hcolor : I.color = J.color)
    (hkeeps : keepsOriginalRoutes (routesBefore A J B I C₁ ++ mergedRouteInfo I J :: C₂) i j m I
      J)
    (hstays : LookupsStay (routesBefore A J B I C₁ ++ mergedRouteInfo I J :: C₂) i j m I J) :
    ∃ T', mergeAt (routesBefore A J B I C₁ ++ mergedRouteInfo I J :: C₂) i j m I J = .ok T' := by
  set M := mergedRouteInfo I J with hMdef
  set P := routesBefore A J B I C₁ with hP
  unfold keepsOriginalRoutes at hkeeps
  simp only [Bool.and_eq_true, Bool.not_eq_true'] at hkeeps
  obtain ⟨⟨⟨hJI, hJM⟩, hIM⟩, hsubsequent⟩ := hkeeps
  have hmatching := h.strict.matching
  have hIenabled := h.enabled I (by simp)
  have hJenabled := h.enabled J (by simp)
  have htakem : (P ++ M :: C₂).take m = P := List.take_left' hm.symm
  have htakei : (P ++ M :: C₂).take i = A ++ J.setEnabled false :: B := by
    rw [hP, routesBefore,
      show A ++ J.setEnabled false :: (B ++ I.setEnabled false :: C₁) ++ M :: C₂ =
        (A ++ J.setEnabled false :: B) ++ (I.setEnabled false :: C₁ ++ M :: C₂) by simp]
    apply List.take_left'
    rw [List.length_append, List.length_cons]
    omega
  have htakei' : (P ++ M :: C₂).take (i + 1) = A ++ J.setEnabled false :: B ++
      [I.setEnabled false] := by
    rw [hP, routesBefore,
      show A ++ J.setEnabled false :: (B ++ I.setEnabled false :: C₁) ++ M :: C₂ =
        (A ++ J.setEnabled false :: B ++ [I.setEnabled false]) ++ (C₁ ++ M :: C₂) by simp]
    apply List.take_left'
    simp only [List.length_append, List.length_cons, List.length_nil]
    omega
  have htakej : (P ++ M :: C₂).take (j + 1) = A ++ [J.setEnabled false] := by
    rw [hP, routesBefore,
      show A ++ J.setEnabled false :: (B ++ I.setEnabled false :: C₁) ++ M :: C₂ =
        (A ++ [J.setEnabled false]) ++ (B ++ I.setEnabled false :: C₁ ++ M :: C₂) by simp]
    apply List.take_left'
    rw [List.length_append, List.length_singleton, hj]
  have hsecond := hstays.second
  have hfirst := hstays.first
  have hfollowing := hstays.following
  rw [NoneBefore, htakei'] at hsecond
  rw [NoneBefore, htakej] at hfirst
  rw [NoneBefore, htakem, show P ++ M :: C₂ = (P ++ [M]) ++ C₂ by simp,
    List.drop_left' (by rw [List.length_append, hm, List.length_singleton])] at hfollowing
  have hlenP : m = A.length + 1 + B.length + 1 + C₁.length := by
    rw [hm, hP, routesBefore]
    simp only [List.length_append, List.length_cons]
    omega
  have hM : ∀ o, (I.isMatching o ∨ J.isMatching o) → M.isMatching o :=
    fun o ho => isMatching_mergedRouteInfo ho
  have hroutedI : ∀ o ∈ I.originalRouteInfos, Routed (P ++ [M]) o := by
    intro o ho
    obtain ⟨hImatch, hIcolor⟩ := hmatching I (by simp) hIenabled o ho
    refine routed_of_color (hM _ (Or.inl hImatch)) hIcolor fun X hX => ?_
    by_cases hlt : i + 1 < m
    · exact color_eq_of_not_interrupts hlt hIM ho (by rwa [htakem])
    · -- the merged route is right behind the second one, and no route before that matches
      have hnil : C₁ = [] := List.length_eq_zero_iff.1 (by omega)
      rw [hP, routesBefore, hnil] at hX
      have hmem := List.mem_of_find?_eq_some hX
      obtain ⟨_, _, _, _, hXmatch⟩ := exists_of_find?_eq_some hX
      rw [hsecond X (by simpa using hmem) o ho] at hXmatch
      cases hXmatch
  have hroutedJ : ∀ o ∈ J.originalRouteInfos, Routed (P ++ [M]) o := by
    intro o ho
    obtain ⟨hJmatch, hJcolor⟩ := hmatching J (by simp) hJenabled o ho
    refine routed_of_color (hM _ (Or.inr hJmatch)) (hcolor.trans hJcolor) fun X hX => ?_
    have hAJ : ∀ Y ∈ A ++ [J.setEnabled false], Y.isMatching o.destination = false :=
      fun Y hY => hfirst Y hY o ho
    have hPsplit : P = (A ++ [J.setEnabled false]) ++ (B ++ I.setEnabled false :: C₁) := by
      simp [hP, routesBefore]
    cases hB : B.find? fun r => r.isMatching o.destination with
    | some Y =>
      have hne : B ≠ [] := by
        rintro rfl
        cases hB
      have hpos := List.length_pos_iff.2 hne
      have hfind : (((P ++ M :: C₂).take i).find? fun r => r.isMatching o.destination) =
          some Y := by
        rw [htakei, show A ++ J.setEnabled false :: B = (A ++ [J.setEnabled false]) ++ B by simp,
          find?_append_eq hAJ, hB]
      have hY := color_eq_of_not_interrupts (by omega) hJI ho hfind
      rw [hPsplit, find?_append_eq hAJ, List.find?_append, hB, Option.some_or] at hX
      rwa [← Option.some.inj hX]
    | none =>
      have hBI : ∀ Y ∈ B ++ [I.setEnabled false], Y.isMatching o.destination = false := by
        intro Y hY
        rcases List.mem_append.1 hY with hY | hY
        · simpa using List.find?_eq_none.1 hB Y hY
        · rw [List.mem_singleton.1 hY]
          rfl
      have hlt : i + 1 < m := by
        have hne : C₁ ≠ [] := by
          rintro rfl
          rw [hPsplit, find?_append_eq hAJ] at hX
          have hnone : ((B ++ [I.setEnabled false]).find? fun r => r.isMatching o.destination) =
              none := List.find?_eq_none.2 fun Y hY => by simp [hBI Y hY]
          rw [hnone] at hX
          cases hX
        have := List.length_pos_iff.2 hne
        omega
      exact color_eq_of_not_interrupts hlt hJM ho (by rwa [htakem])
  have hcolorM : ∀ o ∈ attached C₂, M.isMatching o.destination = true → M.color = o.color := by
    intro o ho hmatch
    obtain ⟨X, hX, hoX⟩ := List.mem_flatMap.1 ho
    have hXinterrupts : interruptsAnyOriginalRoute (P ++ M :: C₂) m (m + 1) X.originalRouteInfos =
        false := by
      unfold interruptsSubsequentOriginalRoutes at hsubsequent
      rw [show (P ++ M :: C₂) = (P ++ [M]) ++ C₂ by simp, List.drop_left' (by simp [hm]),
        List.any_eq_false] at hsubsequent
      rw [show (P ++ M :: C₂) = (P ++ [M]) ++ C₂ by simp]
      simpa using hsubsequent X hX
    refine color_eq_of_not_interrupts (Nat.lt_succ_self m) hXinterrupts hoX ?_
    rw [show (P ++ M :: C₂) = (P ++ [M]) ++ C₂ by simp, List.take_left' (by simp [hm]),
      find?_append_eq]
    · simp [hmatch]
    · exact fun Y hY => hfollowing Y hY o (List.mem_filter.2 ⟨ho, hmatch⟩)
  obtain ⟨L₁, hL₁⟩ := exists_foldlM_eq_ok hroutedI
  have hattaches₁ : Attaches Q I.originalRouteInfos (P ++ [M]) L₁ :=
    attaches_of_foldlM_eq_ok hL₁
  obtain ⟨L₂, hL₂⟩ := exists_foldlM_eq_ok fun o ho => (hroutedJ o ho).mono hattaches₁.shape
  have hattaches₂ : Attaches Q J.originalRouteInfos L₁ L₂ :=
    attaches_of_foldlM_eq_ok hL₂
  have hlen₀ : (P ++ [M]).length = m + 1 := by rw [List.length_append, hm, List.length_singleton]
  have hlen₁ : L₁.length = m + 1 := by rw [← hattaches₁.shape.length_eq, hlen₀]
  have hshape := forall₂_shape_trans hattaches₁.shape hattaches₂.shape
  obtain ⟨P', R, rfl, hP', hR⟩ := exists_of_forall₂_append hshape
  obtain ⟨M', R, rfl, hMM', hR⟩ := exists_of_forall₂_cons hR
  cases hR
  have hlenP' : P'.length = m := by rw [← hP'.length_eq, hm]
  obtain ⟨⟨M'', C₂'⟩, hmove⟩ := moveOriginalRouteInfos_eq_ok (M := M') (C := C₂)
    (hMM'.enabled.trans rfl) fun o ho hmatch => by
      rw [hMM'.isMatching] at hmatch
      rw [hMM'.color]
      exact hcolorM o ho hmatch
  refine ⟨((((P' ++ [M']) ++ C₂).take m ++ M'' :: C₂').eraseIdx i).eraseIdx j, ?_⟩
  unfold mergeAt addOriginalRouteInfos
  rw [show (P ++ M :: C₂) = (P ++ [M]) ++ C₂ by simp, List.take_left' hlen₀,
    List.drop_left' hlen₀, hL₁]
  simp only [Error.ok_bind, Error.pure_eq_ok]
  rw [List.take_left' hlen₁, List.drop_left' hlen₁, hL₂]
  simp only [Error.ok_bind]
  have hget : ((P' ++ [M']) ++ C₂)[m]? = some M' := by
    rw [← hlenP', List.append_assoc, List.getElem?_append_right le_rfl, Nat.sub_self]
    rfl
  have hdrop : ((P' ++ [M']) ++ C₂).drop (m + 1) = C₂ := List.drop_left' (by simp [hlenP'])
  rw [hget]
  dsimp only
  rw [hdrop, hmove]
  rfl

theorem exists_tryToMergeTwoRoutes_eq_ok (h : Valid Q os T) (hI : T[i]? = some I)
    (hJ : T[j]? = some J) (hlt : j < i) (hcolor : I.color = J.color)
    (hstays : Attempt.StaysBehind ⟨T, i, j, I, J⟩) :
    ∃ merged T', tryToMergeTwoRoutes T i j I J = .ok (merged, T') := by
  obtain ⟨A, B, C, rfl, hj, hi⟩ := exists_two_of_getElem? hI hJ hlt
  obtain ⟨C₁, C₂, rfl, -, -, hadd, heq⟩ := exists_tryToMergeTwoRoutes_eq h hi hj hcolor
  unfold Attempt.StaysBehind Attempt.added at hstays
  rw [hadd] at hstays
  rw [heq]
  split_ifs with hkeeps
  · obtain ⟨T', hT'⟩ := exists_mergeAt_eq_ok h hi hj rfl hcolor hkeeps (hstays hkeeps)
    rw [hT']
    exact ⟨true, T', rfl⟩
  · exact ⟨false, _, rfl⟩

end Checks

end Inet.Ipv4NetworkConfigurator
