import Inet.Ipv4.RouteMerging

/-! # The table after a merge

Two routes of the table are replaced by the merged one. The original routes
that are attached to the first route that matches them stay so.
-/

namespace Inet.Ipv4NetworkConfigurator

open Ipv4

variable {T T' A B C₁ C₂ : List RouteInfo} {I J M M' X : RouteInfo} {o : OriginalRouteInfo}
  {Q : OriginalRouteInfo → Prop} {os : List OriginalRouteInfo}

section Move

/-- A route behind the merged one keeps the original routes that are not matched by that. -/
def RouteInfo.release (mergedRouteInfo this : RouteInfo) : RouteInfo :=
  { this with
    originalRouteInfos := this.originalRouteInfos.filter fun o =>
      !mergedRouteInfo.isMatching o.destination }

/-- The merged route with the original routes that it matches. -/
def RouteInfo.takeOver (this : RouteInfo) (following : List RouteInfo) : RouteInfo :=
  { this with
    originalRouteInfos := this.originalRouteInfos ++
      (attached following).filter fun o => this.isMatching o.destination }

theorem moves_eq (hM : M.enabled = true) (o : OriginalRouteInfo) :
    ((o.destination ^^^ M.destination) &&& M.netmask == 0) = M.isMatching o.destination := by
  rw [RouteInfo.isMatching, hM, Bool.true_and]

theorem moveOriginalRouteInfos_cons (hM : M.enabled = true) (X : RouteInfo) (C : List RouteInfo) :
    moveOriginalRouteInfos M (X :: C) = (do
      assert (∀ o ∈ X.originalRouteInfos.filter (fun o : OriginalRouteInfo =>
        M.isMatching o.destination), M.color = o.color)
        "mergedRouteInfo->color == originalRouteInfo->color"
      let (M', C') ← moveOriginalRouteInfos { M with
        originalRouteInfos := M.originalRouteInfos ++
          X.originalRouteInfos.filter fun o => M.isMatching o.destination } C
      return (M', M.release X :: C')) := by
  rw [moveOriginalRouteInfos]
  simp only [moves_eq hM]
  rfl

theorem of_moveOriginalRouteInfos_eq_ok {C C' : List RouteInfo} (hM : M.enabled = true)
    (h : moveOriginalRouteInfos M C = .ok (M', C')) :
    M' = M.takeOver C ∧ C' = C.map M.release ∧
      ∀ o ∈ attached C, M.isMatching o.destination = true → M.color = o.color := by
  induction C generalizing M C' with
  | nil =>
    obtain ⟨rfl, rfl⟩ := Prod.mk.inj (Except.ok.inj h)
    exact ⟨by simp [RouteInfo.takeOver, attached], rfl, by simp [attached]⟩
  | cons X C ih =>
    rw [moveOriginalRouteInfos_cons hM] at h
    obtain ⟨_, hassert, h⟩ := Error.exists_of_bind_eq_ok h
    obtain ⟨⟨M'', C''⟩, hrest, h⟩ := Error.exists_of_bind_eq_ok h
    obtain ⟨rfl, rfl⟩ := Prod.mk.inj (Except.ok.inj h)
    obtain ⟨rfl, rfl, hcolor⟩ := ih (by exact hM) hrest
    refine ⟨?_, rfl, fun o ho hmatch => ?_⟩
    · simp only [RouteInfo.takeOver, attached_cons, List.filter_append, List.append_assoc]
      rfl
    · rw [attached_cons] at ho
      rcases List.mem_append.1 ho with ho | ho
      · exact Error.of_assert_eq_ok hassert o (List.mem_filter.2 ⟨ho, hmatch⟩)
      · exact hcolor o ho hmatch

theorem moveOriginalRouteInfos_eq_ok {C : List RouteInfo} (hM : M.enabled = true)
    (h : ∀ o ∈ attached C, M.isMatching o.destination = true → M.color = o.color) :
    ∃ r, moveOriginalRouteInfos M C = .ok r := by
  induction C generalizing M with
  | nil => exact ⟨_, rfl⟩
  | cons X C ih =>
    rw [attached_cons] at h
    obtain ⟨⟨M', C'⟩, hrest⟩ := ih (M := { M with
      originalRouteInfos := M.originalRouteInfos ++
        X.originalRouteInfos.filter fun o => M.isMatching o.destination }) hM
      fun o ho => h o (List.mem_append_right _ ho)
    rw [moveOriginalRouteInfos_cons hM, Error.assert_of_pos, Error.ok_bind, hrest]
    · exact ⟨_, rfl⟩
    · intro o ho
      obtain ⟨ho, hmatch⟩ := List.mem_filter.1 ho
      exact h o (List.mem_append_left _ ho) hmatch

theorem attached_map_release (C : List RouteInfo) :
    attached (C.map M.release) = (attached C).filter fun o => !M.isMatching o.destination := by
  induction C with
  | nil => rfl
  | cons X C ih =>
    rw [List.map_cons, attached_cons, attached_cons, List.filter_append, ih]
    rfl

theorem perm_takeOver (M : RouteInfo) (C : List RouteInfo) :
    (attached (M.takeOver C :: C.map M.release)).Perm (M.originalRouteInfos ++ attached C) := by
  rw [attached_cons, attached_map_release, RouteInfo.takeOver, List.append_assoc]
  exact (List.filter_append_perm _ _).append_left _

end Move

section Strict

theorem Strict.sublist (h : Strict Q T) (hs : T'.Sublist T) : Strict Q T' :=
  ⟨h.first.sublist hs, fun X hX => h.matching X (hs.subset hX)⟩

theorem Strict.disable {l r : List RouteInfo} (h : Strict Q (l ++ X :: r)) :
    Strict Q (l ++ X.setEnabled false :: r) := by
  obtain ⟨hfirst, hmatching⟩ := h
  rw [List.pairwise_append, List.pairwise_cons] at hfirst
  obtain ⟨hpl, ⟨hXr, hpr⟩, hlr⟩ := hfirst
  constructor
  · rw [List.pairwise_append, List.pairwise_cons]
    refine ⟨hpl, ⟨fun Z _ _ _ _ _ => rfl, hpr⟩, fun Y hY Z hZ => ?_⟩
    rcases List.mem_cons.1 hZ with rfl | hZ
    · intro henabled
      cases henabled
    · exact hlr Y hY Z (List.mem_cons_of_mem _ hZ)
  · intro Z hZ henabled
    rcases List.mem_append.1 hZ with hZ | hZ
    · exact hmatching Z (List.mem_append_left _ hZ) henabled
    rcases List.mem_cons.1 hZ with rfl | hZ
    · cases henabled
    · exact hmatching Z (List.mem_append_right _ (List.mem_cons_of_mem _ hZ)) henabled

theorem Strict.append_of_nil (h : Strict Q T) (hM : M.originalRouteInfos = []) :
    Strict Q (T ++ [M]) := by
  constructor
  · rw [List.pairwise_append]
    refine ⟨h.first, List.pairwise_singleton _ _, fun Y _ Z hZ _ o ho => ?_⟩
    rw [List.mem_singleton.1 hZ, hM] at ho
    cases ho
  · intro Z hZ henabled o ho
    rcases List.mem_append.1 hZ with hZ | hZ
    · exact h.matching Z hZ henabled o ho
    · rw [List.mem_singleton.1 hZ, hM] at ho
      cases ho

theorem Strict.merge {N N' : List RouteInfo} (h : Strict Q (N' ++ [M]))
    (hT : Strict Q (N ++ C₂)) (hshape : List.Forall₂ Shape N N') (hM : M.enabled = true)
    (henabled : ∀ X ∈ C₂, X.enabled = true)
    (hcolor : ∀ o ∈ attached C₂, M.isMatching o.destination = true → M.color = o.color) :
    Strict Q (N' ++ M.takeOver C₂ :: C₂.map M.release) := by
  obtain ⟨hfirst, hmatching⟩ := h
  obtain ⟨hfirstT, hmatchingT⟩ := hT
  rw [List.pairwise_append] at hfirst hfirstT
  obtain ⟨hN', -, hN'M⟩ := hfirst
  obtain ⟨-, hC₂, hNC₂⟩ := hfirstT
  -- no route before the merged one matches an original route of a route behind it
  have hbefore : ∀ Y ∈ N', ∀ X ∈ C₂, ∀ o ∈ X.originalRouteInfos, Q o →
      Y.isMatching o.destination = false := by
    intro Y' hY' X hX o ho hQ
    obtain ⟨Y, hY, hYY'⟩ := exists_of_mem_right hshape hY'
    rw [hYY'.isMatching]
    exact hNC₂ Y hY X hX (henabled X hX) o ho hQ
  constructor
  · rw [List.pairwise_append, List.pairwise_cons]
    refine ⟨hN', ⟨fun X' hX' _ o ho hQ => ?_, ?_⟩, fun Y hY Z hZ _ o ho hQ => ?_⟩
    · obtain ⟨X, hX, rfl⟩ := List.mem_map.1 hX'
      have hnot := (List.mem_filter.1 ho).2
      rw [Bool.not_eq_true'] at hnot
      exact hnot
    · rw [List.pairwise_map]
      refine hC₂.imp fun hYX hX o ho hQ => ?_
      exact hYX hX o (List.mem_filter.1 ho).1 hQ
    · rcases List.mem_cons.1 hZ with rfl | hZ
      · rcases List.mem_append.1 ho with ho | ho
        · exact hN'M Y hY M (List.mem_singleton_self M) hM o ho hQ
        · obtain ⟨X, hX, hoX⟩ := List.mem_flatMap.1 (List.mem_filter.1 ho).1
          exact hbefore Y hY X hX o hoX hQ
      · obtain ⟨X, hX, rfl⟩ := List.mem_map.1 hZ
        exact hbefore Y hY X hX o (List.mem_filter.1 ho).1 hQ
  · intro Z hZ hZenabled o ho
    rcases List.mem_append.1 hZ with hZ | hZ
    · exact hmatching Z (List.mem_append_left _ hZ) hZenabled o ho
    rcases List.mem_cons.1 hZ with rfl | hZ
    · rcases List.mem_append.1 ho with ho | ho
      · exact hmatching M (List.mem_append_right _ (List.mem_singleton_self M)) hM o ho
      · obtain ⟨ho, hmatch⟩ := List.mem_filter.1 ho
        exact ⟨hmatch, hcolor o ho hmatch⟩
    · obtain ⟨X, hX, rfl⟩ := List.mem_map.1 hZ
      exact hmatchingT X (List.mem_append_right _ hX) (henabled X hX) o (List.mem_filter.1 ho).1

end Strict

/-- The table between two attempts. -/
structure Valid (Q : OriginalRouteInfo → Prop) (os : List OriginalRouteInfo)
    (T : List RouteInfo) : Prop where
  enabled : ∀ X ∈ T, X.enabled = true
  sorted : (T.map key).Pairwise (· ≤ ·)
  noHostBits : ∀ X ∈ T, NoHostBits X
  strict : Strict Q T
  perm : (attached T).Perm os

section Insert

theorem exists_split {α : Type} (p : α → Bool) (xs : List α) :
    ∃ l r, xs = l ++ r ∧ (∀ x ∈ l, p x = false) ∧ ∀ x ∈ r.head?, p x = true := by
  induction xs with
  | nil => exact ⟨[], [], rfl, by simp, by simp⟩
  | cons x xs ih =>
    cases hx : p x with
    | true => exact ⟨[], x :: xs, rfl, by simp, by simpa using hx⟩
    | false =>
      obtain ⟨l, r, rfl, hl, hr⟩ := ih
      exact ⟨x :: l, r, rfl, List.forall_mem_cons.2 ⟨hx, hl⟩, hr⟩

theorem findIdx_append_eq {α : Type} {p : α → Bool} {l r : List α} (hl : ∀ x ∈ l, p x = false)
    (hr : ∀ x ∈ r.head?, p x = true) : (l ++ r).findIdx p = l.length := by
  induction l with
  | nil =>
    cases r with
    | nil => rfl
    | cons x r => simp [List.findIdx_cons, hr x rfl]
  | cons x l ih =>
    rw [List.forall_mem_cons] at hl
    simp [List.findIdx_cons, hl.1, ih hl.2]

/-- The routes before the merged one, with the two routes turned off. -/
def routesBefore (A : List RouteInfo) (J : RouteInfo) (B : List RouteInfo) (I : RouteInfo)
    (C₁ : List RouteInfo) : List RouteInfo :=
  A ++ J.setEnabled false :: (B ++ I.setEnabled false :: C₁)

theorem exists_addRouteInfo_eq {C : List RouteInfo}
    (hsorted : ((A ++ J :: (B ++ I :: C)).map key).Pairwise (· ≤ ·)) (hM : key I ≤ key M) :
    ∃ C₁ C₂, C = C₁ ++ C₂ ∧
      addRouteInfo (A ++ J.setEnabled false :: (B ++ I.setEnabled false :: C)) M =
        ((routesBefore A J B I C₁).length, routesBefore A J B I C₁ ++ M :: C₂) ∧
      (∀ X ∈ routesBefore A J B I C₁, key X ≤ key M) ∧ ∀ X ∈ C₂, key M ≤ key X := by
  obtain ⟨C₁, C₂, rfl, hC₁, hC₂⟩ := exists_split (fun other => routeInfoLessThan M other) C
  simp only [List.map_append, List.map_cons, List.pairwise_append, List.pairwise_cons] at hsorted
  obtain ⟨-, ⟨hJ, -, ⟨hI, -, hp₂, -⟩, hB⟩, hA⟩ := hsorted
  have hnot : ∀ X, key X ≤ key M → routeInfoLessThan M X = false := by
    intro X hX
    rw [← Bool.not_eq_true, routeInfoLessThan_iff]
    omega
  have hkeys : ∀ X ∈ routesBefore A J B I C₁, key X ≤ key M := by
    intro X hX
    have hI' : key X ≤ key I ∨ X ∈ C₁ := by
      unfold routesBefore at hX
      simp only [List.mem_append, List.mem_cons] at hX
      rcases hX with hX | rfl | hX | rfl | hX
      · exact Or.inl (hA _ (List.mem_map_of_mem hX) _ (by simp))
      · exact Or.inl (hJ _ (by simp))
      · exact Or.inl (hB _ (List.mem_map_of_mem hX) _ (by simp))
      · exact Or.inl le_rfl
      · exact Or.inr hX
    rcases hI' with hI' | hX
    · exact hI'.trans hM
    · have hle := hC₁ X hX
      rw [← Bool.not_eq_true, routeInfoLessThan_iff] at hle
      omega
  refine ⟨C₁, C₂, rfl, ?_, hkeys, fun X hX => ?_⟩
  · have hT : A ++ J.setEnabled false :: (B ++ I.setEnabled false :: (C₁ ++ C₂)) =
        routesBefore A J B I C₁ ++ C₂ := by
      simp [routesBefore]
    unfold addRouteInfo upperBound
    rw [hT, findIdx_append_eq (fun X hX => hnot X (hkeys X hX)) hC₂, insertIdx_length_append]
  · cases C₂ with
    | nil => cases hX
    | cons Z C₂ =>
      have hlt := routeInfoLessThan_iff.1 (hC₂ Z rfl)
      rcases List.mem_cons.1 hX with rfl | hX
      · exact hlt.le
      · rw [List.map_cons, List.pairwise_cons] at hp₂
        exact hlt.le.trans (hp₂.1 _ (List.mem_map_of_mem hX))

end Insert

section Merge

variable {i j m : ℕ}

theorem exists_of_mergeAt_eq_ok (hi : i = A.length + 1 + B.length) (hj : j = A.length)
    (hm : m = (routesBefore A J B I C₁).length) (hM : M.enabled = true)
    (h : mergeAt (routesBefore A J B I C₁ ++ M :: C₂) i j m I J = .ok T') :
    ∃ A' B' C₁' M', Attaches Q (I.originalRouteInfos ++ J.originalRouteInfos)
        (routesBefore A J B I C₁ ++ [M]) (routesBefore A' J B' I C₁' ++ [M']) ∧
      List.Forall₂ Shape A A' ∧ List.Forall₂ Shape B B' ∧ List.Forall₂ Shape C₁ C₁' ∧
      Shape M M' ∧
      T' = (A' ++ (B' ++ C₁')) ++ M'.takeOver C₂ :: C₂.map M'.release ∧
      ∀ o ∈ attached C₂, M'.isMatching o.destination = true → M'.color = o.color := by
  have htake : ∀ L : List RouteInfo, L.length = m + 1 → (L ++ C₂).take (m + 1) = L :=
    fun L hL => List.take_left' hL
  have hdrop : ∀ L : List RouteInfo, L.length = m + 1 → (L ++ C₂).drop (m + 1) = C₂ :=
    fun L hL => List.drop_left' hL
  have hlen₀ : (routesBefore A J B I C₁ ++ [M]).length = m + 1 := by
    rw [List.length_append, hm, List.length_singleton]
  unfold mergeAt at h
  rw [show routesBefore A J B I C₁ ++ M :: C₂ = (routesBefore A J B I C₁ ++ [M]) ++ C₂ by simp]
    at h
  obtain ⟨T₁, hT₁, h⟩ := Error.exists_of_bind_eq_ok h
  unfold addOriginalRouteInfos at hT₁
  rw [htake _ hlen₀, hdrop _ hlen₀] at hT₁
  obtain ⟨L₁, hL₁, hT₁⟩ := Error.exists_of_bind_eq_ok hT₁
  obtain rfl := Except.ok.inj hT₁
  have hlen₁ : L₁.length = m + 1 := by
    have hshape : Attaches Q I.originalRouteInfos _ L₁ := attaches_of_foldlM_eq_ok hL₁
    rw [← hshape.shape.length_eq, hlen₀]
  obtain ⟨T₂, hT₂, h⟩ := Error.exists_of_bind_eq_ok h
  unfold addOriginalRouteInfos at hT₂
  rw [htake _ hlen₁, hdrop _ hlen₁] at hT₂
  obtain ⟨L₂, hL₂, hT₂⟩ := Error.exists_of_bind_eq_ok hT₂
  obtain rfl := Except.ok.inj hT₂
  have hattaches : Attaches Q (I.originalRouteInfos ++ J.originalRouteInfos)
      (routesBefore A J B I C₁ ++ [M]) L₂ := by
    apply attaches_of_foldlM_eq_ok
    rw [List.foldlM_append, hL₁]
    exact hL₂
  have hlen₂ : L₂.length = m + 1 := by rw [← hattaches.shape.length_eq, hlen₀]
  -- the two routes are turned off, so nothing has been attached to them
  have hshape := hattaches.shape
  obtain ⟨P, R, rfl, hP, hR⟩ := exists_of_forall₂_append hshape
  obtain ⟨M', R, rfl, hMM', hR⟩ := exists_of_forall₂_cons hR
  cases hR
  unfold routesBefore at hP
  obtain ⟨A', P, rfl, hA, hP⟩ := exists_of_forall₂_append hP
  obtain ⟨J', P, rfl, hJ, hP⟩ := exists_of_forall₂_cons hP
  obtain ⟨B', P, rfl, hB, hP⟩ := exists_of_forall₂_append hP
  obtain ⟨I', C₁', rfl, hI, hC₁⟩ := exists_of_forall₂_cons hP
  obtain rfl := hJ.disabled rfl
  obtain rfl := hI.disabled rfl
  refine ⟨A', B', C₁', M', hattaches, hA, hB, hC₁, hMM', ?_⟩
  set P := A' ++ J.setEnabled false :: (B' ++ I.setEnabled false :: C₁') with hPdef
  have hlenP : P.length = m := by
    rw [List.length_append, List.length_singleton] at hlen₂
    omega
  have hget : ((P ++ [M']) ++ C₂)[m]? = some M' := by
    rw [← hlenP, List.append_assoc, List.getElem?_append_right le_rfl, Nat.sub_self]
    rfl
  rw [hget] at h
  dsimp only at h
  rw [hdrop _ hlen₂, List.append_assoc, List.take_left' hlenP] at h
  obtain ⟨⟨M'', C₂'⟩, hmove, h⟩ := Error.exists_of_bind_eq_ok h
  obtain rfl := Except.ok.inj h
  obtain ⟨rfl, rfl, hcolor⟩ := of_moveOriginalRouteInfos_eq_ok (hMM'.enabled.trans hM) hmove
  refine ⟨?_, hcolor⟩
  dsimp only
  have hlenA := hA.length_eq
  have hlenB := hB.length_eq
  have hi' : i = (A' ++ J.setEnabled false :: B').length := by
    rw [List.length_append, List.length_cons]
    omega
  have hj' : j = A'.length := by omega
  rw [hPdef, hi', show (A' ++ J.setEnabled false :: (B' ++ I.setEnabled false :: C₁')) ++
      M'.takeOver C₂ :: C₂.map M'.release = (A' ++ J.setEnabled false :: B') ++
        I.setEnabled false :: (C₁' ++ M'.takeOver C₂ :: C₂.map M'.release) by simp,
    eraseIdx_append_cons, hj', List.append_assoc, List.cons_append, eraseIdx_append_cons]
  simp

theorem map_key_eq {N N' : List RouteInfo} (h : List.Forall₂ Shape N N') :
    N'.map key = N.map key := by
  induction h with
  | nil => rfl
  | cons hshape _ ih => rw [List.map_cons, List.map_cons, hshape.key, ih]

theorem Valid.of_mergeAt_eq_ok (h : Valid Q os (A ++ J :: (B ++ I :: (C₁ ++ C₂))))
    (hi : i = A.length + 1 + B.length) (hj : j = A.length)
    (hm : m = (routesBefore A J B I C₁).length) (hM : M.enabled = true)
    (hnil : M.originalRouteInfos = []) (hhost : NoHostBits M)
    (hbefore : ∀ X ∈ routesBefore A J B I C₁, key X ≤ key M) (hafter : ∀ X ∈ C₂, key M ≤ key X)
    (hmerge : mergeAt (routesBefore A J B I C₁ ++ M :: C₂) i j m I J = .ok T') :
    Valid Q os T' ∧ T'.length + 1 = (A ++ J :: (B ++ I :: (C₁ ++ C₂))).length := by
  obtain ⟨A', B', C₁', M', hattaches, hA, hB, hC₁, hMM', rfl, hcolor⟩ :=
    exists_of_mergeAt_eq_ok (Q := Q) hi hj hm hM hmerge
  have hN : List.Forall₂ Shape (A ++ (B ++ C₁)) (A' ++ (B' ++ C₁')) :=
    List.rel_append hA (List.rel_append hB hC₁)
  have hsub : (A ++ (B ++ C₁) ++ C₂).Sublist (A ++ J :: (B ++ I :: (C₁ ++ C₂))) := by
    rw [List.append_assoc, List.append_assoc]
    refine List.Sublist.append_left ?_ A
    refine List.Sublist.cons J (List.Sublist.append_left ?_ B)
    exact List.Sublist.cons I (List.Sublist.refl _)
  have henabled : ∀ X ∈ A ++ (B ++ C₁) ++ C₂, X.enabled = true :=
    fun X hX => h.enabled X (hsub.subset hX)
  have hM' : M'.enabled = true := hMM'.enabled.trans hM
  have hkeyM : key M' = key M := hMM'.key
  refine ⟨⟨?_, ?_, ?_, ?_, ?_⟩, ?_⟩
  · intro X hX
    rcases List.mem_append.1 hX with hX | hX
    · obtain ⟨Y, hY, hshape⟩ := exists_of_mem_right hN hX
      rw [hshape.enabled]
      exact henabled Y (List.mem_append_left _ hY)
    rcases List.mem_cons.1 hX with rfl | hX
    · exact hM'
    · obtain ⟨Y, hY, rfl⟩ := List.mem_map.1 hX
      exact henabled Y (List.mem_append_right _ hY)
  · have hkeys := map_key_eq hN
    have hrelease : (C₂.map M'.release).map key = C₂.map key := by
      rw [List.map_map]
      rfl
    have hsorted := h.sorted.sublist (hsub.map key)
    rw [List.map_append, List.pairwise_append] at hsorted
    rw [List.map_append, List.map_cons, hkeys, hrelease, List.pairwise_append, List.pairwise_cons]
    refine ⟨hsorted.1, ⟨fun k hk => ?_, hsorted.2.1⟩, fun k hk l hl => ?_⟩
    · obtain ⟨X, hX, rfl⟩ := List.mem_map.1 hk
      exact hkeyM.le.trans (hafter X hX)
    · rcases List.mem_cons.1 hl with rfl | hl
      · obtain ⟨X, hX, rfl⟩ := List.mem_map.1 hk
        refine (hbefore X ?_).trans hkeyM.ge
        unfold routesBefore
        simp only [List.mem_append, List.mem_cons] at hX ⊢
        tauto
      · exact hsorted.2.2 k hk l hl
  · intro X hX
    rcases List.mem_append.1 hX with hX | hX
    · obtain ⟨Y, hY, hshape⟩ := exists_of_mem_right hN hX
      have hhostY := h.noHostBits Y (hsub.subset (List.mem_append_left _ hY))
      unfold NoHostBits at hhostY ⊢
      rw [hshape.destination, hshape.netmask, hhostY]
    rcases List.mem_cons.1 hX with rfl | hX
    · unfold NoHostBits at hhost ⊢
      change M'.destination &&& M'.netmask = M'.destination
      rw [hMM'.destination, hMM'.netmask, hhost]
    · obtain ⟨Y, hY, rfl⟩ := List.mem_map.1 hX
      exact h.noHostBits Y (hsub.subset (List.mem_append_right _ hY))
  · have hdisabled : Strict Q (routesBefore A J B I C₁ ++ [M]) := by
      refine Strict.append_of_nil ?_ hnil
      have hstrict := h.strict.disable
      rw [show A ++ J.setEnabled false :: (B ++ I :: (C₁ ++ C₂)) =
        (A ++ J.setEnabled false :: B) ++ I :: (C₁ ++ C₂) by simp] at hstrict
      refine hstrict.disable.sublist ?_
      rw [show routesBefore A J B I C₁ = (A ++ J.setEnabled false :: B) ++
        I.setEnabled false :: C₁ by simp [routesBefore]]
      exact List.Sublist.append_left ((List.sublist_append_left C₁ C₂).cons_cons _) _
    refine Strict.merge (N := A ++ (B ++ C₁)) ?_ (h.strict.sublist hsub) hN hM'
      (fun X hX => henabled X (List.mem_append_right _ hX)) hcolor
    refine (hattaches.strict hdisabled).sublist ?_
    refine List.Sublist.append_right ?_ [M']
    unfold routesBefore
    refine List.Sublist.append_left ?_ A'
    refine List.Sublist.cons _ (List.Sublist.append_left ?_ B')
    exact List.Sublist.cons _ (List.Sublist.refl _)
  · have hperm := hattaches.perm
    have hos := h.perm
    have htake := perm_takeOver M' C₂
    rw [List.perm_iff_count] at hperm hos htake ⊢
    intro o
    have h₁ := hperm o
    have h₂ := hos o
    have h₃ := htake o
    unfold routesBefore at h₁
    simp only [attached_append, attached_cons, List.count_append, hnil, RouteInfo.setEnabled,
      List.count_nil] at h₁ h₂ h₃ ⊢
    have hzero : ∀ p, List.count p (attached []) = 0 := fun p => rfl
    simp only [hzero] at h₁
    omega
  · have h₁ := hA.length_eq
    have h₂ := hB.length_eq
    have h₃ := hC₁.length_eq
    simp only [List.length_append, List.length_cons, List.length_map]
    omega

end Merge

end Inet.Ipv4NetworkConfigurator
