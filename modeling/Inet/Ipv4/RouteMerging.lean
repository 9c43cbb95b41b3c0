import Inet.Ipv4.RouteOptimizer

/-! # Merging two routes

The merged route takes a place behind the two, and the original routes move to
the routes that match them first.
-/

namespace Inet.Ipv4NetworkConfigurator

open Ipv4

variable {T : List RouteInfo} {r r' : RouteInfo} {d : Ipv4Address} {o : OriginalRouteInfo}

section Prefix

theorem isMatching_iff : r.isMatching d ↔ r.enabled = true ∧
    ∀ k, r.netmask.getLsbD k → d.getLsbD k = r.destination.getLsbD k := by
  unfold RouteInfo.isMatching
  rw [Bool.and_eq_true, beq_iff_eq]
  apply and_congr_right
  intro _
  constructor
  · intro h k hk
    have hbit := congrArg (fun v => v.getLsbD k) h
    simp only [BitVec.getLsbD_and, BitVec.getLsbD_xor, hk, Bool.and_true] at hbit
    simpa using hbit
  · intro h
    apply BitVec.eq_of_getLsbD_eq
    intro k _
    cases hk : r.netmask.getLsbD k with
    | false => simp [BitVec.getLsbD_and, hk]
    | true => simp [BitVec.getLsbD_and, h k hk]

theorem and_twoPow_eq_iff {x y : Ipv4Address} {k : ℕ} (hk : k < 32) :
    x &&& BitVec.twoPow 32 k = y &&& BitVec.twoPow 32 k ↔ x.getLsbD k = y.getLsbD k := by
  constructor
  · intro h
    have hbit := congrArg (fun v => v.getLsbD k) h
    simpa [BitVec.getLsbD_and, BitVec.getLsbD_twoPow, hk] using hbit
  · intro h
    apply BitVec.eq_of_getLsbD_eq
    intro l _
    simp only [BitVec.getLsbD_and, BitVec.getLsbD_twoPow]
    by_cases hl : k = l
    · rw [← hl, h]
    · simp [hl]

theorem and_twoPow_ne_zero_iff {x : Ipv4Address} {k : ℕ} (hk : k < 32) :
    x &&& BitVec.twoPow 32 k ≠ 0 ↔ x.getLsbD k = true := by
  have hzero : (0 : Ipv4Address) &&& BitVec.twoPow 32 k = 0 := BitVec.zero_and
  have h := and_twoPow_eq_iff (x := x) (y := 0) hk
  rw [hzero] at h
  rw [Ne, h]
  simp

/-- The bits of a common prefix are those of the two networks. -/
structure IsCommon (d₁ m₁ d₂ m₂ : Ipv4Address) (out : Ipv4Address × Ipv4Address) : Prop where
  netmask : ∀ k, out.2.getLsbD k → m₁.getLsbD k ∧ m₂.getLsbD k ∧ d₁.getLsbD k = d₂.getLsbD k
  destination : ∀ k, out.1.getLsbD k = (out.2.getLsbD k && d₁.getLsbD k)

theorem isCommon_commonPrefixLoop {d₁ m₁ d₂ m₂ : Ipv4Address} :
    ∀ (n : ℕ) (out : Ipv4Address × Ipv4Address), n ≤ 32 → IsCommon d₁ m₁ d₂ m₂ out →
      IsCommon d₁ m₁ d₂ m₂ (commonPrefixLoop d₁ m₁ d₂ m₂ n out)
  | 0, _, _, h => h
  | n + 1, (destinationOut, netmaskOut), hn, h => by
    unfold commonPrefixLoop
    dsimp only
    split_ifs with hbits
    · obtain ⟨hd, h₁, h₂⟩ := hbits
      rw [and_twoPow_eq_iff (by omega)] at hd
      rw [and_twoPow_ne_zero_iff (by omega)] at h₁ h₂
      refine isCommon_commonPrefixLoop n _ (by omega) ⟨fun k hk => ?_, fun k => ?_⟩
      · rw [BitVec.getLsbD_or, Bool.or_eq_true, BitVec.getLsbD_twoPow] at hk
        rcases hk with hk | hk
        · exact h.netmask k hk
        · simp only [Bool.and_eq_true, decide_eq_true_eq] at hk
          obtain rfl := hk.2
          exact ⟨h₁, h₂, hd⟩
      · have hk := h.destination k
        simp only [BitVec.getLsbD_or, BitVec.getLsbD_and, BitVec.getLsbD_twoPow] at hk ⊢
        rw [hk]
        cases netmaskOut.getLsbD k <;> cases d₁.getLsbD k <;> simp
    · exact h

theorem isCommon_find (d₁ m₁ d₂ m₂ : Ipv4Address) :
    IsCommon d₁ m₁ d₂ m₂ (findLongestCommonDestinationPrefix d₁ m₁ d₂ m₂) :=
  isCommon_commonPrefixLoop 32 (0, 0) le_rfl ⟨by simp, by simp⟩

variable {I J : RouteInfo}

theorem isCommon_mergedRouteInfo (I J : RouteInfo) :
    IsCommon I.destination I.netmask J.destination J.netmask
      ((mergedRouteInfo I J).destination, (mergedRouteInfo I J).netmask) :=
  isCommon_find _ _ _ _

theorem isMatching_mergedRouteInfo (h : I.isMatching d ∨ J.isMatching d) :
    (mergedRouteInfo I J).isMatching d := by
  have hc := isCommon_mergedRouteInfo I J
  refine isMatching_iff.2 ⟨rfl, fun k hk => ?_⟩
  obtain ⟨hI, hJ, hd⟩ := hc.netmask k hk
  have hdest := hc.destination k
  dsimp only at hdest
  rw [hk, Bool.true_and] at hdest
  rw [hdest]
  rcases h with h | h
  · exact (isMatching_iff.1 h).2 k hI
  · rw [hd]
    exact (isMatching_iff.1 h).2 k hJ

/-- The order of the table is that of a number. -/
def key (r : RouteInfo) : ℕ := (2 ^ 32 - 1 - r.netmask.toNat) * 2 ^ 32 + r.destination.toNat

theorem routeInfoLessThan_iff : routeInfoLessThan r r' = true ↔ key r < key r' := by
  have h₁ := r.netmask.isLt
  have h₂ := r'.netmask.isLt
  have h₃ := r.destination.isLt
  have h₄ := r'.destination.isLt
  unfold routeInfoLessThan key
  split_ifs with hne
  · have hne' : r.netmask.toNat ≠ r'.netmask.toNat := fun h => hne (BitVec.eq_of_toNat_eq h)
    rw [decide_eq_true_eq]
    omega
  · rw [not_not.1 hne, decide_eq_true_eq]
    omega

/-- A route without bits of its destination outside its netmask. -/
def NoHostBits (r : RouteInfo) : Prop := r.destination &&& r.netmask = r.destination

theorem NoHostBits.getLsbD (h : NoHostBits r) (k : ℕ) :
    (r.destination.getLsbD k && r.netmask.getLsbD k) = r.destination.getLsbD k := by
  rw [← BitVec.getLsbD_and, h]

theorem noHostBits_mergedRouteInfo (I J : RouteInfo) : NoHostBits (mergedRouteInfo I J) := by
  have hc := isCommon_mergedRouteInfo I J
  apply BitVec.eq_of_getLsbD_eq
  intro k _
  have hdest := hc.destination k
  dsimp only at hdest
  rw [BitVec.getLsbD_and, hdest]
  cases (mergedRouteInfo I J).netmask.getLsbD k <;> simp

theorem key_le_of_subset {M : RouteInfo} (hr : NoHostBits r)
    (hmask : ∀ k, M.netmask.getLsbD k → r.netmask.getLsbD k)
    (hdest : ∀ k, M.destination.getLsbD k = (M.netmask.getLsbD k && r.destination.getLsbD k)) :
    key r ≤ key M := by
  have hand : M.netmask &&& r.netmask = M.netmask := by
    apply BitVec.eq_of_getLsbD_eq
    intro k _
    rw [BitVec.getLsbD_and]
    cases hk : M.netmask.getLsbD k with
    | false => rfl
    | true => rw [hmask k hk, Bool.and_true]
  have hle : M.netmask.toNat ≤ r.netmask.toNat := by
    rw [← hand, BitVec.toNat_and]
    exact Nat.and_le_right
  have h₁ := r.netmask.isLt
  have h₃ := r.destination.isLt
  unfold key
  rcases Nat.lt_or_eq_of_le hle with hlt | heq
  · omega
  · have hmask' : M.netmask = r.netmask := BitVec.eq_of_toNat_eq heq
    have hdest' : M.destination = r.destination := by
      apply BitVec.eq_of_getLsbD_eq
      intro k _
      rw [hdest, hmask', Bool.and_comm, hr.getLsbD]
    rw [hmask', hdest']

theorem key_le_mergedRouteInfo_left (hI : NoHostBits I) : key I ≤ key (mergedRouteInfo I J) := by
  have hc := isCommon_mergedRouteInfo I J
  exact key_le_of_subset hI (fun k hk => (hc.netmask k hk).1) hc.destination

end Prefix

section Lists

variable {α : Type} {R : α → α → Prop}

theorem modify_append_cons (l r : List α) (x : α) (f : α → α) :
    (l ++ x :: r).modify l.length f = l ++ f x :: r := by
  induction l with
  | nil => rfl
  | cons y l ih => simp [ih]

theorem eraseIdx_append_cons (l r : List α) (x : α) :
    (l ++ x :: r).eraseIdx l.length = l ++ r := by
  induction l with
  | nil => rfl
  | cons y l ih => simp [ih]

theorem insertIdx_length_append (l r : List α) (x : α) :
    (l ++ r).insertIdx l.length x = l ++ x :: r := by
  induction l with
  | nil => cases r <;> rfl
  | cons y l ih => simp [ih]

theorem exists_append_cons_of_getElem? {xs : List α} {x : α} {i : ℕ} (h : xs[i]? = some x) :
    ∃ l r, xs = l ++ x :: r ∧ l.length = i := by
  obtain ⟨hi, rfl⟩ := List.getElem?_eq_some_iff.1 h
  refine ⟨xs.take i, xs.drop (i + 1), ?_, ?_⟩
  · rw [List.getElem_cons_drop, List.take_append_drop]
  · rw [List.length_take]
    omega

theorem exists_of_mem_right {l l' : List α} {x' : α} (h : List.Forall₂ R l l') (hx : x' ∈ l') :
    ∃ x ∈ l, R x x' := by
  induction h with
  | nil => cases hx
  | cons hr _ ih =>
    rcases List.mem_cons.1 hx with rfl | hx
    · exact ⟨_, List.mem_cons_self, hr⟩
    · obtain ⟨x, hmem, hx⟩ := ih hx
      exact ⟨x, List.mem_cons_of_mem _ hmem, hx⟩

theorem exists_of_forall₂_cons {r xs : List α} {x : α} (h : List.Forall₂ R (x :: r) xs) :
    ∃ x' r', xs = x' :: r' ∧ R x x' ∧ List.Forall₂ R r r' := by
  cases h with
  | cons hx hr => exact ⟨_, _, rfl, hx, hr⟩

theorem exists_of_forall₂_append {l r xs : List α} (h : List.Forall₂ R (l ++ r) xs) :
    ∃ l' r', xs = l' ++ r' ∧ List.Forall₂ R l l' ∧ List.Forall₂ R r r' := by
  induction l generalizing xs with
  | nil => exact ⟨[], xs, rfl, List.Forall₂.nil, h⟩
  | cons x l ih =>
    obtain ⟨x', xs', rfl, hx, hrest⟩ := exists_of_forall₂_cons h
    obtain ⟨l', r', rfl, hl, hr⟩ := ih hrest
    exact ⟨x' :: l', r', rfl, List.Forall₂.cons hx hl, hr⟩

end Lists

section Attach

/-- A route that has got or lost original routes. -/
structure Shape (r r' : RouteInfo) : Prop where
  color : r'.color = r.color
  enabled : r'.enabled = r.enabled
  destination : r'.destination = r.destination
  netmask : r'.netmask = r.netmask
  disabled : r.enabled = false → r' = r

theorem Shape.refl (r : RouteInfo) : Shape r r := ⟨rfl, rfl, rfl, rfl, fun _ => rfl⟩

theorem Shape.trans {r'' : RouteInfo} (h : Shape r r') (h' : Shape r' r'') : Shape r r'' where
  color := h'.color.trans h.color
  enabled := h'.enabled.trans h.enabled
  destination := h'.destination.trans h.destination
  netmask := h'.netmask.trans h.netmask
  disabled hr := (h'.disabled (h.enabled.trans hr)).trans (h.disabled hr)

theorem Shape.isMatching (h : Shape r r') (d : Ipv4Address) : r'.isMatching d = r.isMatching d := by
  unfold RouteInfo.isMatching
  rw [h.enabled, h.destination, h.netmask]

theorem Shape.key (h : Shape r r') : key r' = key r := by
  unfold Ipv4NetworkConfigurator.key
  rw [h.destination, h.netmask]

theorem forall₂_shape_refl (T : List RouteInfo) : List.Forall₂ Shape T T :=
  List.forall₂_same.2 fun r _ => Shape.refl r

theorem forall₂_shape_trans {T T' T'' : List RouteInfo} (h : List.Forall₂ Shape T T')
    (h' : List.Forall₂ Shape T' T'') : List.Forall₂ Shape T T'' := by
  induction h generalizing T'' with
  | nil => exact h'
  | cons hr _ ih =>
    obtain ⟨r'', rest, rfl, hr'', hrest⟩ := exists_of_forall₂_cons h'
    exact List.Forall₂.cons (hr.trans hr'') (ih hrest)

/-- The original route is attached to the first route that matches it. -/
def RouteInfo.attach (this : RouteInfo) (o : OriginalRouteInfo) : RouteInfo :=
  { this with originalRouteInfos := this.originalRouteInfos ++ [o] }

/-- The first route that matches a destination has the color of the original route. -/
def Routed (T : List RouteInfo) (o : OriginalRouteInfo) : Prop :=
  ∃ l X r, T = l ++ X :: r ∧ (∀ Y ∈ l, Y.isMatching o.destination = false) ∧
    X.isMatching o.destination = true ∧ X.color = o.color

theorem Routed.mono {T' : List RouteInfo} (h : Routed T o) (hshape : List.Forall₂ Shape T T') :
    Routed T' o := by
  obtain ⟨l, X, r, rfl, hl, hX, hcolor⟩ := h
  obtain ⟨l', r', rfl, hl', hr'⟩ := exists_of_forall₂_append hshape
  obtain ⟨X', r', rfl, hX', -⟩ := exists_of_forall₂_cons hr'
  refine ⟨l', X', r', rfl, fun Y' hY' => ?_, ?_, ?_⟩
  · obtain ⟨Y, hY, hshape⟩ := exists_of_mem_right hl' hY'
    rw [hshape.isMatching]
    exact hl Y hY
  · rw [hX'.isMatching]
    exact hX
  · rw [hX'.color]
    exact hcolor

/-- One turn of `addOriginalRouteInfos`. -/
theorem of_addOriginalRouteInfo_eq_ok {T' : List RouteInfo}
    (h : addOriginalRouteInfo o T = .ok T') :
    ∃ l X r, T = l ++ X :: r ∧ T' = l ++ X.attach o :: r ∧
      (∀ Y ∈ l, Y.isMatching o.destination = false) ∧ X.isMatching o.destination = true ∧
      X.color = o.color := by
  induction T generalizing T' with
  | nil => cases h
  | cons r T ih =>
    unfold addOriginalRouteInfo at h
    split_ifs at h with hr
    · obtain ⟨_, hcolor, h⟩ := Error.exists_of_bind_eq_ok h
      obtain rfl := Except.ok.inj h
      exact ⟨[], r, T, rfl, rfl, by simp, hr, Error.of_assert_eq_ok hcolor⟩
    · obtain ⟨T'', hT'', h⟩ := Error.exists_of_bind_eq_ok h
      obtain rfl := Except.ok.inj h
      obtain ⟨l, X, r', rfl, rfl, hl, hX⟩ := ih hT''
      refine ⟨r :: l, X, r', rfl, rfl, ?_, hX⟩
      exact List.forall_mem_cons.2 ⟨by simpa using hr, hl⟩

theorem exists_addOriginalRouteInfo_eq_ok (h : Routed T o) :
    ∃ T', addOriginalRouteInfo o T = .ok T' := by
  obtain ⟨l, X, r, rfl, hl, hX, hcolor⟩ := h
  induction l with
  | nil =>
    refine ⟨X.attach o :: r, ?_⟩
    rw [List.nil_append, addOriginalRouteInfo, if_pos hX, Error.assert_of_pos hcolor]
    rfl
  | cons Y l ih =>
    rw [List.forall_mem_cons] at hl
    obtain ⟨T', hT'⟩ := ih hl.2
    refine ⟨Y :: T', ?_⟩
    rw [List.cons_append, addOriginalRouteInfo, if_neg (by simp [hl.1]), hT']
    rfl

/-- The original routes of a table. -/
def attached (T : List RouteInfo) : List OriginalRouteInfo :=
  T.flatMap RouteInfo.originalRouteInfos

theorem attached_append {T' : List RouteInfo} : attached (T ++ T') = attached T ++ attached T' :=
  List.flatMap_append

theorem attached_cons : attached (r :: T) = r.originalRouteInfos ++ attached T := rfl

/-- The original routes that are attached to an enabled route are matched by it and have its color.
It is the first route that matches those that are of interest. -/
structure Strict (Q : OriginalRouteInfo → Prop) (T : List RouteInfo) : Prop where
  first : T.Pairwise fun Y X => X.enabled = true → ∀ o ∈ X.originalRouteInfos, Q o →
    Y.isMatching o.destination = false
  matching : ∀ X ∈ T, X.enabled = true → ∀ o ∈ X.originalRouteInfos,
    X.isMatching o.destination = true ∧ X.color = o.color

variable {Q : OriginalRouteInfo → Prop}

theorem strict_attach {l r : List RouteInfo} {X : RouteInfo} (h : Strict Q (l ++ X :: r))
    (hl : ∀ Y ∈ l, Y.isMatching o.destination = false) (hX : X.isMatching o.destination = true)
    (hcolor : X.color = o.color) : Strict Q (l ++ X.attach o :: r) := by
  obtain ⟨hfirst, hmatching⟩ := h
  rw [List.pairwise_append, List.pairwise_cons] at hfirst
  obtain ⟨hpl, ⟨hXr, hpr⟩, hlr⟩ := hfirst
  have hmem : ∀ p ∈ (X.attach o).originalRouteInfos, p ∈ X.originalRouteInfos ∨ p = o := by
    intro p hp
    rcases List.mem_append.1 hp with hp | hp
    · exact Or.inl hp
    · exact Or.inr (List.mem_singleton.1 hp)
  constructor
  · rw [List.pairwise_append, List.pairwise_cons]
    refine ⟨hpl, ⟨hXr, hpr⟩, fun Y hY Z hZ => ?_⟩
    rcases List.mem_cons.1 hZ with rfl | hZ
    · intro henabled p hp hQ
      rcases hmem p hp with hp | rfl
      · exact hlr Y hY X List.mem_cons_self henabled p hp hQ
      · exact hl Y hY
    · exact hlr Y hY Z (List.mem_cons_of_mem _ hZ)
  · intro Z hZ henabled p hp
    rcases List.mem_append.1 hZ with hZ | hZ
    · exact hmatching Z (List.mem_append_left _ hZ) henabled p hp
    rcases List.mem_cons.1 hZ with rfl | hZ
    · rcases hmem p hp with hp | rfl
      · exact hmatching X (List.mem_append_right _ List.mem_cons_self) henabled p hp
      · exact ⟨hX, hcolor⟩
    · exact hmatching Z (List.mem_append_right _ (List.mem_cons_of_mem _ hZ)) henabled p hp

theorem shape_attach {l r : List RouteInfo} {X : RouteInfo} (hX : X.isMatching d = true) :
    List.Forall₂ Shape (l ++ X :: r) (l ++ X.attach o :: r) := by
  have hshape : Shape X (X.attach o) := ⟨rfl, rfl, rfl, rfl, fun hdisabled => by
    rw [isMatching_iff, hdisabled] at hX
    cases hX.1⟩
  exact List.rel_append (forall₂_shape_refl l) (List.Forall₂.cons hshape (forall₂_shape_refl r))

theorem perm_attach {l r : List RouteInfo} {X : RouteInfo} :
    (attached (l ++ X.attach o :: r)).Perm (attached (l ++ X :: r) ++ [o]) := by
  rw [List.perm_iff_count]
  intro p
  simp only [attached_append, attached_cons, RouteInfo.attach, List.count_append]
  omega

/-- What `addOriginalRouteInfos` does to the routes before the end. -/
structure Attaches (Q : OriginalRouteInfo → Prop) (os : List OriginalRouteInfo)
    (T T' : List RouteInfo) : Prop where
  shape : List.Forall₂ Shape T T'
  perm : (attached T').Perm (attached T ++ os)
  strict : Strict Q T → Strict Q T'

theorem attaches_of_foldlM_eq_ok {os : List OriginalRouteInfo} {T' : List RouteInfo}
    (h : os.foldlM (fun T o => addOriginalRouteInfo o T) T = .ok T') : Attaches Q os T T' := by
  induction os generalizing T with
  | nil =>
    obtain rfl := Except.ok.inj h
    exact ⟨forall₂_shape_refl T, by simp, id⟩
  | cons o os ih =>
    rw [List.foldlM_cons] at h
    obtain ⟨T'', hT'', h⟩ := Error.exists_of_bind_eq_ok h
    obtain ⟨l, X, r, rfl, rfl, hl, hX, hcolor⟩ := of_addOriginalRouteInfo_eq_ok hT''
    obtain ⟨hshape, hperm, hstrict⟩ := ih h
    refine ⟨forall₂_shape_trans (shape_attach hX) hshape, ?_,
      fun hs => hstrict (strict_attach hs hl hX hcolor)⟩
    refine hperm.trans ((perm_attach.append_right os).trans ?_)
    rw [List.append_assoc, List.singleton_append]

theorem exists_foldlM_eq_ok {os : List OriginalRouteInfo} (h : ∀ o ∈ os, Routed T o) :
    ∃ T', os.foldlM (fun T o => addOriginalRouteInfo o T) T = .ok T' := by
  induction os generalizing T with
  | nil => exact ⟨T, rfl⟩
  | cons o os ih =>
    rw [List.forall_mem_cons] at h
    obtain ⟨T', hT'⟩ := exists_addOriginalRouteInfo_eq_ok h.1
    obtain ⟨l, X, r, rfl, rfl, -, hX, -⟩ := of_addOriginalRouteInfo_eq_ok hT'
    obtain ⟨T'', hT''⟩ := ih fun p hp => (h.2 p hp).mono (shape_attach hX)
    refine ⟨T'', ?_⟩
    rw [List.foldlM_cons, hT']
    exact hT''

end Attach

end Inet.Ipv4NetworkConfigurator
