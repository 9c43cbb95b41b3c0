import Inet.Ipv6.AddressGrammar

/-! # Printed addresses are read back

The loop that looks for the gap keeps the best run of zero groups behind it and
the run that it is in. The text that is printed is a strict form of the groups,
with a `::` for the leftmost longest run, unless the address is unspecified.
-/

namespace Inet.Ipv6

open Strtoul
open Ipv4 (unspec)

/-! ## The gap -/

/-- At least two zeros from `i` up to `j`, among the first `n`. -/
structure Run (zero : ℕ → Prop) (n i j : ℕ) : Prop where
  two_le : i + 2 ≤ j
  le : j ≤ n
  all : ∀ k, i ≤ k → k < j → zero k

/-- The leftmost longest run. -/
structure Best (zero : ℕ → Prop) (n start stop : ℕ) : Prop extends Run zero n start stop where
  longest : ∀ i j, Run zero n i j → j - i ≤ stop - start
  leftmost : ∀ i j, Run zero n i j → j - i = stop - start → start ≤ i

/-- The leftmost longest run, or nothing when there is no run. -/
def BestOrNone (zero : ℕ → Prop) (n start stop : ℕ) : Prop :=
  (start = 0 ∧ stop = 0 ∧ ∀ i j, ¬ Run zero n i j) ∨ Best zero n start stop

section Gap

variable {zero : ℕ → Prop} {n b start stop : ℕ}

theorem Run.split {i j : ℕ} (h : Run zero n i j) (hb : b = 0 ∨ ¬ zero (b - 1)) :
    Run zero b i j ∨ b ≤ i := by
  rcases Nat.lt_or_ge i b with hi | hi
  · refine .inl ⟨h.two_le, ?_, h.all⟩
    by_contra hj
    rcases hb with rfl | hb
    · exact absurd hi (Nat.not_lt_zero i)
    · exact hb (h.all (b - 1) (by omega) (by omega))
  · exact .inr hi

theorem Run.mono {i j : ℕ} (h : Run zero b i j) (hle : b ≤ n) : Run zero n i j :=
  ⟨h.two_le, h.le.trans hle, h.all⟩

theorem BestOrNone.extend (h : BestOrNone zero b start stop) (hle : b ≤ n)
    (hzeros : ∀ k, b ≤ k → k < n → zero k) (hb : b = 0 ∨ ¬ zero (b - 1)) :
    if n - b ≥ 2 ∧ n - b > stop - start then Best zero n b n else BestOrNone zero n start stop := by
  split_ifs with hlong
  · refine ⟨⟨by omega, le_rfl, hzeros⟩, fun i j hrun => ?_, fun i j hrun heq => ?_⟩
    · rcases hrun.split hb with hbefore | hi
      · rcases h with ⟨-, -, hnone⟩ | hbest
        · exact absurd hbefore (hnone i j)
        · have := hbest.longest i j hbefore
          omega
      · have := hrun.le
        omega
    · rcases hrun.split hb with hbefore | hi
      · rcases h with ⟨-, -, hnone⟩ | hbest
        · exact absurd hbefore (hnone i j)
        · have := hbest.longest i j hbefore
          omega
      · exact hi
  · rcases h with ⟨rfl, rfl, hnone⟩ | hbest
    · refine .inl ⟨rfl, rfl, fun i j hrun => ?_⟩
      rcases hrun.split hb with hbefore | hi
      · exact hnone i j hbefore
      · have := hrun.two_le
        have := hrun.le
        omega
    · have hlength := hbest.two_le
      refine .inr ⟨hbest.toRun.mono hle, fun i j hrun => ?_, fun i j hrun heq => ?_⟩
      · rcases hrun.split hb with hbefore | hi
        · exact hbest.longest i j hbefore
        · have := hrun.le
          omega
      · rcases hrun.split hb with hbefore | hi
        · exact hbest.leftmost i j hbefore heq
        · have := hbest.le
          omega

theorem run_succ_iff {i j : ℕ} (h : ¬ zero n) : Run zero (n + 1) i j ↔ Run zero n i j := by
  constructor
  · rintro ⟨htwo, hle, hzero⟩
    refine ⟨htwo, ?_, hzero⟩
    by_contra hj
    exact h (hzero n (by omega) (by omega))
  · exact fun hrun => hrun.mono n.le_succ

theorem BestOrNone.succ (h : BestOrNone zero n start stop) (hn : ¬ zero n) :
    BestOrNone zero (n + 1) start stop := by
  rcases h with ⟨hstart, hstop, hnone⟩ | ⟨hrun, hlongest, hleftmost⟩
  · exact .inl ⟨hstart, hstop, fun i j hrun => hnone i j ((run_succ_iff hn).1 hrun)⟩
  · exact .inr ⟨(run_succ_iff hn).2 hrun, fun i j h => hlongest i j ((run_succ_iff hn).1 h),
      fun i j h => hleftmost i j ((run_succ_iff hn).1 h)⟩

/-- The invariant of the loop before its turn for `i`: the best run before the zeros it is in. -/
structure ZeroGap.Tracks (gap : ZeroGap) (zero : ℕ → Prop) (i : ℕ) : Prop where
  best : BestOrNone zero (gap.beg.getD i) gap.start gap.stop
  le : gap.beg.getD i ≤ i
  zeros : ∀ k, gap.beg.getD i ≤ k → k < i → zero k
  boundary : gap.beg.getD i = 0 ∨ ¬ zero (gap.beg.getD i - 1)

theorem ZeroGap.Tracks.of_not_zero {i : ℕ} (h : BestOrNone zero i start stop) (hi : ¬ zero i) :
    ZeroGap.Tracks ⟨start, stop, none⟩ zero (i + 1) := by
  refine ⟨h.succ hi, le_rfl, fun k hk hlt => ?_, .inr hi⟩
  exact absurd hlt (not_lt.2 hk)

theorem ZeroGap.Tracks.turn {gap : ZeroGap} {i : ℕ} (h : gap.Tracks zero i) {group : UInt16}
    (hzero : zero i ↔ group = 0) : (gap.turn i group).Tracks zero (i + 1) := by
  obtain ⟨start, stop, beg⟩ := gap
  obtain ⟨hbest, hle, hzeros, hboundary⟩ := h
  cases beg with
  | none =>
    dsimp only [Option.getD_none] at hbest hle hzeros hboundary
    rw [ZeroGap.turn]
    dsimp only
    split_ifs with hgroup
    · refine ⟨hbest, Nat.le_succ i, fun k hk hlt => ?_, hboundary⟩
      obtain rfl : i = k := by
        dsimp only [Option.getD_some] at hk
        omega
      exact hzero.2 hgroup
    · exact .of_not_zero hbest (hgroup ∘ hzero.1)
  | some beg =>
    dsimp only [Option.getD_some] at hbest hle hzeros hboundary
    rw [ZeroGap.turn]
    dsimp only
    by_cases hgroup : group = 0
    · rw [if_neg (not_not.2 hgroup)]
      refine ⟨hbest, Nat.le_succ_of_le hle, fun k hk hlt => ?_, hboundary⟩
      rcases Nat.lt_succ_iff_lt_or_eq.1 hlt with hlt | rfl
      · exact hzeros k hk hlt
      · exact hzero.2 hgroup
    · have hnot : ¬ zero i := hgroup ∘ hzero.1
      have hextend := hbest.extend hle hzeros hboundary
      rw [if_pos hgroup]
      split_ifs at hextend ⊢ with hlong
      · exact .of_not_zero (.inr hextend) hnot
      · exact .of_not_zero hextend hnot

/-- The loop keeps the invariant. -/
theorem ZeroGap.Tracks.findGapLoop {gap : ZeroGap} {i : ℕ} (h : gap.Tracks zero i)
    {groups : List UInt16}
    (hzero : ∀ k, zero (i + k) ↔ groups[k]? = some 0) :
    (findGapLoop gap i groups).Tracks zero (i + groups.length) := by
  induction groups generalizing gap i with
  | nil => exact h
  | cons group groups ih =>
    have hturn := @turn zero gap i h group ((hzero 0).trans (by simp))
    rw [Ipv6.findGapLoop, List.length_cons, Nat.add_comm groups.length, ← Nat.add_assoc]
    refine ih hturn fun k => ?_
    rw [Nat.add_assoc, Nat.add_comm 1]
    exact hzero (k + 1)

theorem bestOrNone_findGap {groups : List UInt16} (h : groups.length = 8) :
    BestOrNone (fun k => groups[k]? = some 0) 8 (findGap groups).1 (findGap groups).2 := by
  have hstart : ZeroGap.Tracks ⟨0, 0, none⟩ (fun k => groups[k]? = some 0) 0 := by
    refine ⟨.inl ⟨rfl, rfl, fun i j hrun => ?_⟩, le_rfl, fun k _ hk => absurd hk k.not_lt_zero,
      .inl rfl⟩
    have hle : j ≤ 0 := hrun.le
    have := hrun.two_le
    omega
  have htracks := @ZeroGap.Tracks.findGapLoop _ _ 0 hstart groups fun k => by rw [Nat.zero_add]
  rw [Nat.zero_add, h] at htracks
  rw [findGap]
  generalize findGapLoop ⟨0, 0, none⟩ 0 groups = gap at htracks
  obtain ⟨start, stop, beg⟩ := gap
  obtain ⟨hbest, hle, hzeros, hboundary⟩ := htracks
  cases beg with
  | none => exact hbest
  | some beg =>
    dsimp only [Option.getD_some] at hbest hle hzeros hboundary ⊢
    have hextend := hbest.extend hle hzeros hboundary
    have hlong : (beg ≤ 6 ∧ 8 - beg > stop - start) ↔ (8 - beg ≥ 2 ∧ 8 - beg > stop - start) :=
      and_congr_left fun _ => ⟨fun hle => Nat.le_sub_of_add_le (by omega), fun hle => by omega⟩
    by_cases hif : beg ≤ 6 ∧ 8 - beg > stop - start
    · rw [if_pos (hlong.1 hif)] at hextend
      rw [if_pos hif]
      exact .inr hextend
    · rw [if_neg (hif ∘ hlong.2)] at hextend
      rw [if_neg hif]
      exact hextend

end Gap

/-! ## The printed form -/

namespace Group

variable (value : UInt16)

theorem plain_ofUInt16 : (ofUInt16 value).Plain := ⟨rfl, rfl, rfl⟩

theorem value_ofUInt16 : (ofUInt16 value).value = value := by
  have hlt := value.toNat_lt
  have hvalue : (ofUInt16 value).numeral.value = value.toNat :=
    Numeral.value_ofNat (by decide) le_rfl (by unfold ulongMax; omega)
  rw [Group.value, hvalue]
  exact UInt16.ofNat_toNat

end Group

section Groups

variable (values : List UInt16)

theorem printGroups_eq : printGroups values =
    join ':' ((values.map Group.ofUInt16).map Group.text) := by
  rw [List.map_map]
  rfl

theorem map_value_ofUInt16 : (values.map Group.ofUInt16).map Group.value = values := by
  rw [List.map_map]
  exact (List.map_congr_left fun value _ => Group.value_ofUInt16 value).trans (List.map_id values)

theorem plain_of_mem_map : ∀ group ∈ values.map Group.ofUInt16, group.Plain := by
  intro group hgroup
  obtain ⟨value, -, rfl⟩ := List.mem_map.1 hgroup
  exact Group.plain_ofUInt16 value

end Groups

theorem Ipv6Address.length_groups (address : Ipv6Address) : address.groups.length = 8 := rfl

theorem word_halves (d : UInt32) :
    ((d >>> 16).toUInt16.toUInt32 <<< 16) + (d &&& 0xffff).toUInt16.toUInt32 = d := by
  have hlt := d.toNat_lt
  have hhigh : (d >>> 16).toUInt16.toUInt32.toNat = d.toNat / 65536 := by
    simp [Nat.shiftRight_eq_div_pow]
    omega
  have hlow : (d &&& 0xffff).toUInt16.toUInt32.toNat = d.toNat % 65536 := by
    have hand : d.toNat &&& 65535 = d.toNat % 65536 := Nat.and_two_pow_sub_one_eq_mod d.toNat 16
    rw [UInt16.toNat_toUInt32, UInt32.toNat_toUInt16, UInt32.toNat_and]
    exact (congrArg (· % 65536) hand).trans (Nat.mod_mod _ _)
  refine UInt32.toNat_inj.1 ?_
  rw [UInt32.toNat_add, UInt32.toNat_shiftLeft, hhigh, hlow, Nat.shiftLeft_eq]
  change (d.toNat / 65536 * 65536 % 4294967296 + d.toNat % 65536) % 4294967296 = d.toNat
  omega

theorem Ipv6Address.ofGroups_groups (address : Ipv6Address) :
    Ipv6Address.ofGroups address.groups = address := by
  obtain ⟨d0, d1, d2, d3⟩ := address
  rw [Ipv6Address.mk.injEq]
  exact ⟨word_halves d0, word_halves d1, word_halves d2, word_halves d3⟩

theorem Ipv6Address.isUnspecified_iff (address : Ipv6Address) :
    address.isUnspecified = true ↔ address = .unspecified := by
  obtain ⟨d0, d1, d2, d3⟩ := address
  rw [Ipv6Address.isUnspecified, beq_iff_eq, Ipv6Address.unspecified, Ipv6Address.mk.injEq]
  simp only [UInt32.or_eq_zero_iff, and_assoc]

theorem Run.eq_zero {values : List UInt16}
    (h : Run (fun k => values[k]? = some 0) values.length 0 values.length) :
    ∀ value ∈ values, value = 0 := by
  intro value hvalue
  obtain ⟨k, hk⟩ := List.mem_iff_getElem?.1 hvalue
  have hlt := (List.getElem?_eq_some_iff.1 hk).1
  rw [h.all k k.zero_le hlt] at hk
  exact (Option.some.inj hk).symm

theorem Run.groups_eq {values : List UInt16} {start stop : ℕ}
    (h : Run (fun k => values[k]? = some 0) values.length start stop) :
    values.take start ++ (List.replicate (stop - start) 0 ++ values.drop stop) = values := by
  have hle := h.two_le
  have hzeros : (values.drop start).take (stop - start) = List.replicate (stop - start) 0 := by
    refine List.eq_replicate_iff.2 ⟨?_, fun value hvalue => ?_⟩
    · rw [List.length_take, List.length_drop]
      have := h.le
      omega
    · obtain ⟨k, hk⟩ := List.mem_iff_getElem?.1 hvalue
      rw [List.getElem?_take] at hk
      split_ifs at hk with hlt
      rw [List.getElem?_drop, h.all _ (by omega) (by omega)] at hk
      exact (Option.some.inj hk).symm
  have hdrop : (values.drop start).drop (stop - start) = values.drop stop := by
    rw [List.drop_drop, Nat.add_sub_of_le (by omega)]
  rw [← hzeros, ← hdrop, List.take_append_drop, List.take_append_drop]

theorem Run.groups_compressed {values : List UInt16} {start stop : ℕ}
    (h : Run (fun k => values[k]? = some 0) 8 start stop) (hlength : values.length = 8) :
    (Form.compressed ((values.take start).map .ofUInt16)
      ((values.drop stop).map .ofUInt16)).groups = values := by
  have htwo := h.two_le
  have hle := h.le
  have hgap : 8 - min start 8 - (8 - stop) = stop - start := by omega
  rw [Form.groups, map_value_ofUInt16, map_value_ofUInt16, List.length_map, List.length_map,
    List.length_take, List.length_drop, hlength, hgap]
  rw [← hlength] at h
  exact h.groups_eq

/-! ## The round trip -/

/-- What is printed for an address: the groups, with a `::` for their leftmost longest run of zeros
if there is one. -/
inductive Prints (address : Ipv6Address) : List Char → Prop
  | full (h : ∀ i j, ¬ Run (fun k => address.groups[k]? = some 0) 8 i j) :
      Prints address (printGroups address.groups)
  | gap (start stop : ℕ) (h : Best (fun k => address.groups[k]? = some 0) 8 start stop) :
      Prints address (printGroups (address.groups.take start) ++ "::".toList ++
        printGroups (address.groups.drop stop))

theorem prints_str {address : Ipv6Address} (h : address ≠ .unspecified) :
    Prints address address.str := by
  have hgap := bestOrNone_findGap address.length_groups
  rw [Ipv6Address.str, if_neg (h ∘ address.isUnspecified_iff.1)]
  generalize findGap address.groups = gap at hgap
  obtain ⟨start, stop⟩ := gap
  dsimp only at hgap ⊢
  rcases hgap with ⟨rfl, rfl, hnone⟩ | hbest
  · rw [if_neg (by decide), if_neg (by decide)]
    exact .full hnone
  · have htwo := hbest.two_le
    rw [if_neg, if_pos (by omega)]
    · exact .gap start stop hbest
    · rintro ⟨rfl, rfl⟩
      have hgroups : address.groups = List.replicate 8 0 :=
        List.eq_replicate_iff.2 ⟨rfl, hbest.toRun.eq_zero⟩
      have haddress := address.ofGroups_groups
      rw [hgroups] at haddress
      exact h (haddress.symm.trans rfl)

theorem Prints.exists_form {address : Ipv6Address} {text : List Char} (h : Prints address text) :
    ∃ form : Form, form.Strict ∧ form.text = text ∧ form.value = address := by
  cases h with
  | full hnone =>
    refine ⟨.full (address.groups.map .ofUInt16), ⟨address.length_groups, plain_of_mem_map _⟩,
      (printGroups_eq _).symm, ?_⟩
    rw [Form.value, Form.groups, map_value_ofUInt16, address.ofGroups_groups]
  | gap start stop hbest =>
    have htwo := hbest.two_le
    have hle := hbest.le
    have hlength := address.length_groups
    refine ⟨.compressed ((address.groups.take start).map .ofUInt16)
      ((address.groups.drop stop).map .ofUInt16), ⟨?_, plain_of_mem_map _, plain_of_mem_map _⟩,
      ?_, ?_⟩
    · rw [List.length_map, List.length_map, List.length_take, List.length_drop]
      omega
    · rw [Form.text, printGroups_eq, printGroups_eq, List.append_assoc]
      rfl
    · rw [Form.value, hbest.toRun.groups_compressed hlength, address.ofGroups_groups]

theorem tryParse_str (address : Ipv6Address) :
    Ipv6Address.tryParse address.str = some address := by
  by_cases h : address = .unspecified
  · subst h
    rfl
  · obtain ⟨form, hstrict, htext, hvalue⟩ := (prints_str h).exists_form
    rw [← htext, ← hvalue]
    exact tryParse_text hstrict.fits

/-- Both parsers read what is printed, which has a `::` for the leftmost longest run of zero groups
and for no other unless the address is unspecified. -/
theorem str_roundTrip :
    (∀ address : Ipv6Address, Ipv6Address.tryParse address.str = some address ∧
      (address = .unspecified → address.str = unspec) ∧
      (address ≠ .unspecified → Prints address address.str)) ∧
    ∀ (address : Ipv4.Ipv4Address) (printUnspec : Bool), ∃ i0 i1 i2 i3,
      Ipv4.parseIPAddress (address.str printUnspec) = .ok (some [i0, i1, i2, i3]) ∧
      Ipv4.Ipv4Address.ofBytes i0 i1 i2 i3 = address := by
  constructor
  · intro address
    refine ⟨tryParse_str address, ?_, prints_str⟩
    rintro rfl
    rfl
  · intro address printUnspec
    have hdenotes := Ipv4.denotesBytes_str address printUnspec
    exact ⟨_, _, _, _, Ipv4.parseIPAddress_eq_some_iff.2 hdenotes, Ipv4.ofBytes_byteAt address⟩

/-- The unspecified address is printed without a `::`. -/
theorem not_prints_unspecified : ¬ ∀ address : Ipv6Address, Prints address address.str := by
  intro h
  have hprints := h .unspecified
  have htext : Ipv6Address.str .unspecified = unspec := rfl
  rw [htext] at hprints
  obtain ⟨form, hstrict, htext, -⟩ := hprints.exists_form
  have hne := form.text_append_ne hstrict.fits [] []
  rw [htext] at hne
  exact hne rfl

end Inet.Ipv6
