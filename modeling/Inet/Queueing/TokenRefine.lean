import Inet.Lib.Reservoir
import Inet.Queueing.TokenBucket

/-! # Token buckets as reservoirs

The rates of the buckets are determined by their numbers of tokens: a full
bucket passes its production rate on. The operations of a chain of buckets are
described on the reservoirs that the buckets stand for, and no assertion
fails. Production is where the two differ from a chain of reservoirs: what a
full bucket produces is poured into the next bucket and is produced there once
more.
-/

namespace Inet.Queueing

open Reservoir Error

/-- The production rate that a reservoir with the given inflow passes on. -/
def excess (inflow : ℚ) (r : Reservoir ℚ) (rs : List (Reservoir ℚ)) : ℚ :=
  if r.level = r.capacity ∧ rs ≠ [] then r.rate + inflow else 0

/-- The bucket that stands for the first reservoir of a chain. -/
def bucketOf (inflow last : ℚ) (r : Reservoir ℚ) (rs : List (Reservoir ℚ)) : TokenBucket where
  numTokens := r.level
  maxNumTokens := r.capacity
  tokenProductionRate := r.rate + inflow
  excessTokenProductionRate := excess inflow r rs
  lastUpdate := last

/-- The buckets that stand for a chain of reservoirs. -/
def bucketsOf (inflow last : ℚ) : List (Reservoir ℚ) → List TokenBucket
  | [] => []
  | r :: rs => bucketOf inflow last r rs :: bucketsOf (excess inflow r rs) last rs

variable {inflow last now spill amount : ℚ} {r : Reservoir ℚ} {rs : List (Reservoir ℚ)}

@[simp] theorem bucketsOf_eq_nil : bucketsOf inflow last rs = [] ↔ rs = [] := by
  cases rs <;> simp [bucketsOf]

@[simp] theorem length_bucketsOf (rs : List (Reservoir ℚ)) :
    (bucketsOf inflow last rs).length = rs.length := by
  induction rs generalizing inflow with
  | nil => rfl
  | cons r rs ih => simp [bucketsOf, ih]

@[simp] theorem map_numTokens_bucketsOf (rs : List (Reservoir ℚ)) :
    (bucketsOf inflow last rs).map (·.numTokens) = rs.map (·.level) := by
  induction rs generalizing inflow with
  | nil => rfl
  | cons r rs ih => simp [bucketsOf, bucketOf, ih]

theorem excess_nonneg (h : 0 ≤ inflow) : 0 ≤ excess inflow r rs := by
  have hr := r.rate_nonneg
  unfold excess
  split
  · linarith
  · exact le_rfl

theorem excess_of_lt (h : r.level < r.capacity) : excess inflow r rs = 0 :=
  if_neg fun hf => h.ne hf.1

theorem excess_of_full (h : r.level = r.capacity) (hne : rs ≠ []) :
    excess inflow r rs = r.rate + inflow :=
  if_pos ⟨h, hne⟩

namespace TokenBucket

theorem changeTokenProductionRate_bucketsOf {sign tokenRate : ℚ} (h : 0 ≤ tokenRate)
    (hin : 0 ≤ inflow + sign * tokenRate) (rs : List (Reservoir ℚ)) :
    changeTokenProductionRate sign tokenRate (bucketsOf inflow last rs) =
      .ok (bucketsOf (inflow + sign * tokenRate) last rs) := by
  induction rs generalizing inflow with
  | nil => rfl
  | cons r rs ih =>
    have hr := r.rate_nonneg
    rw [bucketsOf, changeTokenProductionRate, assert_of_pos h, ok_bind]
    rcases h.lt_or_eq with hpos | rfl
    · rw [if_pos hpos]
      by_cases hfull : r.level = r.capacity ∧ rs ≠ []
      · have hx := @excess_of_full inflow r rs hfull.1 hfull.2
        have hx' := @excess_of_full (inflow + sign * tokenRate) r rs hfull.1 hfull.2
        rw [if_pos (by simpa [bucketOf] using hfull), assert_of_pos (by simp [bucketOf, hx]),
          ok_bind, ih (by rw [hx]; linarith)]
        simp only [ok_bind, pure_eq_ok, bucketOf, bucketsOf, hx, hx', add_assoc]
        rw [assert_of_pos (by linarith), ok_bind]
      · have hx : ∀ inflow, excess inflow r rs = 0 := fun _ => if_neg hfull
        rw [if_neg (by simpa [bucketOf] using hfull)]
        simp only [ok_bind, pure_eq_ok, bucketOf, bucketsOf, hx, add_assoc]
        rw [assert_of_pos (by linarith), ok_bind]
    · rw [if_neg (lt_irrefl _)]
      simp [bucketsOf]

theorem addTokens_bucketsOf (ha : 0 ≤ amount) (hin : 0 ≤ inflow) (rs : List (Reservoir ℚ)) :
    addTokens amount (bucketsOf inflow last rs) = .ok (bucketsOf inflow last (pour amount rs)) := by
  induction rs generalizing amount inflow with
  | nil => rfl
  | cons r rs ih =>
    rw [bucketsOf, addTokens, assert_of_pos ha, ok_bind]
    rcases ha.lt_or_eq with hpos | rfl
    · rw [if_pos hpos]
      have h0 := r.level_nonneg
      by_cases hge : r.capacity ≤ r.level + amount
      · have hlevel := setLevel_level_of_ge hge
        have hover := overflow_of_ge hge
        rw [if_pos (by simpa [bucketOf] using ⟨r.capacity_pos, hge⟩)]
        by_cases hne : rs = []
        · subst hne
          simp [bucketsOf, bucketOf, pour, excess, hlevel]
        · rw [if_pos (by simpa using hne)]
          have hx : excess inflow (r.setLevel (r.level + amount)) (pour (r.overflow amount) rs) =
              r.rate + inflow := excess_of_full hlevel (by simpa using hne)
          have hle : 0 ≤ r.rate + inflow - excess inflow r rs := by
            have hr := r.rate_nonneg
            unfold excess
            split <;> linarith
          simp only [bucketOf, ← hover]
          rw [ih overflow_nonneg (excess_nonneg hin), ok_bind, addTokenProductionRate,
            changeTokenProductionRate_bucketsOf hle
              (by have := @excess_nonneg _ r rs hin; linarith), ok_bind]
          simp only [pure_eq_ok, pour, bucketsOf, bucketOf, hx, hlevel, setLevel_rate,
            setLevel_capacity, one_mul, add_sub_cancel]
      · have hlt := not_le.1 hge
        have hlevel := setLevel_level_of_le (by linarith) hlt.le
        have hx : excess inflow (r.setLevel (r.level + amount)) rs = 0 :=
          excess_of_lt (by rw [hlevel]; exact hlt)
        have hx' : excess inflow r rs = 0 := excess_of_lt (by linarith)
        rw [if_neg (by simp [bucketOf, hge])]
        simp only [pure_eq_ok, pour, overflow_of_le hlt.le, pour_zero, bucketsOf, bucketOf, hx, hx',
          hlevel, setLevel_rate, setLevel_capacity]
    · rw [if_neg (lt_irrefl _)]
      simp [bucketsOf]

theorem removeTokens_bucketsOf (ha : 0 ≤ amount) (hle : amount ≤ r.level) (hin : 0 ≤ inflow) :
    removeTokens amount (bucketsOf inflow last (r :: rs)) =
      .ok (bucketsOf inflow last (r.setLevel (r.level - amount) :: rs)) := by
  have hcap := r.level_le
  have hlevel : (r.setLevel (r.level - amount)).level = r.level - amount :=
    setLevel_level_of_le (by linarith) (by linarith)
  have hnot : ¬ r.level < amount := not_lt.2 hle
  rw [bucketsOf, removeTokens, assert_of_pos ha, ok_bind]
  rcases ha.lt_or_eq with hpos | rfl
  · have hx' : excess inflow (r.setLevel (r.level - amount)) rs = 0 :=
      excess_of_lt (by rw [hlevel, setLevel_capacity]; linarith)
    rw [if_pos hpos]
    by_cases hfull : r.level = r.capacity ∧ rs ≠ []
    · have hx := @excess_of_full inflow r rs hfull.1 hfull.2
      have hin' := @excess_nonneg _ r rs hin
      rw [if_pos (by simpa [bucketOf] using hfull), assert_of_pos (by simp [bucketOf, hx]), ok_bind,
        removeTokenProductionRate]
      simp only [bucketOf]
      rw [changeTokenProductionRate_bucketsOf hin' (by linarith)]
      simp only [ok_bind, pure_eq_ok, hnot, if_false, bucketsOf, bucketOf, hx', hlevel,
        setLevel_rate, setLevel_capacity, neg_one_mul, add_neg_cancel]
    · have hx : excess inflow r rs = 0 := if_neg hfull
      rw [if_neg (by simpa [bucketOf] using hfull)]
      simp only [ok_bind, pure_eq_ok, hnot, if_false, bucketsOf, bucketOf, hx, hx', hlevel,
        setLevel_rate, setLevel_capacity]
  · rw [if_neg (lt_irrefl _)]
    simp [bucketsOf]

theorem updateNumTokens_bucketsOf (hs : 0 ≤ spill) (hin : 0 ≤ inflow) (hlast : last ≤ now) :
    updateNumTokens now (bucketsOf inflow last (pour spill (r :: rs))) =
      .ok (bucketOf inflow now (r.setLevel (r.level + (spill + (r.rate + inflow) * (now - last))))
        rs ::
        bucketsOf (excess inflow
            (r.setLevel (r.level + (spill + (r.rate + inflow) * (now - last)))) rs) last
          (pour (r.overflow (spill + (r.rate + inflow) * (now - last))) rs)) := by
  have hr := r.rate_nonneg
  have hp : 0 ≤ (r.rate + inflow) * (now - last) := mul_nonneg (by linarith) (by linarith)
  have hadd := @addTokens_bucketsOf inflow last _ hp hin (pour spill (r :: rs))
  rw [pour_pour hs hp] at hadd
  have hex : ∀ {a b} {r : Reservoir ℚ}, excess a r (pour b rs) = excess a r rs := by
    intro a b r
    simp [excess]
  simp only [pour, bucketsOf, bucketOf, hex] at hadd ⊢
  rw [updateNumTokens]
  simp only [setLevel_rate] at hadd ⊢
  rw [hadd]
  simp only [ok_bind, pure_eq_ok]

end TokenBucket

/-- What the buckets produce in some time. The overflow of a bucket is poured into the next one,
which also produces at the rate that is passed on to it, for the whole time. -/
def produce (time inflow spill : ℚ) : List (Reservoir ℚ) → List (Reservoir ℚ)
  | [] => []
  | r :: rs =>
    let amount := spill + (r.rate + inflow) * time
    let r' := r.setLevel (r.level + amount)
    r' :: produce time (excess inflow r' rs) (r.overflow amount) rs

@[simp] theorem produce_zero (rs : List (Reservoir ℚ)) : produce 0 inflow 0 rs = rs := by
  induction rs generalizing inflow with
  | nil => rfl
  | cons r rs ih => simp [produce, ih]

theorem excess_produce {time : ℚ} (r : Reservoir ℚ) {a b : ℚ} :
    excess a r (produce time inflow b rs) = excess a r rs := by
  cases rs <;> simp [excess, produce]

theorem produce_of_calm {time : ℚ} (ht : 0 ≤ time) (hin : 0 ≤ inflow) (hs : 0 ≤ spill)
    (hc : Calm time rs) (h : inflow = 0 ∧ spill = 0 ∨ Full rs) :
    produce time inflow spill rs = grow time rs := by
  induction rs generalizing inflow spill with
  | nil => rfl
  | cons r rs ih =>
    obtain ⟨hr, hrs⟩ := hc
    have hrate := r.rate_nonneg
    have hx := @excess_nonneg inflow
      (r.setLevel (r.level + (spill + (r.rate + inflow) * time))) rs hin
    simp only [produce, grow_cons]
    rcases h with ⟨rfl, rfl⟩ | hfull
    · simp only [add_zero, zero_add] at hx ⊢
      rw [ih hx overflow_nonneg hrs]
      by_cases hlt : r.level + r.rate * time < r.capacity
      · left
        have h0 := r.level_nonneg
        have hprod := mul_nonneg hrate ht
        refine ⟨excess_of_lt ?_, overflow_of_le hlt.le⟩
        rwa [setLevel_level_of_le (by linarith) hlt.le]
      · rcases hr with hr | hr | hr
        · left
          simp [hr, excess]
        · exact absurd hr hlt
        · exact .inr hr
    · obtain ⟨hhead, htail⟩ := full_cons.1 hfull
      have hprod := mul_nonneg hrate ht
      have hprod' := mul_nonneg (add_nonneg hrate hin) ht
      rw [ih hx overflow_nonneg hrs (.inr htail), setLevel_of_full hhead (by linarith),
        setLevel_of_full hhead hprod]

namespace MultiTokenBucketMeter

open TokenBucket

theorem getNumTokensOfEach_pour (hs : 0 ≤ spill) (hin : 0 ≤ inflow) (hlast : last ≤ now)
    (rs : List (Reservoir ℚ)) :
    getNumTokensOfEach now rs.length (bucketsOf inflow last (pour spill rs)) =
      .ok (bucketsOf inflow now (produce (now - last) inflow spill rs),
        (produce (now - last) inflow spill rs).map (·.level)) := by
  induction rs generalizing inflow spill with
  | nil => rfl
  | cons r rs ih =>
    rw [List.length_cons, getNumTokensOfEach, updateNumTokens_bucketsOf hs hin hlast, ok_bind]
    simp only
    rw [ih overflow_nonneg (excess_nonneg hin)]
    simp only [ok_bind, pure_eq_ok, produce, bucketsOf, bucketOf, excess_produce, List.map_cons]

theorem getNumTokensOfEach_bucketsOf (hin : 0 ≤ inflow) (hlast : last ≤ now)
    (rs : List (Reservoir ℚ)) :
    getNumTokensOfEach now rs.length (bucketsOf inflow last rs) =
      .ok (bucketsOf inflow now (produce (now - last) inflow 0 rs),
        (produce (now - last) inflow 0 rs).map (·.level)) := by
  simpa using getNumTokensOfEach_pour le_rfl hin hlast rs

theorem getNumTokens_bucketsOf (hlast : last ≤ now) (rs : List (Reservoir ℚ)) :
    getNumTokens now (bucketsOf 0 last rs) =
      .ok (bucketsOf 0 now (produce (now - last) 0 0 rs),
        total (produce (now - last) 0 0 rs)) := by
  rw [getNumTokens, length_bucketsOf, getNumTokensOfEach_bucketsOf le_rfl hlast]
  rfl

theorem emitTokensChangedSignals_bucketsOf (hlast : last ≤ now) (rs : List (Reservoir ℚ)) :
    emitTokensChangedSignals now (bucketsOf 0 last rs) =
      .ok (bucketsOf 0 now (produce (now - last) 0 0 rs),
        total (produce (now - last) 0 0 rs),
        (produce (now - last) 0 0 rs).map (·.level)) := by
  have h := @getNumTokensOfEach_bucketsOf 0 now now le_rfl le_rfl
    (produce (now - last) 0 0 rs)
  simp only [sub_self, produce_zero] at h
  rw [emitTokensChangedSignals, getNumTokens_bucketsOf hlast, ok_bind]
  simp only [length_bucketsOf]
  rw [h]
  rfl

theorem removePacketTokens_bucketsOf (ha : 0 ≤ amount) (hin : 0 ≤ inflow)
    (rs : List (Reservoir ℚ)) :
    removePacketTokens now amount rs.length (bucketsOf inflow now rs) =
      .ok (bucketsOf inflow now ((take amount rs).elim rs (·.2)),
        (take amount rs).map (·.1)) := by
  induction rs generalizing inflow with
  | nil => rfl
  | cons r rs ih =>
    have hupdate := @updateNumTokens_bucketsOf inflow now now 0 r rs le_rfl hin le_rfl
    simp only [sub_self, mul_zero, add_zero, overflow_zero, pour_zero, setLevel_self] at hupdate
    rw [List.length_cons, removePacketTokens, hupdate, ok_bind]
    by_cases hle : amount ≤ r.level
    · have hrem := @removeTokens_bucketsOf inflow now amount r rs ha hle hin
      rw [bucketsOf] at hrem
      simp only [take, bucketOf, hle, if_true] at hrem ⊢
      rw [hrem]
      rfl
    · simp only [take, bucketOf, hle, if_false]
      rw [ih (excess_nonneg hin)]
      cases htake : take amount rs with
      | none => rfl
      | some p =>
        obtain ⟨hlen, -, -⟩ := take_spec ha htake
        have hne : p.2 = [] ↔ rs = [] := by
          rw [← List.length_eq_zero_iff, hlen, List.length_eq_zero_iff]
        simp [bucketsOf, bucketOf, excess, hne]

end MultiTokenBucketMeter

end Inet.Queueing
