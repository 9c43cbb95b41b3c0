import Inet.Queueing.TokenRefine

/-! # Conservation of tokens

In every run the buckets stay within their bounds and no assertion fails. The
number of tokens is bounded by what was configured, and reading it changes
nothing, in the runs in which no bucket reaches its maximum while the buckets
behind it have room.
-/

namespace Inet.Queueing

open Reservoir Error

/-- A list with further elements of some kind at any places. -/
inductive Inserted {α : Type} (extra : α → Prop) : List α → List α → Prop
  | nil : Inserted extra [] []
  | keep (a : α) {l l' : List α} : Inserted extra l l' → Inserted extra (a :: l) (a :: l')
  | insert (a : α) {l l' : List α} : extra a → Inserted extra l l' → Inserted extra l (a :: l')

/-- A call that reads the number of tokens. -/
def MeterCall.IsQuery : MeterCall → Prop
  | meterPacket _ _ => False
  | getNumTokens _ => True

/-- The calls are made at times from the given one on, in order. -/
def Ordered (last : ℚ) : List MeterCall → Prop
  | [] => True
  | c :: calls => last ≤ c.now ∧ Ordered c.now calls

/-- The time of the last call. -/
def endTime (last : ℚ) : List MeterCall → ℚ
  | [] => last
  | c :: calls => endTime c.now calls

/-- No bucket with a positive production rate reaches its maximum until now, unless the buckets
behind it are full already. -/
def TokenBucket.Calm (now : ℚ) : List TokenBucket → Prop
  | [] => True
  | bucket :: storage =>
    (now = bucket.lastUpdate ∨ bucket.tokenProductionRate = 0 ∨
      bucket.numTokens + bucket.tokenProductionRate * (now - bucket.lastUpdate) <
        bucket.maxNumTokens ∨
      ∀ b ∈ storage, b.numTokens = b.maxNumTokens) ∧ Calm now storage

variable {inflow last now : ℚ} {rs : List (Reservoir ℚ)}

theorem full_of_bucketsOf (h : ∀ b ∈ bucketsOf inflow last rs, b.numTokens = b.maxNumTokens) :
    Full rs := by
  induction rs generalizing inflow with
  | nil => exact full_nil
  | cons r rs ih =>
    obtain ⟨hr, hrs⟩ := List.forall_mem_cons.1 h
    exact full_cons.2 ⟨hr, ih hrs⟩

theorem calm_of_bucketsOf (hlast : last < now) (hin : 0 ≤ inflow)
    (h : TokenBucket.Calm now (bucketsOf inflow last rs)) : Reservoir.Calm (now - last) rs := by
  induction rs generalizing inflow with
  | nil => trivial
  | cons r rs ih =>
    obtain ⟨hr, hrs⟩ := h
    have hrate := r.rate_nonneg
    refine ⟨?_, ih (excess_nonneg hin) hrs⟩
    simp only [bucketOf] at hr
    rcases hr with hr | hr | hr | hr
    · exact absurd hr hlast.ne'
    · left
      linarith
    · right
      left
      have := mul_nonneg hin (sub_nonneg.2 hlast.le)
      linarith
    · exact .inr (.inr (full_of_bucketsOf hr))

theorem produce_grow (hcalm : TokenBucket.Calm now (bucketsOf 0 last rs)) {a b : ℚ} (ha : 0 ≤ a)
    (hb : 0 ≤ b) (hab : a + b ≤ now - last) : produce b 0 0 (grow a rs) = grow (a + b) rs := by
  rcases (show last ≤ now by linarith).lt_or_eq with hlt | rfl
  · have hc := (calm_of_bucketsOf hlt le_rfl hcalm).mono hab
    rw [produce_of_calm hb le_rfl le_rfl (hc.grow ha hb) (.inl ⟨rfl, rfl⟩), grow_grow ha hb]
  · obtain rfl : a = 0 := by linarith
    obtain rfl : b = 0 := by linarith
    simp

namespace MultiTokenBucketMeter

open TokenBucket

/-- The reservoirs that the constructed buckets stand for. -/
def initialReservoirs : List BucketConfiguration → List (Reservoir ℚ)
  | [] => []
  | configuration :: configurations =>
    pour configuration.initialNumTokens
      ({ capacity := configuration.maxNumTokens
         rate := configuration.tokenProductionRate
         level := 0
         capacity_pos := configuration.maxNumTokens_pos
         rate_nonneg := configuration.tokenProductionRate_nonneg
         level_nonneg := le_rfl
         level_le := configuration.maxNumTokens_pos.le } :: initialReservoirs configurations)

theorem constructBuckets_eq (configurations : List BucketConfiguration) :
    constructBuckets configurations = .ok (bucketsOf 0 0 (initialReservoirs configurations)) := by
  induction configurations with
  | nil => rfl
  | cons configuration configurations ih =>
    rw [constructBuckets, ih, ok_bind, initialReservoirs,
      ← addTokens_bucketsOf configuration.initialNumTokens_nonneg le_rfl]
    have hempty : (0 : ℚ) < configuration.maxNumTokens := configuration.maxNumTokens_pos
    simp only [bucketsOf, bucketOf, add_zero, excess, hempty.ne, false_and, if_false]

theorem totalRate_initialReservoirs (configurations : List BucketConfiguration) :
    totalRate (initialReservoirs configurations) =
      (configurations.map (·.tokenProductionRate)).sum := by
  induction configurations with
  | nil => rfl
  | cons configuration configurations ih =>
    rw [initialReservoirs, totalRate_pour, totalRate_cons, ih]
    rfl

variable (meter : MultiTokenBucketMeter)

/-- The calls of a run all find the buckets calm. -/
def CalmRun : List TokenBucket → List MeterCall → Prop
  | _, [] => True
  | buckets, c :: calls =>
    TokenBucket.Calm c.now buckets ∧
      ∀ buckets' report, meter.call buckets c = .ok (buckets', report) → CalmRun buckets' calls

/-- What a call does after the buckets are updated. -/
def serve (rs : List (Reservoir ℚ)) : MeterCall → List (Reservoir ℚ) × MeterReport
  | .meterPacket _ dataLength =>
    match take (meter.getNumPacketTokens dataLength) rs with
    | some (index, rs') =>
      (rs', ⟨(meter.buckets.map (·.label))[index]?, meter.getNumPacketTokens dataLength,
        rs'.map (·.level)⟩)
    | none => (rs, ⟨meter.defaultLabel, 0, rs.map (·.level)⟩)
  | .getNumTokens _ => (rs, ⟨none, 0, rs.map (·.level)⟩)

variable {meter} {c : MeterCall} {calls calls' : List MeterCall}

theorem getNumPacketTokens_nonneg (dataLength : ℕ) : 0 ≤ meter.getNumPacketTokens dataLength :=
  add_nonneg (mul_nonneg (Nat.cast_nonneg _) meter.tokenConsumptionPerBit_nonneg)
    meter.tokenConsumptionPerPacket_nonneg

theorem call_bucketsOf (hlast : last ≤ c.now) :
    meter.call (bucketsOf 0 last rs) c =
      .ok (bucketsOf 0 c.now (meter.serve (produce (c.now - last) 0 0 rs) c).1,
        (meter.serve (produce (c.now - last) 0 0 rs) c).2) := by
  cases c with
  | meterPacket now dataLength =>
    simp only [MeterCall.now] at hlast ⊢
    rw [call, meterPacket, emitTokensChangedSignals_bucketsOf hlast]
    simp only [ok_bind, length_bucketsOf]
    rw [removePacketTokens_bucketsOf (getNumPacketTokens_nonneg dataLength) le_rfl]
    simp only [ok_bind, serve]
    rcases take (meter.getNumPacketTokens dataLength) (produce (now - last) 0 0 rs) with
      _ | ⟨index, rs'⟩
    · simp only [Option.map_none, Option.elim_none, ok_bind, pure_eq_ok, map_numTokens_bucketsOf]
    · simp only [Option.map_some, Option.elim_some]
      rw [emitTokensChangedSignals_bucketsOf le_rfl]
      simp only [ok_bind, pure_eq_ok, map_numTokens_bucketsOf, sub_self, produce_zero]
  | getNumTokens now =>
    simp only [MeterCall.now] at hlast ⊢
    rw [call, getNumTokens_bucketsOf hlast]
    simp only [ok_bind, pure_eq_ok, serve, map_numTokens_bucketsOf]

theorem serve_spec (rs : List (Reservoir ℚ)) (c : MeterCall) :
    total (meter.serve rs c).1 = total rs - (meter.serve rs c).2.removed ∧
      totalRate (meter.serve rs c).1 = totalRate rs := by
  cases c with
  | meterPacket now dataLength =>
    simp only [serve]
    split
    next index rs' htake =>
      obtain ⟨-, htotal, hrate⟩ := take_spec (getNumPacketTokens_nonneg dataLength) htake
      exact ⟨htotal, hrate⟩
    next => simp
  | getNumTokens now => simp [serve]

theorem run_cons {buckets buckets' buckets'' : List TokenBucket} {report : MeterReport}
    {reports : List (MeterCall × MeterReport)}
    (hcall : meter.call buckets c = .ok (buckets', report))
    (hrun : meter.run buckets' calls = .ok (buckets'', reports)) :
    meter.run buckets (c :: calls) = .ok (buckets'', (c, report) :: reports) := by
  rw [run, hcall, ok_bind]
  simp only
  rw [hrun]
  rfl

theorem run_bucketsOf (h : Ordered last calls) :
    ∃ rs' reports, meter.run (bucketsOf 0 last rs) calls =
        .ok (bucketsOf 0 (endTime last calls) rs', reports) ∧
      reports.map (·.1) = calls := by
  induction calls generalizing last rs with
  | nil => exact ⟨rs, [], rfl, rfl⟩
  | cons c calls ih =>
    obtain ⟨hlast, hrest⟩ := h
    obtain ⟨rs', reports, hrun, hmap⟩ :=
      @ih c.now (meter.serve (produce (c.now - last) 0 0 rs) c).1 hrest
    exact ⟨rs', _, run_cons (call_bucketsOf hlast) hrun, by simp [hmap]⟩

theorem total_produce_le (hlast : last ≤ now) (hcalm : TokenBucket.Calm now (bucketsOf 0 last rs)) :
    produce (now - last) 0 0 rs = grow (now - last) rs ∧
      total (produce (now - last) 0 0 rs) ≤ total rs + totalRate rs * (now - last) := by
  have h := produce_grow hcalm le_rfl (sub_nonneg.2 hlast) (by linarith)
  rw [grow_zero, zero_add] at h
  rw [h]
  exact ⟨rfl, total_grow_le (sub_nonneg.2 hlast) rs⟩

theorem total_run_le (h : Ordered last calls)
    (hcalm : meter.CalmRun (bucketsOf 0 last rs) calls) {buckets : List TokenBucket}
    {reports : List (MeterCall × MeterReport)}
    (hrun : meter.run (bucketsOf 0 last rs) calls = .ok (buckets, reports)) :
    (buckets.map (·.numTokens)).sum ≤ total rs + totalRate rs * (endTime last calls - last) -
      (reports.map (·.2.removed)).sum := by
  induction calls generalizing last rs reports with
  | nil =>
    obtain ⟨rfl, rfl⟩ : bucketsOf 0 last rs = buckets ∧ [] = reports := by simpa [run] using hrun
    simp [endTime, total]
  | cons c calls ih =>
    obtain ⟨hlast, hrest⟩ := h
    obtain ⟨hc, hcs⟩ := hcalm
    have hcall := @call_bucketsOf last rs meter c hlast
    rw [run, hcall, ok_bind] at hrun
    obtain ⟨⟨buckets', reports'⟩, hrun', heq⟩ := exists_of_bind_eq_ok hrun
    obtain ⟨rfl, rfl⟩ : buckets' = buckets ∧ (c, _) :: reports' = reports := by
      simpa using heq
    have hih := ih hrest (hcs _ _ hcall) hrun'
    obtain ⟨hserved, hrate⟩ := @serve_spec meter (produce (c.now - last) 0 0 rs) c
    obtain ⟨hgrow, hproduce⟩ := total_produce_le hlast hc
    have hrate' : totalRate (meter.serve (produce (c.now - last) 0 0 rs) c).1 = totalRate rs := by
      rw [hrate, hgrow, totalRate_grow]
    rw [hserved, hrate'] at hih
    rw [List.map_cons, List.sum_cons, endTime]
    linarith

theorem Ordered.le_of_inserted {c : MeterCall} (h : Ordered last calls')
    (hi : Inserted MeterCall.IsQuery (c :: calls) calls') : last ≤ c.now := by
  induction calls' generalizing last with
  | nil => cases hi
  | cons c' calls' ih =>
    obtain ⟨hlast, hrest⟩ := h
    cases hi with
    | keep => exact hlast
    | insert _ _ hi => exact hlast.trans (ih hrest hi)

theorem run_inserted {last' : ℚ} {rs' : List (Reservoir ℚ)}
    (hi : Inserted MeterCall.IsQuery calls calls') (hlast : last ≤ last')
    (hrs : calls ≠ [] → rs' = grow (last' - last) rs)
    (h : Ordered last calls) (h' : Ordered last' calls')
    (hcalm : meter.CalmRun (bucketsOf 0 last rs) calls) :
    ∃ buckets buckets' reports reports',
      meter.run (bucketsOf 0 last rs) calls = .ok (buckets, reports) ∧
      meter.run (bucketsOf 0 last' rs') calls' = .ok (buckets', reports') ∧
      Inserted (fun p => MeterCall.IsQuery p.1) reports reports' := by
  induction hi generalizing last last' rs rs' with
  | nil => exact ⟨_, _, [], [], rfl, rfl, .nil⟩
  | @keep c calls calls' hi ih =>
    obtain ⟨hc, hrest⟩ := h
    obtain ⟨hc', hrest'⟩ := h'
    obtain ⟨hcalm, hcalms⟩ := hcalm
    have hcall := @call_bucketsOf last rs meter c hc
    have hcall' := @call_bucketsOf last' rs' meter c hc'
    have hsame : produce (c.now - last') 0 0 rs' = produce (c.now - last) 0 0 rs := by
      rw [hrs (by simp), produce_grow hcalm (by linarith) (by linarith) (by linarith),
        (total_produce_le hc hcalm).1]
      congr 1
      ring
    rw [hsame] at hcall'
    obtain ⟨buckets, buckets', reports, reports', hrun, hrun', hins⟩ :=
      ih le_rfl (fun _ => by rw [sub_self, grow_zero]) hrest hrest' (hcalms _ _ hcall)
    exact ⟨buckets, buckets', _, _, run_cons hcall hrun, run_cons hcall' hrun', hins.keep _⟩
  | @insert q calls calls' hq hi ih =>
    obtain ⟨hc', hrest'⟩ := h'
    have hcall' := @call_bucketsOf last' rs' meter q hc'
    have hserve : (meter.serve (produce (q.now - last') 0 0 rs') q).1 =
        produce (q.now - last') 0 0 rs' := by
      cases q with
      | meterPacket => cases hq
      | getNumTokens => rfl
    rw [hserve] at hcall'
    have hrs' : calls ≠ [] → produce (q.now - last') 0 0 rs' = grow (q.now - last) rs := by
      intro hne
      cases calls with
      | nil => exact absurd rfl hne
      | cons c calls =>
        have hle := Ordered.le_of_inserted hrest' hi
        rw [hrs hne, produce_grow hcalm.1 (by linarith) (by linarith) (by linarith)]
        congr 1
        ring
    obtain ⟨buckets, buckets', reports, reports', hrun, hrun', hins⟩ :=
      ih (hlast.trans hc') hrs' h hrest' hcalm
    exact ⟨buckets, buckets', reports, _, hrun, run_cons hcall' hrun', hins.insert _ hq⟩

theorem bounds_bucketsOf (rs : List (Reservoir ℚ)) :
    ∀ b ∈ bucketsOf inflow last rs, 0 ≤ b.numTokens ∧ b.numTokens ≤ b.maxNumTokens := by
  induction rs generalizing inflow with
  | nil => simp [bucketsOf]
  | cons r rs ih => exact List.forall_mem_cons.2 ⟨⟨r.level_nonneg, r.level_le⟩, ih⟩

/-- In every run no assertion fails and every bucket stays within its bounds. If the run is calm,
the tokens are at most the initial ones and those produced at the configured rates less the removed
ones, and further reads change no report. -/
theorem tokens_conserved (meter : MultiTokenBucketMeter) :
    ∃ buckets₀, constructBuckets meter.buckets = .ok buckets₀ ∧
      ∀ calls, Ordered 0 calls →
        ∃ buckets reports, meter.run buckets₀ calls = .ok (buckets, reports) ∧
          (∀ b ∈ buckets, 0 ≤ b.numTokens ∧ b.numTokens ≤ b.maxNumTokens) ∧
          (meter.CalmRun buckets₀ calls →
            (buckets.map (·.numTokens)).sum ≤ (buckets₀.map (·.numTokens)).sum +
                (meter.buckets.map (·.tokenProductionRate)).sum * endTime 0 calls -
                (reports.map (·.2.removed)).sum ∧
            ∀ calls', Inserted MeterCall.IsQuery calls calls' → Ordered 0 calls' →
              ∃ buckets' reports', meter.run buckets₀ calls' = .ok (buckets', reports') ∧
                reports'.map (·.1) = calls' ∧
                Inserted (fun p => MeterCall.IsQuery p.1) reports reports') := by
  refine ⟨_, constructBuckets_eq meter.buckets, ?_⟩
  intro calls hcalls
  obtain ⟨rs', reports, hrun, -⟩ :=
    @run_bucketsOf 0 (initialReservoirs meter.buckets) meter calls hcalls
  refine ⟨_, reports, hrun, bounds_bucketsOf rs', fun hcalm => ⟨?_, ?_⟩⟩
  · have h := total_run_le hcalls hcalm hrun
    rw [totalRate_initialReservoirs, sub_zero] at h
    rwa [map_numTokens_bucketsOf (initialReservoirs meter.buckets)]
  · intro calls' hi hcalls'
    obtain ⟨_, buckets', reports₁, reports', hrun₁, hrun', hins⟩ :=
      @run_inserted 0 (initialReservoirs meter.buckets) meter calls calls' 0
        (initialReservoirs meter.buckets) hi le_rfl (fun _ => by simp) hcalls hcalls' hcalm
    obtain ⟨_, reports₂, hrun₂, hmap⟩ :=
      @run_bucketsOf 0 (initialReservoirs meter.buckets) meter calls' hcalls'
    obtain ⟨-, rfl⟩ : _ ∧ reports = reports₁ := by simpa using hrun.symm.trans hrun₁
    obtain ⟨-, rfl⟩ : _ ∧ reports₂ = reports' := by simpa using hrun₂.symm.trans hrun'
    exact ⟨buckets', reports₂, hrun', hmap, hins⟩

/-- A bucket of ten tokens that is filled at one token per second, and one of a hundred that only
gets the overflow of the first. -/
def meter_10_100 : MultiTokenBucketMeter where
  buckets := [⟨0, 10, 1, "green", by norm_num, by norm_num, by norm_num⟩,
    ⟨0, 100, 0, "yellow", by norm_num, by norm_num, by norm_num⟩]
  tokenConsumptionPerPacket := 0
  tokenConsumptionPerBit := 1
  defaultLabel := some "red"
  tokenConsumptionPerPacket_nonneg := by norm_num
  tokenConsumptionPerBit_nonneg := by norm_num

def buckets_10_100 : List TokenBucket := [⟨0, 10, 1, 0, 0⟩, ⟨0, 100, 0, 0, 0⟩]

/-- Before the first bucket is full, a packet of four bits takes four of the six tokens produced. -/
theorem tokens_conserved_six :
    meter_10_100.run buckets_10_100 [.meterPacket 6 4] =
      .ok ([⟨2, 10, 1, 0, 6⟩, ⟨0, 100, 0, 0, 6⟩],
        [(.meterPacket 6 4, ⟨some "green", 4, [2, 0]⟩)]) ∧
    ∃ buckets' reports',
      meter_10_100.run buckets_10_100 [.getNumTokens 3, .meterPacket 6 4] =
        .ok (buckets', reports') ∧
      Inserted (fun p => MeterCall.IsQuery p.1)
        [(.meterPacket 6 4, ⟨some "green", 4, [2, 0]⟩)] reports' := by
  have hrun : meter_10_100.run buckets_10_100 [.meterPacket 6 4] =
      .ok ([⟨2, 10, 1, 0, 6⟩, ⟨0, 100, 0, 0, 6⟩],
        [(.meterPacket 6 4, ⟨some "green", 4, [2, 0]⟩)]) := by
    decide +kernel
  have hconstruct : constructBuckets meter_10_100.buckets = .ok buckets_10_100 := by
    decide +kernel
  obtain ⟨buckets₀, h₀, h⟩ := tokens_conserved meter_10_100
  obtain rfl : buckets_10_100 = buckets₀ := by simpa [hconstruct] using h₀
  obtain ⟨buckets, reports, hrun', -, hcalm⟩ :=
    h [.meterPacket 6 4] (by norm_num [Ordered, MeterCall.now])
  obtain ⟨-, rfl⟩ : _ ∧ _ = reports := by simpa [hrun] using hrun'
  obtain ⟨-, hinserted⟩ := hcalm (by
    norm_num [CalmRun, TokenBucket.Calm, buckets_10_100, MeterCall.now])
  obtain ⟨buckets', reports', hrun', -, hins⟩ := hinserted [.getNumTokens 3, .meterPacket 6 4]
    (.insert _ trivial (.keep _ .nil)) (by norm_num [Ordered, MeterCall.now])
  exact ⟨hrun, buckets', reports', hrun', hins⟩

/-- After twenty seconds the first bucket has produced twenty tokens, and thirty are counted. -/
theorem tokens_not_conserved :
    ¬ ∀ (meter : MultiTokenBucketMeter) (calls : List MeterCall)
      (buckets₀ buckets : List TokenBucket) (reports : List (MeterCall × MeterReport)),
      constructBuckets meter.buckets = .ok buckets₀ → Ordered 0 calls →
      meter.run buckets₀ calls = .ok (buckets, reports) →
      (buckets.map (·.numTokens)).sum ≤ (buckets₀.map (·.numTokens)).sum +
        (meter.buckets.map (·.tokenProductionRate)).sum * endTime 0 calls -
        (reports.map (·.2.removed)).sum := by
  intro h
  have hclaim := h meter_10_100 [.getNumTokens 20] buckets_10_100
    [⟨10, 10, 1, 1, 20⟩, ⟨30, 100, 1, 0, 20⟩] [(.getNumTokens 20, ⟨none, 0, [10, 30]⟩)]
    (by decide +kernel) (by norm_num [Ordered, MeterCall.now]) (by decide +kernel)
  revert hclaim
  decide +kernel

end MultiTokenBucketMeter

end Inet.Queueing
